import AsyncMessenger.Strtoll

/-!
# Parsing network addresses

`entity_addr_t::parse` copies what an address can consist of into two scratch buffers, one for each
family, gives them to `inet_pton`, and goes on behind the text that was accepted: the closing
bracket, the port, the nonce. What each function looks at and writes is recorded next to what it
computes. A place in the text is what is left of the text there, the terminating NUL included.

## Reads and writes

A read behind the NUL, and a write behind a buffer, are what the results are about. They are part of
what each function returns, so they cannot be missed: the loops say how far they have looked, and
the two writes of a terminating zero say where. Reading is always inside of the text, because every
loop stops at the NUL at the latest. Writing goes wrong by one byte, where the characters that are
accepted fill the buffer.
-/

namespace AsyncMessenger.MsgTypes

/-- `sockaddr_storage` with its two views. The port is in host order, and flow label and scope are
zero. -/
inductive SockAddr
  | unspec
  | inet (port : UInt16) (addr : Vector UInt8 4)
  | inet6 (port : UInt16) (addr : Vector UInt16 8)
  deriving DecidableEq, Repr

/-- `entity_addr_t`. -/
structure EntityAddr where
  type : UInt32 := 0
  nonce : UInt32 := 0
  addr : SockAddr := .unspec
  deriving DecidableEq, Repr

namespace EntityAddr

/-- `set_port`; without a family it stops at an assertion. -/
def setPort (a : EntityAddr) (port : ℤ) : EntityAddr :=
  match a.addr with
  | .unspec => a
  | .inet _ ip => { a with addr := .inet (.ofNat (port % 2 ^ 16).toNat) ip }
  | .inet6 _ ip => { a with addr := .inet6 (.ofNat (port % 2 ^ 16).toNat) ip }

/-- `set_nonce`. -/
def setNonce (a : EntityAddr) (non : ℤ) : EntityAddr :=
  { a with nonce := .ofNat (non % 2 ^ 32).toNat }

/-- What goes into `buf4`. -/
def v4Char (c : Char) : Bool := c = '.' || ('0' ≤ c && c ≤ '9')

/-- What goes into `buf6`. -/
def v6Char (c : Char) : Bool :=
  c = ':' || ('0' ≤ c && c ≤ '9') || ('a' ≤ c && c ≤ 'f') || ('A' ≤ c && c ≤ 'F')

/-- A filled buffer: the text up to its terminator, the indices that have been written, and the
places of the input that have been read. -/
structure Copied where
  text : List Char := []
  writes : List ℕ
  reads : List (List Char) := []
  deriving DecidableEq, Repr

/-- A copying loop from the index `o` on, and the terminator. -/
def copy (accepts : Char → Bool) (size : ℕ) : ℕ → List Char → Copied
  | o, [] => { writes := [o], reads := if o < size then [[]] else [] }
  | o, c :: p =>
    if o < size then
      if c ≠ '\x00' ∧ accepts c then
        let rest := copy accepts size (o + 1) p
        { text := c :: rest.text, writes := o :: rest.writes, reads := (c :: p) :: rest.reads }
      else { writes := [o], reads := [c :: p] }
    else { writes := [o] }

/-- The places that are read by a loop that runs on over the accepted characters. -/
def scanned (accepts : Char → Bool) : List Char → List (List Char)
  | [] => [[]]
  | c :: p => (c :: p) :: if accepts c then scanned accepts p else []

/-- The places that `atoi` reads. -/
def atoiReads (p : List Char) : List (List Char) :=
  scanned isspace p ++ scanned Char.isDigit (takeSign (p.dropWhile isspace)).2

/-- What `parse` does: the address as it leaves it, `*end` if it succeeds, the indices that it
writes in `buf4` and in `buf6`, and the places of the input that it reads. -/
structure Parsed where
  addr : EntityAddr
  stop : Option (List Char)
  writes4 : List ℕ := []
  writes6 : List ℕ := []
  reads : List (List Char)
  deriving DecidableEq, Repr

/-- `parse` from the nonce on. -/
def parseNonce (a : EntityAddr) (p : List Char) : Parsed :=
  if p.head? = some '/' then
    { addr := a.setNonce (atoi p.tail)
      stop := some (p.tail.dropWhile Char.isDigit)
      reads := p :: (atoiReads p.tail ++ scanned Char.isDigit p.tail) }
  else { addr := a, stop := some p, reads := [p] }

/-- `parse` from the port on. -/
def parsePort (a : EntityAddr) (p : List Char) : Parsed :=
  if p.head? = some ':' then
    let rest := parseNonce (a.setPort (atoi p.tail)) (p.tail.dropWhile Char.isDigit)
    { rest with reads := p :: (atoiReads p.tail ++ scanned Char.isDigit p.tail ++ rest.reads) }
  else
    let rest := parseNonce a p
    { rest with reads := p :: rest.reads }

/-- `parse` from the closing bracket on. -/
def parseBracket (brackets : Bool) (a : EntityAddr) (p : List Char) : Parsed :=
  if brackets then
    if p.head? = some ']' then
      let rest := parsePort a p.tail
      { rest with reads := p :: rest.reads }
    else { addr := a, stop := none, reads := [p] }
  else parsePort a p

/-- `parse` behind the opening bracket. -/
def parseStart (pton4 : List Char → Option (Vector UInt8 4))
    (pton6 : List Char → Option (Vector UInt16 8)) (brackets : Bool) (start : List Char) : Parsed :=
  let buf4 := copy v4Char 39 0 start
  let buf6 := copy v6Char 64 0 start
  let rest :=
    match pton4 buf4.text with
    | some ip => parseBracket brackets { addr := .inet 0 ip } (start.drop buf4.text.length)
    | none =>
      match pton6 buf6.text with
      | some ip => parseBracket brackets { addr := .inet6 0 ip } (start.drop buf6.text.length)
      | none => { addr := {}, stop := none, reads := [] }
  { rest with
    writes4 := buf4.writes
    writes6 := buf6.writes
    reads := buf4.reads ++ buf6.reads ++ rest.reads }

/-- `parse(s, &end)`, with `inet_pton` for the two families. -/
def parse (pton4 : List Char → Option (Vector UInt8 4)) (pton6 : List Char → Option (Vector UInt16 8))
    (s : List Char) : Parsed :=
  let start := s ++ ['\x00']
  let rest :=
    if start.head? = some '[' then parseStart pton4 pton6 true start.tail
    else parseStart pton4 pton6 false start
  { rest with reads := start :: rest.reads }

/-! ## The scratch buffers

The loop copies while there is room. What it copies and where it stops is a prefix of the text. -/

/-- The text behind the opening bracket. -/
def unbracket : List Char → List Char
  | '[' :: s => s
  | s => s

variable {pton4 : List Char → Option (Vector UInt8 4)} {pton6 : List Char → Option (Vector UInt16 8)}
variable {accepts : Char → Bool} {size o : ℕ} {s p q : List Char} {c : Char}

theorem not_v4Char_nul : v4Char '\x00' = false := by decide

theorem not_v6Char_nul : v6Char '\x00' = false := by decide

theorem ne_nul_and_iff (hnul : accepts '\x00' = false) : c ≠ '\x00' ∧ accepts c = true ↔ accepts c := by
  apply and_iff_right_of_imp
  rintro h rfl
  exact Bool.false_ne_true (hnul.symm.trans h)

/-- **The copying loop** copies what is accepted as far as there is room. -/
theorem copy_text (hnul : accepts '\x00' = false) :
    (copy accepts size o p).text = (p.takeWhile accepts).take (size - o) := by
  induction p generalizing o with
  | nil => exact List.take_nil.symm
  | cons c p ih =>
    rw [copy]
    by_cases ho : o < size
    · rw [if_pos ho]
      obtain ⟨k, hk⟩ : ∃ k, size - o = k + 1 := ⟨size - (o + 1), by omega⟩
      by_cases hc : accepts c = true
      · rw [if_pos ((ne_nul_and_iff hnul).mpr hc), List.takeWhile_cons_of_pos hc, hk, List.take_succ_cons]
        dsimp only
        rw [ih, show size - (o + 1) = k by omega]
      · rw [if_neg fun h ↦ hc h.2, List.takeWhile_cons_of_neg hc, List.take_nil]
    · rw [if_neg ho, Nat.sub_eq_zero_of_le (Nat.not_lt.mp ho)]
      rfl

/-- Each character of the copied text has been written, and the terminator behind them. -/
theorem copy_writes :
    (copy accepts size o p).writes = List.range' o ((copy accepts size o p).text.length + 1) := by
  induction p generalizing o with
  | nil => rfl
  | cons c p ih =>
    rw [copy]
    by_cases ho : o < size
    · rw [if_pos ho]
      by_cases hc : c ≠ '\x00' ∧ accepts c = true
      · rw [if_pos hc]
        dsimp only
        rw [ih, List.length_cons, ← List.range'_succ]
      · rw [if_neg hc]
        rfl
    · rw [if_neg ho]
      rfl

/-- The writes stay inside the buffer exactly if there is room for the terminator. -/
theorem copy_inside_iff (hnul : accepts '\x00' = false) :
    (∀ i ∈ (copy accepts size 0 p).writes, i < size) ↔ (p.takeWhile accepts).length < size := by
  have hlen : (copy accepts size 0 p).text.length = min size (p.takeWhile accepts).length := by
    rw [copy_text hnul, Nat.sub_zero, List.length_take]
  rw [copy_writes, hlen]
  constructor
  · intro h
    have hlast := h (min size (p.takeWhile accepts).length)
      (List.mem_range'_1.mpr ⟨Nat.zero_le _, by omega⟩)
    omega
  · intro h i hi
    have hi' := (List.mem_range'_1.mp hi).2
    omega

theorem takeWhile_unterminated (hnul : accepts '\x00' = false) :
    (s ++ ['\x00']).takeWhile accepts = s.takeWhile accepts := by
  have hstop : ¬accepts '\x00' = true := by simp [hnul]
  induction s with
  | nil => exact List.takeWhile_cons_of_neg hstop
  | cons c s ih =>
    by_cases hc : accepts c = true
    · rw [List.cons_append, List.takeWhile_cons_of_pos hc, List.takeWhile_cons_of_pos hc, ih]
    · rw [List.cons_append, List.takeWhile_cons_of_neg hc, List.takeWhile_cons_of_neg hc]

/-! ## The places that are read

A place that is read is a suffix of the text, and so is what is left of it. The chain of these goes
through all the stages of the function. -/

/-- A place in the text, at or before the NUL. -/
def Inside (s p : List Char) : Prop := ∃ i ≤ s.length, p = (s ++ ['\x00']).drop i

theorem inside_self : Inside s (s ++ ['\x00']) := ⟨0, Nat.zero_le _, rfl⟩

theorem Inside.ne_nil (h : Inside s p) : p ≠ [] := by
  obtain ⟨i, hi, rfl⟩ := h
  rw [ne_eq, List.drop_eq_nil_iff, List.length_append, List.length_singleton]
  omega

/-- Behind a character that is not the NUL the text goes on. -/
theorem Inside.tail (h : Inside s (c :: p)) (hc : c ≠ '\x00') : Inside s p := by
  obtain ⟨i, hi, hdrop⟩ := h
  have htail : p = (s ++ ['\x00']).drop (i + 1) := by
    rw [← List.tail_drop, ← hdrop, List.tail_cons]
  refine ⟨i + 1, Nat.lt_of_le_of_ne hi fun hlast ↦ hc ?_, htail⟩
  rw [hlast, List.drop_left] at hdrop
  exact (List.cons.inj hdrop).1

theorem Inside.tail_of_head (h : Inside s p) (hhead : p.head? = some c) (hc : c ≠ '\x00') :
    Inside s p.tail := by
  cases p with
  | nil => exact absurd rfl h.ne_nil
  | cons d p =>
    obtain rfl := Option.some.inj hhead
    exact h.tail hc

theorem ne_nul_of_accepts (hnul : accepts '\x00' = false) (h : accepts c = true) : c ≠ '\x00' :=
  ((ne_nul_and_iff hnul).mpr h).1

theorem Inside.dropWhile (h : Inside s p) (hnul : accepts '\x00' = false) :
    Inside s (p.dropWhile accepts) := by
  induction p with
  | nil => exact h
  | cons c p ih =>
    by_cases hc : accepts c = true
    · rw [List.dropWhile_cons_of_pos hc]
      exact ih (h.tail (ne_nul_of_accepts hnul hc))
    · rw [List.dropWhile_cons_of_neg hc]
      exact h

theorem Inside.takeSign (h : Inside s p) : Inside s (takeSign p).2 := by
  unfold AsyncMessenger.takeSign
  split
  · exact h.tail (by decide)
  · exact h.tail (by decide)
  · exact h

theorem Inside.scanned (h : Inside s p) (hnul : accepts '\x00' = false) :
    ∀ q ∈ scanned accepts p, Inside s q := by
  induction p with
  | nil => exact absurd rfl h.ne_nil
  | cons c p ih =>
    intro q hq
    rw [EntityAddr.scanned] at hq
    obtain rfl | hrest := List.mem_cons.mp hq
    · exact h
    · by_cases hc : accepts c = true
      · rw [if_pos hc] at hrest
        exact ih (h.tail (ne_nul_of_accepts hnul hc)) q hrest
      · rw [if_neg hc] at hrest
        exact absurd hrest List.not_mem_nil

theorem Inside.copied (h : Inside s p) : ∀ q ∈ (copy accepts size o p).reads, Inside s q := by
  induction p generalizing o with
  | nil => exact absurd rfl h.ne_nil
  | cons c p ih =>
    intro q hq
    rw [copy] at hq
    by_cases ho : o < size
    · rw [if_pos ho] at hq
      by_cases hc : c ≠ '\x00' ∧ accepts c = true
      · rw [if_pos hc] at hq
        obtain rfl | hrest := List.mem_cons.mp hq
        · exact h
        · exact ih (h.tail hc.1) q hrest
      · rw [if_neg hc] at hq
        exact List.mem_singleton.mp hq ▸ h
    · rw [if_neg ho] at hq
      exact absurd hq List.not_mem_nil

/-- The place behind the copied text. -/
theorem Inside.behind (h : Inside s p) (hnul : accepts '\x00' = false) :
    Inside s (p.drop (copy accepts size o p).text.length) := by
  rw [copy_text hnul]
  generalize size - o = k
  induction p generalizing k with
  | nil => exact List.drop_nil.symm ▸ h
  | cons c p ih =>
    by_cases hc : accepts c = true
    · rw [List.takeWhile_cons_of_pos hc]
      cases k with
      | zero => exact h
      | succ k => exact ih (h.tail (ne_nul_of_accepts hnul hc)) k
    · rw [List.takeWhile_cons_of_neg hc, List.take_nil]
      exact h

theorem Inside.atoiReads (h : Inside s p) : ∀ q ∈ atoiReads p, Inside s q := by
  intro q hq
  obtain hblank | hdigit := List.mem_append.mp hq
  · exact h.scanned (by decide) q hblank
  · exact (h.dropWhile (by decide)).takeSign.scanned (by decide) q hdigit

variable {a : EntityAddr}

theorem Inside.parseNonce (h : Inside s p) : ∀ q ∈ (parseNonce a p).reads, Inside s q := by
  intro q hq
  rw [EntityAddr.parseNonce] at hq
  by_cases hslash : p.head? = some '/'
  · rw [if_pos hslash] at hq
    have htail := h.tail_of_head hslash (by decide)
    obtain rfl | hq := List.mem_cons.mp hq
    · exact h
    obtain hq | hq := List.mem_append.mp hq
    · exact htail.atoiReads q hq
    · exact htail.scanned (by decide) q hq
  · rw [if_neg hslash] at hq
    exact List.mem_singleton.mp hq ▸ h

theorem Inside.parsePort (h : Inside s p) : ∀ q ∈ (parsePort a p).reads, Inside s q := by
  intro q hq
  rw [EntityAddr.parsePort] at hq
  by_cases hcolon : p.head? = some ':'
  · rw [if_pos hcolon] at hq
    have htail := h.tail_of_head hcolon (by decide)
    obtain rfl | hq := List.mem_cons.mp hq
    · exact h
    obtain hq | hq := List.mem_append.mp hq
    · obtain hq | hq := List.mem_append.mp hq
      · exact htail.atoiReads q hq
      · exact htail.scanned (by decide) q hq
    · exact (htail.dropWhile (by decide)).parseNonce q hq
  · rw [if_neg hcolon] at hq
    obtain rfl | hq := List.mem_cons.mp hq
    · exact h
    · exact h.parseNonce q hq

theorem Inside.parseBracket (h : Inside s p) (brackets : Bool) :
    ∀ q ∈ (parseBracket brackets a p).reads, Inside s q := by
  intro q hq
  rw [EntityAddr.parseBracket] at hq
  cases brackets with
  | false => exact h.parsePort q hq
  | true =>
    rw [if_pos rfl] at hq
    by_cases hclose : p.head? = some ']'
    · rw [if_pos hclose] at hq
      obtain rfl | hq := List.mem_cons.mp hq
      · exact h
      · exact (h.tail_of_head hclose (by decide)).parsePort q hq
    · rw [if_neg hclose] at hq
      exact List.mem_singleton.mp hq ▸ h

theorem Inside.parseStart (h : Inside s p) (brackets : Bool) :
    ∀ q ∈ (parseStart pton4 pton6 brackets p).reads, Inside s q := by
  intro q hq
  rw [EntityAddr.parseStart] at hq
  obtain hq | hq := List.mem_append.mp hq
  · obtain hq | hq := List.mem_append.mp hq
    · exact h.copied q hq
    · exact h.copied q hq
  · cases h4 : pton4 (copy v4Char 39 0 p).text with
    | some ip =>
      rw [h4] at hq
      exact (h.behind not_v4Char_nul).parseBracket brackets q hq
    | none =>
      rw [h4] at hq
      cases h6 : pton6 (copy v6Char 64 0 p).text with
      | some ip =>
        rw [h6] at hq
        exact (h.behind not_v6Char_nul).parseBracket brackets q hq
      | none =>
        rw [h6] at hq
        exact absurd hq List.not_mem_nil

/-- **Nothing behind the NUL is read.** -/
theorem parse_reads : ∀ q ∈ (parse pton4 pton6 s).reads, Inside s q := by
  intro q hq
  obtain rfl | hq := List.mem_cons.mp hq
  · exact inside_self
  by_cases hopen : (s ++ ['\x00']).head? = some '['
  · rw [if_pos hopen] at hq
    exact (inside_self.tail_of_head hopen (by decide)).parseStart true q hq
  · rw [if_neg hopen] at hq
    exact inside_self.parseStart false q hq

/-! ## The writes -/

theorem parse_writes :
    (parse pton4 pton6 s).writes4 = (copy v4Char 39 0 (unbracket s ++ ['\x00'])).writes
      ∧ (parse pton4 pton6 s).writes6 = (copy v6Char 64 0 (unbracket s ++ ['\x00'])).writes := by
  rw [parse]
  by_cases hopen : (s ++ ['\x00']).head? = some '['
  · obtain ⟨s', rfl⟩ : ∃ s', s = '[' :: s' := by
      cases s with
      | nil => exact absurd (Option.some.inj hopen) (by decide)
      | cons c s' => exact ⟨s', congrArg (· :: s') (Option.some.inj hopen)⟩
    rw [if_pos hopen]
    exact ⟨rfl, rfl⟩
  · have hsame : unbracket s = s := by
      unfold unbracket
      split
      · exact absurd rfl hopen
      · rfl
    rw [if_neg hopen, hsame]
    exact ⟨rfl, rfl⟩

/-- **`parse` stays inside its buffers** exactly if fewer characters than there is room for begin
the text: a dot or a digit each for the one, a colon or a hexadecimal digit each for the other. -/
theorem parse_inside_iff (pton4 : List Char → Option (Vector UInt8 4))
    (pton6 : List Char → Option (Vector UInt16 8)) (s : List Char) :
    ((∀ i ∈ (parse pton4 pton6 s).writes4, i < 39) ∧ (∀ i ∈ (parse pton4 pton6 s).writes6, i < 64)
      ∧ ∀ q ∈ (parse pton4 pton6 s).reads, Inside s q)
    ↔ ((unbracket s).takeWhile v4Char).length < 39 ∧ ((unbracket s).takeWhile v6Char).length < 64 := by
  rw [parse_writes.1, parse_writes.2, copy_inside_iff not_v4Char_nul, copy_inside_iff not_v6Char_nul,
    takeWhile_unterminated not_v4Char_nul, takeWhile_unterminated not_v6Char_nul]
  exact and_congr_right fun _ ↦ and_iff_left parse_reads

/-- Thirty-nine digits fill the first buffer: its terminator is written behind it. So it is with
sixty-four hexadecimal digits and the second. -/
theorem parse_overfills :
    39 ∈ (parse (fun _ ↦ none) (fun _ ↦ none) (List.replicate 39 '1')).writes4
      ∧ 64 ∈ (parse (fun _ ↦ none) (fun _ ↦ none) ('[' :: List.replicate 64 'a')).writes6
      ∧ '\x00' ∉ List.replicate 39 '1' := by
  rw [parse_writes.1, parse_writes.2, copy_writes, copy_writes]
  exact ⟨by decide, by decide, by decide⟩

end EntityAddr

end AsyncMessenger.MsgTypes
