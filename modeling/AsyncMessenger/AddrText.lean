import AsyncMessenger.EntityAddr

/-!
# Addresses as text

`operator<<` writes an address as its numeric host, its port and its nonce; the host of the family
`AF_INET6` stands in brackets. The numeric host is the standard text: four numbers with dots between
them, or eight hexadecimal groups with colons between them, where the longest run of zeros is left
out. In the text of an address that carries one of the other family, the last two groups are written
with dots, and those are the addresses that `parse` does not read: the dot is not among the
characters that it copies.

What is to be shown is that `parse` finds its way through such a text. The host is the longest
stretch of the characters it copies, so the first character behind it has to be none of these: a
colon, a slash or a bracket. The port and the nonce are decimal numbers that end where the digits
end. The conversion of the host itself is not code of this repository; all that is used of it is
that it undoes its own text.
-/

namespace AsyncMessenger.MsgTypes

namespace EntityAddr

/-- `inet_ntop` for `AF_INET`. -/
def inetNtop4 (ip : Vector UInt8 4) : List Char :=
  Nat.toDigits 10 ip[0].toNat ++ '.' :: (Nat.toDigits 10 ip[1].toNat ++ '.' ::
    (Nat.toDigits 10 ip[2].toNat ++ '.' :: Nat.toDigits 10 ip[3].toNat))

/-- The groups of an IPv6 address, with colons between them. -/
def groups (words : List UInt16) : List Char :=
  [':'].intercalate (words.map fun w ↦ Nat.toDigits 16 w.toNat)

/-- The length of the run of zeros that begins at a word. -/
def zeros (ip : Vector UInt16 8) (i : ℕ) : ℕ := ((ip.toList.drop i).takeWhile (· = 0)).length

/-- Where the longest run of zeros begins, and its length. -/
def bestRun (ip : Vector UInt16 8) : ℕ × ℕ :=
  (List.range 8).foldl (fun best i ↦ if best.2 < zeros ip i then (i, zeros ip i) else best) (0, 0)

/-- The address carries one of the other family: it is IPv4-compatible or IPv4-mapped. -/
def Embedded (ip : Vector UInt16 8) : Prop :=
  (ip[0] = 0 ∧ ip[1] = 0 ∧ ip[2] = 0 ∧ ip[3] = 0 ∧ ip[4] = 0) ∧ (ip[5] = 0 ∧ ip[6] ≠ 0 ∨ ip[5] = 0xffff)

instance (ip : Vector UInt16 8) : Decidable (Embedded ip) := inferInstanceAs (Decidable (_ ∧ _))

/-- The last two words as an address of the other family. -/
def embedded (ip : Vector UInt16 8) : Vector UInt8 4 :=
  #v[(ip[6] >>> 8).toUInt8, ip[6].toUInt8, (ip[7] >>> 8).toUInt8, ip[7].toUInt8]

/-- `inet_ntop` for `AF_INET6`. -/
def inetNtop6 (ip : Vector UInt16 8) : List Char :=
  if Embedded ip then
    ':' :: ':' :: ((if ip[5] = 0 then [] else ['f', 'f', 'f', 'f', ':']) ++ inetNtop4 (embedded ip))
  else if (bestRun ip).2 < 2 then groups ip.toList
  else
    groups (ip.toList.take (bestRun ip).1) ++ ':' :: ':' ::
      groups (ip.toList.drop ((bestRun ip).1 + (bestRun ip).2))

end EntityAddr

/-- `operator<<` for `sockaddr_storage`; without a family `getnameinfo` fails and writes nothing. -/
def SockAddr.print : SockAddr → List Char
  | .unspec => [':']
  | .inet port ip => EntityAddr.inetNtop4 ip ++ ':' :: Nat.toDigits 10 port.toNat
  | .inet6 port ip => '[' :: (EntityAddr.inetNtop6 ip ++ ']' :: ':' :: Nat.toDigits 10 port.toNat)

namespace EntityAddr

/-- `operator<<`. -/
def print (a : EntityAddr) : List Char := a.addr.print ++ '/' :: Nat.toDigits 10 a.nonce.toNat

variable {pton4 : List Char → Option (Vector UInt8 4)} {pton6 : List Char → Option (Vector UInt16 8)}
variable {ip4 : Vector UInt8 4} {ip ip₁ : Vector UInt16 8} {a : EntityAddr} {n : ℕ} {text : List Char}

/-! ## The texts

Which characters can occur in the text of a host, and that it fits into the buffers of `parse`. -/

theorem toDigits_v4Char : ∀ c ∈ Nat.toDigits 10 n, v4Char c := by
  intro c hc
  have hdigit : c.isDigit := Nat.isDigit_of_mem_toDigits (by decide) (by decide) hc
  have hbounds := toNat_of_isDigit hdigit
  rw [v4Char, Bool.or_eq_true, Bool.and_eq_true]
  exact .inr ⟨decide_eq_true hbounds.1, decide_eq_true hbounds.2⟩

theorem toDigits_v6Char : ∀ c ∈ Nat.toDigits 16 n, v6Char c := by
  induction n using Nat.strong_induction_on with
  | _ n ih =>
    have hdigit : ∀ k < 16, v6Char k.digitChar := by decide
    intro c hc
    rw [Nat.toDigits_eq_if (by decide)] at hc
    by_cases hn : n < 16
    · rw [if_pos hn] at hc
      exact List.mem_singleton.mp hc ▸ hdigit n hn
    · rw [if_neg hn] at hc
      obtain hc | hc := List.mem_append.mp hc
      · exact ih (n / 16) (by omega) c hc
      · exact List.mem_singleton.mp hc ▸ hdigit _ (Nat.mod_lt n (by decide))

theorem inetNtop4_v4Char : ∀ c ∈ inetNtop4 ip4, v4Char c := by
  have hdot : v4Char '.' = true := by decide
  intro c hc
  simp only [inetNtop4, List.mem_append, List.mem_cons] at hc
  obtain hc | rfl | hc | rfl | hc | rfl | hc := hc
  · exact toDigits_v4Char c hc
  · exact hdot
  · exact toDigits_v4Char c hc
  · exact hdot
  · exact toDigits_v4Char c hc
  · exact hdot
  · exact toDigits_v4Char c hc

theorem inetNtop4_length (ip4 : Vector UInt8 4) : (inetNtop4 ip4).length ≤ 15 := by
  have hbyte (b : UInt8) : (Nat.toDigits 10 b.toNat).length ≤ 3 :=
    (Nat.length_toDigits_le_iff (by decide) (by decide)).mpr (Nat.lt_of_lt_of_le b.toNat_lt (by decide))
  have h0 := hbyte ip4[0]
  have h1 := hbyte ip4[1]
  have h2 := hbyte ip4[2]
  have h3 := hbyte ip4[3]
  simp only [inetNtop4, List.length_append, List.length_cons]
  omega

theorem groups_v6Char (words : List UInt16) :
    (∀ c ∈ groups words, v6Char c) ∧ (groups words).length ≤ 5 * words.length := by
  have hword (w : UInt16) : (Nat.toDigits 16 w.toNat).length ≤ 4 :=
    (Nat.length_toDigits_le_iff (by decide) (by decide)).mpr w.toNat_lt
  induction words with
  | nil => exact ⟨fun _ hc ↦ absurd hc List.not_mem_nil, Nat.zero_le _⟩
  | cons w words ih =>
    have hw := hword w
    cases words with
    | nil =>
      have hone : groups [w] = Nat.toDigits 16 w.toNat := List.intercalate_singleton
      rw [hone]
      exact ⟨toDigits_v6Char, by rw [List.length_singleton]; omega⟩
    | cons w' words =>
      have hcons : groups (w :: w' :: words) = Nat.toDigits 16 w.toNat ++ ':' :: groups (w' :: words) :=
        (List.intercalate_cons_cons ..).trans (List.append_assoc ..)
      rw [hcons]
      constructor
      · intro c hc
        obtain hc | hc := List.mem_append.mp hc
        · exact toDigits_v6Char c hc
        obtain rfl | hc := List.mem_cons.mp hc
        · decide
        · exact ih.1 c hc
      · have hrest := ih.2
        simp only [List.length_append, List.length_cons] at hrest ⊢
        omega

/-- Without the other family's dots, all of the text is copied and there is room for it. -/
theorem inetNtop6_v6Char (h : ¬Embedded ip) :
    (∀ c ∈ inetNtop6 ip, v6Char c) ∧ (inetNtop6 ip).length < 64 := by
  have hlen : ip.toList.length = 8 := ip.length_toList
  rw [inetNtop6, if_neg h]
  by_cases hrun : (bestRun ip).2 < 2
  · rw [if_pos hrun]
    have hall := groups_v6Char ip.toList
    exact ⟨hall.1, by omega⟩
  · rw [if_neg hrun]
    have hfst := groups_v6Char (ip.toList.take (bestRun ip).1)
    have hsnd := groups_v6Char (ip.toList.drop ((bestRun ip).1 + (bestRun ip).2))
    rw [List.length_take] at hfst
    rw [List.length_drop] at hsnd
    constructor
    · intro c hc
      obtain hc | hc := List.mem_append.mp hc
      · exact hfst.1 c hc
      obtain rfl | hc := List.mem_cons.mp hc
      · decide
      obtain rfl | hc := List.mem_cons.mp hc
      · decide
      · exact hsnd.1 c hc
    · rw [List.length_append, List.length_cons, List.length_cons]
      omega

/-- With them, a dot follows on a beginning that is copied. -/
theorem inetNtop6_dot (h : Embedded ip) :
    ∃ u v, inetNtop6 ip = ':' :: (u ++ '.' :: v) ∧ (∀ c ∈ u, v6Char c) ∧ u.length < 63 := by
  have hdigits : ∀ c ∈ Nat.toDigits 10 (embedded ip)[0].toNat, v6Char c := by
    intro c hc
    have hbounds := toNat_of_isDigit (Nat.isDigit_of_mem_toDigits (by decide) (by decide) hc)
    rw [v6Char]
    simp only [Bool.or_eq_true, Bool.and_eq_true]
    exact .inl (.inl (.inr ⟨decide_eq_true hbounds.1, decide_eq_true hbounds.2⟩))
  have hlen : (Nat.toDigits 10 (embedded ip)[0].toNat).length ≤ 3 :=
    (Nat.length_toDigits_le_iff (by decide) (by decide)).mpr
      (Nat.lt_of_lt_of_le (UInt8.toNat_lt _) (by decide))
  rw [inetNtop6, if_pos h, inetNtop4]
  generalize Nat.toDigits 10 (embedded ip)[0].toNat = ds at hdigits hlen ⊢
  have hmapped : ∀ c ∈ (if ip[5] = 0 then [] else ['f', 'f', 'f', 'f', ':']), v6Char c := by
    by_cases hzero : ip[5] = 0
    · rw [if_pos hzero]
      exact fun c hc ↦ absurd hc List.not_mem_nil
    · rw [if_neg hzero]
      exact List.all_eq_true.mp rfl
  have hfew : (if ip[5] = 0 then [] else ['f', 'f', 'f', 'f', ':']).length ≤ 5 := by
    by_cases hzero : ip[5] = 0
    · rw [if_pos hzero]
      exact Nat.zero_le _
    · rw [if_neg hzero]
      exact Nat.le_refl _
  generalize (if ip[5] = 0 then [] else ['f', 'f', 'f', 'f', ':']) = ms at hmapped hfew ⊢
  refine ⟨':' :: (ms ++ ds), _, by rw [List.cons_append, List.append_assoc], ?_, ?_⟩
  · intro c hc
    obtain rfl | hc := List.mem_cons.mp hc
    · decide
    obtain hc | hc := List.mem_append.mp hc
    · exact hmapped c hc
    · exact hdigits c hc
  · rw [List.length_cons, List.length_append]
    omega

/-! ## Reading them back

The stages of `parse`, on a text whose first part is known. -/

theorem dropWhile_toDigits (htext : ∀ c ∈ text.head?, c.isDigit = false) :
    (Nat.toDigits 10 n ++ text).dropWhile Char.isDigit = text := by
  have hdigits : ∀ c ∈ Nat.toDigits 10 n, c.isDigit :=
    fun c hc ↦ Nat.isDigit_of_mem_toDigits (by decide) (by decide) hc
  rw [List.dropWhile_append_of_pos hdigits]
  cases text with
  | nil => rfl
  | cons c text => exact List.dropWhile_cons_of_neg (by simp [htext c rfl])

/-- `atoi` may overflow, but what is stored of its result is right. -/
theorem atoi_toDigits (hn : n < 2 ^ 32) (htext : ∀ c ∈ text.head?, c.isDigit = false) :
    (atoi (Nat.toDigits 10 n ++ text) % 2 ^ 32).toNat = n := by
  rw [atoi, strtoll_toDigits (by omega) htext]
  dsimp only
  have hmod : Int.bmod (n : ℤ) (2 ^ 32) % ((2 ^ 32 : ℕ) : ℤ) = n := by
    rw [Int.bmod_emod]
    exact Int.emod_eq_of_lt (Int.natCast_nonneg n) (Int.ofNat_lt.mpr hn)
  exact congrArg Int.toNat hmod

theorem atoi_toDigits_port (hn : n < 2 ^ 16) (htext : ∀ c ∈ text.head?, c.isDigit = false) :
    (atoi (Nat.toDigits 10 n ++ text) % 2 ^ 16).toNat = n := by
  have h := atoi_toDigits (n := n) (by omega) htext
  omega

/-- The nonce, and the end of the text. -/
theorem parseNonce_toDigits (a : EntityAddr) (nonce : UInt32) :
    (parseNonce a ('/' :: (Nat.toDigits 10 nonce.toNat ++ ['\x00']))).addr = { a with nonce }
      ∧ (parseNonce a ('/' :: (Nat.toDigits 10 nonce.toNat ++ ['\x00']))).stop = some ['\x00'] := by
  have hnul : ∀ c ∈ ['\x00'].head?, c.isDigit = false := by
    rintro c ⟨⟩
    rfl
  rw [parseNonce, if_pos List.head?_cons]
  dsimp only [List.tail_cons]
  rw [setNonce, atoi_toDigits nonce.toNat_lt hnul, UInt32.ofNat_toNat, dropWhile_toDigits hnul]
  exact ⟨rfl, rfl⟩

theorem port_stored (port : UInt16) : UInt16.ofNat ((port.toNat : ℤ) % 2 ^ 16).toNat = port := by
  rw [Int.emod_eq_of_lt (Int.natCast_nonneg _) (by exact_mod_cast port.toNat_lt), Int.toNat_natCast,
    UInt16.ofNat_toNat]

/-- What follows the host. -/
def afterHost (port : UInt16) (nonce : UInt32) : List Char :=
  ':' :: (Nat.toDigits 10 port.toNat ++ '/' :: (Nat.toDigits 10 nonce.toNat ++ ['\x00']))

theorem parsePort_afterHost (a : EntityAddr) (port : UInt16) (nonce : UInt32) :
    (parsePort a (afterHost port nonce)).addr = { a.setPort port.toNat with nonce }
      ∧ (parsePort a (afterHost port nonce)).stop = some ['\x00'] := by
  have hslash : ∀ c ∈ ('/' :: (Nat.toDigits 10 nonce.toNat ++ ['\x00'])).head?, c.isDigit = false := by
    rintro c ⟨⟩
    rfl
  have hport := atoi_toDigits_port port.toNat_lt hslash
  have hset : a.setPort (atoi (Nat.toDigits 10 port.toNat ++ '/' ::
      (Nat.toDigits 10 nonce.toNat ++ ['\x00']))) = a.setPort port.toNat := by
    unfold setPort
    rw [hport, port_stored, UInt16.ofNat_toNat]
  rw [afterHost, parsePort, if_pos List.head?_cons]
  dsimp only [List.tail_cons]
  rw [dropWhile_toDigits hslash, hset]
  exact parseNonce_toDigits _ nonce

/-- A text that fits is copied up to the first character that is not accepted. -/
theorem copy_whole {accepts : Char → Bool} {size : ℕ} {t rest : List Char} (hnul : accepts '\x00' = false)
    (ht : ∀ c ∈ t, accepts c) (hrest : ∀ c ∈ rest.head?, accepts c = false) (hlen : t.length < size) :
    (copy accepts size 0 (t ++ rest)).text = t := by
  have hnone : rest.takeWhile accepts = [] := by
    cases rest with
    | nil => rfl
    | cons c rest => exact List.takeWhile_cons_of_neg (by simp [hrest c rfl])
  rw [copy_text hnul, List.takeWhile_append_of_pos ht, hnone, List.append_nil,
    List.take_of_length_le (by omega)]

theorem print_inet (type nonce : UInt32) (port : UInt16) (ip : Vector UInt8 4) :
    print { type, nonce, addr := .inet port ip } ++ ['\x00'] = inetNtop4 ip ++ afterHost port nonce := by
  simp [print, SockAddr.print, afterHost]

theorem print_inet6 (type nonce : UInt32) (port : UInt16) (ip : Vector UInt16 8) :
    print { type, nonce, addr := .inet6 port ip } ++ ['\x00']
      = '[' :: (inetNtop6 ip ++ ']' :: afterHost port nonce) := by
  simp [print, SockAddr.print, afterHost]

/-- **An IPv4 address** is read back. -/
theorem parse_inet (nonce : UInt32) (port : UInt16) (hread : pton4 (inetNtop4 ip4) = some ip4) :
    (parse pton4 pton6 (print { nonce, addr := .inet port ip4 })).addr = { nonce, addr := .inet port ip4 }
      ∧ (parse pton4 pton6 (print { nonce, addr := .inet port ip4 })).stop = some ['\x00'] := by
  have hopen : (inetNtop4 ip4 ++ afterHost port nonce).head? ≠ some '[' := by
    intro h
    have hne : inetNtop4 ip4 ≠ [] := by
      rw [inetNtop4]
      exact List.append_ne_nil_of_right_ne_nil _ (List.cons_ne_nil _ _)
    obtain ⟨c, t, hcons⟩ := List.exists_cons_of_ne_nil hne
    have hc := inetNtop4_v4Char c (hcons ▸ List.mem_cons_self)
    rw [hcons] at h
    obtain rfl := Option.some.inj h
    exact absurd hc (by decide)
  have hcopied : (copy v4Char 39 0 (inetNtop4 ip4 ++ afterHost port nonce)).text = inetNtop4 ip4 := by
    have hlen := inetNtop4_length ip4
    refine copy_whole not_v4Char_nul inetNtop4_v4Char ?_ (by omega)
    rintro c ⟨⟩
    rfl
  rw [parse, print_inet]
  dsimp only
  rw [if_neg hopen, parseStart]
  dsimp only
  rw [hcopied, hread]
  dsimp only
  rw [List.drop_left, parseBracket, if_neg Bool.false_ne_true]
  have hrest := parsePort_afterHost { addr := .inet 0 ip4 } port nonce
  exact ⟨hrest.1.trans (congrArg (EntityAddr.mk 0 nonce <| .inet · ip4) (port_stored port)), hrest.2⟩

/-- What the text of an IPv6 address begins with has no dots. -/
theorem dot_not_copied {rest : List Char} :
    '.' ∉ (copy v4Char 39 0 (inetNtop6 ip ++ ']' :: rest)).text := by
  intro hdot
  rw [copy_text not_v4Char_nul] at hdot
  have hmem := List.mem_of_mem_take hdot
  by_cases h : Embedded ip
  · obtain ⟨u, v, htext, -⟩ := inetNtop6_dot h
    rw [htext, List.cons_append, List.takeWhile_cons_of_neg (by decide)] at hmem
    exact List.not_mem_nil hmem
  · have hall := (inetNtop6_v6Char h).1
    have hclose : (']' :: rest).takeWhile v4Char = [] := List.takeWhile_cons_of_neg (by decide)
    rw [List.takeWhile_append, hclose, List.append_nil] at hmem
    have hin : '.' ∈ inetNtop6 ip := by
      by_cases hlen : ((inetNtop6 ip).takeWhile v4Char).length = (inetNtop6 ip).length
      · rw [if_pos hlen] at hmem
        exact hmem
      · rw [if_neg hlen] at hmem
        exact (List.takeWhile_subset _) hmem
    exact absurd (hall '.' hin) (by decide)

/-- The parse of a text in brackets. -/
theorem parse_inet6_eq (hdots : ∀ t, '.' ∉ t → pton4 t = none) (nonce : UInt32) (port : UInt16)
    (hread : pton6 (copy v6Char 64 0 (inetNtop6 ip ++ ']' :: afterHost port nonce)).text = some ip₁) :
    (parse pton4 pton6 (print { nonce, addr := .inet6 port ip })).addr
        = (parseBracket true { addr := .inet6 0 ip₁ }
          ((inetNtop6 ip ++ ']' :: afterHost port nonce).drop
            (copy v6Char 64 0 (inetNtop6 ip ++ ']' :: afterHost port nonce)).text.length)).addr
      ∧ (parse pton4 pton6 (print { nonce, addr := .inet6 port ip })).stop
        = (parseBracket true { addr := .inet6 0 ip₁ }
          ((inetNtop6 ip ++ ']' :: afterHost port nonce).drop
            (copy v6Char 64 0 (inetNtop6 ip ++ ']' :: afterHost port nonce)).text.length)).stop := by
  rw [parse, print_inet6]
  dsimp only
  rw [if_pos List.head?_cons, List.tail_cons, parseStart]
  dsimp only
  rw [hdots _ dot_not_copied, hread]
  exact ⟨rfl, rfl⟩

/-- **An IPv6 address** is read back if no dots stand in its text. -/
theorem parse_inet6 (hdots : ∀ t, '.' ∉ t → pton4 t = none) (nonce : UInt32) (port : UInt16)
    (hread : pton6 (inetNtop6 ip) = some ip) (h : ¬Embedded ip) :
    (parse pton4 pton6 (print { nonce, addr := .inet6 port ip })).addr = { nonce, addr := .inet6 port ip }
      ∧ (parse pton4 pton6 (print { nonce, addr := .inet6 port ip })).stop = some ['\x00'] := by
  have hcopied :
      (copy v6Char 64 0 (inetNtop6 ip ++ ']' :: afterHost port nonce)).text = inetNtop6 ip := by
    have htext := inetNtop6_v6Char h
    refine copy_whole not_v6Char_nul htext.1 ?_ htext.2
    rintro c ⟨⟩
    rfl
  have heq := parse_inet6_eq hdots nonce port (hcopied.symm ▸ hread)
  rw [hcopied, List.drop_left, parseBracket, if_pos rfl, if_pos List.head?_cons] at heq
  have hrest := parsePort_afterHost { addr := .inet6 0 ip } port nonce
  refine ⟨heq.1.trans (hrest.1.trans ?_), heq.2.trans hrest.2⟩
  exact congrArg (EntityAddr.mk 0 nonce <| .inet6 · ip) (port_stored port)

/-- With dots in it the text is not read to its end: no bracket follows on what has been copied. -/
theorem parse_embedded (hdots : ∀ t, '.' ∉ t → pton4 t = none) (nonce : UInt32) (port : UInt16)
    (h : Embedded ip) : (parse pton4 pton6 (print { nonce, addr := .inet6 port ip })).stop = none := by
  obtain ⟨u, v, htext, hu, hlen⟩ := inetNtop6_dot h
  have hsplit : inetNtop6 ip ++ ']' :: afterHost port nonce
      = (':' :: u) ++ '.' :: (v ++ ']' :: afterHost port nonce) := by
    rw [htext, List.cons_append, List.cons_append, List.append_assoc, List.cons_append]
  have hcopied :
      (copy v6Char 64 0 (inetNtop6 ip ++ ']' :: afterHost port nonce)).text = ':' :: u := by
    rw [hsplit]
    refine copy_whole not_v6Char_nul ?_ ?_ (by rw [List.length_cons]; omega)
    · intro c hc
      obtain rfl | hc := List.mem_cons.mp hc
      · decide
      · exact hu c hc
    · rintro c ⟨⟩
      decide
  cases hread : pton6 (':' :: u) with
  | some ip₁ =>
    have heq := (parse_inet6_eq hdots nonce port (hcopied.symm ▸ hread)).2
    rw [hcopied, hsplit, List.drop_left, parseBracket, if_pos rfl, List.head?_cons,
      if_neg (by decide)] at heq
    exact heq
  | none =>
    rw [parse, print_inet6]
    dsimp only
    rw [if_pos List.head?_cons, List.tail_cons, parseStart]
    dsimp only
    rw [hdots _ dot_not_copied, hcopied, hread]

/-- **Parse undoes print** exactly for the addresses whose text has no part of the other family:
those of `AF_INET`, and of the others those that are neither IPv4-compatible nor IPv4-mapped. -/
theorem parse_print_iff (hdots : ∀ t, '.' ∉ t → pton4 t = none) (htype : a.type = 0)
    (hfamily : a.addr ≠ .unspec)
    (h4 : ∀ port ip, a.addr = .inet port ip → pton4 (inetNtop4 ip) = some ip)
    (h6 : ∀ port ip, a.addr = .inet6 port ip → pton6 (inetNtop6 ip) = some ip) :
    (parse pton4 pton6 (print a)).addr = a ∧ (parse pton4 pton6 (print a)).stop = some ['\x00']
      ↔ ∀ port ip, a.addr = .inet6 port ip → ¬Embedded ip := by
  obtain ⟨type, nonce, addr⟩ := a
  obtain rfl : type = 0 := htype
  cases addr with
  | unspec => exact absurd rfl hfamily
  | inet port ip =>
    refine iff_of_true (parse_inet nonce port (h4 port ip rfl)) ?_
    rintro port ip ⟨⟩
  | inet6 port ip =>
    constructor
    · rintro ⟨-, hstop⟩ port' ip' ⟨⟩ hembedded
      rw [parse_embedded hdots nonce port hembedded] at hstop
      exact absurd hstop (Option.some_ne_none _).symm
    · intro hnone
      exact parse_inet6 hdots nonce port (h6 port ip rfl) (hnone port ip rfl)

/-- `[2001:db8::1]:6789/42`. -/
def documented : EntityAddr :=
  { nonce := 42, addr := .inet6 6789 #v[0x2001, 0xdb8, 0, 0, 0, 0, 0, 1] }

/-- `[::ffff:1.2.3.4]:6789/0`. -/
def mapped : EntityAddr := { addr := .inet6 6789 #v[0, 0, 0, 0, 0, 0xffff, 0x0102, 0x0304] }

/-- `inet_pton` for `AF_INET6` on the texts of these two addresses and on what is copied of the
second. -/
def pton : List Char → Option (Vector UInt16 8)
  | ['2', '0', '0', '1', ':', 'd', 'b', '8', ':', ':', '1'] => some #v[0x2001, 0xdb8, 0, 0, 0, 0, 0, 1]
  | [':', ':', 'f', 'f', 'f', 'f', ':', '1', '.', '2', '.', '3', '.', '4'] =>
    some #v[0, 0, 0, 0, 0, 0xffff, 0x0102, 0x0304]
  | [':', ':', 'f', 'f', 'f', 'f', ':', '1'] => some #v[0, 0, 0, 0, 0, 0, 0xffff, 1]
  | _ => none

theorem documented_parsed :
    (parse (fun _ ↦ none) pton (print documented)).addr = documented
      ∧ (parse (fun _ ↦ none) pton (print documented)).stop = some ['\x00'] := by
  refine (parse_print_iff (fun _ _ ↦ rfl) rfl (by decide) ?_ ?_).mpr ?_
  · rintro port ip ⟨⟩
  · rintro port ip ⟨⟩
    decide
  · rintro port ip ⟨⟩
    decide

/-- The parse stops in front of the first dot, where it looks for the bracket. -/
theorem mapped_not_parsed :
    mapped.type = 0 ∧ mapped.addr ≠ .unspec
      ∧ pton (inetNtop6 #v[0, 0, 0, 0, 0, 0xffff, 0x0102, 0x0304])
        = some #v[0, 0, 0, 0, 0, 0xffff, 0x0102, 0x0304]
      ∧ (parse (fun _ ↦ none) pton (print mapped)).stop = none := by
  refine ⟨rfl, by decide, by decide, by decide⟩

end EntityAddr

end AsyncMessenger.MsgTypes
