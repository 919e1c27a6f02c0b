import AsyncMessenger.ByteStrings

/-!
# Parts of lists

`substr_of` makes a list of a part of another one. `splice` takes a part out of a list, and may
append it to a third one. Both skip the segments before the part and then go from segment to
segment. `splice` puts the front of the first segment into the list as a new segment, and shortens
the last one; it corrects `_len` as it goes.

No raw buffer is written. So the strings of all other lists stay as they are, and what is to be
shown is that the segments are cut in the right places, and that the sums come out right in 32 bits.

## The two loops

The place where the part begins is a segment and a place in it (`skip_eq`), and from there on both
loops take a part of each segment. `takeParts_eq` and `cut_eq` say what they leave, for any list of
segments that is left, and with any number of bytes before it. `splice` has to be told of one sum,
that of the place in the first segment and the length, which might overflow.

## The result

`slices_iff` states both functions on byte strings: the part, the rest, and the list that claims.
They are exact as long as `_len` can say how long the list is that the part is appended to. Nothing
else can go wrong within a list, and `not_slices` is the other direction.
-/

namespace AsyncMessenger

open Buffer

/-- How a function that takes a part of a list may fail. -/
inductive Halt
  | endOfBuffer
  | assertion
  /-- The iterator at `end()` is used. -/
  | stray
  deriving DecidableEq, Repr

namespace BufferList

/-- Subtraction of 32-bit lengths. -/
def sub32 (a b : ℕ) : ℕ := (2 ^ 32 + a - b) % 2 ^ 32

/-- The loops that skip `off` bytes: the segments passed, the others, and what is left of `off`. -/
def skip (past : Halt) : List Ptr → ℕ → Except Halt (List Ptr × List Ptr × ℕ)
  | [], off => if off = 0 then .ok ([], [], 0) else .error past
  | p :: ps, off =>
    if 0 < off ∧ p.len ≤ off then
      (skip past ps (off - p.len)).map fun x ↦ (p :: x.1, x.2)
    else .ok ([], p :: ps, off)

/-- `_buffers.push_back(ptr(p, off, len))` in `substr_of`. -/
def addPart (a : BufferList) (p : Ptr) (off len : ℕ) : Option BufferList :=
  (p.sub off len).map fun q ↦ { a with buffers := a.buffers ++ [q], len := add32 a.len len }

/-- The loop of `substr_of`: the list, and how it has failed. -/
def takeParts : List Ptr → ℕ → ℕ → BufferList → BufferList × Option Halt
  | [], _, len, a => (a, if len = 0 then none else some .stray)
  | p :: ps, off, len, a =>
    if len = 0 then (a, none)
    else if add32 off len < p.len then
      match a.addPart p off len with
      | none => (a, some .assertion)
      | some a => (a, none)
    else
      match a.addPart p off (sub32 p.len off) with
      | none => (a, some .assertion)
      | some a => takeParts ps 0 (sub32 len (sub32 p.len off)) a

/-- `substr_of`: the list, and how it has failed. -/
def substrOf (a other : BufferList) (off len : ℕ) : BufferList × Option Halt :=
  if other.len < add32 off len then (a, some .endOfBuffer)
  else
    match skip .stray other.buffers off with
    | .error e => (a.clear, some e)
    | .ok (_, rest, off) =>
      if len ≠ 0 ∧ rest = [] then (a.clear, some .assertion)
      else takeParts rest off len a.clear

/-- `claim_by->append(*curbuf, off, len)`, if there is a list to claim. -/
def give (claimBy : Option BufferList) (p : Ptr) (off len : ℕ) : Except Halt (Option BufferList) :=
  match claimBy with
  | none => .ok none
  | some c =>
    match c.appendSub p off len with
    | none => .error .assertion
    | some c => .ok (some c)

/-- The piece in front of the part that `splice` takes out. -/
def frontBit (rest : List Ptr) (off : ℕ) : Except Halt (List Ptr) :=
  if off = 0 then .ok []
  else
    match rest with
    | [] => .error .stray
    | p :: _ =>
      match p.sub 0 off with
      | none => .error .assertion
      | some q => .ok [q]

/-- The loop of `splice`: the segments that stay, `_len`, and the list that claims. -/
def cut : List Ptr → ℕ → ℕ → ℕ → Option BufferList →
    Except Halt (List Ptr × ℕ × Option BufferList)
  | [], _, _, n, c => .ok ([], n, c)
  | p :: ps, off, len, n, c =>
    if len = 0 then .ok (p :: ps, n, c)
    else if add32 off len < p.len then
      (give c p off len).map fun c ↦
        ({ p with off := add32 off len + p.off, len := sub32 p.len (add32 len off) } :: ps,
          sub32 n (add32 off len), c)
    else
      (give c p off (sub32 p.len off)).bind fun c ↦
        cut ps 0 (sub32 len (sub32 p.len off)) (sub32 n p.len) c

/-- `splice`: this list, and the one that `claim_by` points to. -/
def splice (l : BufferList) (off len : ℕ) (claimBy : Option BufferList) :
    Except Halt (BufferList × Option BufferList) :=
  if len = 0 then .ok (l, claimBy)
  else if l.len ≤ off then .error .endOfBuffer
  else
    (skip .assertion l.buffers off).bind fun (before, rest, off) ↦
      (frontBit rest off).bind fun front ↦
        (cut rest off len (add32 l.len off) claimBy).map fun x ↦
          ({ l with buffers := before ++ front ++ x.1, len := x.2.1 }, x.2.2)

/-! ## The places

The loops that skip stop in the segment where the byte is, or behind the last one. -/

/-- The place `o` is in the first segment, or nothing is left. -/
def Within (ps : List Ptr) (o : ℕ) : Prop := (ps = [] ∧ o = 0) ∨ ∃ p qs, ps = p :: qs ∧ o < p.len

theorem within_zero {ps : List Ptr} (hps : ∀ p ∈ ps, 0 < p.len) : Within ps 0 := by
  cases ps with
  | nil => exact .inl ⟨rfl, rfl⟩
  | cons p ps => exact .inr ⟨p, ps, rfl, hps p List.mem_cons_self⟩

/-- Skipping stops in the segment where the byte is. -/
theorem skip_eq (past : Halt) {ps : List Ptr} (hps : ∀ p ∈ ps, 0 < p.len) {off : ℕ}
    (hle : off ≤ (ps.map Ptr.len).sum) :
    ∃ before rest o, skip past ps off = .ok (before, rest, o) ∧ ps = before ++ rest ∧
      off = (before.map Ptr.len).sum + o ∧ Within rest o := by
  induction ps generalizing off with
  | nil =>
    have hoff : off = 0 := Nat.le_zero.mp hle
    exact ⟨[], [], 0, by rw [skip, if_pos hoff], rfl, hoff, .inl ⟨rfl, rfl⟩⟩
  | cons p ps ih =>
    rw [List.map_cons, List.sum_cons] at hle
    by_cases hskip : 0 < off ∧ p.len ≤ off
    · obtain ⟨before, rest, o, hrest, hsplit, hoff, hwithin⟩ :=
        ih (fun q hq ↦ hps q (List.mem_cons_of_mem p hq))
          (show off - p.len ≤ (ps.map Ptr.len).sum by omega)
      refine ⟨p :: before, rest, o, ?_, by rw [hsplit, List.cons_append], ?_, hwithin⟩
      · rw [skip, if_pos hskip, hrest]
        rfl
      · rw [List.map_cons, List.sum_cons]
        omega
    · refine ⟨[], p :: ps, off, by rw [skip, if_neg hskip], rfl, (Nat.zero_add off).symm, ?_⟩
      have hpos := hps p List.mem_cons_self
      exact .inr ⟨p, ps, rfl, by omega⟩

/-! ## What a part holds

The equations on lists of bytes: a part is inside of the first segment, or begins there and goes on. -/

variable {h : Heap} {used : ℕ → ℕ} {ps : List Ptr} {p : Ptr} {a b c c' c'' : BufferList} {o len : ℕ}

theorem sub32_of_le {a b : ℕ} (ha : a < 2 ^ 32) (h : b ≤ a) : sub32 a b = a - b := by
  rw [sub32]
  omega

theorem add32_of_lt {a b : ℕ} (h : a + b < 2 ^ 32) : add32 a b = a + b := Nat.mod_eq_of_lt h

theorem raw_isSome (hp : p.In h used ∧ 0 < p.len) : p.raw.isSome := by
  cases hraw : p.raw with
  | none =>
    have hzero := hp.1.1 hraw
    omega
  | some r => rfl

/-- The bytes from the place in the first segment on. -/
theorem drop_flatMap_cons (hp : p.In h used) (htidy : Tidy h used) (ho : o ≤ p.len) :
    ((p :: ps).flatMap (Ptr.bytes h)).drop o = (p.bytes h).drop o ++ ps.flatMap (Ptr.bytes h) := by
  rw [List.flatMap_cons, List.drop_append_of_le_length (by rw [hp.length_bytes htidy]; exact ho)]

/-- A part that is inside of the first segment. -/
theorem take_drop_inside (hp : p.In h used) (htidy : Tidy h used) (hle : o + len ≤ p.len) :
    (((p :: ps).flatMap (Ptr.bytes h)).drop o).take len = ((p.bytes h).drop o).take len := by
  rw [drop_flatMap_cons hp htidy (by omega), List.take_append_of_le_length]
  rw [List.length_drop, hp.length_bytes htidy]
  omega

/-- A part that goes beyond the first segment. -/
theorem take_drop_beyond (hp : p.In h used) (htidy : Tidy h used) (ho : o ≤ p.len)
    (hlen : p.len ≤ o + len) :
    (((p :: ps).flatMap (Ptr.bytes h)).drop o).take len =
      ((p.bytes h).drop o).take (p.len - o) ++
        ((ps.flatMap (Ptr.bytes h)).drop 0).take (len - (p.len - o)) := by
  have hrest : ((p.bytes h).drop o).length = p.len - o := by
    rw [List.length_drop, hp.length_bytes htidy]
  rw [drop_flatMap_cons hp htidy ho, List.take_append, hrest, List.drop_zero,
    List.take_of_length_le (i := len) (by omega),
    List.take_of_length_le (i := p.len - o) (by omega)]

/-- What is dropped with the first segment. -/
theorem drop_beyond (hp : p.In h used) (htidy : Tidy h used) (ho : o ≤ p.len) (hlen : p.len ≤ o + len) :
    ((p :: ps).flatMap (Ptr.bytes h)).drop (o + len) =
      (ps.flatMap (Ptr.bytes h)).drop (0 + (len - (p.len - o))) := by
  have hbytes := hp.length_bytes htidy
  rw [List.flatMap_cons, List.drop_append, hbytes, List.drop_eq_nil_of_le (by omega), List.nil_append]
  congr 1
  omega

/-! ## `substr_of` -/

theorem addPart_eq (ha : a.Sound h used) (hp : p.In h used ∧ 0 < p.len) (htidy : Tidy h used)
    (hle : o + len ≤ p.len) (hpos : 0 < len) :
    ∃ a', a.addPart p o len = some a' ∧ a'.Sound h used ∧
      a'.contents h = a.contents h ++ ((p.bytes h).drop o).take len ∧
      a'.appendBuffer = a.appendBuffer := by
  obtain ⟨q, hq⟩ := Ptr.sub_isSome (raw_isSome hp) hle
  obtain ⟨hqin, hqlen, hqbytes⟩ := hp.1.sub hle hq
  have hpush : a.pushBack q = { a with buffers := a.buffers ++ [q], len := add32 a.len len } := by
    rw [pushBack, if_neg (by omega), hqlen]
  have hspec := ha.pushBack hqin htidy
  rw [hqbytes, hpush] at hspec
  exact ⟨_, by rw [addPart, hq, Option.map_some], hspec⟩

theorem takeParts_eq (hps : ∀ p ∈ ps, p.In h used ∧ 0 < p.len) (htidy : Tidy h used)
    (hsum : (ps.map Ptr.len).sum < 2 ^ 32) (ha : a.Sound h used) (hwithin : Within ps o)
    (hle : o + len ≤ (ps.map Ptr.len).sum) :
    ∃ a', takeParts ps o len a = (a', none) ∧ a'.Sound h used ∧
      a'.contents h = a.contents h ++ ((ps.flatMap (Ptr.bytes h)).drop o).take len ∧
      a'.appendBuffer = a.appendBuffer := by
  induction ps generalizing o len a with
  | nil =>
    rw [List.map_nil, List.sum_nil] at hle
    have hlen : len = 0 := by omega
    exact ⟨a, by rw [takeParts, if_pos hlen], ha, by simp, rfl⟩
  | cons p ps ih =>
    have hp := hps p List.mem_cons_self
    have hps' : ∀ q ∈ ps, q.In h used ∧ 0 < q.len := fun q hq ↦ hps q (List.mem_cons_of_mem p hq)
    rw [List.map_cons, List.sum_cons] at hsum hle
    have ho : o < p.len := by
      rcases hwithin with ⟨hnil, -⟩ | ⟨q, qs, hcons, ho⟩
      · cases hnil
      · cases hcons
        exact ho
    by_cases hlen : len = 0
    · refine ⟨a, by rw [takeParts, if_pos hlen], ha, ?_, rfl⟩
      rw [hlen, List.take_zero, List.append_nil]
    by_cases hin : o + len < p.len
    · obtain ⟨a', hadd, hsound, hcontents, hsame⟩ :=
        addPart_eq ha hp htidy hin.le (Nat.pos_of_ne_zero hlen)
      refine ⟨a', ?_, hsound, ?_, hsame⟩
      · rw [takeParts, if_neg hlen, if_pos (by rwa [add32_of_lt (by omega)]), hadd]
      · rw [hcontents, take_drop_inside hp.1 htidy hin.le]
    · obtain ⟨a', hadd, hsound, hcontents, hsame⟩ :=
        addPart_eq ha hp htidy (show o + (p.len - o) ≤ p.len by omega) (by omega)
      obtain ⟨a'', htake, hsound', hcontents', hsame'⟩ := ih hps' (by omega) hsound
        (within_zero fun q hq ↦ (hps' q hq).2) (show 0 + (len - (p.len - o)) ≤ _ by omega)
      refine ⟨a'', ?_, hsound', ?_, hsame'.trans hsame⟩
      · rw [takeParts, if_neg hlen, if_neg (by rwa [add32_of_lt (by omega)]),
          sub32_of_le (by omega) ho.le, hadd]
        dsimp only
        rw [sub32_of_le (by omega) (by omega), htake]
      · rw [hcontents', hcontents, take_drop_beyond hp.1 htidy ho.le (by omega), List.append_assoc]

/-! ## `splice`

The loop has three things to keep in order, the segments that stay, `_len` and the list that claims,
and the piece in front of the part is put back after it has started. `Lands` says where it starts. -/

/-- The list that claims, if there is one, gets the bytes. -/
inductive Claims (h : Heap) (used : ℕ → ℕ) : Option BufferList → Bytes → Option BufferList → Prop
  | nobody (bs : Bytes) : Claims h used none bs none
  | list {c c' : BufferList} {bs : Bytes} (sound : c'.Sound h used)
    (contents : c'.contents h = c.contents h ++ bs) (same : c'.appendBuffer = c.appendBuffer) :
    Claims h used (some c) bs (some c')

variable {d d' d'' : Option BufferList}

theorem Claims.refl (hd : ∀ c ∈ d, c.Sound h used) : Claims h used d [] d := by
  cases d with
  | none => exact .nobody []
  | some c => exact .list (hd c rfl) (List.append_nil _).symm rfl

theorem Claims.trans {bs bs' : Bytes} (hd : Claims h used d bs d') (hd' : Claims h used d' bs' d'') :
    Claims h used d (bs ++ bs') d'' := by
  cases hd with
  | nobody =>
    cases hd'
    exact .nobody _
  | list sound contents same =>
    cases hd' with
    | list sound' contents' same' =>
      exact .list sound' (by rw [contents', contents, List.append_assoc]) (same'.trans same)

theorem Claims.sound {bs : Bytes} (hd : Claims h used d bs d') : ∀ c ∈ d', c.Sound h used := by
  cases hd with
  | nobody => exact fun _ hc ↦ absurd hc (by simp)
  | list sound =>
    intro c hc
    rw [← Option.some_inj.mp hc]
    exact sound

/-- A list that claims. -/
theorem Claims.of_some {bs : Bytes} (hd : Claims h used (some c) bs d') :
    ∃ c', d' = some c' ∧ c'.Sound h used ∧ c'.contents h = c.contents h ++ bs ∧
      c'.appendBuffer = c.appendBuffer := by
  cases hd with
  | list sound contents same => exact ⟨_, rfl, sound, contents, same⟩

theorem give_eq (hd : ∀ c ∈ d, c.Sound h used) (hp : p.In h used ∧ 0 < p.len) (htidy : Tidy h used)
    (hle : o + len ≤ p.len) :
    ∃ d', give d p o len = .ok d' ∧ Claims h used d (((p.bytes h).drop o).take len) d' := by
  cases d with
  | none => exact ⟨none, rfl, .nobody _⟩
  | some c =>
    obtain ⟨c', happend, hsound, hcontents, hsame⟩ :=
      (hd c rfl).appendSub o len hp.1 htidy (raw_isSome hp) hle
    exact ⟨some c', by rw [give, happend], .list hsound hcontents hsame⟩

/-- What stays of a segment when its beginning is taken out. -/
theorem shorten_spec {k : ℕ} (hp : p.In h used ∧ 0 < p.len) (hk : k < p.len) :
    ({ p with off := k + p.off, len := p.len - k } : Ptr).In h used ∧
      0 < ({ p with off := k + p.off, len := p.len - k } : Ptr).len ∧
      ({ p with off := k + p.off, len := p.len - k } : Ptr).bytes h = (p.bytes h).drop k := by
  refine ⟨⟨fun hnone ↦ ?_, fun r hr ↦ ?_⟩, Nat.sub_pos_of_lt hk, ?_⟩
  · have hzero := hp.1.1 hnone
    omega
  · obtain ⟨hlt, hstop⟩ := hp.1.2 r hr
    refine ⟨hlt, le_trans ?_ hstop⟩
    simp only [Ptr.stop]
    omega
  · cases hr : p.raw with
    | none => simp only [Ptr.bytes, hr, List.drop_nil]
    | some r =>
      simp only [Ptr.bytes, hr]
      rw [List.drop_take, List.drop_drop, Nat.add_comm]

/-- **The loop.** `x` bytes are in the segments before; `_len` counts them too. -/
theorem cut_eq (hps : ∀ p ∈ ps, p.In h used ∧ 0 < p.len) (htidy : Tidy h used)
    (hsum : (ps.map Ptr.len).sum < 2 ^ 32) (hd : ∀ c ∈ d, c.Sound h used) (hwithin : Within ps o)
    (hfits : o + len < 2 ^ 32) {n x : ℕ} (hn : n = (x + (ps.map Ptr.len).sum) % 2 ^ 32)
    (hlen : 0 < len ∨ o = 0) :
    ∃ qs m d', cut ps o len n d = .ok (qs, m, d') ∧ (∀ q ∈ qs, q.In h used ∧ 0 < q.len) ∧
      qs.flatMap (Ptr.bytes h) = (ps.flatMap (Ptr.bytes h)).drop (o + len) ∧
      m = (x + (qs.map Ptr.len).sum) % 2 ^ 32 ∧
      Claims h used d (((ps.flatMap (Ptr.bytes h)).drop o).take len) d' := by
  induction ps generalizing o len n d with
  | nil =>
    refine ⟨[], n, d, by rw [cut], hps, ?_, hn, ?_⟩
    · rw [List.flatMap_nil, List.drop_nil]
    · rw [List.flatMap_nil, List.drop_nil, List.take_nil]
      exact .refl hd
  | cons p ps ih =>
    have hp := hps p List.mem_cons_self
    have hps' : ∀ q ∈ ps, q.In h used ∧ 0 < q.len := fun q hq ↦ hps q (List.mem_cons_of_mem p hq)
    rw [List.map_cons, List.sum_cons] at hsum hn
    have ho : o < p.len := by
      rcases hwithin with ⟨hnil, -⟩ | ⟨q, qs, hcons, ho⟩
      · cases hnil
      · cases hcons
        exact ho
    -- nothing is to be cut any more, so that the place is at the beginning of a segment
    by_cases hzero : len = 0
    · have ho' : o = 0 := hlen.resolve_left (by omega)
      refine ⟨p :: ps, n, d, by rw [cut, if_pos hzero], hps, ?_, ?_, ?_⟩
      · rw [hzero, ho', Nat.add_zero, List.drop_zero]
      · rw [List.map_cons, List.sum_cons, hn]
      · rw [hzero, List.take_zero]
        exact .refl hd
    -- the cut ends inside the segment, or takes it to its end and goes on behind
    by_cases hin : o + len < p.len
    · have hswap : add32 len o = o + len := by rw [add32_of_lt (by omega), Nat.add_comm]
      obtain ⟨d', hgive, hclaims⟩ := give_eq hd hp htidy hin.le
      obtain ⟨hqin, hqpos, hqbytes⟩ := shorten_spec hp hin
      refine ⟨{ p with off := o + len + p.off, len := p.len - (o + len) } :: ps, sub32 n (o + len), d', ?_,
        ?_, ?_, ?_, ?_⟩
      · rw [cut, if_neg hzero, add32_of_lt hfits, if_pos hin, hgive, Except.map, hswap,
          sub32_of_le (by omega) hin.le]
      · intro q hq
        rcases List.mem_cons.mp hq with rfl | hq
        · exact ⟨hqin, hqpos⟩
        · exact hps' q hq
      · rw [List.flatMap_cons, hqbytes, drop_flatMap_cons hp.1 htidy hin.le]
      · rw [List.map_cons, List.sum_cons, hn, sub32]
        dsimp only
        omega
      · rw [take_drop_inside hp.1 htidy hin.le]
        exact hclaims
    · obtain ⟨d', hgive, hclaims⟩ := give_eq hd hp htidy (show o + (p.len - o) ≤ p.len by omega)
      obtain ⟨qs, m, d'', hcut, hqs, hbytes, hm, hclaims'⟩ := ih (n := sub32 n p.len) hps' (by omega)
        hclaims.sound (within_zero fun q hq ↦ (hps' q hq).2)
        (show 0 + (len - (p.len - o)) < 2 ^ 32 by omega) (by rw [hn, sub32]; omega) (.inr rfl)
      refine ⟨qs, m, d'', ?_, hqs, ?_, hm, ?_⟩
      · rw [cut, if_neg hzero, add32_of_lt hfits, if_neg hin, sub32_of_le (by omega) ho.le, hgive,
          Except.bind, sub32_of_le (by omega) (by omega), hcut]
      · rw [hbytes, drop_beyond hp.1 htidy ho.le (by omega)]
      · rw [take_drop_beyond hp.1 htidy ho.le (by omega)]
        exact hclaims.trans hclaims'

/-- The piece in front of the place. -/
theorem frontBit_eq (htidy : Tidy h used) (hps : ∀ p ∈ ps, p.In h used ∧ 0 < p.len) (hwithin : Within ps o) :
    ∃ front, frontBit ps o = .ok front ∧ (∀ p ∈ front, p.In h used ∧ 0 < p.len) ∧
      (front.map Ptr.len).sum = o ∧
      front.flatMap (Ptr.bytes h) = (ps.flatMap (Ptr.bytes h)).take o := by
  by_cases hzero : o = 0
  · refine ⟨[], by rw [frontBit.eq_def, if_pos hzero], fun _ hq ↦ absurd hq List.not_mem_nil, hzero.symm, ?_⟩
    rw [hzero, List.take_zero]
    rfl
  rcases hwithin with ⟨-, ho⟩ | ⟨p, qs, rfl, ho⟩
  · exact absurd ho hzero
  have hp := hps p List.mem_cons_self
  obtain ⟨q, hq⟩ := Ptr.sub_isSome (o := 0) (l := o) (raw_isSome hp) (by omega)
  obtain ⟨hqin, hqlen, hqbytes⟩ := hp.1.sub (by omega) hq
  refine ⟨[q], ?_, fun x hx ↦ ?_, by simp [hqlen], ?_⟩
  · rw [frontBit, if_neg hzero, hq]
  · rw [List.mem_singleton.mp hx]
    exact ⟨hqin, by omega⟩
  · have hlen := hp.1.length_bytes htidy
    rw [List.flatMap_singleton, hqbytes, List.drop_zero, List.flatMap_cons,
      List.take_append_of_le_length (by omega)]

/-- Byte `off` of a list is at `o` in the first segment of `rest`. -/
structure Lands (h : Heap) (used : ℕ → ℕ) (b : BufferList) (off : ℕ) (before rest : List Ptr) (o : ℕ) :
    Prop where
  split : b.buffers = before ++ rest
  segment_before : ∀ p ∈ before, p.In h used ∧ 0 < p.len
  segment_rest : ∀ p ∈ rest, p.In h used ∧ 0 < p.len
  off_eq : off = (before.map Ptr.len).sum + o
  within : Within rest o

theorem Sound.lands (hb : b.Sound h used) (past : Halt) {off : ℕ}
    (hle : off ≤ (b.buffers.map Ptr.len).sum) :
    ∃ before rest o, skip past b.buffers off = .ok (before, rest, o) ∧
      Lands h used b off before rest o := by
  obtain ⟨before, rest, o, hskip, hsplit, hoff, hwithin⟩ :=
    skip_eq past (fun p hp ↦ (hb.segment p hp).2) hle
  exact ⟨before, rest, o, hskip, hsplit,
    fun p hp ↦ hb.segment p (hsplit ▸ List.mem_append_left rest hp),
    fun p hp ↦ hb.segment p (hsplit ▸ List.mem_append_right before hp), hoff, hwithin⟩

section Lands

variable {off : ℕ} {before rest : List Ptr}

theorem Lands.contents_eq (hb : Lands h used b off before rest o) :
    b.contents h = before.flatMap (Ptr.bytes h) ++ rest.flatMap (Ptr.bytes h) := by
  rw [contents, hb.split, List.flatMap_append]

theorem Lands.off_eq_length (hb : Lands h used b off before rest o) (htidy : Tidy h used) :
    off = (before.flatMap (Ptr.bytes h)).length + o := by
  rw [length_flatMap_bytes hb.segment_before htidy, hb.off_eq]

theorem Lands.sum_eq (hb : Lands h used b off before rest o) :
    (b.buffers.map Ptr.len).sum = (before.map Ptr.len).sum + (rest.map Ptr.len).sum := by
  rw [hb.split, List.map_append, List.sum_append]

theorem Lands.drop_eq (hb : Lands h used b off before rest o) (htidy : Tidy h used) :
    (b.contents h).drop off = (rest.flatMap (Ptr.bytes h)).drop o := by
  rw [hb.contents_eq, hb.off_eq_length htidy, List.drop_length_add_append]

theorem Lands.take_eq (hb : Lands h used b off before rest o) (htidy : Tidy h used) :
    (b.contents h).take off = before.flatMap (Ptr.bytes h) ++ (rest.flatMap (Ptr.bytes h)).take o := by
  rw [hb.contents_eq, hb.off_eq_length htidy, List.take_length_add_append]

end Lands

/-- The segment of the byte at `off`, and the place in it. -/
def inner (ps : List Ptr) (off : ℕ) : ℕ :=
  match skip .assertion ps off with
  | .ok (_, _, o) => o
  | .error _ => 0

/-- **`splice`**, as long as the sum of the place in the segment and the length does not overflow. -/
theorem splice_eq (hb : b.Sound h used) (htidy : Tidy h used)
    (hsum : (b.buffers.map Ptr.len).sum < 2 ^ 32) (hd : ∀ c ∈ d, c.Sound h used) {off : ℕ}
    (hpos : 0 < len) (hoff : off < (b.buffers.map Ptr.len).sum)
    (hfits : inner b.buffers off + len < 2 ^ 32) :
    ∃ b' d', b.splice off len d = .ok (b', d') ∧ b'.Sound h used ∧
      b'.contents h = (b.contents h).take off ++ (b.contents h).drop (off + len) ∧
      b'.appendBuffer = b.appendBuffer ∧ Claims h used d (((b.contents h).drop off).take len) d' := by
  obtain ⟨before, rest, o, hskip, hlands⟩ := hb.lands .assertion hoff.le
  have hlen := hb.len
  have ho := hlands.off_eq
  rw [hlands.sum_eq] at hsum hlen hoff
  rw [inner, hskip] at hfits
  obtain ⟨front, hfront, hfronts, hfrontLen, hfrontBytes⟩ :=
    frontBit_eq htidy hlands.segment_rest hlands.within
  obtain ⟨qs, m, d', hcut, hqs, hqbytes, hm, hclaims⟩ := cut_eq hlands.segment_rest htidy (by omega) hd
    hlands.within hfits (n := add32 b.len o) (x := (before.map Ptr.len).sum + o)
    (by rw [hlen, add32]; omega) (.inl hpos)
  refine ⟨{ b with buffers := before ++ front ++ qs, len := m }, d', ?_, ⟨fun p hp ↦ ?_, ?_⟩, ?_, rfl, ?_⟩
  · rw [splice, if_neg (by omega), if_neg (by omega), hskip]
    show (frontBit rest o).bind _ = _
    rw [hfront, Except.bind, hcut]
    rfl
  · rcases List.mem_append.mp hp with hp | hp
    · exact (List.mem_append.mp hp).elim (hlands.segment_before p) (hfronts p)
    · exact hqs p hp
  · rw [hm, List.map_append, List.map_append, List.sum_append, List.sum_append, hfrontLen]
  · rw [hlands.take_eq htidy, ← List.drop_drop, hlands.drop_eq htidy, List.drop_drop, contents,
      List.flatMap_append, List.flatMap_append, hfrontBytes, hqbytes]
  · rw [hlands.drop_eq htidy]
    exact hclaims

theorem inner_le (hb : b.Sound h used) {off : ℕ} (hle : off ≤ (b.buffers.map Ptr.len).sum) :
    inner b.buffers off ≤ off := by
  obtain ⟨before, rest, o, hskip, hlands⟩ := hb.lands .assertion hle
  have ho := hlands.off_eq
  rw [inner, hskip]
  show o ≤ off
  omega

/-- **`splice`** within the list. -/
theorem splice_within (hb : b.Sound h used) (htidy : Tidy h used)
    (hsum : (b.buffers.map Ptr.len).sum < 2 ^ 32) (hd : ∀ c ∈ d, c.Sound h used) {off : ℕ}
    (hle : off + len ≤ (b.buffers.map Ptr.len).sum) :
    ∃ b' d', b.splice off len d = .ok (b', d') ∧ b'.Sound h used ∧
      b'.contents h = (b.contents h).take off ++ (b.contents h).drop (off + len) ∧
      b'.appendBuffer = b.appendBuffer ∧ Claims h used d (((b.contents h).drop off).take len) d' := by
  obtain rfl | hpos := Nat.eq_zero_or_pos len
  · refine ⟨b, d, by rw [splice, if_pos rfl], hb, ?_, rfl, ?_⟩
    · rw [Nat.add_zero, List.take_append_drop]
    · rw [List.take_zero]
      exact .refl hd
  · have hinner : inner b.buffers off ≤ off := inner_le hb (by omega)
    exact splice_eq hb htidy hsum hd hpos (by omega) (by omega)

/-- **`substr_of`** within the list. -/
theorem substrOf_eq (a : BufferList) (hb : b.Sound h used) (htidy : Tidy h used)
    (hsum : (b.buffers.map Ptr.len).sum < 2 ^ 32) {off : ℕ}
    (hle : off + len ≤ (b.buffers.map Ptr.len).sum) :
    ∃ a', a.substrOf b off len = (a', none) ∧ a'.Sound h used ∧
      a'.contents h = ((b.contents h).drop off).take len ∧ a'.appendBuffer = a.appendBuffer := by
  obtain ⟨before, rest, o, hskip, hlands⟩ := hb.lands .stray (Nat.le_of_add_right_le hle)
  have hlen := hb.len
  have ho := hlands.off_eq
  rw [hlands.sum_eq] at hsum hlen hle
  have hclear : a.clear.Sound h used := ⟨fun _ hp ↦ absurd hp List.not_mem_nil, rfl⟩
  obtain ⟨a', htake, hsound, hcontents, hsame⟩ :=
    takeParts_eq hlands.segment_rest htidy (by omega) hclear hlands.within
      (show o + len ≤ _ by omega)
  refine ⟨a', ?_, hsound, ?_, hsame⟩
  · have hsome : ¬(len ≠ 0 ∧ rest = []) := by
      rintro ⟨hne, rfl⟩
      rw [List.map_nil, List.sum_nil] at hle
      omega
    rw [substrOf, if_neg (by rw [add32, hlen]; omega), hskip]
    dsimp only
    rw [if_neg hsome, htake]
  · have hnil : a.clear.contents h = [] := rfl
    rw [hcontents, hnil, List.nil_append, hlands.drop_eq htidy]

end BufferList

/-! ## Among other lists

The functions on a heap that other lists share. `Proper` is what a list has to be for its bytes to
be spoken of. -/

namespace Buffer

/-- How long a raw buffer is. -/
def Heap.extent (h : Heap) (r : ℕ) : ℕ := (h.bytes r).length

theorem tidy_extent (h : Heap) : Tidy h h.extent := fun _ _ ↦ le_rfl

end Buffer

namespace BufferList

/-- No segment is empty or goes beyond its raw buffer, and `_len` is the sum of their lengths. -/
structure Proper (h : Heap) (l : BufferList) : Prop where
  segment : ∀ p ∈ l.buffers, p.In h h.extent ∧ 0 < p.len
  len : l.len = (l.buffers.map Ptr.len).sum
  lt : l.len < 2 ^ 32

variable {h : Heap} {l : BufferList}

theorem Proper.sum_lt (hl : l.Proper h) : (l.buffers.map Ptr.len).sum < 2 ^ 32 := hl.len ▸ hl.lt

theorem Proper.sound (hl : l.Proper h) : l.Sound h h.extent :=
  ⟨hl.segment, by rw [Nat.mod_eq_of_lt hl.sum_lt, hl.len]⟩

theorem Proper.length_contents (hl : l.Proper h) : (l.contents h).length = l.len :=
  (hl.sound.length_contents (tidy_extent h)).trans hl.len.symm

/-- A sound list is proper unless it is too long. -/
theorem Sound.proper (hl : l.Sound h h.extent) (hlt : (l.contents h).length < 2 ^ 32) : l.Proper h := by
  rw [hl.length_contents (tidy_extent h)] at hlt
  have hlen := hl.len
  rw [Nat.mod_eq_of_lt hlt] at hlen
  exact ⟨hl.segment, hlen, hlen ▸ hlt⟩

end BufferList

namespace BufferWorld

open BufferList

/-- `a.substr_of(b, off, len)`. -/
def substrOf (w : BufferWorld) (a b off len : ℕ) : BufferWorld × Option Halt :=
  let x := (w.lists a).substrOf (w.lists b) off len
  (w.put a (w.heap, x.1), x.2)

/-- `b.splice(off, len, &c)`. -/
def splice (w : BufferWorld) (b off len c : ℕ) : Except Halt BufferWorld :=
  ((w.lists b).splice off len (some (w.lists c))).map fun x ↦
    (w.put b (w.heap, x.1)).put c (w.heap, x.2.getD (w.lists c))

/-- Every list keeps to its invariant. -/
def Proper (w : BufferWorld) : Prop := ∀ n, (w.lists n).Proper w.heap

/-- **The two functions on byte strings**: `a` becomes the part of `b`; the part goes from `b` to the end
of `c`. All other strings stay as they are. -/
def Slices (w : BufferWorld) (a b off len c : ℕ) : Prop :=
  let part := ((w.strings.lists b).drop off).take len
  (∃ w', w.substrOf a b off len = (w', none) ∧ w'.Proper ∧ w'.strings = w.strings.set a part) ∧
    ∃ w', w.splice b off len c = .ok w' ∧ w'.Proper ∧
      w'.strings = (w.strings.set b ((w.strings.lists b).take off ++
        (w.strings.lists b).drop (off + len))).set c (w.strings.lists c ++ part)

variable {w : BufferWorld} {n : ℕ} {l : BufferList}

theorem Proper.put (hw : w.Proper) (hl : l.Proper w.heap) : (w.put n (w.heap, l)).Proper := by
  intro k
  by_cases hk : k = n
  · rw [hk]
    show (Function.update w.lists n l n).Proper w.heap
    rwa [Function.update_self]
  · show (Function.update w.lists n l k).Proper w.heap
    rw [Function.update_of_ne hk]
    exact hw k

theorem strings_put (w : BufferWorld) (n : ℕ) (l : BufferList) :
    (w.put n (w.heap, l)).strings = w.strings.set n (l.contents w.heap) := by
  refine Strings.ext (funext fun k ↦ ?_) rfl
  simp only [strings, BufferWorld.put, Strings.set, Function.update_apply]
  split_ifs <;> rfl

variable {a b c off len : ℕ}

theorem substrOf_exact (hw : w.Proper) (a : ℕ) (hle : off + len ≤ (w.lists b).len) :
    ∃ w', w.substrOf a b off len = (w', none) ∧ w'.Proper ∧
      w'.strings = w.strings.set a (((w.strings.lists b).drop off).take len) := by
  obtain ⟨a', hsubstr, hsound, hcontents, -⟩ := substrOf_eq (w.lists a) (hw b).sound
    (tidy_extent w.heap) (hw b).sum_lt (show off + len ≤ _ from (hw b).len ▸ hle)
  have hproper : a'.Proper w.heap := by
    apply hsound.proper
    have hlen := (hw b).length_contents
    have hlt := (hw b).lt
    rw [hcontents, List.length_take, List.length_drop]
    omega
  refine ⟨w.put a (w.heap, a'), by rw [substrOf, hsubstr], hw.put hproper, ?_⟩
  rw [strings_put, hcontents]
  rfl

theorem splice_exact (hw : w.Proper) (hle : off + len ≤ (w.lists b).len)
    (hc : (w.lists c).len + len < 2 ^ 32) :
    ∃ w', w.splice b off len c = .ok w' ∧ w'.Proper ∧
      w'.strings = (w.strings.set b ((w.strings.lists b).take off ++
        (w.strings.lists b).drop (off + len))).set c
          (w.strings.lists c ++ ((w.strings.lists b).drop off).take len) := by
  obtain ⟨b', d', hsplice, hsound, hcontents, -, hclaims⟩ :=
    splice_within (d := some (w.lists c)) (hw b).sound (tidy_extent w.heap) (hw b).sum_lt
      (fun x hx ↦ Option.some_inj.mp hx ▸ (hw c).sound)
      (show off + len ≤ _ from (hw b).len ▸ hle)
  have hlenb := (hw b).length_contents
  have hlenc := (hw c).length_contents
  have hltb := (hw b).lt
  obtain ⟨c', rfl, hsound', hcontents', -⟩ := hclaims.of_some
  have hb' : b'.Proper w.heap := by
    apply hsound.proper
    rw [hcontents, List.length_append, List.length_take, List.length_drop]
    omega
  have hc' : c'.Proper w.heap := by
    apply hsound'.proper
    rw [hcontents', List.length_append, List.length_take, List.length_drop]
    omega
  refine ⟨(w.put b (w.heap, b')).put c (w.heap, c'), by rw [splice, hsplice]; rfl,
    (hw.put hb').put hc', ?_⟩
  have hput : ((w.put b (w.heap, b')).put c (w.heap, c')).strings =
      (w.put b (w.heap, b')).strings.set c (c'.contents w.heap) := strings_put ..
  rw [hput, strings_put, hcontents, hcontents']
  rfl

/-- Otherwise `_len` of the list that claims is less than the list is long. -/
theorem not_slices (hw : w.Proper) (hle : off + len ≤ (w.lists b).len)
    (hc : 2 ^ 32 ≤ (w.lists c).len + len) : ¬w.Slices a b off len c := by
  rintro ⟨-, w', -, hproper, hstrings⟩
  have hlist : (w'.lists c).contents w'.heap = w.strings.lists c ++
      ((w.strings.lists b).drop off).take len := by
    have hc := congrArg (fun s ↦ s.lists c) hstrings
    simp only [Strings.set, Function.update_self] at hc
    exact hc
  have hlen := congrArg List.length hlist
  have hlenb := (hw b).length_contents
  have hlenc := (hw c).length_contents
  have hlt := (hproper c).lt
  rw [(hproper c).length_contents, List.length_append, List.length_take, List.length_drop] at hlen
  simp only [strings] at hlen
  omega

/-- **Slicing is exact**, as long as `_len` can say how long the list is that the part is appended to. -/
theorem slices_iff (hw : w.Proper) (_hab : a ≠ b) (_hbc : b ≠ c) (hle : off + len ≤ (w.lists b).len) :
    w.Slices a b off len c ↔ (w.lists c).len + len < 2 ^ 32 := by
  constructor
  · intro hslices
    by_contra hc
    exact not_slices hw hle (Nat.not_lt.mp hc) hslices
  · intro hc
    exact ⟨substrOf_exact hw a hle, splice_exact hw hle hc⟩

/-- List 1 has two segments in one raw buffer of five bytes. -/
def twoSegments : BufferWorld where
  heap := [{ bytes := [1, 2, 3, 4, 5] }]
  lists n := if n = 1 then
      { buffers := [{ raw := some 0, len := 2 }, { raw := some 0, off := 2, len := 3 }], len := 5 }
    else {}

theorem proper_empty (h : Heap) : ({} : BufferList).Proper h :=
  ⟨fun _ hp ↦ absurd hp List.not_mem_nil, rfl, by decide⟩

theorem proper_twoSegments : twoSegments.Proper := by
  intro n
  by_cases hn : n = 1
  · rw [hn]
    refine ⟨fun p hp ↦ ?_, rfl, by decide⟩
    rcases List.mem_cons.mp hp with rfl | hp
    · exact ⟨⟨by rintro ⟨⟩, by rintro r ⟨⟩; decide⟩, by decide⟩
    · rw [List.mem_singleton.mp hp]
      exact ⟨⟨by rintro ⟨⟩, by rintro r ⟨⟩; decide⟩, by decide⟩
  · show (if n = 1 then _ else {} : BufferList).Proper _
    rw [if_neg hn]
    exact proper_empty _

theorem slices_twoSegments : twoSegments.Slices 0 1 1 3 2 :=
  (slices_iff proper_twoSegments (by decide) (by decide) (by decide)).mpr (by decide)

/-- List 1 has one byte, and list 2 has `2 ^ 32 - 1`: the same raw buffer 65537 times. -/
def manySegments : BufferWorld where
  heap := [{ bytes := List.replicate 65535 0 }]
  lists n :=
    if n = 1 then { buffers := [{ raw := some 0, len := 1 }], len := 1 }
    else if n = 2 then
      { buffers := List.replicate 65537 { raw := some 0, len := 65535 }, len := 4294967295 }
    else {}

/-- One byte more, and `_len` is 0. -/
theorem splice_overflows : ¬∀ (w : BufferWorld) (a b c off len : ℕ), w.Proper → a ≠ b → b ≠ c →
    off + len ≤ (w.lists b).len → w.Slices a b off len c := by
  have hin (p : Ptr) (hp : p.raw = some 0 ∧ p.stop ≤ 65535) :
      p.In manySegments.heap manySegments.heap.extent := by
    refine ⟨fun hnone ↦ absurd (hp.1.symm.trans hnone) (by simp), fun r hr ↦ ?_⟩
    obtain rfl := Option.some_inj.mp (hp.1.symm.trans hr)
    have hextent : manySegments.heap.extent 0 = 65535 := List.length_replicate
    exact ⟨Nat.zero_lt_one, hextent ▸ hp.2⟩
  have hproper : manySegments.Proper := by
    intro n
    by_cases hone : n = 1
    · rw [hone]
      refine ⟨fun p hp ↦ ?_, rfl, by decide⟩
      rw [List.mem_singleton.mp hp]
      exact ⟨hin _ ⟨rfl, by decide⟩, by decide⟩
    · by_cases htwo : n = 2
      · rw [htwo]
        refine ⟨fun p hp ↦ ?_, ?_, by decide⟩
        · rw [List.eq_of_mem_replicate hp]
          exact ⟨hin _ ⟨rfl, by decide⟩, by decide⟩
        · show 4294967295 = ((List.replicate 65537 _).map Ptr.len).sum
          rw [List.map_replicate, List.sum_replicate_nat]
          rfl
      · show (if n = 1 then _ else if n = 2 then _ else {} : BufferList).Proper _
        rw [if_neg hone, if_neg htwo]
        exact proper_empty _
  intro hall
  exact not_slices hproper (by decide) (by decide) (hall manySegments 0 1 2 0 1 hproper (by decide)
    (by decide) (by decide))

end BufferWorld

end AsyncMessenger
