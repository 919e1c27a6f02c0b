import AsyncMessenger.Encoding

/-!
# The wire format

The wire format is a function from values to bytes, `Ty.wire`. Every encoder writes it and every decoder
reads it, as far as the 32-bit arithmetic of the iterators goes: a string or a buffer list of `2^31`
bytes cannot be read from one segment, the number of elements of a `std::list` cannot be patched at an
offset from `2^31` on, and nothing, not even an empty string, can be read at the end of a list that long.

Of each type it is known how its decoder may end: it reads the value, it chokes, or it finds too
little. `Medium` of the library on reading says what a text has to offer for that; a buffer list is
one, with a limit, and a flat text is another.
-/

namespace AsyncMessenger

open Reading Iter

/-! ## The wire format -/

/-- A length or a number of elements. -/
def u32 (n : ℕ) : Bytes := LittleEndian.encode 4 n

@[simp] theorem length_u32 (n : ℕ) : (u32 n).length = 4 := LittleEndian.length_encode 4 n

theorem u32_ne_nil (n : ℕ) : u32 n ≠ [] := List.ne_nil_of_length_pos (by rw [length_u32]; omega)

/-- A string or a buffer list: its length, and its bytes. -/
def wireBytes (s : Bytes) : Bytes := u32 s.length ++ s

/-- A container: the number of its elements, and the elements. -/
def wireSized {α : Type} (wire : α → Bytes) (xs : List α) : Bytes := u32 xs.length ++ xs.flatMap wire

/-- A pair: its parts. -/
def wirePair {α β : Type} (wire : α → Bytes) (wire' : β → Bytes) (x : α × β) : Bytes :=
  wire x.1 ++ wire' x.2

/-- All elements of a container satisfy something. -/
def AllOf {α : Type} (P : α → Prop) (xs : List α) : Prop := ∀ x ∈ xs, P x

/-- There is a last element, and it satisfies something. -/
def LastOf {α : Type} (P : α → Prop) (xs : List α) : Prop := ∃ x ∈ xs.getLast?, P x

/-- Both parts of a pair satisfy something. -/
def BothOf {α β : Type} (P : α → Prop) (Q : β → Prop) (x : α × β) : Prop := P x.1 ∧ Q x.2

/-- Every element satisfies something at the offset where its bytes begin. -/
def EachAt {α : Type} (P : α → ℕ → Prop) (wire : α → Bytes) : List α → ℕ → Prop
  | [], _ => True
  | x :: xs, o => P x o ∧ EachAt P wire xs (o + (wire x).length)

/-- Both parts of a pair satisfy something at the offset where their bytes begin. -/
def BothAt {α β : Type} (P : α → ℕ → Prop) (Q : β → ℕ → Prop) (wire : α → Bytes) (x : α × β) (o : ℕ) :
    Prop :=
  P x.1 o ∧ Q x.2 (o + (wire x.1).length)

/-- What a container of elements requires of their order. -/
def Sequence.Ordered {α : Type} (lt : α → α → Bool) (xs : List α) : Sequence → Prop
  | set => xs.Pairwise fun x y ↦ lt x y = true
  | multiset => xs.Pairwise fun x y ↦ lt y x = false
  | _ => True

/-- What a container of keys and values requires of the order of its keys. -/
def Mapping.Ordered {α β : Type} (lt : α → α → Bool) (m : List (α × β)) : Mapping → Prop
  | map => m.Pairwise fun x y ↦ lt x.1 y.1 = true
  | multimap => m.Pairwise fun x y ↦ lt y.1 x.1 = false

namespace Ty

/-- The bytes of a value. -/
def wire : (t : Ty) → t.Val Bytes → Bytes
  | int k, v => LittleEndian.encode k.width (BitVec.toNat v)
  | bool, v => LittleEndian.encode 1 (Bool.toNat v)
  | string, s => wireBytes s
  | bufferlist, s => wireBytes s
  | pair a b, v => wirePair a.wire b.wire v
  | seq _ t, xs => wireSized t.wire xs
  | assoc _ k v, m => wireSized (wirePair k.wire v.wire) m

/-- The value is one of C++: the containers are in order, and all sizes are below `2^32`. -/
def Wf : (t : Ty) → t.Val Bytes → Prop
  | int _, _ => True
  | bool, _ => True
  | string, s => List.length s < 2 ^ 32
  | bufferlist, s => List.length s < 2 ^ 32
  | pair a b, v => BothOf a.Wf b.Wf v
  | seq c t, xs => List.length xs < 2 ^ 32 ∧ c.Ordered t.lt xs ∧ AllOf t.Wf xs
  | assoc c k v, m => List.length m < 2 ^ 32 ∧ c.Ordered k.lt m ∧ AllOf (BothOf k.Wf v.Wf) m

/-- Every string and every buffer list inside is shorter than `2^31` bytes. -/
def Light : (t : Ty) → t.Val Bytes → Prop
  | int _, _ => True
  | bool, _ => True
  | string, s => List.length s < 2 ^ 31
  | bufferlist, s => List.length s < 2 ^ 31
  | pair a b, v => BothOf a.Light b.Light v
  | seq _ t, xs => AllOf t.Light xs
  | assoc _ k v, m => AllOf (BothOf k.Light v.Light) m

/-- The last thing inside is an empty string or an empty buffer list. -/
def EndsEmpty : (t : Ty) → t.Val Bytes → Prop
  | int _, _ => False
  | bool, _ => False
  | string, s => s = ([] : Bytes)
  | bufferlist, s => s = ([] : Bytes)
  | pair _ b, v => b.EndsEmpty (Prod.snd v)
  | seq _ t, xs => LastOf t.EndsEmpty xs
  | assoc _ _ v, m => LastOf (fun e ↦ v.EndsEmpty e.2) m

/-- Every non-empty `std::list` inside begins below `2^31`, if the value begins at the offset. -/
def ListsLow : (t : Ty) → t.Val Bytes → ℕ → Prop
  | int _, _ => fun _ ↦ True
  | bool, _ => fun _ ↦ True
  | string, _ => fun _ ↦ True
  | bufferlist, _ => fun _ ↦ True
  | pair a b, v => BothAt a.ListsLow b.ListsLow a.wire v
  | seq c t, xs => fun o ↦
    (c = .list → xs ≠ ([] : List (t.Val Bytes)) → o < 2 ^ 31) ∧ EachAt t.ListsLow t.wire xs (o + 4)
  | assoc _ k v, m => fun o ↦
    EachAt (BothAt k.ListsLow v.ListsLow k.wire) (wirePair k.wire v.wire) m (o + 4)

theorem wire_ne_nil (t : Ty) (x : t.Val Bytes) : t.wire x ≠ [] := by
  induction t with
  | int k =>
    apply List.ne_nil_of_length_pos
    rw [wire, LittleEndian.length_encode]
    cases k <;> decide
  | bool => exact List.cons_ne_nil _ _
  | string => exact List.append_ne_nil_of_left_ne_nil (u32_ne_nil _) _
  | bufferlist => exact List.append_ne_nil_of_left_ne_nil (u32_ne_nil _) _
  | pair a b iha ihb => exact List.append_ne_nil_of_left_ne_nil (iha x.1) _
  | seq c t => exact List.append_ne_nil_of_left_ne_nil (u32_ne_nil _) _
  | assoc c k v => exact List.append_ne_nil_of_left_ne_nil (u32_ne_nil _) _

end Ty

/-! ## Decoders read the wire format

By recursion on the type. The lemmas for sequences and maps are about any decoder for their
elements. -/

theorem reads_decodeInt (width n : ℕ) (hpos : 0 < width) (hsmall : width < 2 ^ 31)
    (hn : n < 256 ^ width) :
    Reads medium (decodeInt width) (LittleEndian.encode width n) n False := by
  have hlen : (LittleEndian.encode width n).length = width := LittleEndian.length_encode width n
  have hcopy := reads_copyWith true (LittleEndian.encode width n) (by rw [hlen]; exact hsmall)
  rw [hlen] at hcopy
  have hvalue := LittleEndian.decode_encode_of_lt hn
  refine (hcopy.bind_pure (f := fun bs ↦ pure (LittleEndian.decode bs)) (by rw [hvalue])).of_iff ?_
  refine iff_false_intro fun hnil ↦ ?_
  rw [hnil] at hlen
  exact absurd hlen hpos.ne

theorem reads_u32 {n : ℕ} (hn : n < 2 ^ 32) : Reads medium (decodeInt 4) (u32 n) n False :=
  reads_decodeInt 4 n (by decide) (by decide) (by rwa [show 256 ^ 4 = 2 ^ 32 by decide])

theorem reads_decodeBytes {s : Bytes} (hs : s.length < 2 ^ 31) :
    Reads medium decodeBytes (wireBytes s) s (s = []) :=
  ((reads_u32 (by omega)).bind (reads_copyWith false s hs)).of_iff (by simp)

theorem chokes_decodeBytes {s : Bytes} (hs : 2 ^ 31 ≤ s.length) (hlt : s.length < 2 ^ 32) :
    Chokes medium decodeBytes (wireBytes s) :=
  Chokes.bind_right (reads_u32 hlt).toReturns (chokes_copyWith false s hs)

section Containers

variable {α β : Type} {lt : α → α → Bool}

theorem insertUnique_of_lt {x : α} {xs : List α} (h : ∀ y ∈ xs, lt y x = true) :
    insertUnique lt x xs = xs ++ [x] := by
  induction xs with
  | nil => rfl
  | cons y ys ih =>
    rw [insertUnique, if_pos (h y List.mem_cons_self),
      ih fun z hz ↦ h z (List.mem_cons_of_mem y hz), List.cons_append]

theorem insertMulti_of_not_lt {x : α} {xs : List α} (h : ∀ y ∈ xs, lt x y = false) :
    insertMulti lt x xs = xs ++ [x] := by
  induction xs with
  | nil => rfl
  | cons y ys ih =>
    rw [insertMulti, h y List.mem_cons_self, if_neg Bool.false_ne_true,
      ih fun z hz ↦ h z (List.mem_cons_of_mem y hz), List.cons_append]

theorem assign_of_lt {k : α} {v : β} {m : List (α × β)} (h : ∀ e ∈ m, lt e.1 k = true) :
    assign lt k v m = m ++ [(k, v)] := by
  induction m with
  | nil => rfl
  | cons e m ih =>
    rw [assign, if_pos (h e List.mem_cons_self), ih fun d hd ↦ h d (List.mem_cons_of_mem e hd),
      List.cons_append]

variable {fresh : α} {decode : α → Decode α} {prev pre post : List α} {x : α} {bs : Bytes}
  {hollow : Prop} {c : Sequence}

/-- One round of the loop adds the element behind the others. -/
theorem reads_seqStep (hordered : c.Ordered lt (pre ++ x :: post))
    (hreads : ∀ prev, Reads medium (decode prev) bs x hollow) :
    Reads medium (c.decodeStep lt fresh decode prev pre) bs (pre ++ [x]) hollow := by
  have hlast {R : α → α → Prop} (hpairs : (pre ++ x :: post).Pairwise R) : ∀ y ∈ pre, R y x :=
    fun y hy ↦ (List.pairwise_append.mp hpairs).2.2 y hy x List.mem_cons_self
  cases c with
  | list => exact (hreads fresh).bind_pure rfl
  | deque => exact (hreads fresh).bind_pure rfl
  | vector => exact (hreads _).bind_pure rfl
  | set => exact (hreads fresh).bind_pure (congrArg pure (insertUnique_of_lt (hlast hordered)))
  | multiset =>
    exact (hreads fresh).bind_pure (congrArg pure (insertMulti_of_not_lt (hlast hordered)))

theorem chokes_seqStep (hchokes : ∀ prev, Chokes medium (decode prev) bs) :
    Chokes medium (c.decodeStep lt fresh decode prev pre) bs := by
  cases c <;> exact Chokes.bind_pure (hchokes _)

variable {freshKey : α} {freshVal : β} {decodeKey : α → Decode α} {decodeVal : β → Decode β}
  {before after : List (α × β)} {e : α × β} {wire : α → Bytes} {wire' : β → Bytes} {h h' : Prop}
  {d : Mapping}

/-- One round of the loop adds the key and its value behind the others. -/
theorem reads_mapStep (hordered : d.Ordered lt (before ++ e :: after))
    (hkey : ∀ prev, Reads medium (decodeKey prev) (wire e.1) e.1 h)
    (hval : ∀ prev, Reads medium (decodeVal prev) (wire' e.2) e.2 h') (hne : wire' e.2 ≠ []) :
    Reads medium (d.decodeStep lt freshKey freshVal decodeKey decodeVal before) (wirePair wire wire' e)
      (before ++ [e]) h' := by
  have hlast {R : α × β → α × β → Prop} (hpairs : (before ++ e :: after).Pairwise R) :
      ∀ y ∈ before, R y e :=
    fun y hy ↦ (List.pairwise_append.mp hpairs).2.2 y hy e List.mem_cons_self
  cases d with
  | map =>
    exact (hkey freshKey).bind_of_ne_nil
      ((hval _).bind_pure (congrArg pure (assign_of_lt (hlast hordered)))) hne
  | multimap =>
    exact (hkey freshKey).bind_of_ne_nil
      ((hval _).bind_pure (congrArg pure (insertMulti_of_not_lt (hlast hordered)))) hne

theorem chokes_mapStep (hchokes : (∀ prev, Chokes medium (decodeKey prev) (wire e.1)) ∨
      (∀ prev, Reads medium (decodeKey prev) (wire e.1) e.1 h) ∧
        ∀ prev, Chokes medium (decodeVal prev) (wire' e.2)) :
    Chokes medium (d.decodeStep lt freshKey freshVal decodeKey decodeVal before)
      (wirePair wire wire' e) := by
  rcases hchokes with hkey | ⟨hkey, hval⟩
  · cases d <;> exact Chokes.bind_left (hkey _)
  · cases d <;> exact Chokes.bind_right (hkey _).toReturns (Chokes.bind_pure (hval _))

end Containers

section Loops

variable {α β : Type} {lt : α → α → Bool} {fresh freshKey : α} {freshVal : β}
  {decode decodeKey : α → Decode α} {decodeVal : β → Decode β} {wire : α → Bytes} {wire' : β → Bytes}
  {hollow : α → Prop} {hollow' : β → Prop} {xs : List α} {m : List (α × β)} {c : Sequence}
  {d : Mapping}

theorem mem_of_split {pre post : List α} {x : α} (hxs : xs = pre ++ x :: post) : x ∈ xs := by
  rw [hxs]
  exact List.mem_append_right pre List.mem_cons_self

/-- A container of elements is read if each element is. -/
theorem reads_sequence (prev : List α) (hlen : xs.length < 2 ^ 32) (hordered : c.Ordered lt xs)
    (hne : AllOf (fun x ↦ wire x ≠ []) xs)
    (hreads : AllOf (fun x ↦ ∀ prev, Reads medium (decode prev) (wire x) x (hollow x)) xs) :
    Reads medium (do
        let n ← decodeInt 4
        repeatM (fun done ↦ c.decodeStep lt fresh decode prev done) n [])
      (wireSized wire xs) xs (LastOf hollow xs) := by
  have hstep : Each (fun done x done' ↦ Reads medium (c.decodeStep lt fresh decode prev done)
      (wire x) done' (hollow x)) id xs :=
    fun pre x post hxs ↦ reads_seqStep (hxs ▸ hordered) (hreads x (mem_of_split hxs))
  have hloop := Reads.repeatM _ wire id hollow hne hstep
  exact ((reads_u32 hlen).bind hloop).of_iff (by simp [LastOf])

theorem chokes_sequence {light : α → Prop} (prev : List α) (hlen : xs.length < 2 ^ 32)
    (hordered : c.Ordered lt xs) (hlight : ¬AllOf light xs)
    (hreads : AllOf (fun x ↦ light x → ∀ prev, Reads medium (decode prev) (wire x) x (hollow x)) xs)
    (hchokes : AllOf (fun x ↦ ¬light x → ∀ prev, Chokes medium (decode prev) (wire x)) xs) :
    Chokes medium (do
        let n ← decodeInt 4
        repeatM (fun done ↦ c.decodeStep lt fresh decode prev done) n [])
      (wireSized wire xs) :=
  Chokes.bind_right (reads_u32 hlen).toReturns
    (Chokes.repeatM _ wire id hollow hlight
      (fun _ x _ hxs hx ↦ reads_seqStep (hxs ▸ hordered) (hreads x (mem_of_split hxs) hx))
      (fun _ x _ hxs hx ↦ chokes_seqStep (hchokes x (mem_of_split hxs) hx)))

/-- A container of keys and values is read if each key and each value is. -/
theorem reads_mapping (hlen : m.length < 2 ^ 32) (hordered : d.Ordered lt m)
    (hne : AllOf (fun e ↦ wire' e.2 ≠ []) m)
    (hkey : AllOf (fun e ↦ ∀ prev, Reads medium (decodeKey prev) (wire e.1) e.1 (hollow e.1)) m)
    (hval : AllOf (fun e ↦ ∀ prev, Reads medium (decodeVal prev) (wire' e.2) e.2 (hollow' e.2)) m) :
    Reads medium (do
        let n ← decodeInt 4
        repeatM (fun done ↦ d.decodeStep lt freshKey freshVal decodeKey decodeVal done) n [])
      (wireSized (wirePair wire wire') m) m (LastOf (fun e ↦ hollow' e.2) m) := by
  have hstep : Each (fun done e done' ↦ Reads medium
      (d.decodeStep lt freshKey freshVal decodeKey decodeVal done) (wirePair wire wire' e) done'
        (hollow' e.2)) id m := fun pre e post hm ↦
    have hmem := mem_of_split hm
    reads_mapStep (hm ▸ hordered) (hkey e hmem) (hval e hmem) (hne e hmem)
  have hloop := Reads.repeatM _ (wirePair wire wire') id (fun e ↦ hollow' e.2)
    (fun e he ↦ List.append_ne_nil_of_right_ne_nil _ (hne e he)) hstep
  exact ((reads_u32 hlen).bind hloop).of_iff (by simp [LastOf])

theorem chokes_mapping {light : α → Prop} {light' : β → Prop} (hlen : m.length < 2 ^ 32)
    (hordered : d.Ordered lt m) (hlight : ¬AllOf (BothOf light light') m)
    (hne : AllOf (fun e ↦ wire' e.2 ≠ []) m)
    (hkey : AllOf (fun e ↦ (light e.1 → ∀ prev, Reads medium (decodeKey prev) (wire e.1) e.1
      (hollow e.1)) ∧ (¬light e.1 → ∀ prev, Chokes medium (decodeKey prev) (wire e.1))) m)
    (hval : AllOf (fun e ↦ (light' e.2 → ∀ prev, Reads medium (decodeVal prev) (wire' e.2) e.2
      (hollow' e.2)) ∧ (¬light' e.2 → ∀ prev, Chokes medium (decodeVal prev) (wire' e.2))) m) :
    Chokes medium (do
        let n ← decodeInt 4
        repeatM (fun done ↦ d.decodeStep lt freshKey freshVal decodeKey decodeVal done) n [])
      (wireSized (wirePair wire wire') m) := by
  refine Chokes.bind_right (reads_u32 hlen).toReturns (Chokes.repeatM _ (wirePair wire wire') id
    (fun e ↦ hollow' e.2) hlight (fun pre e post hm he ↦ ?_) (fun pre e post hm he ↦ ?_))
  · have hmem := mem_of_split hm
    exact reads_mapStep (hm ▸ hordered) ((hkey e hmem).1 he.1) ((hval e hmem).1 he.2) (hne e hmem)
  · have hmem := mem_of_split hm
    refine chokes_mapStep (h := hollow e.1) ?_
    by_cases hk : light e.1
    · exact .inr ⟨(hkey e hmem).1 hk, (hval e hmem).2 fun hv ↦ he ⟨hk, hv⟩⟩
    · exact .inl ((hkey e hmem).2 hk)

end Loops

namespace Ty

/-- **Every decoder reads the wire format**, whatever its target held before. -/
theorem reads_decode (t : Ty) {x : t.Val Bytes} (hwf : t.Wf x) (hlight : t.Light x)
    (prev : t.Val Bytes) : Reads medium (t.decode prev) (t.wire x) x (t.EndsEmpty x) := by
  induction t with
  | int k =>
    have hpow : 256 ^ k.width = 2 ^ (8 * k.width) := by rw [Nat.pow_mul]
    have hn : BitVec.toNat x < 256 ^ k.width := hpow ▸ BitVec.isLt x
    have hint := reads_decodeInt k.width (BitVec.toNat x) (by cases k <;> decide)
      (by cases k <;> decide) hn
    exact hint.bind_pure (congrArg pure (BitVec.ofNat_toNat _ x |>.trans (BitVec.setWidth_eq x)))
  | bool =>
    have hint := reads_decodeInt 1 (Bool.toNat x) (by decide) (by decide) (by cases x <;> decide)
    exact hint.bind_pure (congrArg pure (by cases x <;> rfl))
  | string => exact reads_decodeBytes hlight
  | bufferlist => exact reads_decodeBytes hlight
  | pair a b iha ihb =>
    exact (iha hwf.1 hlight.1 prev.1).bind_of_ne_nil
      ((ihb hwf.2 hlight.2 prev.2).bind_pure rfl) (b.wire_ne_nil x.2)
  | seq c t ih =>
    exact reads_sequence prev hwf.1 hwf.2.1 (fun y _ ↦ t.wire_ne_nil y) fun y hy ↦
      ih (hwf.2.2 y hy) (hlight y hy)
  | assoc c k v ihk ihv =>
    exact reads_mapping hwf.1 hwf.2.1 (fun e _ ↦ v.wire_ne_nil e.2)
      (fun e he ↦ ihk (hwf.2.2 e he).1 (hlight e he).1)
      (fun e he ↦ ihv (hwf.2.2 e he).2 (hlight e he).2)

/-- **No decoder reads a string or a buffer list of `2^31` bytes from one segment.** -/
theorem chokes_decode (t : Ty) {x : t.Val Bytes} (hwf : t.Wf x) (hlight : ¬t.Light x)
    (prev : t.Val Bytes) : Chokes medium (t.decode prev) (t.wire x) := by
  induction t with
  | int k => exact absurd trivial hlight
  | bool => exact absurd trivial hlight
  | string => exact chokes_decodeBytes (Nat.not_lt.mp hlight) hwf
  | bufferlist => exact chokes_decodeBytes (Nat.not_lt.mp hlight) hwf
  | pair a b iha ihb =>
    by_cases ha : a.Light x.1
    · exact Chokes.bind_right (a.reads_decode hwf.1 ha prev.1).toReturns
        (Chokes.bind_pure (ihb hwf.2 (fun hb ↦ hlight ⟨ha, hb⟩) prev.2))
    · exact Chokes.bind_left (iha hwf.1 ha prev.1)
  | seq c t ih =>
    exact chokes_sequence prev hwf.1 hwf.2.1 hlight
      (fun y hy hlight ↦ t.reads_decode (hwf.2.2 y hy) hlight)
      (fun y hy hlight ↦ ih (hwf.2.2 y hy) hlight)
  | assoc c k v ihk ihv =>
    exact chokes_mapping hwf.1 hwf.2.1 hlight (fun e _ ↦ v.wire_ne_nil e.2)
      (fun e he ↦ ⟨k.reads_decode (hwf.2.2 e he).1, ihk (hwf.2.2 e he).1⟩)
      (fun e he ↦ ⟨v.reads_decode (hwf.2.2 e he).2, ihv (hwf.2.2 e he).2⟩)

end Ty

end AsyncMessenger
