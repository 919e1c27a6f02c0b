import AsyncMessenger.RoundTrip

/-!
# Round trips of pointers

A `buffer::ptr` is encoded like a buffer list of one segment. Its decoder copies the bytes to a list of
its own, and takes the only segment of that list, or a new one with the bytes of all. It does so if there
are bytes. If there are none, the target keeps what it held: an empty pointer comes back if the target was
empty before.

A vector that is decoded into keeps its elements, so an empty pointer is decoded into what was at its
place. A map is cleared, and each pointer is decoded into a fresh one.

## Prefixes and targets

The decoder's answer depends on what its target held, so the statement of a round trip has the
previous value in it. `kept` is what comes out: the pointer, or the previous value if the pointer is
empty. The encoder writes the same bytes as that of a list of one segment, whose reader is known;
what is added here is the step from the list to the pointer, which copies its bytes together
whatever its segments are.
-/

namespace AsyncMessenger

open Reading Iter

/-! ## Encoders and decoders -/

/-- `append(bp)` of a list, for a pointer that is not empty. -/
def Writer.pushBack (bp : Bytes) (w : Writer) : Writer :=
  { w with segs := w.segs ++ [bp], joined := false }

/-- `encode` of a pointer. -/
def encodePtr (page : ℕ) (bp : Bytes) (w : Writer) : Except Stop Writer := do
  let w' ← encodeInt page 4 bp.length w
  return if bp ≠ [] then w'.pushBack bp else w'

/-- `encode` of a vector of pointers. -/
def encodePtrVector (page : ℕ) (v : List Bytes) (w : Writer) : Except Stop Writer :=
  encodeSized page (encodePtr page) v w

/-- `encode` of a map to pointers. -/
def encodePtrMap (page : ℕ) (k : Ty) (m : List (k.Val Pieces × Bytes)) (w : Writer) :
    Except Stop Writer :=
  encodeSized page (fun e w ↦ do encodePtr page e.2 (← k.encode page e.1 w)) m w

/-- `append(bp, off, len)` of a list, given the bytes of the part. It is joined to the last segment of the
list if it is what comes after it in the same raw buffer. -/
def appendPiece (joins : Bool) (dest : List Bytes) (piece : Bytes) : List Bytes :=
  match joins, dest.getLast? with
  | true, some s => dest.dropLast ++ [s ++ piece]
  | _, _ => dest ++ [piece]

/-- The loop of `copy` to a list. A segment `joins` the one before it if the two lie side by side in one
raw buffer. -/
def pieceLoop (joins : ℕ → Bool) (segs : List Bytes) :
    ℕ → ℕ → List Bytes → Iter → Except Stop (List Bytes × Iter)
  | _, 0, dest, it => .ok (dest, it)
  | 0, _ + 1, _, _ => .error .hang
  | fuel + 1, len + 1, dest, it => do
    let some i := it.p | throw .endOfBuffer
    let s := segs.getD i []
    let howmuch := min (len + 1) (s.length - it.pOff)
    let it' ← it.advance segs (toInt howmuch)
    pieceLoop joins segs fuel (len + 1 - howmuch)
      (appendPiece (joins i) dest ((s.drop it.pOff).take howmuch)) it'

/-- `copy` to an empty list. -/
def copyPieces (joins : ℕ → Bool) (len : ℕ) : Decode (List Bytes) :=
  fun segs it ↦ (it.resume segs).bind (pieceLoop joins segs len len [])

/-- `decode` of a pointer into one that held `prev`. -/
def decodePtr (joins : ℕ → Bool) (prev : Bytes) : Decode Bytes := do
  let len ← decodeInt 4
  let s ← copyPieces joins len
  if len ≠ 0 then
    match s with
    | [bp] => return bp
    | _ => return s.flatten
  else return prev

/-- `decode` of a vector of pointers into one that held `prev`. -/
def decodePtrVector (joins : ℕ → Bool) (prev : List Bytes) : Decode (List Bytes) := do
  let n ← decodeInt 4
  repeatM (fun done ↦ Sequence.vector.decodeStep (lexLt charLt) [] (decodePtr joins) prev done) n []

/-- `decode` of a map to pointers: what it held is cleared. -/
def decodePtrMap (k : Ty) (joins : ℕ → Bool) (_prev : List (k.Val Bytes × Bytes)) :
    Decode (List (k.Val Bytes × Bytes)) := do
  let n ← decodeInt 4
  repeatM (fun done ↦ Mapping.map.decodeStep k.lt k.fresh [] k.decode (decodePtr joins) done) n []

/-! ## A pointer is written like a list -/

/-- What a map to pointers is when each buffer list in a key is taken for its bytes. -/
def ptrContents (k : Ty) (m : List (k.Val Pieces × Bytes)) : List (k.Val Bytes × Bytes) :=
  m.map fun e ↦ (k.contents e.1, e.2)

section Writes

variable {page : ℕ} (hdvd : page ∣ 2 ^ 31)
include hdvd

theorem writes_encodePtr (bp : Bytes) :
    Writes (encodePtr page bp) (wireBytes bp) (fun _ ↦ True) (bp.length < 2 ^ 31) := by
  have hpush : Writes (fun w ↦ .ok (if bp ≠ [] then w.pushBack bp else w)) bp (fun _ ↦ True)
      (bp.length < 2 ^ 31) := by
    refine .of_grows (fun {w w'} h ↦ ?_) fun _ w ↦ ⟨_, rfl⟩
    obtain rfl := Except.ok.inj h
    by_cases hbp : bp = []
    · rw [if_neg (not_not.mpr hbp), hbp]
      exact .refl w
    · rw [if_pos hbp]
      have hgrows : w.Grows (w.pushBack bp) [bp].flatten :=
        Writer.grows_of_segs (fun s hs ↦ List.mem_singleton.mp hs ▸ hbp) rfl rfl
      rwa [List.flatten_singleton] at hgrows
  exact ((writes_u32 hdvd bp.length).andThen hpush).of_iff (fun _ ↦ and_self_iff)
    (iff_of_eq (true_and _))

theorem writes_encodePtrVector (v : List Bytes) :
    Writes (encodePtrVector page v) ((Ty.seq .vector .bufferlist).wire v)
      ((Ty.seq .vector .bufferlist).ListsLow v) ((Ty.seq .vector .bufferlist).Light v) :=
  (writes_encodeSized hdvd v fun bp _ ↦ writes_encodePtr hdvd bp).of_iff
    (fun _ ↦ (and_iff_right (by rintro ⟨⟩)).symm) Iff.rfl

theorem writes_encodePtrMap (k : Ty) (m : List (k.Val Pieces × Bytes)) :
    Writes (encodePtrMap page k m) ((Ty.assoc .map k .bufferlist).wire (ptrContents k m))
      ((Ty.assoc .map k .bufferlist).ListsLow (ptrContents k m))
      ((Ty.assoc .map k .bufferlist).Light (ptrContents k m)) := by
  have hwire : (Ty.assoc .map k .bufferlist).wire (ptrContents k m) =
      wireSized (fun e ↦ wirePair k.wire wireBytes (k.contents e.1, e.2)) m := wireSized_map _ _ m
  rw [hwire]
  have heach : AllOf (fun e ↦ Writes (fun w ↦ (k.encode page e.1 w).bind (encodePtr page e.2))
      (wirePair k.wire wireBytes (k.contents e.1, e.2))
      (BothAt k.ListsLow Ty.bufferlist.ListsLow k.wire (k.contents e.1, e.2))
      (BothOf k.Light Ty.bufferlist.Light (k.contents e.1, e.2))) m :=
    fun e _ ↦ (k.writes_encode hdvd e.1).andThen (writes_encodePtr hdvd e.2)
  exact (writes_encodeSized hdvd m heach).of_iff
    (fun o ↦ (eachAt_map (fun e ↦ (k.contents e.1, e.2))
      (BothAt k.ListsLow Ty.bufferlist.ListsLow k.wire) (wirePair k.wire wireBytes) m (o + 4)).symm)
    (allOf_map (fun e ↦ (k.contents e.1, e.2)) (BothOf k.Light Ty.bufferlist.Light) m).symm

end Writes

/-! ## What the decoders read

The bytes are those of the pointer, however the text is cut. Of the segments that a copy leaves,
only their number and their bytes matter. -/

theorem flatten_appendPiece (joins : Bool) (dest : List Bytes) (piece : Bytes) :
    (appendPiece joins dest piece).flatten = dest.flatten ++ piece := by
  unfold appendPiece
  split
  · next s hlast =>
    have hdest : dest.dropLast ++ [s] = dest := List.dropLast_append_getLast? s hlast
    conv_rhs => rw [← hdest]
    rw [List.flatten_append, List.flatten_append, List.flatten_singleton, List.flatten_singleton,
      List.append_assoc]
  · rw [List.flatten_append, List.flatten_singleton]

/-- The bytes of the pieces are those that a copy to a string has. -/
theorem map_pieceLoop (joins : ℕ → Bool) (segs : List Bytes) (fuel len : ℕ) (dest : List Bytes)
    (it : Iter) :
    (pieceLoop joins segs fuel len dest it).map (fun r ↦ (r.1.flatten, r.2)) =
      (copyLoop false segs fuel len it).map fun r ↦ (dest.flatten ++ r.1, r.2) := by
  induction fuel generalizing len dest it with
  | zero =>
    cases len with
    | zero => simp [pieceLoop, copyLoop, Except.map]
    | succ len => rfl
  | succ fuel ih =>
    cases len with
    | zero => simp [pieceLoop, copyLoop, Except.map]
    | succ len =>
      cases hp : it.p with
      | none => simp [pieceLoop, copyLoop, hp, throw, throwThe, MonadExceptOf.throw, Except.map]
      | some i =>
        simp only [pieceLoop, copyLoop, hp, Bool.false_eq_true, false_and, if_false, bind, pure,
          Except.pure]
        generalize min (len + 1) ((segs.getD i []).length - it.pOff) = howmuch
        cases it.advance segs (toInt howmuch) with
        | error e => rfl
        | ok it' =>
          have hrest := ih (len + 1 - howmuch) (appendPiece (joins i) dest
            (((segs.getD i []).drop it.pOff).take howmuch)) it'
          rw [flatten_appendPiece] at hrest
          simp only [Except.bind, hrest]
          cases copyLoop false segs fuel (len + 1 - howmuch) it' with
          | error e => rfl
          | ok r => simp [Except.map]

theorem bind_map_except {α β γ : Type} (x : Except Stop α) (g : α → β) (f : β → Except Stop γ) :
    (x.map g).bind f = x.bind fun a ↦ f (g a) := by
  cases x with
  | error e => rfl
  | ok a => rfl

/-- A decoder that only looks at the bytes of the pieces. -/
theorem copyPieces_bind {α : Type} (joins : ℕ → Bool) (len : ℕ) (f : Bytes → Decode α) :
    (copyPieces joins len >>= fun s ↦ f s.flatten) = copyAppend len >>= f := by
  funext segs it
  change (copyPieces joins len segs it).bind (fun r ↦ f r.1.flatten segs r.2) =
    (copyAppend len segs it).bind fun r ↦ f r.1 segs r.2
  rw [copyPieces, copyAppend, copyWith]
  cases it.resume segs with
  | error e => rfl
  | ok it' =>
    have hpieces := map_pieceLoop joins segs len len [] it'
    simp only [List.flatten_nil, List.nil_append] at hpieces
    have hleft := bind_map_except (pieceLoop joins segs len len [] it')
      (fun r ↦ (r.1.flatten, r.2)) fun r ↦ f r.1 segs r.2
    have hright := bind_map_except (copyLoop false segs len len it') (fun r ↦ (r.1, r.2))
      fun r ↦ f r.1 segs r.2
    exact hleft.symm.trans ((congrArg (Except.bind · _) hpieces).trans hright)

/-- The pointer is set to the bytes that have been copied, if there are any. -/
theorem decodePtr_eq (joins : ℕ → Bool) (prev : Bytes) :
    decodePtr joins prev = do
      let len ← decodeInt 4
      let bs ← copyAppend len
      return if len ≠ 0 then bs else prev := by
  refine bind_congr fun len ↦ ?_
  rw [← copyPieces_bind joins len fun bs ↦ pure (if len ≠ 0 then bs else prev)]
  refine bind_congr fun s ↦ ?_
  by_cases hlen : len = 0
  · rw [if_neg (not_not.mpr hlen), if_neg (not_not.mpr hlen)]
  · rw [if_pos hlen, if_pos hlen]
    split
    · rw [List.flatten_singleton]
    · rfl

/-- What the target holds after a pointer has been decoded into it. -/
def kept (prev bp : Bytes) : Bytes := if bp = [] then prev else bp

theorem reads_decodePtr (joins : ℕ → Bool) (prev : Bytes) {bp : Bytes} (hbp : bp.length < 2 ^ 31) :
    Reads medium (decodePtr joins prev) (wireBytes bp) (kept prev bp) (bp = []) := by
  rw [decodePtr_eq]
  have hvalue : (if bp.length ≠ 0 then bp else prev) = kept prev bp := by
    by_cases hnil : bp = []
    · rw [kept, hnil]
      rfl
    · rw [kept, if_neg hnil, if_pos fun hzero ↦ hnil (List.length_eq_zero_iff.mp hzero)]
  have hcopy := (reads_copyWith false bp hbp).bind_pure
    (f := fun bs ↦ pure (if bp.length ≠ 0 then bs else prev)) (congrArg pure hvalue)
  exact ((reads_u32 (by omega)).bind hcopy).of_iff (by simp)

theorem chokes_decodePtr (joins : ℕ → Bool) (prev : Bytes) {bp : Bytes} (hbp : 2 ^ 31 ≤ bp.length)
    (hlt : bp.length < 2 ^ 32) : Chokes medium (decodePtr joins prev) (wireBytes bp) := by
  rw [decodePtr_eq]
  exact Chokes.bind_right (reads_u32 hlt).toReturns (Chokes.bind_pure (chokes_copyWith false bp hbp))

/-- What a vector holds after one with these pointers has been decoded into it. -/
def keptAll (prev v : List Bytes) : List Bytes := v.mapIdx fun i bp ↦ kept (prev.getD i []) bp

/-- The step of the loop over a vector: the pointer is decoded into the element at its place. -/
theorem reads_ptrStep (joins : ℕ → Bool) (prev pre : List Bytes) {bp : Bytes}
    (hbp : bp.length < 2 ^ 31) :
    Reads medium (Sequence.vector.decodeStep (lexLt charLt) [] (decodePtr joins) prev (keptAll prev pre))
      (wireBytes bp) (keptAll prev (pre ++ [bp])) (bp = []) := by
  have hlen : (keptAll prev pre).length = pre.length := List.length_mapIdx
  have hnext : keptAll prev (pre ++ [bp]) =
      keptAll prev pre ++ [kept (prev.getD (keptAll prev pre).length []) bp] := by
    rw [hlen]
    exact List.mapIdx_concat
  exact (reads_decodePtr joins _ hbp).bind_pure (congrArg pure hnext.symm)

theorem reads_decodePtrVector (joins : ℕ → Bool) (prev : List Bytes) {v : List Bytes}
    (hlen : v.length < 2 ^ 32) (hlight : AllOf (fun bp ↦ bp.length < 2 ^ 31) v) :
    Reads medium (decodePtrVector joins prev) (wireSized wireBytes v) (keptAll prev v)
      (LastOf (· = []) v) := by
  have hstep : Each (fun done bp done' ↦ Reads medium
      (Sequence.vector.decodeStep (lexLt charLt) [] (decodePtr joins) prev done) (wireBytes bp) done'
        (bp = [])) (keptAll prev) v :=
    fun pre bp _ hv ↦ reads_ptrStep joins prev pre (hlight bp (mem_of_split hv))
  have hloop := Reads.repeatM _ wireBytes (keptAll prev) (· = ([] : Bytes))
    (fun bp _ ↦ Ty.bufferlist.wire_ne_nil bp) hstep
  exact ((reads_u32 hlen).bind hloop).of_iff (by simp [LastOf])

theorem chokes_decodePtrVector (joins : ℕ → Bool) (prev : List Bytes) {v : List Bytes}
    (hlen : v.length < 2 ^ 32) (hsizes : AllOf (fun bp ↦ bp.length < 2 ^ 32) v)
    (hheavy : ¬AllOf (fun bp ↦ bp.length < 2 ^ 31) v) :
    Chokes medium (decodePtrVector joins prev) (wireSized wireBytes v) :=
  Chokes.bind_right (reads_u32 hlen).toReturns
    (Chokes.repeatM _ wireBytes (keptAll prev) (· = ([] : Bytes)) hheavy
      (fun pre _ _ _ hbp ↦ reads_ptrStep joins prev pre hbp)
      (fun _ bp _ hv hbp ↦ Chokes.bind_pure
        (chokes_decodePtr joins _ (Nat.not_lt.mp hbp) (hsizes bp (mem_of_split hv)))))

theorem kept_eq_iff {prev bp : Bytes} : kept prev bp = bp ↔ (bp = [] → prev = []) := by
  rw [kept]
  constructor
  · intro h hnil
    rwa [if_pos hnil, hnil] at h
  · intro h
    by_cases hnil : bp = []
    · rw [if_pos hnil, h hnil, hnil]
    · rw [if_neg hnil]

/-- The vector comes out as it went in if no empty pointer was decoded into one that was not. -/
theorem keptAll_eq_iff {prev v : List Bytes} :
    keptAll prev v = v ↔ ∀ i, v[i]? = some [] → prev.getD i [] = [] := by
  constructor
  · intro h i hi
    have hget := congrArg (·[i]?) h
    simp only [keptAll, List.getElem?_mapIdx, hi, Option.map_some, Option.some.injEq] at hget
    exact kept_eq_iff.mp hget rfl
  · intro h
    refine List.ext_getElem? fun i ↦ ?_
    rw [keptAll, List.getElem?_mapIdx]
    cases hi : v[i]? with
    | none => rfl
    | some bp => exact congrArg some (kept_eq_iff.mpr fun hnil ↦ h i (hnil ▸ hi))

/-! ### Maps -/

theorem lookup_of_lt {α β : Type} {lt : α → α → Bool} {key : α} {m : List (α × β)}
    (h : ∀ e ∈ m, lt e.1 key = true) : lookup lt key m = none := by
  induction m with
  | nil => rfl
  | cons e m ih =>
    rw [lookup, if_pos (h e List.mem_cons_self)]
    exact ih fun d hd ↦ h d (List.mem_cons_of_mem e hd)

section Maps

variable {k : Ty} {m before after : List (k.Val Bytes × Bytes)} {e : k.Val Bytes × Bytes}

/-- The keys of the map are in order, and are values of C++. -/
structure KeysWf (k : Ty) (m : List (k.Val Bytes × Bytes)) : Prop where
  ordered : m.Pairwise fun x y ↦ k.lt x.1 y.1 = true
  keys : AllOf (fun e ↦ k.Wf e.1) m

/-- The step of the loop over a map: the key is not there, so the pointer is decoded into a fresh one. -/
theorem reads_ptrMapStep (joins : ℕ → Bool) (hwf : KeysWf k (before ++ e :: after))
    (hlight : BothOf k.Light Ty.bufferlist.Light e) :
    Reads medium (Mapping.map.decodeStep k.lt k.fresh [] k.decode (decodePtr joins) before)
      (wirePair k.wire wireBytes e) (before ++ [e]) (e.2 = []) := by
  have hless : ∀ d ∈ before, k.lt d.1 e.1 = true := fun d hd ↦
    (List.pairwise_append.mp hwf.ordered).2.2 d hd e List.mem_cons_self
  have hkey := k.reads_decode (hwf.keys e (List.mem_append_right _ List.mem_cons_self)) hlight.1 k.fresh
  have hval : Reads medium (decodePtr joins ((lookup k.lt e.1 before).getD [])) (wireBytes e.2) e.2
      (e.2 = []) := by
    have hptr := reads_decodePtr joins ((lookup k.lt e.1 before).getD []) hlight.2
    rwa [kept_eq_iff.mpr fun _ ↦ by rw [lookup_of_lt hless]; rfl] at hptr
  exact hkey.bind_of_ne_nil (hval.bind_pure (congrArg pure (assign_of_lt hless)))
    (Ty.bufferlist.wire_ne_nil e.2)

theorem reads_decodePtrMap (joins : ℕ → Bool) (prev : List (k.Val Bytes × Bytes)) (hwf : KeysWf k m)
    (hlen : m.length < 2 ^ 32) (hlight : (Ty.assoc .map k .bufferlist).Light m) :
    Reads medium (decodePtrMap k joins prev) ((Ty.assoc .map k .bufferlist).wire m) m
      ((Ty.assoc .map k .bufferlist).EndsEmpty m) := by
  have hstep : Each (fun done e done' ↦ Reads medium
      (Mapping.map.decodeStep k.lt k.fresh [] k.decode (decodePtr joins) done)
      (wirePair k.wire wireBytes e) done' (e.2 = [])) id m :=
    fun _ e _ hm ↦ reads_ptrMapStep joins (hm ▸ hwf) (hlight e (mem_of_split hm))
  have hloop := Reads.repeatM _ (wirePair k.wire wireBytes) id (fun e ↦ e.2 = ([] : Bytes))
    (fun e _ ↦ List.append_ne_nil_of_right_ne_nil _ (Ty.bufferlist.wire_ne_nil e.2)) hstep
  exact ((reads_u32 hlen).bind hloop).of_iff (or_iff_left fun hand ↦ hand.2)

theorem chokes_decodePtrMap (joins : ℕ → Bool) (prev : List (k.Val Bytes × Bytes)) (hwf : KeysWf k m)
    (hlen : m.length < 2 ^ 32) (hsizes : AllOf (fun e ↦ e.2.length < 2 ^ 32) m)
    (hheavy : ¬(Ty.assoc .map k .bufferlist).Light m) :
    Chokes medium (decodePtrMap k joins prev) ((Ty.assoc .map k .bufferlist).wire m) := by
  refine Chokes.bind_right (reads_u32 hlen).toReturns (Chokes.repeatM _ (wirePair k.wire wireBytes) id
    (fun e ↦ e.2 = ([] : Bytes)) hheavy (fun _ e _ hm he ↦ reads_ptrMapStep joins (hm ▸ hwf) he)
    (fun before e after hm he ↦ ?_))
  have hmem := mem_of_split hm
  by_cases hkey : k.Light e.1
  · exact Chokes.bind_right (k.reads_decode (hwf.keys e hmem) hkey k.fresh).toReturns (Chokes.bind_pure
      (chokes_decodePtr joins _ (Nat.not_lt.mp fun hval ↦ he ⟨hkey, hval⟩) (hsizes e hmem)))
  · exact Chokes.bind_left (k.chokes_decode (hwf.keys e hmem) hkey k.fresh)

end Maps

/-! ## The round trip

Each of the three statements has two sides: what comes back, and that nothing else would do. -/

theorem length_wire_le {α : Type} {wire : α → Bytes} {xs : List α} {x : α} (hx : x ∈ xs) :
    (wire x).length ≤ (wireSized wire xs).length := by
  obtain ⟨pre, post, rfl⟩ := List.append_of_mem hx
  simp only [wireSized, List.flatMap_append, List.flatMap_cons, List.length_append]
  omega

theorem length_le_wireSized {α : Type} {wire : α → Bytes} (hne : ∀ x, wire x ≠ []) (xs : List α) :
    xs.length ≤ (wireSized wire xs).length := by
  have hsum : xs.length ≤ (xs.flatMap wire).length := by
    induction xs with
    | nil => exact Nat.zero_le _
    | cons x xs ih =>
      have hx := List.length_pos_iff.mpr (hne x)
      rw [List.flatMap_cons, List.length_append, List.length_cons]
      omega
  rw [wireSized, List.length_append]
  omega

/-- What fits in a list holds few enough pointers, and none of them is too long for its length. -/
theorem ptrMap_sizes {k : Ty} {m : List (k.Val Bytes × Bytes)}
    (hlt : (wireSized (wirePair k.wire wireBytes) m).length < 2 ^ 32) :
    m.length < 2 ^ 32 ∧ AllOf (fun e ↦ e.2.length < 2 ^ 32) m := by
  constructor
  · have hne (e : k.Val Bytes × Bytes) : wirePair k.wire wireBytes e ≠ [] :=
      List.append_ne_nil_of_right_ne_nil _ (Ty.bufferlist.wire_ne_nil e.2)
    have hle := length_le_wireSized hne m
    omega
  · intro e he
    have hle : (wirePair k.wire wireBytes e).length ≤ (wireSized (wirePair k.wire wireBytes) m).length :=
      length_wire_le he
    rw [wirePair, wireBytes, List.length_append, List.length_append] at hle
    omega

section RoundTrip

variable {page : ℕ} {w₀ : Writer} {rest : Bytes}

/-- An empty pointer is decoded into an empty one. -/
def Overwrites (prev v : List Bytes) : Prop := ∀ i, v[i]? = some [] → prev.getD i [] = []

/-- **Pointers.** A pointer comes back, whatever follows it, however the list is cut and whichever
segments lie side by side, exactly if it is shorter than `2^31` bytes, and not empty unless the target
is. -/
theorem ptr_comesBack_iff (hdvd : page ∣ 2 ^ 31) (hempty : w₀.Empty) (bp prev : Bytes) :
    ComesBack (encodePtr page bp) (decodePtr · prev) w₀ rest bp ↔
      bp.length < 2 ^ 31 ∧ (bp = [] → prev = []) := by
  have hlen : (wireBytes bp).length = 4 + bp.length := by
    rw [wireBytes, List.length_append, length_u32]
  rw [comesBack_iff (writes_encodePtr hdvd bp) hempty (Ty.bufferlist.wire_ne_nil bp)
    (fun _ hlight joins ↦ (reads_decodePtr joins prev hlight).toReturns)
    (fun hlt hheavy joins ↦ chokes_decodePtr joins prev (Nat.not_lt.mp hheavy) (by omega)), kept_eq_iff]
  refine and_congr_left fun _ ↦ ⟨fun h ↦ h.2.2.1, fun h ↦ ⟨by omega, trivial, h, fun _ hnil ↦ ?_⟩⟩
  rw [hlen, hnil]
  decide

/-- **Vectors of pointers.** -/
theorem ptrVector_comesBack_iff (hdvd : page ∣ 2 ^ 31) (hempty : w₀.Empty) (v prev : List Bytes) :
    ComesBack (encodePtrVector page v) (decodePtrVector · prev) w₀ rest v ↔
      (Ty.seq .vector .bufferlist).Fits v rest ∧ Overwrites prev v := by
  have hlen (hlt : (wireSized wireBytes v).length < 2 ^ 32) : v.length < 2 ^ 32 :=
    (length_le_wireSized Ty.bufferlist.wire_ne_nil v).trans_lt hlt
  have hsizes (hlt : (wireSized wireBytes v).length < 2 ^ 32) :
      AllOf (fun bp ↦ bp.length < 2 ^ 32) v := fun bp hbp ↦ by
    have hle : (wireBytes bp).length ≤ (wireSized wireBytes v).length := length_wire_le hbp
    rw [wireBytes, List.length_append] at hle
    omega
  rw [comesBack_iff (writes_encodePtrVector hdvd v) hempty
    ((Ty.seq .vector .bufferlist).wire_ne_nil v)
    (fun hlt hlight joins ↦ (reads_decodePtrVector joins prev (hlen hlt) hlight).toReturns)
    (fun hlt hheavy joins ↦ chokes_decodePtrVector joins prev (hlen hlt) (hsizes hlt) hheavy),
    keptAll_eq_iff]
  exact and_congr_left fun _ ↦ ⟨fun h ↦ ⟨h.1, h.2.2.1, h.2.1, h.2.2.2⟩,
    fun h ↦ ⟨h.length, h.low, h.light, h.firm⟩⟩

/-- **Maps to pointers.** -/
theorem ptrMap_comesBack_iff (hdvd : page ∣ 2 ^ 31) (hempty : w₀.Empty) {k : Ty}
    (m : List (k.Val Pieces × Bytes)) (hwf : KeysWf k (ptrContents k m))
    (prev : List (k.Val Bytes × Bytes)) :
    ComesBack (encodePtrMap page k m) (decodePtrMap k · prev) w₀ rest (ptrContents k m) ↔
      (Ty.assoc .map k .bufferlist).Fits (ptrContents k m) rest := by
  generalize hm : ptrContents k m = m' at hwf
  have hwrites := writes_encodePtrMap hdvd k m
  rw [hm] at hwrites
  rw [comesBack_iff hwrites hempty ((Ty.assoc .map k .bufferlist).wire_ne_nil m')
    (fun hlt hlight joins ↦
      (reads_decodePtrMap joins prev hwf (ptrMap_sizes hlt).1 hlight).toReturns)
    (fun hlt hheavy joins ↦
      chokes_decodePtrMap joins prev hwf (ptrMap_sizes hlt).1 (ptrMap_sizes hlt).2 hheavy)]
  exact ⟨fun h ↦ ⟨h.1.1, h.1.2.2.1, h.1.2.1, h.1.2.2.2⟩,
    fun h ↦ ⟨⟨h.length, h.low, h.light, h.firm⟩, rfl⟩⟩

/-- **Round trip of pointers.** A pointer comes back exactly if it is shorter than `2^31` bytes, and not
empty unless the target is. A vector of pointers comes back exactly if one of buffer lists with these
bytes does, and no empty pointer is decoded into an element that is not. A map to pointers comes back
exactly if one to buffer lists with these bytes does, whatever it held. -/
theorem pointers_comeBack_iff (hdvd : page ∣ 2 ^ 31) (hempty : w₀.Empty) (rest : Bytes) :
    (∀ bp prev, ComesBack (encodePtr page bp) (decodePtr · prev) w₀ rest bp ↔
      bp.length < 2 ^ 31 ∧ (bp = [] → prev = [])) ∧
    (∀ v prev, ComesBack (encodePtrVector page v) (decodePtrVector · prev) w₀ rest v ↔
      (Ty.seq .vector .bufferlist).Fits v rest ∧ Overwrites prev v) ∧
    ∀ k m prev, KeysWf k (ptrContents k m) →
      (ComesBack (encodePtrMap page k m) (decodePtrMap k · prev) w₀ rest (ptrContents k m) ↔
        (Ty.assoc .map k .bufferlist).Fits (ptrContents k m) rest) :=
  ⟨ptr_comesBack_iff hdvd hempty, ptrVector_comesBack_iff hdvd hempty,
    fun _ m prev hwf ↦ ptrMap_comesBack_iff hdvd hempty m hwf prev⟩

/-- A pointer to two bytes comes back into a target that held three. -/
theorem pointer_of_two_comesBack :
    ComesBack (encodePtr 4096 [1, 2]) (decodePtr · [7, 8, 9]) {} [0] [1, 2] :=
  ((pointers_comeBack_iff (by decide) ⟨rfl, rfl⟩ [0]).1 [1, 2] [7, 8, 9]).mpr
    ⟨by decide, by rintro ⟨⟩⟩

/-- **An empty pointer does not come back into a target that held a byte, nor into such an element of a
vector.** -/
theorem empty_pointer_keeps_target :
    (¬∀ bp prev rest, ComesBack (encodePtr 4096 bp) (decodePtr · prev) {} rest bp) ∧
      ¬∀ v prev rest, ComesBack (encodePtrVector 4096 v) (decodePtrVector · prev) {} rest v := by
  constructor
  · intro hall
    have hback := (ptr_comesBack_iff (by decide) ⟨rfl, rfl⟩ [] [7]).mp (hall [] [7] [])
    exact absurd (hback.2 rfl) (by decide)
  · intro hall
    have hback := (ptrVector_comesBack_iff (by decide) ⟨rfl, rfl⟩ [[]] [[7]]).mp (hall [[]] [[7]] [])
    exact absurd (hback.2 0 rfl) (by decide)

end RoundTrip

end AsyncMessenger
