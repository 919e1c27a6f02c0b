import AsyncMessenger.Versions

/-!
# Forward compatibility

A payload is a sequence of fields, values or structures. A reader of an older version knows the first
fields of a structure, and of a structure among them again the first fields only. Whatever it knows,
its iterator is at the end of the structure when it has finished, so what follows is read as by a reader
that knows all fields.

That holds exactly if fewer than `2^31` bytes are skipped in each structure the reader enters, and if the
known fields can be decoded at all.

`Prefix` relates what a reader knows to what was written, and it is nested like the structures. By
induction on it both directions are proved: that the known fields are read where `Skippable` holds,
and that a reader fails where it does not. Nothing is assumed about what follows the structure, nor
about how the text is cut, so a structure inside of another one is a field like any other.
-/

namespace AsyncMessenger

open Reading Iter

/-- What stands between `ENCODE_START` and `ENCODE_FINISH`. -/
inductive Payload
  | done
  | value (t : Ty) (x : t.Val Pieces) (more : Payload)
  | struct (v compat newCompat : UInt8) (body more : Payload)

/-- The fields a reader knows, with the previous values of its targets. -/
inductive Known
  | stop
  | value (t : Ty) (prev : t.Val Bytes) (more : Known)
  | struct (start : StartMacro) (v : ℕ) (body more : Known)

/-- The fields that have been decoded. -/
inductive Decoded
  | done
  | value (t : Ty) (x : t.Val Bytes) (more : Decoded)
  | struct (body more : Decoded)

namespace Payload

def encode (page : ℕ) : Payload → Writer → Except Stop Writer
  | done => .ok
  | value t x more => fun w ↦ (t.encode page x w).bind (more.encode page)
  | struct v compat newCompat body more => fun w ↦
    (encodeStruct page v compat newCompat (body.encode page) w).bind (more.encode page)

/-- The bytes of a payload. -/
def wire : Payload → Bytes
  | done => []
  | value t x more => t.wire (t.contents x) ++ more.wire
  | struct v compat newCompat body more =>
    wireStruct v (finalCompat compat newCompat) body.wire ++ more.wire

/-- The values are those of C++. -/
def Wf : Payload → Prop
  | done => True
  | value t x more => t.Wf (t.contents x) ∧ more.Wf
  | struct _ _ _ body more => body.Wf ∧ more.Wf

/-- Every string and every buffer list inside is shorter than `2^31` bytes. -/
def Light : Payload → Prop
  | done => True
  | value t x more => t.Light (t.contents x) ∧ more.Light
  | struct _ _ _ body more => body.Light ∧ more.Light

/-- Every non-empty `std::list` inside begins below `2^31`, if the payload begins at the offset. -/
def ListsLow : Payload → ℕ → Prop
  | done, _ => True
  | value t x more, o =>
    t.ListsLow (t.contents x) o ∧ more.ListsLow (o + (t.wire (t.contents x)).length)
  | struct v compat newCompat body more, o =>
    body.ListsLow (o + 6) ∧
      more.ListsLow (o + (wireStruct v (finalCompat compat newCompat) body.wire).length)

/-- **A payload is written as its bytes.** -/
theorem writes_encode {page : ℕ} (hdvd : page ∣ 2 ^ 31) (p : Payload) :
    Writes (p.encode page) p.wire p.ListsLow p.Light := by
  induction p with
  | done => exact Writes.nothing
  | value t x more ih => exact (t.writes_encode hdvd x).andThen ih
  | struct v compat newCompat body more ihbody ih =>
    exact (writes_encodeStruct hdvd ihbody).andThen ih

end Payload

namespace Known

def decode : Known → Decode Decoded
  | stop => pure .done
  | value t prev more => do
    let x ← t.decode prev
    let rest ← more.decode
    return .value t x rest
  | struct start v body more => do
    let b ← decodeStruct start v body.decode
    let rest ← more.decode
    return .struct b rest

/-- The reader knows a prefix of the fields, its version is at least each compat version, and its macros
know that the structures have one. -/
inductive Prefix : Known → Payload → Prop
  | stop (p : Payload) : Prefix stop p
  | value {t : Ty} (prev : t.Val Bytes) (x : t.Val Pieces) {more : Known} {more' : Payload}
      (hmore : Prefix more more') : Prefix (value t prev more) (.value t x more')
  | struct {start : StartMacro} {v : ℕ} {v' compat newCompat : UInt8} {body more : Known}
      {body' more' : Payload} (hcovers : start.Covers v'.toNat)
      (hcompat : (finalCompat compat newCompat).toNat ≤ v) (hbody : Prefix body body')
      (hmore : Prefix more more') :
      Prefix (struct start v body more) (.struct v' compat newCompat body' more')

/-- The bytes of the known fields. -/
def knownWire : Known → Payload → Bytes
  | value _ _ more, .value t x more' => t.wire (t.contents x) ++ more.knownWire more'
  | struct _ _ _ more, .struct v compat newCompat body' more' =>
    wireStruct v (finalCompat compat newCompat) body'.wire ++ more.knownWire more'
  | _, _ => []

/-- The bytes of the fields behind them. -/
def unknownWire : Known → Payload → Bytes
  | value _ _ more, .value _ _ more' => more.unknownWire more'
  | struct _ _ _ more, .struct _ _ _ _ more' => more.unknownWire more'
  | _, p => p.wire

/-- What is decoded. -/
def decoded : Known → Payload → Decoded
  | value _ _ more, .value t x more' => .value t (t.contents x) (more.decoded more')
  | struct _ _ body more, .struct _ _ _ body' more' =>
    .struct (body.decoded body') (more.decoded more')
  | _, _ => .done

/-- The known strings and buffer lists are shorter than `2^31` bytes, and fewer than `2^31` bytes are
skipped in each known structure. -/
def Readable : Known → Payload → Prop
  | value _ _ more, .value t x more' => t.Light (t.contents x) ∧ more.Readable more'
  | struct _ _ body more, .struct _ _ _ body' more' =>
    (body.Readable body' ∧ (body.unknownWire body').length < 2 ^ 31) ∧ more.Readable more'
  | _, _ => True

/-- The last thing that is read is an empty string or an empty buffer list. -/
def EndsEmpty : Known → Payload → Prop
  | value _ _ more, .value t x more' =>
    more.EndsEmpty more' ∨ more.knownWire more' = [] ∧ t.EndsEmpty (t.contents x)
  | struct _ _ body more, .struct _ _ _ body' more' =>
    more.EndsEmpty more' ∨
      more.knownWire more' = [] ∧ body.unknownWire body' = [] ∧ body.EndsEmpty body'
  | _, _ => False

variable {k : Known} {p : Payload}

@[simp] theorem knownWire_stop (p : Payload) : stop.knownWire p = [] := by cases p <;> rfl

@[simp] theorem unknownWire_stop (p : Payload) : stop.unknownWire p = p.wire := by cases p <;> rfl

@[simp] theorem decoded_stop (p : Payload) : stop.decoded p = .done := by cases p <;> rfl

@[simp] theorem endsEmpty_stop (p : Payload) : stop.EndsEmpty p ↔ False := by cases p <;> rfl

@[simp] theorem readable_stop (p : Payload) : stop.Readable p ↔ True := by cases p <;> rfl

theorem Prefix.wire_eq (h : k.Prefix p) : p.wire = k.knownWire p ++ k.unknownWire p := by
  induction h with
  | stop p => rw [knownWire_stop, unknownWire_stop, List.nil_append]
  | value prev x hmore ih => rw [Payload.wire, ih, knownWire, unknownWire, List.append_assoc]
  | struct hcovers hcompat hbody hmore ihbody ih =>
    rw [Payload.wire, ih, knownWire, unknownWire, List.append_assoc]

/-- **The known fields are read.** -/
theorem Prefix.returns (h : k.Prefix p) (hwf : p.Wf) (hread : k.Readable p) :
    Returns boundedMedium k.decode (k.knownWire p) (k.decoded p) (k.EndsEmpty p) := by
  induction h with
  | stop p =>
    rw [knownWire_stop, decoded_stop]
    exact (Returns.pure _).of_iff (endsEmpty_stop p).symm
  | @value t prev x more more' hmore ih =>
    have hvalue := (t.reads_decode hwf.1 hread.1 prev).toReturns.restrict
      fun segs ↦ segs.flatten.length < 2 ^ 32
    exact hvalue.bind ((ih hwf.2 hread.2).bind_pure rfl)
  | @struct start v v' compat newCompat body more body' more' hcovers hcompat hbody hmore ihbody ih =>
    have hstruct := returns_decodeStruct hcovers hcompat (ihbody hwf.1 hread.1.1) hread.1.2
    rw [← hbody.wire_eq] at hstruct
    exact hstruct.bind ((ih hwf.2 hread.2).bind_pure rfl)

/-- **Known fields that are too large are not read** from one segment. -/
theorem Prefix.chokes (h : k.Prefix p) (hwf : p.Wf) (hread : ¬k.Readable p) :
    Chokes boundedMedium k.decode (k.knownWire p) := by
  induction h with
  | stop p => exact absurd ((readable_stop p).mpr trivial) hread
  | @value t prev x more more' hmore ih =>
    by_cases hlight : t.Light (t.contents x)
    · have hvalue := (t.reads_decode hwf.1 hlight prev).toReturns.restrict
        fun segs ↦ segs.flatten.length < 2 ^ 32
      exact Chokes.bind_right hvalue (ih hwf.2 fun hmore ↦ hread ⟨hlight, hmore⟩).bind_pure
    · exact Chokes.bind_left ((t.chokes_decode hwf.1 hlight prev).restrict _)
  | @struct start v v' compat newCompat body more body' more' hcovers hcompat hbody hmore ihbody ih =>
    by_cases hfirst : body.Readable body' ∧ (body.unknownWire body').length < 2 ^ 31
    · have hstruct := returns_decodeStruct hcovers hcompat (hbody.returns hwf.1 hfirst.1) hfirst.2
      rw [← hbody.wire_eq] at hstruct
      exact Chokes.bind_right hstruct (ih hwf.2 fun hmore ↦ hread ⟨hfirst, hmore⟩).bind_pure
    · have hstruct : Chokes boundedMedium (decodeStruct start v body.decode)
          (wireStruct v' (finalCompat compat newCompat)
            (body.knownWire body' ++ body.unknownWire body')) := by
        refine chokes_decodeStruct (a := body.decoded body') (h := body.EndsEmpty body') hcovers
          hcompat ?_
        by_cases hbodyRead : body.Readable body'
        · exact .inr ⟨hbody.returns hwf.1 hbodyRead,
            Nat.not_lt.mp fun hskip ↦ hfirst ⟨hbodyRead, hskip⟩⟩
        · exact .inl (ihbody hwf.1 hbodyRead)
      rw [← hbody.wire_eq] at hstruct
      exact Chokes.bind_left hstruct

end Known

/-! ## Forward compatibility

`ForwardCompatible` is the promise: the fields that are known come out, the iterator is at the end,
and what should be refused is refused. Its condition is about one step over the unknown fields for
each structure, and about the known fields, which have to be readable. -/

section ForwardCompat

variable {page : ℕ} {start : StartMacro} {v : ℕ} {k : Known} {v' compat newCompat : UInt8}
  {p : Payload} {w₀ w : Writer} {rest : Bytes}

/-- What a reader of a structure gets from its iterator at offset `o`, however the bytes are cut: the
fields it knows, and the one iterator at the end of the structure. -/
def ReadsTo (start : StartMacro) (v : ℕ) (k : Known) (p : Payload) (bs : Bytes) (o e : ℕ) : Prop :=
  ∀ segs it, Segmented segs bs → it.At segs o →
    ∃ it', decodeStruct start v k.decode segs it = .ok (k.decoded p, it') ∧
      ∀ it'', it''.At segs e ↔ it'' = it'

/-- A reader of version `v` that knows `k` is compatible with the structure of version `v'` that has been
written behind `w₀`. -/
structure ForwardCompatible (start : StartMacro) (v : ℕ) (k : Known) (v' compat : UInt8) (p : Payload)
    (w₀ w : Writer) (rest : Bytes) : Prop where
  readsTo : compat.toNat ≤ v →
    ReadsTo start v k p (w.bytes ++ rest) w₀.bytes.length w.bytes.length
  version : v < compat.toNat → ∀ {segs it o len after}, len < 2 ^ 32 → boundedMedium.At segs it o →
    segs.flatten.drop o = header v' compat len ++ after →
    start.run v segs it = .error (.malformedInput (errVersion v))
  truncated : compat.toNat ≤ v → ∀ {segs it o len after}, len < 2 ^ 32 →
    boundedMedium.At segs it o → segs.flatten.drop o = header v' compat len ++ after →
    after.length < len → start.run v segs it = .error (.malformedInput errPast)
  past : compat.toNat ≤ v → ∀ {segs it o len after} (fields : Decode Decoded),
    boundedMedium.At segs it o → segs.flatten.drop o = header v' compat len ++ after →
    len ≤ after.length →
    (∀ it₁, it₁.At segs (o + 6) → ∃ a it₂ o₂, fields segs it₁ = .ok (a, it₂) ∧ it₂.At segs o₂ ∧
      o + 6 + len < o₂) →
    decodeStruct start v fields segs it = .error (.malformedInput errPast)

/-- Fewer than `2^31` bytes are skipped at each end of a structure, the known strings and buffer lists
are shorter than that, and the structure ends before `2^31` if the last thing in the list is an empty
string or an empty buffer list that is read. -/
structure Skippable (k : Known) (p : Payload) (e : ℕ) (rest : Bytes) : Prop where
  readable : k.Readable p
  skip : (k.unknownWire p).length < 2 ^ 31
  firm : rest = [] → k.unknownWire p = [] → k.EndsEmpty p → e < 2 ^ 31

/-- There is an iterator at each offset of a list. -/
theorem exists_at {segs : List Bytes} (hne : ∀ s ∈ segs, s ≠ []) {o : ℕ}
    (hle : o ≤ segs.flatten.length) (hlt : o < 2 ^ 32) : ∃ it : Iter, it.At segs o := by
  obtain ⟨p, pOff, -, hplace⟩ := forward_eq segs hne 0 hle
  refine ⟨{ off := .ofNat o, p, pOff }, ?_, ?_⟩
  · rw [UInt32.toNat_ofNat', Nat.mod_eq_of_lt hlt]
  · simpa using hplace

/-- What is in the list behind `w₀` once the structure has been written. -/
theorem bytes_of_written (hdvd : page ∣ 2 ^ 31) (hvalid : w₀.Valid)
    (hwritten : encodeStruct page v' compat newCompat (p.encode page) w₀ = .ok w)
    (hlen : (w.bytes ++ rest).length < 2 ^ 32) :
    w.bytes = w₀.bytes ++ wireStruct v' (finalCompat compat newCompat) p.wire := by
  have hwrites : Writes (encodeStruct page v' compat newCompat (p.encode page))
      (wireStruct v' (finalCompat compat newCompat) p.wire) (fun o ↦ p.ListsLow (o + 6)) p.Light :=
    writes_encodeStruct hdvd (p.writes_encode hdvd)
  rw [List.length_append, hwrites.length hwritten] at hlen
  exact (hwrites.wrote hvalid (by omega) hwritten).1.bytes

theorem drop_written {segs : List Bytes} {pre bs after : Bytes}
    (h : segs.flatten = pre ++ bs ++ after) : segs.flatten.drop pre.length = bs ++ after := by
  rw [h, List.append_assoc, List.drop_left]

/-- What can be skipped is skipped. -/
theorem readsTo_of_skippable (hcovers : start.Covers v'.toNat) (hcompat : compat.toNat ≤ v)
    (hinit : k.Prefix p) (hwf : p.Wf)
    (hbytes : w.bytes = w₀.bytes ++ wireStruct v' compat p.wire)
    (hlen : (w.bytes ++ rest).length < 2 ^ 32) (hskip : Skippable k p w.bytes.length rest) :
    ReadsTo start v k p (w.bytes ++ rest) w₀.bytes.length w.bytes.length := by
  intro segs it hsegs hat
  have hreturns := returns_decodeStruct hcovers hcompat (hinit.returns hwf hskip.readable)
    hskip.skip
  rw [← hinit.wire_eq] at hreturns
  have hcontent : (boundedMedium.content segs).drop w₀.bytes.length =
      wireStruct v' compat p.wire ++ rest := drop_written (hsegs.flatten.trans (by rw [hbytes]))
  have hend : w.bytes.length = w₀.bytes.length + (wireStruct v' compat p.wire).length := by
    rw [hbytes, List.length_append]
  have hlt : w₀.bytes.length + (wireStruct v' compat p.wire).length < boundedMedium.limit := by
    rw [List.length_append, hend] at hlen
    exact (Nat.le_add_right _ _).trans_lt hlen
  obtain ⟨it', hok, hat'⟩ := hreturns.whole
    ⟨⟨fun s hs ↦ (hsegs.sizes s hs).1, hat⟩, (congrArg List.length hsegs.flatten).trans_lt hlen⟩ hcontent hlt
    fun hrest hends ↦ hend ▸ hskip.firm hrest hends.1 hends.2
  rw [← hend] at hat'
  exact ⟨it', hok, fun it'' ↦ ⟨fun h ↦ h.unique hat'.1.2, fun h ↦ h ▸ hat'.1.2⟩⟩

/-- Only what can be skipped is skipped. -/
theorem skippable_of_readsTo (hcovers : start.Covers v'.toNat) (hcompat : compat.toNat ≤ v)
    (hinit : k.Prefix p) (hwf : p.Wf)
    (hbytes : w.bytes = w₀.bytes ++ wireStruct v' compat p.wire)
    (hlen : (w.bytes ++ rest).length < 2 ^ 32)
    (hreads : ReadsTo start v k p (w.bytes ++ rest) w₀.bytes.length w.bytes.length) :
    Skippable k p w.bytes.length rest := by
  have hend : w.bytes.length = w₀.bytes.length + (wireStruct v' compat p.wire).length := by
    rw [hbytes, List.length_append]
  have hlt : w.bytes.length < 2 ^ 32 := by
    rw [List.length_append] at hlen
    omega
  have hlimit : w₀.bytes.length + (wireStruct v' compat p.wire).length < boundedMedium.limit :=
    hend ▸ hlt
  -- In any segments the reader does not fail.
  have hnot {segs : List Bytes} (hsegs : Segmented segs (w.bytes ++ rest))
      (herror : ∀ it, boundedMedium.At segs it w₀.bytes.length →
        decodeStruct start v k.decode segs it = .error .endOfBuffer) : False := by
    have hne : ∀ s ∈ segs, s ≠ [] := fun s hs ↦ (hsegs.sizes s hs).1
    obtain ⟨it, hat⟩ := exists_at (o := w₀.bytes.length) hne
      (by rw [hsegs.flatten, List.length_append]; omega) (by omega)
    obtain ⟨it', hok, -⟩ := hreads segs it hsegs hat
    have hbad := herror it ⟨⟨hne, hat⟩, (congrArg List.length hsegs.flatten).trans_lt hlen⟩
    exact absurd (hok.symm.trans hbad) (by rintro ⟨⟩)
  have hboth : k.Readable p ∧ (k.unknownWire p).length < 2 ^ 31 := by
    by_contra hbad
    have hchokes : Chokes boundedMedium (decodeStruct start v k.decode)
        (wireStruct v' compat (k.knownWire p ++ k.unknownWire p)) := by
      refine chokes_decodeStruct (a := k.decoded p) (h := k.EndsEmpty p) hcovers hcompat ?_
      by_cases hread : k.Readable p
      · exact .inr ⟨hinit.returns hwf hread, Nat.not_lt.mp fun hskip ↦ hbad ⟨hread, hskip⟩⟩
      · exact .inl (hinit.chokes hwf hread)
    rw [← hinit.wire_eq] at hchokes
    have hnil : w.bytes ≠ [] := by
      apply List.ne_nil_of_length_pos
      rw [hend, length_wireStruct]
      omega
    have hsegs := segmented_solid rest hnil hlt
    exact hnot hsegs fun it hat ↦ hchokes hat
      (drop_written (hsegs.flatten.trans (by rw [hbytes]))) hlimit
      ⟨w.bytes, _, rfl, hend.ge⟩
  refine ⟨hboth.1, hboth.2, fun hrest hunknown hends ↦ Nat.not_le.mp fun hlong ↦ ?_⟩
  have hsegs := segmented_singles (w.bytes ++ rest)
  have hreturns := returns_decodeStruct hcovers hcompat (hinit.returns hwf hboth.1) hboth.2
  rw [← hinit.wire_eq] at hreturns
  refine hnot hsegs fun it hat ↦ hreturns.stuck hat ?_ hlimit ⟨hunknown, hends⟩ ?_
  · have hcontent := drop_written (hsegs.flatten.trans (by rw [hbytes]))
    exact hcontent.trans (by rw [hrest, List.append_nil])
  · exact fun hfirm ↦ absurd (hend ▸ hfirm) (Nat.not_lt.mpr hlong)

/-- **Forward compatibility.** Whoever knows a prefix of the fields reads a structure to its end, and is
refused if its version is too old, if the structure breaks off or if it reads beyond the end, exactly if
what it reads can be read and what it skips can be skipped. -/
theorem forwardCompatible_iff (hdvd : page ∣ 2 ^ 31) (hvalid : w₀.Valid) (hwf : p.Wf)
    (hwritten : encodeStruct page v' compat newCompat (p.encode page) w₀ = .ok w)
    (hlen : (w.bytes ++ rest).length < 2 ^ 32) (hcovers : start.Covers v'.toNat)
    (hinit : k.Prefix p) :
    ForwardCompatible start v k v' (finalCompat compat newCompat) p w₀ w rest ↔
      ((finalCompat compat newCompat).toNat ≤ v → Skippable k p w.bytes.length rest) := by
  have hbytes := bytes_of_written hdvd hvalid hwritten hlen
  constructor
  · intro hforward hcompat
    exact skippable_of_readsTo hcovers hcompat hinit hwf hbytes hlen (hforward.readsTo hcompat)
  · intro hskip
    exact {
      readsTo := fun hcompat ↦
        readsTo_of_skippable hcovers hcompat hinit hwf hbytes hlen (hskip hcompat)
      version := fun hcompat _ _ _ _ _ ↦ start_version hcovers hcompat
      truncated := fun hcompat _ _ _ _ _ hlen hat hcontent hshort ↦
        start_truncated hcovers hcompat hlen hshort hat hcontent
      past := fun hcompat _ _ _ _ _ fields hat hcontent hlen ↦
        decodeStruct_past hcovers hcompat fields hlen hat hcontent }

/-- A structure with another one between its fields. -/
def nestedPayload : Payload :=
  .value (.int .uint32) (7#32)
    (.struct 1 1 0 (.value .string ([1] : Bytes) (.value .bool true .done))
      (.value .string ([2] : Bytes) .done))

/-- A reader that knows one field less of each. -/
def nestedKnown : Known :=
  .value (.int .uint32) (0#32)
    (.struct (.legacyCompatLen 1 1) 2 (.value .string ([] : Bytes) .stop) .stop)

def nestedWriter : Writer where
  segs := [[3, 2, 21, 0, 0, 0, 7, 0, 0, 0, 1, 1, 6, 0, 0, 0, 1, 0, 0, 0, 1, 1, 1, 0, 0, 0, 2]]
  gap := 4069
  joined := true

/-- The last fields of both structures are skipped. -/
theorem forwardCompatible_nested :
    ForwardCompatible .decodeStart 2 nestedKnown 3 (finalCompat 1 2) nestedPayload {} nestedWriter
      [9] := by
  have hwf : nestedPayload.Wf :=
    ⟨trivial, ⟨(by decide : 1 < 2 ^ 32), trivial, trivial⟩, (by decide : 1 < 2 ^ 32), trivial⟩
  have hinit : nestedKnown.Prefix nestedPayload :=
    .value _ _ (.struct ⟨by decide, by decide⟩ (by decide) (.value _ _ (.stop _)) (.stop _))
  have hempty : Writer.Empty {} := ⟨rfl, rfl⟩
  have hcovers : StartMacro.decodeStart.Covers (3 : UInt8).toNat := trivial
  have hdvd : 4096 ∣ 2 ^ 31 := by decide
  have hwritten : encodeStruct 4096 3 1 2 (nestedPayload.encode 4096) {} = .ok nestedWriter := by
    decide +kernel
  refine (forwardCompatible_iff hdvd hempty.valid hwf hwritten (by decide) hcovers hinit).mpr
    fun _ ↦ ⟨?_, by decide, fun hrest ↦ ?_⟩
  · exact ⟨trivial, ⟨⟨(by decide : 1 < 2 ^ 31), trivial⟩, by decide⟩, trivial⟩
  · exact absurd hrest (List.cons_ne_nil 9 [])

/-- So many bytes, in one segment. -/
def zeros (n : ℕ) (hn : 0 < n) : Pieces where
  segs := [List.replicate n 0]
  nonempty s hs := by
    rw [List.mem_singleton.mp hs]
    exact List.ne_nil_of_length_pos (List.length_replicate.symm ▸ hn)

/-- **A tail of `2^31` bytes is not skipped**: `advance` takes an `int`. -/
theorem long_tail_is_not_skipped :
    ¬∀ (start : StartMacro) (v : ℕ) (k : Known) (v' compat newCompat : UInt8) (p : Payload)
      (w₀ w : Writer) (rest : Bytes), w₀.Valid → p.Wf →
      encodeStruct 4096 v' compat newCompat (p.encode 4096) w₀ = .ok w →
      (w.bytes ++ rest).length < 2 ^ 32 → start.Covers v'.toNat → k.Prefix p →
      ForwardCompatible start v k v' (finalCompat compat newCompat) p w₀ w rest := by
  intro hall
  have hdvd : 4096 ∣ 2 ^ 31 := by decide
  have hempty : Writer.Empty {} := ⟨rfl, rfl⟩
  let tail : Pieces := zeros (2 ^ 31 - 4) (by decide)
  let p : Payload := .value .bufferlist tail .done
  have htail : tail.bytes.length = 2 ^ 31 - 4 := by
    change (List.replicate (2 ^ 31 - 4) (0 : UInt8) ++ []).length = _
    rw [List.append_nil, List.length_replicate]
  have hwire : p.wire.length = 2 ^ 31 := by
    change ((u32 tail.bytes.length ++ tail.bytes) ++ []).length = _
    rw [List.append_nil, List.length_append, length_u32, htail]
    omega
  have hwrites : Writes (encodeStruct 4096 1 1 0 (p.encode 4096))
      (wireStruct 1 (finalCompat 1 0) p.wire) (fun o ↦ p.ListsLow (o + 6)) p.Light :=
    writes_encodeStruct hdvd (p.writes_encode hdvd)
  have hlight : p.Light := ⟨(htail.trans_lt (by decide) : tail.bytes.length < 2 ^ 31), trivial⟩
  have hwf : p.Wf := ⟨(htail.trans_lt (by decide) : tail.bytes.length < 2 ^ 32), trivial⟩
  obtain ⟨w, hw⟩ := hwrites.ok hempty.valid
    (by rw [hempty.bytes, length_wireStruct, hwire]; decide) ⟨trivial, trivial⟩ hlight
  have hlen : (w.bytes ++ []).length < 2 ^ 32 := by
    rw [List.append_nil, hwrites.length hw, hempty.bytes, length_wireStruct, hwire]
    decide
  have hcovers : StartMacro.decodeStart.Covers (1 : UInt8).toNat := trivial
  have hforward := hall .decodeStart 1 .stop 1 1 0 p {} w [] hempty.valid hwf hw hlen
    hcovers (.stop p)
  have hbytes := bytes_of_written hdvd hempty.valid hw hlen
  have hskip := skippable_of_readsTo hcovers (by decide) (.stop p) hwf hbytes hlen
    (hforward.readsTo (by decide))
  have hshort := hskip.skip
  rw [Known.unknownWire_stop, hwire] at hshort
  exact absurd hshort (by decide)

end ForwardCompat

end AsyncMessenger
