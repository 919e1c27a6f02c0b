import AsyncMessenger.RoundTrip

/-!
# Versioned structures

`ENCODE_START` writes a version, a compat version and four bytes for a length, and saves an iterator
at each of the last two; `ENCODE_FINISH` patches them when the payload has been appended.
`DECODE_START` reads the three, checks them, and remembers where the structure ends; `DECODE_FINISH`
goes there.

The legacy macros read the compat version and the length only of structures that are new enough.
With `struct_v` at least `compatv` and `lenv` they do what `DECODE_START` does (`Covers`).

The text of an error begins with `__PRETTY_FUNCTION__`, not with the name of the function: the macro
makes a string of its argument.

## Readers and writers

A writer is anything that appends its bytes and patches its own counts, a reader anything that takes
its bytes from a list, as the library on reading has it. A structure is made of such fields, and is
a field itself. So the two main lemmas, `writes_encodeStruct` and `returns_decodeStruct`, give each
other what they need for structures inside of structures: the first says which bytes are written,
the second that whoever knows a prefix of the fields gets these, and ends where the structure ends.

## What goes wrong

A reader that is too old, a length beyond the list, and fields beyond the recorded end are refused,
each with its text. The step over fields that are not known is one call of `advance` with an `int`,
so from `2^31` bytes on it goes backwards.
-/

namespace AsyncMessenger

open Reading Iter

/-! ## Writing a structure -/

/-- `ENCODE_FINISH_NEW_COMPAT`. A new compat version of 0 is none. -/
def encodeFinish (newCompat : UInt8) (compatIt lenIt : Iter) (w : Writer) : Except Stop Writer :=
  let structLen := UInt32.ofNat w.length - lenIt.off - 4
  (Iter.copyIn w.segs (LittleEndian.encode 4 structLen.toNat) lenIt).bind fun r ↦
    if newCompat = 0 then .ok { w with segs := r.1 }
    else (Iter.copyIn r.1 (LittleEndian.encode 1 newCompat.toNat) compatIt).map fun r' ↦
      { w with segs := r'.1 }

/-- `ENCODE_START`, what stands between, and `ENCODE_FINISH_NEW_COMPAT`. -/
def encodeStruct (page : ℕ) (v compat newCompat : UInt8) (payload : Writer → Except Stop Writer)
    (w : Writer) : Except Stop Writer :=
  (encodeInt page 1 v.toNat w).bind fun w₁ ↦ (encodeInt page 1 compat.toNat w₁).bind fun w₂ ↦
    ((ofEnd w₂.segs).advance w₂.segs (-1)).bind fun compatIt ↦ (encodeInt page 4 0 w₂).bind fun w₃ ↦
      ((ofEnd w₃.segs).advance w₃.segs (-4)).bind fun lenIt ↦ (payload w₃).bind
        (encodeFinish newCompat compatIt lenIt)

/-! ## Reading a structure -/

/-- `DECODE_ERR_VERSION`. -/
def errVersion (v : ℕ) : String := "__PRETTY_FUNCTION__ unknown encoding version > " ++ toString v

/-- `DECODE_ERR_PAST`. -/
def errPast : String := "__PRETTY_FUNCTION__ decode past end of struct encoding"

/-- `get_off()`. -/
def getOff : Decode UInt32 := fun _ it ↦ .ok (it.off, it)

/-- `get_remaining()`, the difference of two `unsigned`. -/
def getRemaining : Decode ℕ := fun segs it ↦
  .ok ((UInt32.ofNat segs.flatten.length - it.off).toNat, it)

/-- `advance(o)`. -/
def advanceBy (o : ℤ) : Decode Unit := fun segs it ↦ (it.advance segs o).map fun it' ↦ ((), it')

def throwMalformed {α : Type} (what : String) : Decode α := fun _ _ ↦ .error (.malformedInput what)

/-- The compat version is read, and the reader must not be older. -/
def checkCompat (v : ℕ) : Decode Unit := do
  let structCompat ← decodeInt 1
  if v < structCompat then throwMalformed (errVersion v) else pure ()

/-- The length is read: where the structure ends. -/
def decodeEnd : Decode UInt32 := do
  let structLen ← decodeInt 4
  let remaining ← getRemaining
  if remaining < structLen then throwMalformed errPast
  else do return (← getOff) + .ofNat structLen

/-- The rest of a version of more than 8 bits is skipped. -/
def skipVersion (skipV : ℕ) : Decode Unit := do
  let remaining ← getRemaining
  if toInt remaining < skipV then throwMalformed errPast else advanceBy skipV

/-- `DECODE_START`: the version, and the end. -/
def decodeStart (v : ℕ) : Decode (ℕ × UInt32) := do
  let structV ← decodeInt 1
  checkCompat v
  return (structV, ← decodeEnd)

/-- `__DECODE_START_LEGACY_COMPAT_LEN`. An end of 0 is none. -/
def decodeStartLegacyCompatLen (v compatv lenv skipV : ℕ) : Decode (ℕ × UInt32) := do
  let structV ← decodeInt 1
  if compatv ≤ structV then checkCompat v else if skipV ≠ 0 then skipVersion skipV else pure ()
  let structEnd ← if lenv ≤ structV then decodeEnd else pure 0
  return (structV, structEnd)

/-- `DECODE_FINISH`. -/
def decodeFinish (structEnd : UInt32) : Decode Unit := fun segs it ↦
  if structEnd = 0 then .ok ((), it)
  else if structEnd < it.off then .error (.malformedInput errPast)
  else if it.off < structEnd then advanceBy (toInt (structEnd - it.off).toNat) segs it
  else .ok ((), it)

/-- The macros a reader may begin with. -/
inductive StartMacro
  | decodeStart
  | legacyCompatLen (compatv lenv : ℕ)
  | legacyCompatLen16 (compatv lenv : ℕ)
  | legacyCompatLen32 (compatv lenv : ℕ)
  deriving DecidableEq, Repr

namespace StartMacro

def run (v : ℕ) : StartMacro → Decode (ℕ × UInt32)
  | decodeStart => AsyncMessenger.decodeStart v
  | legacyCompatLen compatv lenv => decodeStartLegacyCompatLen v compatv lenv 0
  | legacyCompatLen16 compatv lenv => decodeStartLegacyCompatLen v compatv lenv 1
  | legacyCompatLen32 compatv lenv => decodeStartLegacyCompatLen v compatv lenv 3

/-- The macro knows that structures of this version have a compat version and a length. -/
def Covers (structV : ℕ) : StartMacro → Prop
  | decodeStart => True
  | legacyCompatLen compatv lenv => compatv ≤ structV ∧ lenv ≤ structV
  | legacyCompatLen16 compatv lenv => compatv ≤ structV ∧ lenv ≤ structV
  | legacyCompatLen32 compatv lenv => compatv ≤ structV ∧ lenv ≤ structV

end StartMacro

/-- A reader of a structure: one of the macros, the fields it knows, and `DECODE_FINISH`. -/
def decodeStruct {α : Type} (start : StartMacro) (v : ℕ) (fields : Decode α) : Decode α := do
  let header ← start.run v
  let a ← fields
  decodeFinish header.2
  return a

/-! ## The bytes of a structure

The header has six bytes. Its parts are read from a list whose length fits in 32 bits. -/

/-- What stands before the payload. -/
def header (v compat : UInt8) (len : ℕ) : Bytes :=
  LittleEndian.encode 1 v.toNat ++ (LittleEndian.encode 1 compat.toNat ++ u32 len)

def wireStruct (v compat : UInt8) (payload : Bytes) : Bytes :=
  header v compat payload.length ++ payload

theorem length_header (v compat : UInt8) (len : ℕ) : (header v compat len).length = 6 := by
  simp [header]

theorem length_wireStruct (v compat : UInt8) (payload : Bytes) :
    (wireStruct v compat payload).length = 6 + payload.length := by
  rw [wireStruct, List.length_append, length_header]

/-- A buffer list whose length fits in its 32 bits. -/
def boundedMedium : Medium (List Bytes) Iter Stop UInt8 :=
  medium.restrict fun segs ↦ segs.flatten.length < 2 ^ 32

variable {segs : List Bytes} {it : Iter} {o : ℕ} {rest : Bytes}

theorem remaining_eq (hat : it.At segs o) (hlen : segs.flatten.length < 2 ^ 32) :
    (UInt32.ofNat segs.flatten.length - it.off).toNat = segs.flatten.length - o := by
  have hle := hat.le
  have hoff := hat.off_eq
  have hnat : (UInt32.ofNat segs.flatten.length).toNat = segs.flatten.length := by
    rw [UInt32.toNat_ofNat', Nat.mod_eq_of_lt hlen]
  rw [UInt32.toNat_sub, hnat, hoff]
  omega

/-- An integer is read where it stands. -/
theorem decodeInt_ok (hat : boundedMedium.At segs it o) (width n : ℕ) (hpos : 0 < width)
    (hsmall : width < 2 ^ 31) (hn : n < 256 ^ width)
    (hcontent : segs.flatten.drop o = LittleEndian.encode width n ++ rest) :
    ∃ it', decodeInt width segs it = .ok (n, it') ∧ boundedMedium.At segs it' (o + width) := by
  have hreads := (reads_decodeInt width n hpos hsmall hn).toReturns.restrict
    fun segs ↦ segs.flatten.length < 2 ^ 32
  have htotal := length_of_drop hcontent hat.1.2.le
  have hbound := hat.2
  rw [LittleEndian.length_encode] at htotal
  have hwhole := hreads.whole hat hcontent (by
    rw [LittleEndian.length_encode]
    exact (by omega : o + width < 2 ^ 32)) fun _ hfalse ↦ hfalse.elim
  rwa [LittleEndian.length_encode] at hwhole

theorem drop_after' {bs : Bytes} (h : segs.flatten.drop o = bs ++ rest) :
    segs.flatten.drop (o + bs.length) = rest := by
  rw [← List.drop_drop, h, List.drop_left]

/-- The compat version is checked. -/
theorem checkCompat_eq (hat : boundedMedium.At segs it o) (v : ℕ) (compat : UInt8)
    (hcontent : segs.flatten.drop o = LittleEndian.encode 1 compat.toNat ++ rest) :
    ∃ it', boundedMedium.At segs it' (o + 1) ∧ checkCompat v segs it =
      if v < compat.toNat then .error (.malformedInput (errVersion v)) else .ok ((), it') := by
  obtain ⟨it', hok, hat'⟩ := decodeInt_ok hat 1 compat.toNat (by decide) (by decide)
    compat.toNat_lt hcontent
  refine ⟨it', hat', ?_⟩
  rw [checkCompat, bind_of_ok hok]
  split <;> rfl

/-- The length is compared with what is there. -/
theorem decodeEnd_eq (hat : boundedMedium.At segs it o) {len : ℕ} (hlen : len < 2 ^ 32)
    (hcontent : segs.flatten.drop o = u32 len ++ rest) :
    ∃ it', boundedMedium.At segs it' (o + 4) ∧ decodeEnd segs it =
      if rest.length < len then .error (.malformedInput errPast)
      else .ok (.ofNat (o + 4 + len), it') := by
  obtain ⟨it', hok, hat'⟩ := decodeInt_ok hat 4 len (by decide) (by decide)
    (by rwa [show 256 ^ 4 = 2 ^ 32 by decide]) hcontent
  refine ⟨it', hat', ?_⟩
  have htotal := length_of_drop hcontent hat.1.2.le
  rw [length_u32] at htotal
  have hremaining := remaining_eq hat'.1.2 hat'.2
  have hleft : segs.flatten.length - (o + 4) = rest.length := by omega
  rw [hleft] at hremaining
  have hrun : getRemaining segs it' = .ok (rest.length, it') := by rw [getRemaining, hremaining]
  rw [decodeEnd, bind_of_ok hok, bind_of_ok hrun]
  by_cases hshort : rest.length < len
  · rw [if_pos hshort, if_pos hshort]
    rfl
  · rw [if_neg hshort, if_neg hshort]
    have hoff : it'.off = .ofNat (o + 4) := by
      rw [← UInt32.toNat_inj, hat'.1.2.off_eq, UInt32.toNat_ofNat']
      exact (Nat.mod_eq_of_lt hat'.1.2.lt).symm
    change Except.ok (it'.off + UInt32.ofNat len, it') = _
    rw [hoff, ← UInt32.ofNat_add]

/-- **The start of a structure**: the version of the reader is compared with the compat version, and the
length with what is there. -/
theorem start_eq {start : StartMacro} {v' compat : UInt8} (hcovers : start.Covers v'.toNat) (v : ℕ)
    {len : ℕ} (hlen : len < 2 ^ 32) (hat : boundedMedium.At segs it o)
    (hcontent : segs.flatten.drop o = header v' compat len ++ rest) :
    ∃ it', boundedMedium.At segs it' (o + 6) ∧ start.run v segs it =
      if v < compat.toNat then .error (.malformedInput (errVersion v))
      else if rest.length < len then .error (.malformedInput errPast)
      else .ok ((v'.toNat, .ofNat (o + 6 + len)), it') := by
  have hone (n : ℕ) : (LittleEndian.encode 1 n).length = 1 := LittleEndian.length_encode 1 n
  rw [header, List.append_assoc] at hcontent
  obtain ⟨it₁, hversion, hat₁⟩ := decodeInt_ok hat 1 v'.toNat (by decide) (by decide) v'.toNat_lt
    hcontent
  have hcontent₁ := drop_after' hcontent
  rw [hone, List.append_assoc] at hcontent₁
  obtain ⟨it₂, hat₂, hcheck⟩ := checkCompat_eq hat₁ v compat hcontent₁
  have hcontent₂ := drop_after' hcontent₁
  rw [hone] at hcontent₂
  obtain ⟨it₃, hat₃, hend⟩ := decodeEnd_eq hat₂ hlen hcontent₂
  have hsum : o + 1 + 1 + 4 = o + 6 := by omega
  rw [hsum] at hat₃ hend
  refine ⟨it₃, hat₃, ?_⟩
  -- All macros come down to the same three steps.
  have hsteps : start.run v segs it = (checkCompat v >>= fun _ ↦
      (decodeEnd >>= fun e ↦ pure (v'.toNat, e) : Decode (ℕ × UInt32))) segs it₁ := by
    have hlegacy (compatv lenv skipV : ℕ) (hv : compatv ≤ v'.toNat ∧ lenv ≤ v'.toNat) :
        decodeStartLegacyCompatLen v compatv lenv skipV segs it = (checkCompat v >>= fun _ ↦
          (decodeEnd >>= fun e ↦ pure (v'.toNat, e) : Decode (ℕ × UInt32))) segs it₁ := by
      rw [decodeStartLegacyCompatLen, bind_of_ok hversion]
      simp only [if_pos hv.1, if_pos hv.2]
    cases start with
    | decodeStart => exact bind_of_ok hversion
    | legacyCompatLen compatv lenv => exact hlegacy compatv lenv 0 hcovers
    | legacyCompatLen16 compatv lenv => exact hlegacy compatv lenv 1 hcovers
    | legacyCompatLen32 compatv lenv => exact hlegacy compatv lenv 3 hcovers
  rw [hsteps]
  by_cases hcompat : v < compat.toNat
  · rw [if_pos hcompat] at hcheck ⊢
    exact bind_of_error hcheck
  · rw [if_neg hcompat] at hcheck ⊢
    rw [bind_of_ok hcheck]
    by_cases hshort : rest.length < len
    · rw [if_pos hshort] at hend ⊢
      exact bind_of_error hend
    · rw [if_neg hshort] at hend ⊢
      rw [bind_of_ok hend]
      rfl

/-! ## The end of a structure

`DECODE_FINISH` compares the place of the iterator with the end that was remembered, and goes there
if it is ahead. -/

/-- The reader goes to the end if that is less than `2^31` bytes away. -/
theorem decodeFinish_ok (hat : boundedMedium.At segs it o) {e : ℕ} (hpos : 0 < e) (hle : o ≤ e)
    (hend : e ≤ segs.flatten.length) (hskip : e - o < 2 ^ 31) :
    ∃ it', decodeFinish (.ofNat e) segs it = .ok ((), it') ∧ boundedMedium.At segs it' e := by
  have hbound := hat.2
  have hnat : (UInt32.ofNat e).toNat = e := by
    rw [UInt32.toNat_ofNat', Nat.mod_eq_of_lt (by omega)]
  have hoff := hat.1.2.off_eq
  have hnonzero : UInt32.ofNat e ≠ 0 := by
    rw [← UInt32.toNat_inj.ne, hnat]
    exact hpos.ne'
  have hnotpast : ¬UInt32.ofNat e < it.off := by
    rw [UInt32.lt_iff_toNat_lt, hnat, hoff]
    omega
  rw [decodeFinish, if_neg hnonzero, if_neg hnotpast]
  by_cases hlt : it.off < UInt32.ofNat e
  · have hdiff : (UInt32.ofNat e - it.off).toNat = e - o := by
      rw [UInt32.toNat_sub, hnat, hoff]
      omega
    obtain ⟨it', hadvance, hat'⟩ := hat.1.2.advance hat.1.1 (n := e - o) (by omega) (by omega) hskip
    rw [Nat.add_sub_cancel' hle] at hat'
    refine ⟨it', ?_, ⟨hat.1.1, hat'⟩, hbound⟩
    rw [if_pos hlt, hdiff, advanceBy, hadvance]
    rfl
  · rw [UInt32.lt_iff_toNat_lt, hnat, hoff] at hlt
    have ho : o = e := by omega
    exact ⟨it, if_neg (by rw [UInt32.lt_iff_toNat_lt, hnat, hoff]; exact hlt), ho ▸ hat⟩

/-- From `2^31` bytes on, `advance` goes backwards, and throws. -/
theorem decodeFinish_error (hat : boundedMedium.At segs it o) {e : ℕ}
    (hend : e ≤ segs.flatten.length) (hskip : o + 2 ^ 31 ≤ e) :
    decodeFinish (.ofNat e) segs it = .error .endOfBuffer := by
  have hbound := hat.2
  have hnat : (UInt32.ofNat e).toNat = e := by
    rw [UInt32.toNat_ofNat', Nat.mod_eq_of_lt (by omega)]
  have hoff := hat.1.2.off_eq
  have hnonzero : UInt32.ofNat e ≠ 0 := by
    rw [← UInt32.toNat_inj.ne, hnat]
    exact (by omega : e ≠ 0)
  have hnotpast : ¬UInt32.ofNat e < it.off := by
    rw [UInt32.lt_iff_toNat_lt, hnat, hoff]
    omega
  have hlt : it.off < UInt32.ofNat e := by
    rw [UInt32.lt_iff_toNat_lt, hnat, hoff]
    omega
  have hdiff : (UInt32.ofNat e - it.off).toNat = e - o := by
    rw [UInt32.toNat_sub, hnat, hoff]
    omega
  have hadvance := hat.1.2.advance_error hat.1.1 (n := e - o) (by omega) (by omega)
  rw [decodeFinish, if_neg hnonzero, if_neg hnotpast, if_pos hlt, hdiff, advanceBy, hadvance]
  rfl

/-- Beyond the end the reader has gone too far. -/
theorem decodeFinish_past (hat : boundedMedium.At segs it o) {e : ℕ} (hpos : 0 < e) (hpast : e < o) :
    decodeFinish (.ofNat e) segs it = .error (.malformedInput errPast) := by
  have hlt := hat.1.2.lt
  have hnat : (UInt32.ofNat e).toNat = e := by
    rw [UInt32.toNat_ofNat', Nat.mod_eq_of_lt (by omega)]
  have hnonzero : UInt32.ofNat e ≠ 0 := by
    rw [← UInt32.toNat_inj.ne, hnat]
    exact hpos.ne'
  have hover : UInt32.ofNat e < it.off := by
    rw [UInt32.lt_iff_toNat_lt, hnat, hat.1.2.off_eq]
    exact hpast
  rw [decodeFinish, if_neg hnonzero, if_pos hover]

/-! ## Readers of structures

The outcomes of a whole read: it returns, it chokes on a number from `2^31` on, or it refuses the
structure. -/

section Struct

variable {α : Type} {start : StartMacro} {v : ℕ} {v' compat : UInt8} {fields : Decode α}
  {known unknown : Bytes} {a : α} {h : Prop}

/-- A reader that is new enough gets to the fields, and knows where they end. -/
theorem decodeStruct_begin (hcovers : start.Covers v'.toNat) (hcompat : compat.toNat ≤ v)
    (fields : Decode α) {payload : Bytes} (hat : boundedMedium.At segs it o)
    (hcontent : segs.flatten.drop o = wireStruct v' compat payload ++ rest) :
    ∃ it', boundedMedium.At segs it' (o + 6) ∧ segs.flatten.drop (o + 6) = payload ++ rest ∧
      o + 6 + payload.length ≤ segs.flatten.length ∧
      decodeStruct start v fields segs it = (fields >>= fun a ↦
        (decodeFinish (.ofNat (o + 6 + payload.length)) >>= fun _ ↦ pure a : Decode α)) segs it' := by
  have htotal := length_of_drop hcontent hat.1.2.le
  rw [length_wireStruct] at htotal
  have hbound := hat.2
  rw [wireStruct, List.append_assoc] at hcontent
  obtain ⟨it', hat', hrun⟩ := start_eq hcovers v (by omega) hat hcontent
  rw [if_neg (Nat.not_lt.mpr hcompat), if_neg (by rw [List.length_append]; omega)] at hrun
  have hafter := drop_after' hcontent
  rw [length_header] at hafter
  exact ⟨it', hat', hafter, by omega, bind_of_ok hrun⟩

/-- **A structure is read by whoever knows a prefix of its fields**, if fewer than `2^31` bytes are
skipped. -/
theorem returns_decodeStruct (hcovers : start.Covers v'.toNat) (hcompat : compat.toNat ≤ v)
    (hfields : Returns boundedMedium fields known a h) (hskip : unknown.length < 2 ^ 31) :
    Returns boundedMedium (decodeStruct start v fields) (wireStruct v' compat (known ++ unknown)) a
      (unknown = [] ∧ h) where
  whole {segs it o rest} hat hcontent hlt hfirm := by
    obtain ⟨it₁, hat₁, hafter, hend, hbegin⟩ :=
      decodeStruct_begin hcovers hcompat fields hat hcontent
    rw [length_wireStruct, List.length_append] at hlt hfirm ⊢
    rw [List.length_append] at hend hbegin
    rw [List.append_assoc] at hafter
    obtain ⟨it₂, hok, hat₂⟩ := hfields.whole hat₁ hafter
      ((by omega : o + 6 + known.length ≤ o + (6 + (known.length + unknown.length))).trans_lt hlt)
      fun hnil hh ↦ by
        obtain ⟨rfl, rfl⟩ := List.append_eq_nil_iff.mp hnil
        have hfirm' := hfirm rfl ⟨rfl, hh⟩
        rwa [List.length_nil, Nat.add_zero, ← Nat.add_assoc] at hfirm'
    obtain ⟨it₃, hfinish, hat₃⟩ := decodeFinish_ok hat₂
      (e := o + 6 + (known.length + unknown.length)) (by omega) (by omega) hend (by omega)
    refine ⟨it₃, ?_, Nat.add_assoc o 6 _ ▸ hat₃⟩
    rw [hbegin, bind_of_ok hok, bind_of_ok hfinish]
    rfl
  stuck {segs it o} hat hcontent hlt hhollow hfirm := by
    obtain ⟨rfl, hh⟩ := hhollow
    have hcontent' := hcontent.trans (List.append_nil _).symm
    obtain ⟨it₁, hat₁, hafter, hend, hbegin⟩ :=
      decodeStruct_begin hcovers hcompat fields hat hcontent'
    rw [length_wireStruct, List.append_nil, ← Nat.add_assoc] at hlt hfirm
    rw [List.append_nil, List.append_nil] at hafter
    rw [hbegin]
    exact bind_of_error (hfields.stuck hat₁ hafter hlt hh hfirm)

/-- Nobody reads a structure if the known fields are too large, or if `2^31` bytes are to be skipped. -/
theorem chokes_decodeStruct (hcovers : start.Covers v'.toNat) (hcompat : compat.toNat ≤ v)
    (hchokes : Chokes boundedMedium fields known ∨
      Returns boundedMedium fields known a h ∧ 2 ^ 31 ≤ unknown.length) :
    Chokes boundedMedium (decodeStruct start v fields) (wireStruct v' compat (known ++ unknown)) := by
  intro segs it o rest hat hcontent hlt hsolid
  obtain ⟨it₁, hat₁, hafter, hend, hbegin⟩ := decodeStruct_begin hcovers hcompat fields hat hcontent
  rw [length_wireStruct, List.length_append] at hlt hsolid
  rw [List.length_append] at hend hbegin
  rw [List.append_assoc] at hafter
  have hlt' : o + 6 + known.length < boundedMedium.limit :=
    (by omega : o + 6 + known.length ≤ o + (6 + (known.length + unknown.length))).trans_lt hlt
  rw [hbegin]
  rcases hchokes with hfields | ⟨hfields, hskip⟩
  · exact bind_of_error (hfields hat₁ hafter hlt' (boundedMedium.solid_of_le (by omega) hsolid))
  · rcases hfields.total hat₁ hafter hlt' with ⟨it₂, hok, hat₂⟩ | herror
    · rw [bind_of_ok hok]
      exact bind_of_error (decodeFinish_error hat₂ hend (by omega))
    · exact bind_of_error herror

/-- A reader that is too old is refused. -/
theorem start_version (hcovers : start.Covers v'.toNat) (hcompat : v < compat.toNat) {len : ℕ}
    (hlen : len < 2 ^ 32) (hat : boundedMedium.At segs it o)
    (hcontent : segs.flatten.drop o = header v' compat len ++ rest) :
    start.run v segs it = .error (.malformedInput (errVersion v)) := by
  obtain ⟨it', -, hrun⟩ := start_eq hcovers v hlen hat hcontent
  rw [hrun, if_pos hcompat]

/-- A length that goes beyond the list is refused. -/
theorem start_truncated (hcovers : start.Covers v'.toNat) (hcompat : compat.toNat ≤ v) {len : ℕ}
    (hlen : len < 2 ^ 32) (hshort : rest.length < len) (hat : boundedMedium.At segs it o)
    (hcontent : segs.flatten.drop o = header v' compat len ++ rest) :
    start.run v segs it = .error (.malformedInput errPast) := by
  obtain ⟨it', -, hrun⟩ := start_eq hcovers v hlen hat hcontent
  rw [hrun, if_neg (Nat.not_lt.mpr hcompat), if_pos hshort]

/-- Fields that go beyond the recorded end are refused. -/
theorem decodeStruct_past (hcovers : start.Covers v'.toNat) (hcompat : compat.toNat ≤ v)
    (fields : Decode α) {len : ℕ} (hlen : len ≤ rest.length) (hat : boundedMedium.At segs it o)
    (hcontent : segs.flatten.drop o = header v' compat len ++ rest)
    (hfields : ∀ it₁, it₁.At segs (o + 6) → ∃ a it₂ o₂, fields segs it₁ = .ok (a, it₂) ∧
      it₂.At segs o₂ ∧ o + 6 + len < o₂) :
    decodeStruct start v fields segs it = .error (.malformedInput errPast) := by
  have htotal := length_of_drop hcontent hat.1.2.le
  have hbound := hat.2
  obtain ⟨it₁, hat₁, hrun⟩ := start_eq hcovers v (by omega) hat hcontent
  rw [if_neg (Nat.not_lt.mpr hcompat), if_neg (Nat.not_lt.mpr hlen)] at hrun
  obtain ⟨a, it₂, o₂, hok, hat₂, hpast⟩ := hfields it₁ hat₁.1.2
  rw [decodeStruct, bind_of_ok hrun, bind_of_ok hok]
  exact bind_of_error (decodeFinish_past ⟨⟨hat.1.1, hat₂⟩, hat.2⟩ (by omega) hpast)

end Struct

/-! ## Writers of structures

The iterators that were saved stand on bytes that are in the list already, so they are not moved by
what is appended, and the patches meet the right bytes. -/

section Writers

variable {page : ℕ} {w w' : Writer}

theorem Writer.Valid.of_shape (hw : w.Valid) {segs' : List Bytes} (hshape : SameShape w.segs segs') :
    ({ w with segs := segs' } : Writer).Valid where
  nonempty := hshape.nonempty hw.nonempty
  lastP := hw.lastP.imp_right fun ⟨o, hat⟩ ↦ ⟨o, hat.of_shape hshape⟩
  behind := hw.behind.imp_right fun hlt ↦ hlt.trans_eq hshape.length_flatten.symm

/-- A saved iterator overwrites what stood behind it when it was saved. -/
theorem patch_saved {segs : List Bytes} {it : Iter} {pre old post : Bytes} (src : Bytes)
    (hne : ∀ s ∈ segs, s ≠ []) (hat : it.At segs pre.length) (hp : it.p ≠ none)
    (hsrc : old.length = src.length) (hsmall : src.length < 2 ^ 31)
    (hflatten : segs.flatten = pre ++ old ++ post) (hlen : segs.flatten.length < 2 ^ 32) :
    ∃ segs' it', Iter.copyIn segs src it = .ok (segs', it') ∧ segs'.flatten = pre ++ src ++ post ∧
      SameShape segs segs' := by
  have hroom : pre.length + src.length ≤ segs.flatten.length := by
    rw [hflatten, List.length_append, List.length_append]
    omega
  obtain ⟨segs', it', hcopy, hpatch, -⟩ := hat.copyInLoop hne (Nat.le_refl _) hroom (by omega) hsmall
  refine ⟨segs', it', ?_, ?_, sameShape_copyInLoop hcopy⟩
  · rw [Iter.copyIn, Iter.resume, if_neg hp]
    exact hcopy
  · rw [hpatch, hflatten, patch_middle pre old post hsrc]

/-- The compat version that is written in the end. -/
def finalCompat (compat newCompat : UInt8) : UInt8 := if newCompat = 0 then compat else newCompat

variable {v compat newCompat : UInt8} {payload : Writer → Except Stop Writer} {bs : Bytes}
  {starts : ℕ → Prop} {light : Prop}

/-- `ENCODE_FINISH` fills in the length and the compat version. -/
theorem encodeFinish_ok (pre : Bytes) {compatIt lenIt : Iter} (hw : w.Valid)
    (hbytes : w.bytes = pre ++ header v compat 0 ++ bs)
    (hcompatAt : compatIt.At w.segs (pre.length + 1)) (hcompatP : compatIt.p ≠ none)
    (hlenAt : lenIt.At w.segs (pre.length + 2)) (hlenP : lenIt.p ≠ none)
    (hlen : w.bytes.length < 2 ^ 32) :
    ∃ w', encodeFinish newCompat compatIt lenIt w = .ok w' ∧ w'.Valid ∧ w'.lastP = w.lastP ∧
      SameShape w.segs w'.segs ∧
      w'.bytes = pre ++ wireStruct v (finalCompat compat newCompat) bs := by
  have hone (n : ℕ) : (LittleEndian.encode 1 n).length = 1 := LittleEndian.length_encode 1 n
  have htotal : w.bytes.length = pre.length + 6 + bs.length := by
    rw [hbytes, List.length_append, List.length_append, length_header]
  have hrecorded : (UInt32.ofNat w.length - lenIt.off - 4).toNat = bs.length := by
    have hnat : (UInt32.ofNat w.length).toNat = pre.length + 6 + bs.length := by
      rw [UInt32.toNat_ofNat', Writer.length, Nat.mod_mod, Nat.mod_eq_of_lt hlen, htotal]
    have hfour : (4 : UInt32).toNat = 4 := rfl
    rw [UInt32.toNat_sub, UInt32.toNat_sub, hnat, hlenAt.off_eq, hfour]
    omega
  -- The length stands behind the two versions.
  have hpre : (pre ++ LittleEndian.encode 1 v.toNat ++ LittleEndian.encode 1 compat.toNat).length =
      pre.length + 2 := by
    rw [List.length_append, List.length_append, hone, hone]
  have hflatten : w.segs.flatten = pre ++ LittleEndian.encode 1 v.toNat ++
      LittleEndian.encode 1 compat.toNat ++ u32 0 ++ bs := by
    change w.bytes = _
    rw [hbytes, header]
    simp only [List.append_assoc]
  obtain ⟨segs₁, it₁, hcopy, hbytes₁, hshape₁⟩ := patch_saved (u32 bs.length) hw.nonempty
    (hpre.symm ▸ hlenAt) hlenP (by simp) (by simp) hflatten hlen
  rw [encodeFinish, hrecorded]
  change ∃ w', (Iter.copyIn w.segs (u32 bs.length) lenIt).bind _ = .ok w' ∧ _
  rw [hcopy, Except.bind]
  by_cases hnew : newCompat = 0
  · rw [if_pos hnew]
    refine ⟨_, rfl, hw.of_shape hshape₁, rfl, hshape₁, ?_⟩
    rw [finalCompat, if_pos hnew]
    change segs₁.flatten = _
    rw [hbytes₁, wireStruct, header]
    simp only [List.append_assoc]
  · rw [if_neg hnew]
    have hpre' : (pre ++ LittleEndian.encode 1 v.toNat).length = pre.length + 1 := by
      rw [List.length_append, hone]
    have hflatten' : segs₁.flatten = pre ++ LittleEndian.encode 1 v.toNat ++
        LittleEndian.encode 1 compat.toNat ++ (u32 bs.length ++ bs) := by
      rw [hbytes₁]
      simp only [List.append_assoc]
    obtain ⟨segs₂, it₂, hcopy₂, hbytes₂, hshape₂⟩ := patch_saved
      (LittleEndian.encode 1 newCompat.toNat) (hshape₁.nonempty hw.nonempty)
      (hpre'.symm ▸ hcompatAt.of_shape hshape₁) hcompatP (by rw [hone, hone])
      (by rw [hone]; decide) hflatten' (hshape₁.length_flatten.trans_lt hlen)
    have hshape : SameShape w.segs segs₂ := hshape₂.trans hshape₁
    rw [hcopy₂]
    refine ⟨_, rfl, hw.of_shape hshape, rfl, hshape, ?_⟩
    rw [finalCompat, if_neg hnew]
    change segs₂.flatten = _
    rw [hbytes₂, wireStruct, header]
    simp only [List.append_assoc]

theorem exists_of_bind_eq_ok {α β : Type} {x : Except Stop α} {f : α → Except Stop β} {b : β}
    (h : x.bind f = .ok b) : ∃ a, x = .ok a ∧ f a = .ok b := by
  cases x with
  | error e => exact absurd h (by rintro ⟨⟩)
  | ok a => exact ⟨a, rfl, h⟩

theorem sameShape_iterCopyIn {segs segs' : List Bytes} {src : Bytes} {it it' : Iter}
    (h : Iter.copyIn segs src it = .ok (segs', it')) : SameShape segs segs' := by
  obtain ⟨it₁, -, hloop⟩ := exists_of_bind_eq_ok h
  exact sameShape_copyInLoop hloop

/-- However `ENCODE_FINISH` ends, the list is cut as before. -/
theorem sameShape_encodeFinish {compatIt lenIt : Iter}
    (h : encodeFinish newCompat compatIt lenIt w = .ok w') : SameShape w.segs w'.segs := by
  obtain ⟨⟨segs₁, it₁⟩, hcopy, hrest⟩ := exists_of_bind_eq_ok h
  have hshape := sameShape_iterCopyIn hcopy
  by_cases hnew : newCompat = 0
  · rw [if_pos hnew] at hrest
    exact Except.ok.inj hrest ▸ hshape
  · rw [if_neg hnew] at hrest
    obtain ⟨⟨segs₂, it₂⟩, hcopy₂, hlast⟩ := exists_of_bind_eq_ok hrest
    exact Except.ok.inj hlast ▸ (sameShape_iterCopyIn hcopy₂).trans hshape

/-- `ENCODE_START` writes the header, and its iterators stand at the compat version and at the length. -/
theorem encodeStruct_begin (hdvd : page ∣ 2 ^ 31) (hw : w.Valid) (hlen : w.bytes.length + 6 < 2 ^ 32) :
    ∃ w₃ compatIt lenIt, Wrote w w₃ (header v compat 0) ∧
      (compatIt.At w₃.segs (w.bytes.length + 1) ∧ compatIt.p ≠ none) ∧
      (lenIt.At w₃.segs (w.bytes.length + 2) ∧ lenIt.p ≠ none) ∧
      ∀ payload, encodeStruct page v compat newCompat payload w =
        (payload w₃).bind (encodeFinish newCompat compatIt lenIt) := by
  have hint (width n : ℕ) (hwidth : width < 2 ^ 31) {w : Writer} (hw : w.Valid)
      (hlen : w.bytes.length + width < 2 ^ 32) :
      ∃ w', encodeInt page width n w = .ok w' ∧ Wrote w w' (LittleEndian.encode width n) := by
    have hwrites := writes_encodeInt hdvd width n hwidth
    have hroom : w.bytes.length + (LittleEndian.encode width n).length < 2 ^ 32 := by
      rwa [LittleEndian.length_encode]
    obtain ⟨w', hok⟩ := hwrites.ok hw hroom trivial trivial
    exact ⟨w', hok, (hwrites.wrote hw hroom hok).1⟩
  have hgrow {w w' : Writer} {width n : ℕ} (h : Wrote w w' (LittleEndian.encode width n)) :
      w'.bytes.length = w.bytes.length + width := by
    rw [h.bytes, List.length_append, LittleEndian.length_encode]
  obtain ⟨w₁, hok₁, hwrote₁⟩ := hint 1 v.toNat (by decide) hw (by omega)
  have hlen₁ := hgrow hwrote₁
  obtain ⟨w₂, hok₂, hwrote₂⟩ := hint 1 compat.toNat (by decide) hwrote₁.valid (by omega)
  have hlen₂ := hgrow hwrote₂
  obtain ⟨w₃, hok₃, hwrote₃⟩ := hint 4 0 (by decide) hwrote₂.valid (by omega)
  have hlen₃ := hgrow hwrote₃
  -- the iterators are set one byte, and four bytes, before the end
  obtain ⟨compatIt, hback, hp, hat⟩ := ofEnd_advance w₂.segs (d := 1) Nat.one_pos
    (by change 1 ≤ w₂.bytes.length; omega) (by change w₂.bytes.length < _; omega)
  obtain ⟨lenIt, hback', hp', hat'⟩ := ofEnd_advance w₃.segs (d := 4) (by decide)
    (by change 4 ≤ w₃.bytes.length; omega) (by change w₃.bytes.length < _; omega)
  have hcompatOff : w₂.segs.flatten.length - 1 = w.bytes.length + 1 := by
    change w₂.bytes.length - 1 = _
    omega
  have hlenOff : w₃.segs.flatten.length - 4 = w.bytes.length + 2 := by
    change w₃.bytes.length - 4 = _
    omega
  refine ⟨w₃, compatIt, lenIt, ?_, ⟨hwrote₃.at_of (hcompatOff ▸ hat) hp, hp⟩, ⟨hlenOff ▸ hat', hp'⟩,
    fun payload ↦ ?_⟩
  · have hall := hwrote₁.trans (hwrote₂.trans hwrote₃)
    exact hall
  · rw [encodeStruct, hok₁, Except.bind, hok₂, Except.bind]
    change ((ofEnd w₂.segs).advance w₂.segs (-(1 : ℕ))).bind _ = _
    rw [hback, Except.bind, hok₃, Except.bind]
    change ((ofEnd w₃.segs).advance w₃.segs (-(4 : ℕ))).bind _ = _
    rw [hback', Except.bind]

/-- **A structure is written as its header and its payload.** -/
theorem writes_encodeStruct (hdvd : page ∣ 2 ^ 31) (hpayload : Writes payload bs starts light) :
    Writes (encodeStruct page v compat newCompat payload)
      (wireStruct v (finalCompat compat newCompat) bs) (fun o ↦ starts (o + 6)) light := by
  have hlength : (wireStruct v (finalCompat compat newCompat) bs).length = 6 + bs.length :=
    length_wireStruct _ _ _
  -- What `ENCODE_FINISH` does once the payload is there.
  have hfinish {w w₃ w₄ : Writer} {compatIt lenIt : Iter} (hwrote : Wrote w w₃ (header v compat 0))
      (hcompat : compatIt.At w₃.segs (w.bytes.length + 1) ∧ compatIt.p ≠ none)
      (hlen : lenIt.At w₃.segs (w.bytes.length + 2) ∧ lenIt.p ≠ none)
      (hwrote' : Wrote w₃ w₄ bs) (hroom : w₄.bytes.length < 2 ^ 32) :
      ∃ w', encodeFinish newCompat compatIt lenIt w₄ = .ok w' ∧
        Wrote w w' (wireStruct v (finalCompat compat newCompat) bs) := by
    have hall := hwrote.trans hwrote'
    obtain ⟨w', hok, hvalid, hlast, hshape, hbytes⟩ := encodeFinish_ok w.bytes
      hwrote'.valid (by rw [hall.bytes, List.append_assoc]) (hwrote'.at_of hcompat.1 hcompat.2)
      hcompat.2 (hwrote'.at_of hlen.1 hlen.2) hlen.2 hroom
    exact ⟨w', hok, hbytes, hvalid, fun hat hp ↦ (hall.at_of hat hp).of_shape hshape,
      hlast ▸ hall.lastP⟩
  refine ⟨fun {w w'} h ↦ ?_, fun {w w'} hvalid hroom h ↦ ?_, fun {w} hvalid hroom hstarts hlight ↦ ?_⟩
  · obtain ⟨w₁, hok₁, h₁⟩ := exists_of_bind_eq_ok h
    obtain ⟨w₂, hok₂, h₂⟩ := exists_of_bind_eq_ok h₁
    obtain ⟨compatIt, -, h₃⟩ := exists_of_bind_eq_ok h₂
    obtain ⟨w₃, hok₃, h₄⟩ := exists_of_bind_eq_ok h₃
    obtain ⟨lenIt, -, h₅⟩ := exists_of_bind_eq_ok h₄
    obtain ⟨w₄, hok₄, h₆⟩ := exists_of_bind_eq_ok h₅
    have hlen₁ := (writes_encodeInt hdvd 1 v.toNat (by decide)).length hok₁
    have hlen₂ := (writes_encodeInt hdvd 1 compat.toNat (by decide)).length hok₂
    have hlen₃ := (writes_encodeInt hdvd 4 0 (by decide)).length hok₃
    have hlen₄ := hpayload.length hok₄
    have hlen₅ : w'.bytes.length = w₄.bytes.length := (sameShape_encodeFinish h₆).length_flatten
    rw [LittleEndian.length_encode] at hlen₁ hlen₂ hlen₃
    omega
  · rw [hlength] at hroom
    obtain ⟨w₃, compatIt, lenIt, hwrote, hcompat, hlen, hbegin⟩ :=
      encodeStruct_begin hdvd hvalid (by omega)
    have hlen₃ : w₃.bytes.length = w.bytes.length + 6 := by
      rw [hwrote.bytes, List.length_append, length_header]
    rw [hbegin] at h
    obtain ⟨w₄, hok₄, h₄⟩ := exists_of_bind_eq_ok h
    obtain ⟨hwrote', hstarts⟩ := hpayload.wrote hwrote.valid (by omega) hok₄
    obtain ⟨w'', hok, hwrote''⟩ := hfinish hwrote hcompat hlen hwrote'
      (by rw [hpayload.length hok₄]; omega)
    obtain rfl : w'' = w' := Except.ok.inj (hok.symm.trans h₄)
    exact ⟨hwrote'', hlen₃ ▸ hstarts⟩
  · rw [hlength] at hroom
    obtain ⟨w₃, compatIt, lenIt, hwrote, hcompat, hlen, hbegin⟩ :=
      encodeStruct_begin hdvd hvalid (by omega)
    have hlen₃ : w₃.bytes.length = w.bytes.length + 6 := by
      rw [hwrote.bytes, List.length_append, length_header]
    obtain ⟨w₄, hok₄⟩ := hpayload.ok hwrote.valid (by omega) (hlen₃.symm ▸ hstarts) hlight
    obtain ⟨hwrote', -⟩ := hpayload.wrote hwrote.valid (by omega) hok₄
    obtain ⟨w', hok, -⟩ := hfinish hwrote hcompat hlen hwrote' (by rw [hpayload.length hok₄]; omega)
    exact ⟨w', by rw [hbegin, hok₄]; exact hok⟩

end Writers

end AsyncMessenger
