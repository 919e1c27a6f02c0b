import AsyncMessenger.SafeIo
import Mathlib.Algebra.Order.Ring.Int
import Mathlib.Logic.Function.Basic

/-!
# Replacing a file

`safe_write_file` looks whether the file has the right content already, writes a temporary file
beside it, and renames that. The look is at no more than the first 80 bytes, and what `safe_write`
returns is taken for an error although it is the number of bytes; so a file is replaced by an empty
one at best. Where all this goes well, and where not, depends on the results of the calls, on the
old content and on the length of the path.

## What it is for

`Atomic` is what the header promises, in the words of a caller: when 0 is returned the file has the
new content; 0 is returned if no call fails but by an interruption; and when something else is
returned, and nothing has been renamed, the file is as it was.

## The condition

`Fit` is a condition on the results of the calls, the old content and the path. It is made of closed
forms: `found` is what the look at the old file returns, `written` how many bytes get to the
temporary file. The run is taken apart by what is found and by what is written (`run_cases`), and
each of the cases is compared with `Atomic` (`atomic_of_fit`, `fit_of_atomic`).
-/

namespace AsyncMessenger

open SafeIo

namespace SafeWriteFile

/-- The files by their paths. -/
abbrev Files := List Char → Option (List UInt8)

/-- `PATH_MAX`. -/
def pathMax : ℕ := 4096

/-- `ENOENT`. -/
def enoent : ℕ := 2

/-- What the system calls come to; of a call that is made once, the error if it has one. What
`close` returns is not looked at. -/
structure Results where
  openOld : Option ℕ := none
  reads : List CallResult
  openTmp : Option ℕ := none
  writes : List CallResult
  fsync : Option ℕ := none
  unlink : Option ℕ := none
  rename : Option ℕ := none
  openBase : Option ℕ := none
  fsyncBase : Option ℕ := none
  deriving DecidableEq, Repr

/-- Why the function does not return. -/
inductive Fault
  /-- The results run out. -/
  | hang
  /-- `memcmp` reads behind `oldval`. -/
  | stray
  deriving DecidableEq, Repr

/-- What is returned, the files, and whether the temporary file has been renamed. -/
structure Outcome where
  ret : ℤ
  files : Files
  renamed : Bool := false

/-- What an `int` holds after a wider integer has been stored in it. -/
def intOf (z : ℤ) : ℤ := (z + 2 ^ 31) % 2 ^ 32 - 2 ^ 31

/-- `base/file`. -/
def path (base file : List Char) : List Char := base ++ '/' :: file

/-- `fn`, as `snprintf` leaves it. -/
def fileName (base file : List Char) : List Char := (path base file).take (pathMax - 1)

/-- `tmp`, as `snprintf` leaves it. -/
def tmpName (base file : List Char) : List Char :=
  (path base file ++ ['.', 't', 'm', 'p']).take (pathMax - 1)

/-- `unlink`. -/
def unlink (files : Files) (name : List Char) : Option ℕ → Files
  | none => Function.update files name none
  | some _ => files

/-- `rename`, where it succeeds. -/
def rename (files : Files) (old new : List Char) : Files :=
  if old = new then files else Function.update (Function.update files new (files old)) old none

/-- `safe_read_file`: what it returns, and the memory that it reads into. -/
def safeReadFile (files : Files) (base file : List Char) (mem : List UInt8) (vallen : ℕ) (r : Results) :
    Except Fault (ℤ × List UInt8) :=
  match r.openOld with
  | some errno => .ok (-errno, mem)
  | none =>
    match files (fileName base file) with
    | none => .ok (-enoent, mem)
    | some data =>
      match safeRead r.reads { data } mem 0 vallen with
      | none => .error .hang
      | some (len, _, mem) => .ok (intOf len, mem)

/-- The end of `safe_write_file`: the temporary file is written, and `fd` is synchronised. -/
def finish (files : Files) (fn tmp : List Char) (r : Results) : Outcome :=
  match r.fsync with
  | some errno => { ret := -errno, files := unlink files tmp r.unlink }
  | none =>
    match r.rename with
    | some errno => { ret := -errno, files := unlink files tmp r.unlink }
    | none =>
      let files := rename files tmp fn
      match r.openBase with
      | some errno => { ret := -errno, files, renamed := true }
      | none =>
        match r.fsyncBase with
        | some errno => { ret := -errno, files, renamed := true }
        | none => { ret := 0, files, renamed := true }

/-- `safe_write_file` from the temporary file on. -/
def writeTmp (files : Files) (fn tmp : List Char) (val : List UInt8) (r : Results) :
    Except Fault Outcome :=
  match r.openTmp with
  | some errno => .ok { ret := -errno, files }
  | none =>
    match safeWrite r.writes { data := [] } val 0 val.length with
    | none => .error .hang
    | some (n, f) =>
      let files := Function.update files tmp (some f.data)
      if intOf n ≠ 0 then .ok { ret := intOf n, files } else .ok (finish files fn tmp r)

/-- `safe_write_file`. `oldval` is what is on the stack. -/
def safeWriteFile (files : Files) (base file : List Char) (val oldval : List UInt8) (r : Results) :
    Except Fault Outcome :=
  match safeReadFile files base file oldval 80 r with
  | .error e => .error e
  | .ok (ret, oldval) =>
    if ret = intOf val.length ∧ 80 < val.length then .error .stray
    else if ret = intOf val.length ∧ oldval.take val.length = val then .ok { ret := 0, files }
    else writeTmp files (fileName base file) (tmpName base file) val r

/-! ## What it is for

The errors of the calls are error numbers, between 1 and 4095; nothing else is asked of the results. -/

/-- An error number. -/
def IsErrno (errno : ℕ) : Prop := 0 < errno ∧ errno < 4096

/-- All errors have error numbers. -/
structure Results.Valid (r : Results) : Prop where
  once : ∀ errno, some errno ∈ [r.openOld, r.openTmp, r.fsync, r.rename, r.openBase, r.fsyncBase] →
    IsErrno errno
  reads : ∀ errno, failure r.reads = some errno → IsErrno errno

/-- No call fails but by an interruption, and there are results for all of them. -/
structure Results.Calm (r : Results) (vallen : ℕ) : Prop where
  once : ∀ errno, some errno ∈ [r.openOld, r.openTmp, r.fsync, r.rename, r.openBase, r.fsyncBase] →
    errno = eintr
  reads : failure r.reads = none ∧ 80 < useful r.reads
  writes : failure r.writes = none ∧ vallen < useful r.writes

/-- The file is replaced atomically. -/
structure Atomic (files : Files) (base file : List Char) (val oldval : List UInt8) (r : Results) :
    Prop where
  content : ∀ o, safeWriteFile files base file val oldval r = .ok o → o.ret = 0 →
    o.files (path base file) = some val
  returns : r.Calm val.length → ∃ o, safeWriteFile files base file val oldval r = .ok o ∧ o.ret = 0
  unchanged : ∀ o, safeWriteFile files base file val oldval r = .ok o → o.ret ≠ 0 → o.renamed = false →
    o.files (path base file) = files (path base file)

/-! ## What it depends on

The number of bytes and the error numbers share one `int`, so a value may be so long that its length
is taken for another one or for an error number. The condition has to speak of these coincidences as
well. -/

/-- What the look at the old file returns. -/
def found (files : Files) (name : List Char) (r : Results) : Option ℤ :=
  match r.openOld with
  | some errno => some (-errno)
  | none =>
    match files name with
    | none => some (-enoent)
    | some data => (transfer true (min 80 data.length) 80 r.reads 0).map fun (k, stop) ↦ report k stop

/-- The bytes that are found are those of `val`. -/
def Begins (files : Files) (base file : List Char) (val : List UInt8) (r : Results) : Prop :=
  found files (fileName base file) r = some (val.length : ℤ)
    ∧ (files (fileName base file)).map (List.take val.length) = some val

/-- `val` is so long that its length is taken for another one, or for an error number, and that is
found. -/
def Overruns (files : Files) (base file : List Char) (val : List UInt8) (r : Results) : Prop :=
  found files (fileName base file) r = some (intOf val.length) ∧ 80 < val.length

/-- The temporary file is opened. -/
def Opens (files : Files) (base file : List Char) (val : List UInt8) (r : Results) : Prop :=
  (found files (fileName base file) r).isSome ∧ ¬Overruns files base file val r
    ∧ ¬Begins files base file val r ∧ r.openTmp = none

/-- How many bytes are written to the temporary file, and the number that decides how it goes on. -/
def written (val : List UInt8) (r : Results) : Option (ℕ × ℤ) :=
  (transfer false val.length val.length r.writes 0).map fun (k, stop) ↦ (k, intOf (report k stop))

/-- The condition. -/
structure Fit (files : Files) (base file : List Char) (val : List UInt8) (r : Results) : Prop where
  /-- A file that begins like `val` does not go on. -/
  whole : Begins files base file val r → files (path base file) = some val
  /-- What is renamed is complete, and the name is not cut off. -/
  complete : Opens files base file val r → ∀ k, written val r = some (k, 0) →
    r.fsync = none → r.rename = none → r.openBase = none → r.fsyncBase = none →
      if (path base file).length < pathMax then k = val.length else files (path base file) = some val
  /-- If nothing but an interruption goes wrong, the file is found as it should be, or there is
  nothing to write and the interruptions are in `read` and `write`. -/
  smooth : r.Calm val.length → Begins files base file val r ∨ ¬Overruns files base file val r
    ∧ val.length % 2 ^ 32 = 0 ∧ r.openTmp = none ∧ r.fsync = none ∧ r.rename = none ∧ r.openBase = none
    ∧ r.fsyncBase = none
  /-- The names of the two files are different, or what is left of the temporary file is the old
  content. -/
  apart : (path base file).length = pathMax - 1 → Opens files base file val r → ∀ k n,
    written val r = some (k, n) →
      (n ≠ 0 → files (path base file) = some (val.take k))
        ∧ (n = 0 → r.fsync ≠ none ∨ r.rename ≠ none →
          files (path base file) = if r.unlink = none then none else some (val.take k))

variable {files : Files} {base file : List Char} {val oldval : List UInt8} {r : Results} {k : ℕ}

theorem intOf_of_small {z : ℤ} (hlow : -2 ^ 31 ≤ z) (hhigh : z < 2 ^ 31) : intOf z = z := by
  rw [intOf]
  omega

/-! ## The names -/

theorem fileName_eq_iff : fileName base file = path base file ↔ (path base file).length < pathMax := by
  rw [fileName, pathMax]
  constructor
  · intro h
    have hlen := congrArg List.length h
    rw [List.length_take] at hlen
    omega
  · exact fun h ↦ List.take_of_length_le (by omega)

theorem tmpName_eq_iff : tmpName base file = path base file ↔ (path base file).length = pathMax - 1 := by
  rw [tmpName, pathMax]
  constructor
  · intro h
    have hlen := congrArg List.length h
    rw [List.length_take, List.length_append] at hlen
    simp only [List.length_cons, List.length_nil] at hlen
    omega
  · intro h
    rw [List.take_append_of_le_length (by omega), ← h, List.take_length]

/-! ## The results of the loops

`safe_read` and `safe_write` go through the list of results until one ends them. Here only what they
report matters. -/

/-- No more is moved than there is room for, and the failure is that of the results. -/
theorem transfer_bounds {reader : Bool} {room count k₀ : ℕ} {rs : List CallResult} {stop : TransferEnd}
    (hk : k₀ ≤ room) (h : transfer reader room count rs k₀ = some (k, stop)) :
    k ≤ room ∧ ∀ errno, stop = .failed errno → failure rs = some errno := by
  induction rs generalizing k₀ with
  | nil =>
    rw [transfer] at h
    by_cases hlt : k₀ < count
    · rw [if_pos hlt] at h
      exact absurd h (Option.some_ne_none _).symm
    · rw [if_neg hlt] at h
      obtain ⟨rfl, rfl⟩ := Prod.mk.inj (Option.some.inj h)
      exact ⟨hk, fun _ h ↦ TransferEnd.noConfusion h⟩
  | cons r rs ih =>
    by_cases hlt : k₀ < count
    · cases r with
      | moved n =>
        rw [transfer, if_pos hlt] at h
        by_cases hzero : reader = true ∧ min n (room - k₀) = 0
        · rw [if_pos hzero] at h
          obtain ⟨rfl, rfl⟩ := Prod.mk.inj (Option.some.inj h)
          exact ⟨hk, fun _ h ↦ TransferEnd.noConfusion h⟩
        · rw [if_neg hzero] at h
          exact ih (by omega) h
      | failed errno =>
        rw [transfer, if_pos hlt] at h
        rw [SafeIo.failure]
        by_cases hintr : errno = eintr
        · rw [if_pos hintr] at h ⊢
          exact ih hk h
        · rw [if_neg hintr] at h ⊢
          obtain ⟨rfl, rfl⟩ := Prod.mk.inj (Option.some.inj h)
          exact ⟨hk, fun _ h ↦ congrArg some (TransferEnd.failed.inj h)⟩
    · have hdone : transfer reader room count (r :: rs) k₀ = some (k₀, .complete) := by
        cases r with
        | _ => rw [transfer, if_neg hlt]
      rw [hdone] at h
      obtain ⟨rfl, rfl⟩ := Prod.mk.inj (Option.some.inj h)
      exact ⟨hk, fun _ h ↦ TransferEnd.noConfusion h⟩

/-- What is reported is the number of bytes, or the negative of an error number. -/
theorem report_cases (k : ℕ) {stop : TransferEnd}
    (hstop : ∀ errno, stop = .failed errno → IsErrno errno) :
    report k stop = k ∨ -4096 < report k stop ∧ report k stop < 0 := by
  cases stop with
  | complete => exact .inl rfl
  | eof => exact .inl rfl
  | failed errno =>
    obtain ⟨hpos, hlt⟩ := hstop errno rfl
    rw [report]
    by_cases hagain : errno = eagain ∧ 0 < k
    · exact .inl (if_pos hagain)
    · rw [if_neg hagain]
      exact .inr ⟨by omega, by omega⟩

/-! ## The look at the old file -/

theorem take_store (m bs : List UInt8) : (store m 0 bs).take bs.length = bs := by
  by_cases hnil : bs = []
  · rw [hnil]
    rfl
  · rw [store, if_neg hnil, List.take_zero, Nat.zero_sub, List.replicate_zero, List.append_nil,
      List.nil_append, List.take_left]

/-- What `safe_read_file` returns is what is found, and if that is the length of `val`, the bytes of
the file are at the front of `oldval`. -/
theorem safeReadFile_spec (base file : List Char) (oldval : List UInt8) (hvalid : r.Valid) :
    (found files (fileName base file) r = none
        ∧ safeReadFile files base file oldval 80 r = .error .hang)
      ∨ ∃ ret mem, found files (fileName base file) r = some ret
        ∧ safeReadFile files base file oldval 80 r = .ok (ret, mem)
        ∧ (0 ≤ ret → ∃ data, files (fileName base file) = some data
          ∧ mem.take ret.toNat = data.take ret.toNat ∧ ret ≤ 80) := by
  rw [found, safeReadFile]
  cases hopen : r.openOld with
  | some errno =>
    have herrno := hvalid.once errno (hopen ▸ List.mem_cons_self)
    refine .inr ⟨_, _, rfl, rfl, fun h ↦ ?_⟩
    have hpos := herrno.1
    omega
  | none =>
    cases hfile : files (fileName base file) with
    | none => exact .inr ⟨_, _, rfl, rfl, fun h ↦ absurd h (by decide)⟩
    | some data =>
      dsimp only
      rw [safeRead_eq, Nat.sub_zero]
      cases htransfer : transfer true (min 80 data.length) 80 r.reads 0 with
      | none => exact .inl ⟨rfl, rfl⟩
      | some x =>
        obtain ⟨k, stop⟩ := x
        obtain ⟨hk, hstop⟩ := transfer_bounds (Nat.zero_le _) htransfer
        have hreport := report_cases k fun errno h ↦ hvalid.reads errno (hstop errno h)
        have hint : intOf (report k stop) = report k stop := intOf_of_small (by omega) (by omega)
        dsimp only [Option.map_some]
        rw [hint]
        refine .inr ⟨_, _, rfl, rfl, fun hnonneg ↦ ⟨data, rfl, ?_, by omega⟩⟩
        have hret : report k stop = k := by omega
        have hlen : (data.take k).length = k := by
          rw [List.length_take]
          omega
        have htake := take_store oldval (data.take k)
        rw [hlen] at htake
        rw [hret, Int.toNat_natCast, List.drop_zero, htake]

/-- Nothing is found. -/
theorem run_hangs (hvalid : r.Valid) (h : found files (fileName base file) r = none) :
    safeWriteFile files base file val oldval r = .error .hang := by
  obtain ⟨-, hread⟩ | ⟨ret, mem, hfound, -⟩ := safeReadFile_spec base file oldval hvalid
  · rw [safeWriteFile, hread]
  · rw [h] at hfound
    exact absurd hfound (Option.some_ne_none _).symm

/-- What is found decides how it goes on. -/
theorem run_eq (val oldval : List UInt8) (hvalid : r.Valid)
    (h : (found files (fileName base file) r).isSome) :
    (Overruns files base file val r ∧ safeWriteFile files base file val oldval r = .error .stray)
      ∨ (Begins files base file val r
        ∧ safeWriteFile files base file val oldval r = .ok { ret := 0, files })
      ∨ (¬Overruns files base file val r ∧ ¬Begins files base file val r
        ∧ safeWriteFile files base file val oldval r
          = writeTmp files (fileName base file) (tmpName base file) val r) := by
  obtain ⟨hnone, -⟩ | ⟨ret, mem, hfound, hread, hnonneg⟩ :=
    safeReadFile_spec base file oldval hvalid
  · rw [hnone] at h
    exact absurd h Bool.false_ne_true
  have hrun : safeWriteFile files base file val oldval r
      = if ret = intOf val.length ∧ 80 < val.length then .error .stray
        else if ret = intOf val.length ∧ mem.take val.length = val then .ok { ret := 0, files }
        else writeTmp files (fileName base file) (tmpName base file) val r := by
    rw [safeWriteFile, hread]
  by_cases hover : Overruns files base file val r
  · have hret : ret = intOf val.length := Option.some.inj (hfound.symm.trans hover.1)
    rw [if_pos ⟨hret, hover.2⟩] at hrun
    exact .inl ⟨hover, hrun⟩
  have hshort : ¬(ret = intOf val.length ∧ 80 < val.length) :=
    fun h ↦ hover ⟨hfound.trans (congrArg some h.1), h.2⟩
  rw [if_neg hshort] at hrun
  -- the length fits, so what is compared with it is the number of bytes that have been read
  have hint (hle : val.length ≤ 80) : intOf val.length = val.length :=
    intOf_of_small (by omega) (by omega)
  have hsame (hret : ret = (val.length : ℤ)) :
      mem.take val.length = val
        ↔ (files (fileName base file)).map (List.take val.length) = some val := by
    obtain ⟨data, hdata, htake, -⟩ := hnonneg (by omega)
    rw [hret, Int.toNat_natCast] at htake
    rw [hdata, htake, Option.map_some, Option.some_inj]
  by_cases hbegins : Begins files base file val r
  · have hret : ret = (val.length : ℤ) := Option.some.inj (hfound.symm.trans hbegins.1)
    obtain ⟨-, -, -, hle⟩ := hnonneg (by omega)
    rw [if_pos ⟨hret.trans (hint (by omega)).symm, (hsame hret).mpr hbegins.2⟩] at hrun
    exact .inr (.inl ⟨hbegins, hrun⟩)
  · refine .inr (.inr ⟨hover, hbegins, hrun.trans (if_neg fun h ↦ hbegins ?_)⟩)
    have hle : val.length ≤ 80 := Nat.le_of_not_lt fun hlt ↦ hshort ⟨h.1, hlt⟩
    have hret : ret = (val.length : ℤ) := h.1.trans (hint hle)
    exact ⟨hfound.trans (congrArg some hret), (hsame hret).mp h.2⟩

/-! ## The temporary file -/

variable {fn tmp : List Char}

/-- The outcome, once the temporary file is open. -/
theorem writeTmp_eq (hopen : r.openTmp = none) : writeTmp files fn tmp val r
    = match written val r with
      | none => .error .hang
      | some (k, n) =>
        if n ≠ 0 then .ok { ret := n, files := Function.update files tmp (some (val.take k)) }
        else .ok (finish (Function.update files tmp (some (val.take k))) fn tmp r) := by
  have hstore (bs : List UInt8) : store [] 0 bs = bs := by
    by_cases hnil : bs = []
    · rw [hnil, store_nil]
    · rw [store, if_neg hnil]
      simp
  rw [writeTmp, hopen, safeWrite_eq (Nat.le_of_eq (Nat.zero_add _)), written]
  cases transfer false val.length val.length r.writes 0 with
  | none => rfl
  | some x =>
    dsimp only [Option.map_some]
    rw [hstore, List.drop_zero]

theorem written_le {n : ℤ} (h : written val r = some (k, n)) : k ≤ val.length := by
  obtain ⟨⟨k', stop⟩, htransfer, heq⟩ := Option.map_eq_some_iff.mp h
  obtain ⟨rfl, -⟩ := Prod.mk.inj heq
  exact (transfer_bounds (Nat.zero_le _) htransfer).1

/-- All calls at the end succeed. -/
def Results.Finishes (r : Results) : Prop :=
  r.fsync = none ∧ r.rename = none ∧ r.openBase = none ∧ r.fsyncBase = none

theorem finish_ret (hvalid : r.Valid) : (finish files fn tmp r).ret = 0 ↔ r.Finishes := by
  have hne {o : Option ℕ} {errno : ℕ}
      (ho : o ∈ [r.openOld, r.openTmp, r.fsync, r.rename, r.openBase, r.fsyncBase])
      (h : o = some errno) : -(errno : ℤ) ≠ 0 := by
    have hpos := (hvalid.once errno (h ▸ ho)).1
    omega
  rw [finish, Results.Finishes]
  cases hfsync : r.fsync with
  | some errno => exact iff_of_false (hne (by simp) hfsync) (by simp)
  | none =>
    cases hrename : r.rename with
    | some errno => exact iff_of_false (hne (by simp) hrename) (by simp)
    | none =>
      cases hbase : r.openBase with
      | some errno => exact iff_of_false (hne (by simp) hbase) (by simp)
      | none =>
        cases hlast : r.fsyncBase with
        | some errno => exact iff_of_false (hne (by simp) hlast) (by simp)
        | none => exact iff_of_true rfl ⟨rfl, rfl, rfl, rfl⟩

/-- Whether it has come to the renaming, and the files then. -/
theorem finish_files : (finish files fn tmp r).renamed = decide (r.fsync = none ∧ r.rename = none)
    ∧ (finish files fn tmp r).files
      = if r.fsync = none ∧ r.rename = none then rename files tmp fn else unlink files tmp r.unlink := by
  rw [finish]
  cases r.fsync with
  | some errno => exact ⟨rfl, (if_neg (by simp)).symm⟩
  | none =>
    cases r.rename with
    | some errno => exact ⟨rfl, (if_neg (by simp)).symm⟩
    | none =>
      rw [if_pos ⟨rfl, rfl⟩]
      cases r.openBase with
      | some errno => exact ⟨rfl, rfl⟩
      | none =>
        cases r.fsyncBase with
        | some errno => exact ⟨rfl, rfl⟩
        | none => exact ⟨rfl, rfl⟩

/-- The file after the renaming: a name that is cut off is that of another one. -/
theorem renamed_at (x : Option (List UInt8)) :
    rename (Function.update files (tmpName base file) x) (tmpName base file) (fileName base file)
        (path base file)
      = if (path base file).length < pathMax then x else files (path base file) := by
  by_cases hlen : (path base file).length < pathMax
  · rw [if_pos hlen, fileName_eq_iff.mpr hlen, rename]
    by_cases hsame : tmpName base file = path base file
    · rw [if_pos hsame, hsame, Function.update_self]
    · rw [if_neg hsame, Function.update_of_ne (Ne.symm hsame), Function.update_self, Function.update_self]
  · have htmp : path base file ≠ tmpName base file := by
      intro h
      have hlast := tmpName_eq_iff.mp h.symm
      rw [pathMax] at hlen hlast
      omega
    have hfn : path base file ≠ fileName base file := fun h ↦ hlen (fileName_eq_iff.mp h.symm)
    rw [if_neg hlen, rename]
    by_cases hsame : tmpName base file = fileName base file
    · rw [if_pos hsame, Function.update_of_ne htmp]
    · rw [if_neg hsame, Function.update_of_ne htmp, Function.update_of_ne hfn, Function.update_of_ne htmp]

/-- The file after the temporary file has been removed. -/
theorem unlinked_at (x : Option (List UInt8)) (u : Option ℕ) :
    unlink (Function.update files (tmpName base file) x) (tmpName base file) u (path base file)
      = if (path base file).length = pathMax - 1 then (if u = none then none else x)
        else files (path base file) := by
  by_cases hsame : tmpName base file = path base file
  · rw [if_pos (tmpName_eq_iff.mp hsame), hsame]
    cases u with
    | none => rw [unlink, Function.update_self, if_pos rfl]
    | some errno => rw [unlink, Function.update_self, if_neg (Option.some_ne_none _)]
  · rw [if_neg fun h ↦ hsame (tmpName_eq_iff.mpr h)]
    cases u with
    | none => rw [unlink, Function.update_of_ne (Ne.symm hsame), Function.update_of_ne (Ne.symm hsame)]
    | some errno => rw [unlink, Function.update_of_ne (Ne.symm hsame)]

/-! ## Runs without failures -/

theorem useful_le_offered {rs : List CallResult} (h : SafeIo.failure rs = none) :
    useful rs ≤ offered rs := by
  induction rs with
  | nil => exact Nat.le_refl 0
  | cons r rs ih =>
    cases r with
    | moved n =>
      have hrest := ih h
      rw [useful, offered]
      by_cases hn : 0 < n
      · rw [if_pos hn]
        omega
      · rw [if_neg hn]
        omega
    | failed errno =>
      by_cases hintr : errno = eintr
      · rw [SafeIo.failure, if_pos hintr] at h
        rw [useful, offered, if_pos hintr]
        exact ih h
      · rw [SafeIo.failure, if_neg hintr] at h
        exact absurd h (Option.some_ne_none _)

theorem Results.Calm.found_isSome (h : r.Calm val.length) (name : List Char) :
    (found files name r).isSome := by
  rw [found]
  cases r.openOld with
  | some errno => rfl
  | none =>
    cases files name with
    | none => rfl
    | some data =>
      dsimp only
      rw [Option.isSome_map]
      exact transfer_isSome (fun h ↦ absurd h Bool.false_ne_true.symm) (.inr h.reads.2)

theorem Results.Calm.written_eq (h : r.Calm val.length) :
    written val r = some (val.length, intOf val.length) := by
  have hall : val.length ≤ 0 + offered r.writes := by
    have hle := useful_le_offered h.writes.1
    have hlt := h.writes.2
    omega
  rw [written, transfer_write (Nat.zero_le _), if_pos hall]
  rfl

theorem intOf_eq_zero_iff (n : ℕ) : intOf n = 0 ↔ n % 2 ^ 32 = 0 := by
  rw [intOf]
  omega

/-! ## The condition

Both directions go through the cases of how the function returns. -/

/-- The run, once the temporary file is open. -/
theorem Opens.run (hopens : Opens files base file val r) (hvalid : r.Valid) (oldval : List UInt8) :
    safeWriteFile files base file val oldval r
      = match written val r with
        | none => .error .hang
        | some (k, n) =>
          if n ≠ 0 then
            .ok { ret := n, files := Function.update files (tmpName base file) (some (val.take k)) }
          else .ok (finish (Function.update files (tmpName base file) (some (val.take k)))
            (fileName base file) (tmpName base file) r) := by
  obtain ⟨hsome, hover, hbegins, hopen⟩ := hopens
  obtain ⟨h, -⟩ | ⟨h, -⟩ | ⟨-, -, hrun⟩ := run_eq val oldval hvalid hsome
  · exact absurd h hover
  · exact absurd h hbegins
  · rw [hrun, writeTmp_eq hopen]

theorem Begins.run (hbegins : Begins files base file val r) (hvalid : r.Valid) :
    safeWriteFile files base file val oldval r = .ok { ret := 0, files } := by
  have hsome : (found files (fileName base file) r).isSome := by
    rw [hbegins.1]
    rfl
  obtain ⟨hover, -⟩ | ⟨-, hrun⟩ | ⟨-, h, -⟩ := run_eq val oldval hvalid hsome
  · obtain ⟨h, -⟩ | ⟨ret, mem, hfound, -, hnonneg⟩ :=
      safeReadFile_spec base file oldval hvalid
    · rw [h] at hsome
      exact absurd hsome Bool.false_ne_true
    · have hret : ret = (val.length : ℤ) := Option.some.inj (hfound.symm.trans hbegins.1)
      obtain ⟨-, -, -, hle⟩ := hnonneg (by omega)
      have hlong := hover.2
      omega
  · exact hrun
  · exact absurd hbegins h

/-- **How the function returns.** -/
theorem run_cases (hvalid : r.Valid) {o : Outcome}
    (hrun : safeWriteFile files base file val oldval r = .ok o) :
    (Begins files base file val r ∧ o = { ret := 0, files })
      ∨ (∃ errno, r.openTmp = some errno ∧ o = { ret := -errno, files })
      ∨ Opens files base file val r ∧ ∃ k n, written val r = some (k, n)
        ∧ (n ≠ 0
          ∧ o = { ret := n, files := Function.update files (tmpName base file) (some (val.take k)) }
          ∨ n = 0 ∧ o = finish (Function.update files (tmpName base file) (some (val.take k)))
            (fileName base file) (tmpName base file) r) := by
  cases hfound : found files (fileName base file) r with
  | none =>
    rw [run_hangs hvalid hfound] at hrun
    nomatch hrun
  | some ret =>
    have hsome : (found files (fileName base file) r).isSome := by
      rw [hfound]
      rfl
    obtain ⟨-, hstray⟩ | ⟨hbegins, hrun'⟩ | ⟨hover, hbegins, hrun'⟩ := run_eq val oldval hvalid hsome
    · rw [hstray] at hrun
      nomatch hrun
    · exact .inl ⟨hbegins, (Except.ok.inj (hrun'.symm.trans hrun)).symm⟩
    · refine .inr ?_
      cases hopen : r.openTmp with
      | some errno =>
        rw [hrun', writeTmp, hopen] at hrun
        exact .inl ⟨errno, rfl, (Except.ok.inj hrun).symm⟩
      | none =>
        have hopens : Opens files base file val r := ⟨hsome, hover, hbegins, hopen⟩
        rw [hopens.run hvalid oldval] at hrun
        refine .inr ⟨hopens, ?_⟩
        cases hwritten : written val r with
        | none =>
          rw [hwritten] at hrun
          dsimp only at hrun
          nomatch hrun
        | some x =>
          obtain ⟨k, n⟩ := x
          rw [hwritten] at hrun
          dsimp only at hrun
          refine ⟨k, n, rfl, ?_⟩
          by_cases hn : n = 0
          · rw [if_neg (not_not_intro hn)] at hrun
            exact .inr ⟨hn, (Except.ok.inj hrun).symm⟩
          · rw [if_pos hn] at hrun
            exact .inl ⟨hn, (Except.ok.inj hrun).symm⟩

/-- The file, once the temporary file is written. -/
theorem written_at (x : Option (List UInt8)) :
    Function.update files (tmpName base file) x (path base file)
      = if (path base file).length = pathMax - 1 then x else files (path base file) := by
  by_cases hsame : tmpName base file = path base file
  · rw [if_pos (tmpName_eq_iff.mp hsame), hsame, Function.update_self]
  · rw [if_neg fun h ↦ hsame (tmpName_eq_iff.mpr h), Function.update_of_ne (Ne.symm hsame)]

/-- **Necessity.** -/
theorem fit_of_atomic (hvalid : r.Valid) (h : Atomic files base file val oldval r) :
    Fit files base file val r where
  whole hbegins := h.content _ (hbegins.run hvalid) rfl
  complete hopens k hwritten hfsync hrename hbase hlast := by
    have hrun := hopens.run hvalid oldval
    rw [hwritten] at hrun
    have hcontent := h.content _ hrun ((finish_ret hvalid).mpr ⟨hfsync, hrename, hbase, hlast⟩)
    rw [finish_files.2, if_pos ⟨hfsync, hrename⟩, renamed_at] at hcontent
    -- the file is renamed to the right name only if the path fits its buffer
    by_cases hlen : (path base file).length < pathMax
    · rw [if_pos hlen] at hcontent ⊢
      have hlength := congrArg List.length (Option.some.inj hcontent)
      rw [List.length_take] at hlength
      have hle := written_le hwritten
      omega
    · rw [if_neg hlen] at hcontent ⊢
      exact hcontent
  smooth hcalm := by
    by_cases hbegins : Begins files base file val r
    · exact .inl hbegins
    obtain ⟨o, hrun, hret⟩ := h.returns hcalm
    refine .inr ?_
    obtain ⟨hbegins', -⟩ | ⟨errno, hopen, rfl⟩ | ⟨hopens, k, n, hwritten, hcase⟩ := run_cases hvalid hrun
    · exact absurd hbegins' hbegins
    · have hpos := (hvalid.once errno (hopen ▸ by simp)).1
      dsimp only at hret
      omega
    · obtain ⟨-, hn⟩ := Prod.mk.inj (Option.some.inj (hcalm.written_eq.symm.trans hwritten))
      obtain ⟨hne, rfl⟩ | ⟨hzero, rfl⟩ := hcase
      · exact absurd hret hne
      · obtain ⟨hfsync, hrename, hbase, hlast⟩ := (finish_ret hvalid).mp hret
        have hmod := (intOf_eq_zero_iff _).mp (hn.trans hzero)
        exact ⟨hopens.2.1, hmod, hopens.2.2.2, hfsync, hrename, hbase, hlast⟩
  apart hlen hopens k n hwritten := by
    have hrun := hopens.run hvalid oldval
    rw [hwritten] at hrun
    dsimp only at hrun
    constructor
    · intro hn
      rw [if_pos hn] at hrun
      have hsame := h.unchanged _ hrun hn rfl
      dsimp only at hsame
      rw [written_at, if_pos hlen] at hsame
      exact hsame.symm
    · intro hn hfails
      have hnot : ¬(r.fsync = none ∧ r.rename = none) := fun h ↦ hfails.elim (· h.1) (· h.2)
      rw [if_neg (not_not_intro hn)] at hrun
      have hsame := h.unchanged _ hrun (fun hret ↦ hnot
        ⟨((finish_ret hvalid).mp hret).1, ((finish_ret hvalid).mp hret).2.1⟩)
        (finish_files.1.trans (decide_eq_false hnot))
      rw [finish_files.2, if_neg hnot, unlinked_at, if_pos hlen] at hsame
      exact hsame.symm

/-- **Sufficiency.** -/
theorem atomic_of_fit (hvalid : r.Valid) (h : Fit files base file val r) :
    Atomic files base file val oldval r where
  content o hrun hret := by
    obtain ⟨hbegins, rfl⟩ | ⟨errno, hopen, rfl⟩ | ⟨hopens, k, n, hwritten, ⟨hn, rfl⟩ | ⟨rfl, rfl⟩⟩ :=
      run_cases hvalid hrun
    · exact h.whole hbegins
    · have hpos := (hvalid.once errno (hopen ▸ by simp)).1
      dsimp only at hret
      omega
    · exact absurd hret hn
    · obtain ⟨hfsync, hrename, hbase, hlast⟩ := (finish_ret hvalid).mp hret
      have hcomplete := h.complete hopens k hwritten hfsync hrename hbase hlast
      rw [finish_files.2, if_pos ⟨hfsync, hrename⟩, renamed_at]
      by_cases hlen : (path base file).length < pathMax
      · rw [if_pos hlen] at hcomplete ⊢
        rw [hcomplete, List.take_length]
      · rw [if_neg hlen] at hcomplete ⊢
        exact hcomplete
  returns hcalm := by
    obtain hbegins | ⟨hover, hmod, hopen, hfinishes⟩ := h.smooth hcalm
    · exact ⟨_, hbegins.run hvalid, rfl⟩
    by_cases hbegins : Begins files base file val r
    · exact ⟨_, hbegins.run hvalid, rfl⟩
    have hopens : Opens files base file val r := ⟨hcalm.found_isSome _, hover, hbegins, hopen⟩
    have hrun := hopens.run hvalid oldval
    rw [hcalm.written_eq] at hrun
    dsimp only at hrun
    rw [if_neg (not_not_intro ((intOf_eq_zero_iff _).mpr hmod))] at hrun
    exact ⟨_, hrun, (finish_ret hvalid).mpr hfinishes⟩
  unchanged o hrun hret hbefore := by
    obtain ⟨-, rfl⟩ | ⟨errno, -, rfl⟩ | ⟨hopens, k, n, hwritten, ⟨hn, rfl⟩ | ⟨rfl, rfl⟩⟩ :=
      run_cases hvalid hrun
    · rfl
    · rfl
    · dsimp only
      rw [written_at]
      by_cases hlen : (path base file).length = pathMax - 1
      · rw [if_pos hlen]
        exact ((h.apart hlen hopens k n hwritten).1 hn).symm
      · rw [if_neg hlen]
    · have hnot : ¬(r.fsync = none ∧ r.rename = none) :=
        of_decide_eq_false (finish_files.1.symm.trans hbefore)
      rw [finish_files.2, if_neg hnot, unlinked_at]
      by_cases hlen : (path base file).length = pathMax - 1
      · rw [if_pos hlen]
        refine ((h.apart hlen hopens k 0 hwritten).2 rfl ?_).symm
        by_cases hfsync : r.fsync = none
        · exact .inr fun hrename ↦ hnot ⟨hfsync, hrename⟩
        · exact .inl hfsync
      · rw [if_neg hlen]

/-- **The file is replaced atomically** exactly under the condition. -/
theorem atomic_iff (hvalid : r.Valid) :
    Atomic files base file val oldval r ↔ Fit files base file val r :=
  ⟨fit_of_atomic hvalid, atomic_of_fit hvalid⟩

/-- A file `b/f` of a given content. -/
def single (data : List UInt8) : Files := fun name ↦ if name = path ['b'] ['f'] then some data else none

/-- No call fails. -/
def smoothly : Results :=
  { reads := List.replicate 81 (.moved 80), writes := [.failed eintr, .moved 1, .moved 100] }

theorem smoothly_quiet : SafeIo.failure smoothly.reads = none := by decide

theorem smoothly_valid : smoothly.Valid :=
  ⟨by simp [smoothly], fun _ h ↦ absurd (smoothly_quiet.symm.trans h) (Option.some_ne_none _).symm⟩

/-- A file of two bytes is replaced by an empty one. -/
theorem emptied : Atomic (single [1, 2]) ['b'] ['f'] [] (List.replicate 80 0) smoothly := by
  have hnot : ¬Begins (single [1, 2]) ['b'] ['f'] [] smoothly := fun h ↦ absurd h.1 (by decide)
  refine (atomic_iff smoothly_valid).mpr ⟨fun h ↦ absurd h hnot, ?_, fun _ ↦ .inr ?_, ?_⟩
  · intro _ k hwritten _ _ _ _
    have hzero : written [] smoothly = some (0, 0) := by decide
    obtain ⟨rfl, -⟩ := Prod.mk.inj (Option.some.inj (hzero.symm.trans hwritten))
    rfl
  · have hover : ¬Overruns (single [1, 2]) ['b'] ['f'] [] smoothly := fun h ↦ absurd h.2 (by decide)
    exact ⟨hover, by decide, by decide, by decide, by decide, by decide, by decide⟩
  · exact fun hlen ↦ absurd hlen (by decide)

/-- One byte is written to a new file and 1 is returned; a file of 81 bytes passes for one of 80,
and 0 is returned although it stays as it is. -/
theorem not_replaced :
    (∃ o, safeWriteFile (fun _ ↦ none) ['b'] ['f'] [7] (List.replicate 80 0) smoothly = .ok o ∧ o.ret = 1
        ∧ smoothly.Calm 1)
      ∧ (∃ o, safeWriteFile (single (List.replicate 81 1)) ['b'] ['f'] (List.replicate 80 1)
        (List.replicate 80 0) smoothly = .ok o ∧ o.ret = 0
        ∧ o.files (path ['b'] ['f']) ≠ some (List.replicate 80 1))
      ∧ ¬Atomic (fun _ ↦ none) ['b'] ['f'] [7] (List.replicate 80 0) smoothly
      ∧ ¬Atomic (single (List.replicate 81 1)) ['b'] ['f'] (List.replicate 80 1) (List.replicate 80 0)
        smoothly := by
  have hcalm : smoothly.Calm 1 :=
    ⟨by simp [smoothly], ⟨smoothly_quiet, by decide⟩, by decide, by decide⟩
  have hfst : ∃ o, safeWriteFile (fun _ ↦ none) ['b'] ['f'] [7] (List.replicate 80 0) smoothly = .ok o
      ∧ o.ret = 1 := ⟨_, rfl, by decide⟩
  have hsnd : ∃ o, safeWriteFile (single (List.replicate 81 1)) ['b'] ['f'] (List.replicate 80 1)
      (List.replicate 80 0) smoothly = .ok o ∧ o.ret = 0
      ∧ o.files (path ['b'] ['f']) ≠ some (List.replicate 80 1) := ⟨_, rfl, by decide, by decide⟩
  obtain ⟨o, hrun, hret⟩ := hfst
  obtain ⟨o', hrun', hret', hfile⟩ := hsnd
  refine ⟨⟨o, hrun, hret, hcalm⟩, ⟨o', hrun', hret', hfile⟩, fun h ↦ ?_, fun h ↦ ?_⟩
  · obtain ⟨o₁, hrun₁, hret₁⟩ := h.returns hcalm
    obtain rfl := Except.ok.inj (hrun₁.symm.trans hrun)
    omega
  · exact hfile (h.content o' hrun' hret')

end SafeWriteFile

end AsyncMessenger
