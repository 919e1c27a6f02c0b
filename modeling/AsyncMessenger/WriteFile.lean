import AsyncMessenger.SafeIo
import AsyncMessenger.Slicing

/-!
# Writing a list to a file

`write_fd` gathers the segments that are not empty in an array, writes the array whenever it is
full, and after a short write goes on with what is left of it. It returns how many bytes it has
written. `write_file` opens the file, calls `write_fd`, and takes any number but zero for an error.

The results of the calls are a list, of which each says how many bytes a `writev` has taken or that
it failed. The loop over the segments and the loop over one array are followed for any results of
which enough are of use: the content gets into the file, each byte once, and `write_fd` returns how
many there are. What `write_file` makes of this number is right for zero alone.
-/

namespace AsyncMessenger

open Buffer SafeIo

namespace WriteFile

/-- How `write_fd` fails to return. -/
inductive WriteError
  /-- The results of the calls run out. -/
  | hang
  /-- An entry behind the array is used. -/
  | stray
  deriving DecidableEq, Repr

/-- How the array has been dealt with. -/
inductive Batch
  /-- `write_fd` returns. -/
  | returned (ret : ℤ) (f : OpenFile)
  /-- All is written; `total` and the results that are left. -/
  | written (total : ℕ) (rs : List CallResult) (f : OpenFile)
  deriving DecidableEq, Repr

/-- What is left of the array after a short write. -/
def recover : List Bytes → ℕ → Option (List Bytes)
  | [], _ => none
  | v :: start, wrote =>
    if v.length ≤ wrote then recover start (wrote - v.length)
    else if 0 < wrote then some (v.drop wrote :: start)
    else some (v :: start)

/-- From `retry` on. -/
def writeBatch : List CallResult → (start : List Bytes) → (bytes total : ℕ) → OpenFile →
    Except WriteError Batch
  | [], _, _, _, _ => .error .hang
  | r :: rs, start, bytes, total, f =>
    match pwrite f.data start.flatten f.pos r with
    | .error errno =>
      if errno = eintr then writeBatch rs start bytes total f
      else if errno = eagain ∧ 0 < total then .ok (.returned total f)
      else .ok (.returned (-errno) f)
    | .ok (wrote, data) =>
      let f := { data, pos := f.pos + wrote }
      if wrote < bytes then
        match recover start wrote with
        | none => .error .stray
        | some start => writeBatch rs start (bytes - wrote) (total + wrote) f
      else .ok (.written (total + wrote) rs f)

section

variable (iovMax : ℕ)

/-- The loop over the segments. -/
def writeLoop (h : Heap) : List Ptr → (iov : List Bytes) → (bytes total : ℕ) → List CallResult →
    OpenFile → Except WriteError (ℤ × OpenFile)
  | [], _, _, total, _, f => .ok (total, f)
  | p :: ps, iov, bytes, total, rs, f =>
    let iov := if 0 < p.len then iov ++ [p.bytes h] else iov
    let bytes := if 0 < p.len then bytes + p.len else bytes
    if iov.length = iovMax - 1 ∨ ps = [] then
      match writeBatch rs iov bytes total f with
      | .error e => .error e
      | .ok (.returned ret f) => .ok (ret, f)
      | .ok (.written total rs f) => writeLoop h ps [] 0 total rs f
    else writeLoop h ps iov bytes total rs f

/-- `write_fd`. Without a segment that is a pipe, `can_zero_copy` is true only of the empty list,
and `write_fd_zero_copy` returns at once. -/
def writeFd (h : Heap) (bl : BufferList) (rs : List CallResult) (f : OpenFile) :
    Except WriteError (ℤ × OpenFile) :=
  if bl.buffers = [] then .ok (0, f) else writeLoop iovMax h bl.buffers [] 0 0 rs f

/-- `TEMP_FAILURE_RETRY`: the error of the call, if it has one. -/
def retried : List CallResult → Except WriteError (Option ℕ)
  | [] => .error .hang
  | .moved _ :: _ => .ok none
  | .failed errno :: rs => if errno = eintr then retried rs else .ok (some errno)

/-- `write_file`: what it returns, and the file, where it has been opened. The three lists are the
results of `open`, of `writev` and of `close`. -/
def writeFile (h : Heap) (bl : BufferList) (opens rs closes : List CallResult) :
    Except WriteError (ℤ × Option OpenFile) :=
  match retried opens with
  | .error e => .error e
  | .ok (some errno) => .ok (-errno, none)
  | .ok none =>
    match writeFd iovMax h bl rs { data := [] } with
    | .error e => .error e
    | .ok (ret, f) =>
      match retried closes with
      | .error e => .error e
      | .ok closed =>
        if ret ≠ 0 then .ok (ret, some f)
        else
          match closed with
          | some errno => .ok (-errno, some f)
          | none => .ok (0, some f)

end

/-! ## The array -/

variable {iovMax : ℕ} {h : Heap} {bl : BufferList} {rs opens closes : List CallResult} {f : OpenFile}
variable {start iov : List Bytes} {ps : List Ptr}

/-- The call does not fail, or it is interrupted. -/
def Sound : CallResult → Prop
  | .moved _ => True
  | .failed errno => errno = eintr

instance : (r : CallResult) → Decidable (Sound r)
  | .moved _ => inferInstanceAs (Decidable True)
  | .failed errno => inferInstanceAs (Decidable (errno = eintr))

theorem retried_sound (hsound : ∀ r ∈ opens, Sound r) {n : ℕ} (hmem : .moved n ∈ opens) :
    retried opens = .ok none := by
  induction opens with
  | nil => exact absurd hmem List.not_mem_nil
  | cons r opens ih =>
    have hr := hsound r List.mem_cons_self
    cases r with
    | moved n => rfl
    | failed errno =>
      obtain hhead | hmem := List.mem_cons.mp hmem
      · exact CallResult.noConfusion hhead
      · rw [retried, if_pos (show errno = eintr from hr)]
        exact ih (fun r hr ↦ hsound r (List.mem_cons_of_mem _ hr)) hmem

theorem recover_eq {wrote : ℕ} (hlt : wrote < start.flatten.length) :
    ∃ start', recover start wrote = some start' ∧ start'.flatten = start.flatten.drop wrote := by
  induction start generalizing wrote with
  | nil => exact absurd hlt (Nat.not_lt_zero _)
  | cons v start ih =>
    rw [List.flatten_cons, List.length_append] at hlt
    rw [recover, List.flatten_cons]
    by_cases hwhole : v.length ≤ wrote
    · have hrest : wrote - v.length < start.flatten.length := by omega
      obtain ⟨start', hrecover, hflatten⟩ := ih hrest
      refine ⟨start', by rw [if_pos hwhole, hrecover], ?_⟩
      rw [hflatten, List.drop_append, List.drop_of_length_le hwhole, List.nil_append]
    · by_cases hsome : 0 < wrote
      · refine ⟨_, by rw [if_neg hwhole, if_pos hsome], ?_⟩
        rw [List.flatten_cons, List.drop_append_of_le_length (by omega)]
      · refine ⟨_, by rw [if_neg hwhole, if_neg hsome], ?_⟩
        rw [show wrote = 0 by omega, List.flatten_cons, List.drop_zero]

/-- A file that is written at its end. -/
def AtEnd (f : OpenFile) : Prop := f.pos = f.data.length

theorem store_end (data bs : Bytes) : store data data.length bs = data ++ bs := by
  by_cases hnil : bs = []
  · rw [hnil, store_nil, List.append_nil]
  · rw [store, if_neg hnil, List.take_length, Nat.sub_self, List.replicate_zero, List.append_nil,
      List.drop_of_length_le (Nat.le_add_right _ _), List.append_nil]

/-- **One batch.** All of the array is written, and no more calls are made than there are bytes;
without bytes it is one call. -/
theorem writeBatch_spec (hsound : ∀ r ∈ rs, Sound r) {bytes : ℕ} (hbytes : start.flatten.length = bytes)
    (huseful : bytes < useful rs) (total : ℕ) (hend : AtEnd f) :
    ∃ rs' f', writeBatch rs start bytes total f = .ok (.written (total + bytes) rs' f')
      ∧ (∀ r ∈ rs', Sound r) ∧ useful rs ≤ useful rs' + max bytes 1
      ∧ f'.data = f.data ++ start.flatten ∧ AtEnd f' := by
  induction rs generalizing start bytes total f with
  | nil => exact absurd huseful (Nat.not_lt_zero _)
  | cons r rs ih =>
    have hr := hsound r List.mem_cons_self
    have hrest : ∀ r ∈ rs, Sound r := fun r hr ↦ hsound r (List.mem_cons_of_mem _ hr)
    cases r with
    | failed errno =>
      rw [writeBatch]
      dsimp only [pwrite]
      rw [if_pos (show errno = eintr from hr)]
      exact ih hrest hbytes huseful total hend
    | moved n =>
      have huseful' : useful (.moved n :: rs) = useful rs + min n 1 := by
        rw [useful]
        by_cases hn : 0 < n
        · rw [if_pos hn, Nat.min_eq_right hn]
        · rw [if_neg hn, show n = 0 by omega, Nat.zero_min, Nat.add_zero]
      have hstore : store f.data f.pos (start.flatten.take n) = f.data ++ start.flatten.take n := by
        rw [hend, store_end]
      have hend' : AtEnd { data := f.data ++ start.flatten.take n, pos := f.pos + min n bytes } := by
        rw [AtEnd, List.length_append, List.length_take, hbytes, hend]
      rw [writeBatch]
      dsimp only [pwrite]
      rw [hstore, hbytes]
      -- a partial write: the array is recovered, and the rest is written in the same way
      by_cases hshort : min n bytes < bytes
      · obtain ⟨start', hrecover, hflatten⟩ := recover_eq
          (show min n bytes < start.flatten.length by omega)
        rw [if_pos hshort, hrecover]
        dsimp only
        have hlen : start'.flatten.length = bytes - min n bytes := by
          rw [hflatten, List.length_drop, hbytes]
        obtain ⟨rs', f', hrun, hsound', hfew, hdata, hend''⟩ :=
          ih hrest hlen (by omega) (total + min n bytes) hend'
        refine ⟨rs', f', ?_, hsound', by omega, ?_, hend''⟩
        · rw [hrun, Nat.add_assoc, Nat.add_sub_cancel' (Nat.min_le_right n bytes)]
        · rw [hdata, hflatten, List.append_assoc, Nat.min_eq_left (by omega), List.take_append_drop]
      · have hall : min n bytes = bytes := by omega
        rw [if_neg hshort, hall]
        refine ⟨rs, _, rfl, hrest, by omega, ?_, hall ▸ hend'⟩
        rw [List.take_of_length_le (by omega)]

/-! ## The list -/

/-- One segment is put into the array, unless it is empty. -/
theorem gathered {p : Ptr} (hp : p.In h h.extent) (hroom : iov.length < iovMax - 1)
    (hfew : iov.length ≤ iov.flatten.length) :
    ∃ iov', (if 0 < p.len then iov ++ [p.bytes h] else iov) = iov'
      ∧ (if 0 < p.len then iov.flatten.length + p.len else iov.flatten.length) = iov'.flatten.length
      ∧ iov'.flatten = iov.flatten ++ p.bytes h ∧ iov'.length ≤ iovMax - 1
      ∧ iov'.length ≤ iov'.flatten.length := by
  have hlen : (p.bytes h).length = p.len := hp.length_bytes (tidy_extent h)
  refine ⟨_, rfl, ?_⟩
  by_cases hpos : 0 < p.len
  · have hflatten : (iov ++ [p.bytes h]).flatten = iov.flatten ++ p.bytes h := by
      rw [List.flatten_append, List.flatten_singleton]
    rw [if_pos hpos, if_pos hpos, hflatten]
    simp only [List.length_append, List.length_singleton, hlen]
    exact ⟨trivial, trivial, by omega, by omega⟩
  · have hnil : p.bytes h = [] := List.eq_nil_of_length_eq_zero (by omega)
    rw [if_neg hpos, if_neg hpos, hnil, List.append_nil]
    exact ⟨rfl, rfl, by omega, hfew⟩

/-- **The loop over the segments** writes them all, one after the other. -/
theorem writeLoop_spec (hps : ∀ p ∈ ps, p.In h h.extent)
    (hsound : ∀ r ∈ rs, Sound r) (hroom : iov.length < iovMax - 1)
    (hfew : iov.length ≤ iov.flatten.length) (hlast : ps = [] → iov = [])
    (huseful : ps ≠ [] → iov.flatten.length + (ps.flatMap (Ptr.bytes h)).length < useful rs)
    (total : ℕ) (hend : AtEnd f) :
    ∃ f', writeLoop iovMax h ps iov iov.flatten.length total rs f
        = .ok (((total + iov.flatten.length + (ps.flatMap (Ptr.bytes h)).length : ℕ) : ℤ), f')
      ∧ f'.data = f.data ++ iov.flatten ++ ps.flatMap (Ptr.bytes h) := by
  induction ps generalizing iov total rs f with
  | nil =>
    obtain rfl := hlast rfl
    refine ⟨f, rfl, ?_⟩
    rw [List.flatten_nil, List.flatMap_nil, List.append_nil, List.append_nil]
  | cons p ps ih =>
    have hrest : ∀ q ∈ ps, q.In h h.extent := fun q hq ↦ hps q (List.mem_cons_of_mem p hq)
    obtain ⟨iov', hiov, hbytes, hflatten, hroom', hfew'⟩ := gathered (hps p List.mem_cons_self) hroom hfew
    have huseful := huseful (List.cons_ne_nil p ps)
    have hlength : iov'.flatten.length = iov.flatten.length + (p.bytes h).length := by
      rw [hflatten, List.length_append]
    rw [List.flatMap_cons, List.length_append] at huseful ⊢
    rw [writeLoop, hiov, hbytes]
    -- the array is full or the list at its end, and a batch is written
    by_cases hfull : iov'.length = iovMax - 1 ∨ ps = []
    · rw [if_pos hfull]
      obtain ⟨rs', f₁, hrun, hsound', hmany, hdata, hend'⟩ :=
        writeBatch_spec hsound (show iov'.flatten.length = _ from rfl) (by omega) total hend
      rw [hrun]
      dsimp only
      have huseful' : ps ≠ [] →
          ([] : List Bytes).flatten.length + (ps.flatMap (Ptr.bytes h)).length < useful rs' := by
        intro hne
        have hwhole := hfull.resolve_right hne
        rw [List.flatten_nil, List.length_nil]
        omega
      have hempty : ([] : List Bytes).length < iovMax - 1 := Nat.zero_lt_of_lt hroom
      obtain ⟨f', hrun', hdata'⟩ := ih hrest hsound' hempty (Nat.zero_le _) (fun _ ↦ rfl) huseful'
        (total + iov'.flatten.length) hend'
      refine ⟨f', hrun'.trans ?_, ?_⟩
      · rw [List.flatten_nil, List.length_nil, hlength]
        congr 3
        omega
      · rw [hdata', hdata, hflatten, List.flatten_nil, List.append_nil]
        simp only [List.append_assoc]
    · rw [if_neg hfull]
      obtain ⟨f', hrun, hdata⟩ := ih hrest hsound (show iov'.length < iovMax - 1 by omega) hfew'
        (fun hnil ↦ absurd (.inr hnil) hfull) (fun _ ↦ by omega) total hend
      refine ⟨f', hrun.trans ?_, ?_⟩
      · rw [hlength]
        congr 3
        omega
      · rw [hdata, hflatten]
        simp only [List.append_assoc]

/-- `write_file` always writes the content, and returns how long it is. -/
theorem writeFile_eq (hmax : 1 < iovMax) (hsegment : ∀ p ∈ bl.buffers, p.In h h.extent)
    (hopens : ∀ r ∈ opens, Sound r) (hopened : .moved 0 ∈ opens) (hsound : ∀ r ∈ rs, Sound r)
    (huseful : (bl.contents h).length < useful rs) (hcloses : ∀ r ∈ closes, Sound r)
    (hclosed : .moved 0 ∈ closes) :
    ∃ f, writeFile iovMax h bl opens rs closes = .ok (((bl.contents h).length : ℤ), some f)
      ∧ f.data = bl.contents h := by
  have hwrite : ∃ f, writeFd iovMax h bl rs { data := [] } = .ok (((bl.contents h).length : ℤ), f)
      ∧ f.data = bl.contents h := by
    rw [writeFd]
    by_cases hnil : bl.buffers = []
    · rw [if_pos hnil, BufferList.contents, hnil]
      exact ⟨_, rfl, rfl⟩
    · rw [if_neg hnil]
      have huseful' : bl.buffers ≠ [] →
          ([] : List Bytes).flatten.length + (bl.buffers.flatMap (Ptr.bytes h)).length < useful rs := by
        rw [List.flatten_nil, List.length_nil, Nat.zero_add]
        exact fun _ ↦ huseful
      obtain ⟨f, hrun, hdata⟩ := writeLoop_spec (f := { data := [] }) hsegment hsound
        (Nat.sub_pos_of_lt hmax) (Nat.zero_le _) (fun _ ↦ rfl) huseful' 0 rfl
      rw [List.flatten_nil, List.length_nil, Nat.zero_add] at hrun
      exact ⟨f, hrun, hdata⟩
  obtain ⟨f, hrun, hdata⟩ := hwrite
  refine ⟨f, ?_, hdata⟩
  rw [writeFile, retried_sound hopens hopened, hrun]
  dsimp only
  rw [retried_sound hcloses hclosed]
  dsimp only
  by_cases hzero : ((bl.contents h).length : ℤ) = 0
  · rw [if_neg (not_not_intro hzero), hzero]
  · rw [if_pos hzero]

/-- **`write_file` writes the content and returns zero** exactly if there is no content. -/
theorem writeFile_iff (hmax : 1 < iovMax) (hsegment : ∀ p ∈ bl.buffers, p.In h h.extent)
    (hopens : ∀ r ∈ opens, Sound r) (hopened : .moved 0 ∈ opens) (hsound : ∀ r ∈ rs, Sound r)
    (huseful : (bl.contents h).length < useful rs) (hcloses : ∀ r ∈ closes, Sound r)
    (hclosed : .moved 0 ∈ closes) :
    (∃ f, writeFile iovMax h bl opens rs closes = .ok (0, some f) ∧ f.data = bl.contents h)
      ↔ bl.contents h = [] := by
  obtain ⟨f, hrun, hdata⟩ := writeFile_eq hmax hsegment hopens hopened hsound huseful hcloses hclosed
  rw [hrun]
  constructor
  · rintro ⟨f', heq, -⟩
    have hret : ((bl.contents h).length : ℤ) = 0 := (Prod.mk.inj (Except.ok.inj heq)).1
    exact List.eq_nil_of_length_eq_zero (by omega)
  · intro hnil
    refine ⟨f, ?_, hdata⟩
    rw [hnil]
    rfl

/-- A segment without bytes is written, and zero is returned. -/
theorem writeFile_empty :
    ∃ f, writeFile 1024 [] { buffers := [{}] } [.moved 0] [.failed 4, .moved 1] [.failed 4, .moved 0]
        = .ok (0, some f) ∧ f.data = [] :=
  (@writeFile_iff 1024 [] { buffers := [{}] } _ _ _ (by decide) (by simp [Ptr.In]) (by decide)
    (by decide) (by decide) (by decide) (by decide) (by decide)).mpr rfl

/-- Three bytes in two segments: they are in the file, and 3 is returned for an error. -/
theorem writeFile_misreported :
    (BufferList.contents [{ bytes := [1, 2, 3] }]
        { buffers := [{ raw := some 0, len := 2 }, { raw := some 0, off := 2, len := 1 }] } = [1, 2, 3])
      ∧ writeFile 1024 [{ bytes := [1, 2, 3] }]
        { buffers := [{ raw := some 0, len := 2 }, { raw := some 0, off := 2, len := 1 }] }
        [.moved 0] [.moved 1, .failed 4, .moved 9] [.moved 0]
        = .ok (3, some { data := [1, 2, 3], pos := 3 }) := by
  exact ⟨by decide, by decide⟩

end WriteFile

end AsyncMessenger
