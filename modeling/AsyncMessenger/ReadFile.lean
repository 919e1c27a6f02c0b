import AsyncMessenger.Base64
import AsyncMessenger.SafeWriteFile
import AsyncMessenger.WriteFile

/-!
# Reading a list from a file

`read_file` opens a file, asks for its size, and reads so many bytes into a raw buffer of its own,
which becomes a segment behind the others. It returns 0 also if there are fewer bytes than the size
says; only the text of the error tells.

The results of the calls are lists, as they are for writing, and `read_fd` is followed for all of
them: the bytes that have been read are a segment behind the others, and no read goes beyond the
buffer (`readFile_ne_stray`). The size is rounded up to a page when the buffer is made and is an
`int` on its way to `safe_read`, which is where the bound on the size comes from.
-/

namespace AsyncMessenger

open Buffer SafeIo

namespace ReadFile

open WriteFile SafeWriteFile BufferList

/-- The text that is left in `*error`. -/
inductive Complaint
  | cantOpen (errno : ℕ)
  | readError (errno : ℤ)
  | prematureEof
  deriving DecidableEq, Repr

/-- What `read_file` leaves behind. -/
structure Outcome where
  ret : ℤ
  error : Option Complaint := none
  heap : Heap
  list : BufferList
  deriving DecidableEq, Repr

/-- `ROUND_UP_TO`. -/
def roundUpTo (n d : ℕ) : ℕ := if n % d ≠ 0 then n + d - n % d else n

section

variable (alloc : Allocator) (page : ℕ)

/-- `read_fd`. The size of the buffer is an `int`, and an `unsigned` again. -/
def readFd (h : Heap) (l : BufferList) (rs : List CallResult) (f : OpenFile) (len : ℕ) :
    Except WriteError (ℤ × Heap × BufferList) :=
  let x := h.create alloc (roundUpTo len page % 2 ^ 32)
  match safeRead rs f (x.1.bytes h.length) 0 len with
  | none => .error .hang
  | some (ret, _, mem) =>
    if (x.1.bytes h.length).length < mem.length then .error .stray
    else .ok (ret, x.1.write h.length 0 mem,
      if 0 ≤ ret then l.appendPtr { x.2 with len := ret.toNat } else l)

/-- `read_file` for a file with this content. The size is what `fstat` has left in `st_size`; the
lists are the results of `open`, of `read` and of `close`, whose failure is ignored. -/
def readFile (h : Heap) (l : BufferList) (opens rs closes : List CallResult) (data : Bytes) (size : ℕ) :
    Except WriteError Outcome :=
  match retried opens with
  | .error e => .error e
  | .ok (some errno) => .ok { ret := -errno, error := some (.cantOpen errno), heap := h, list := l }
  | .ok none =>
    match readFd alloc page h l rs { data } size with
    | .error e => .error e
    | .ok (ret, h, l) =>
      match retried closes with
      | .error e => .error e
      | .ok _ =>
        if ret < 0 then .ok { ret, error := some (.readError ret), heap := h, list := l }
        else .ok {
          ret := 0
          error := if ret ≠ size then some .prematureEof else none
          heap := h
          list := l }

end

variable {alloc : Allocator} {page : ℕ} {h : Heap} {l : BufferList}

theorem le_roundUpTo (hpage : 0 < page) (n : ℕ) :
    n ≤ roundUpTo n page ∧ roundUpTo n page < n + page := by
  have hlt := Nat.mod_lt n hpage
  rw [roundUpTo]
  split_ifs
  · omega
  · omega

theorem length_store {m bs : Bytes} (h : bs.length ≤ m.length) : (store m 0 bs).length = m.length := by
  rw [store]
  split_ifs
  · rfl
  · simp only [List.length_append, List.length_take, List.length_replicate, List.length_drop]
    omega

/-- What `read_fd` does: the bytes that have been read are a segment behind the others. -/
theorem readFd_spec (hpage : 0 < page) (hl : l.Proper h) {rs : List CallResult} {data : Bytes} {size : ℕ}
    (hsize : size + page ≤ 2 ^ 32) (hlong : l.len + size < 2 ^ 32)
    (hvalid : ∀ errno, failure rs = some errno → IsErrno errno) :
    readFd alloc page h l rs { data } size = .error .hang ∨
    ∃ ret raw l', readFd alloc page h l rs { data } size = .ok (ret, h ++ [raw], l') ∧ l'.Proper (h ++ [raw]) ∧
      (ret < 0 ∧ l' = l ∨ ∃ k : ℕ, ret = k ∧ k ≤ size ∧ k ≤ data.length ∧
        l'.contents (h ++ [raw]) = l.contents h ++ data.take k) := by
  obtain ⟨hle, hround⟩ := le_roundUpTo hpage size
  have hmod : roundUpTo size page % 2 ^ 32 = roundUpTo size page := Nat.mod_eq_of_lt (by omega)
  have hfresh : ((List.range (roundUpTo size page)).map (alloc.junk h.length)).length = roundUpTo size page := by
    rw [List.length_map, List.length_range]
  rw [readFd, hmod, Heap.create]
  dsimp only
  rw [Heap.bytes_append_self]
  generalize (List.range (roundUpTo size page)).map (alloc.junk h.length) = junk at hfresh
  rw [safeRead_eq, Nat.sub_zero]
  cases htransfer : transfer true (min size data.length) size rs 0 with
  | none => exact Or.inl rfl
  | some x =>
    obtain ⟨k, stop⟩ := x
    obtain ⟨hk, hstop⟩ := transfer_bounds (Nat.zero_le _) htransfer
    have htake : (data.take k).length = k := by
      rw [List.length_take]
      omega
    have hfits : k ≤ junk.length := by omega
    have hmem : (store junk 0 (data.take k)).length = junk.length := length_store (htake.trans_le hfits)
    have hfront := take_store junk (data.take k)
    rw [htake] at hfront
    right
    rw [Option.map_some]
    dsimp only
    rw [List.drop_zero, if_neg (by rw [hmem]; exact lt_irrefl _), Heap.write_append_self, List.take_zero,
      List.nil_append, Nat.zero_add, hmem, List.drop_length, List.append_nil]
    obtain ⟨hproper, hcontents⟩ := hl.append [{
      data := alloc.address h.length, bytes := store junk 0 (data.take k), shareable := true }]
    refine ⟨_, _, _, rfl, ?_⟩
    rcases report_cases k fun errno h ↦ hvalid errno (hstop errno h) with hret | ⟨-, hneg⟩
    · -- the segment is the front of the buffer
      rw [hret, if_pos (Int.natCast_nonneg k), Int.toNat_natCast, appendPtr_eq]
      have hin : ({ raw := some h.length, len := k } : Ptr).In
          (h ++ [{ data := alloc.address h.length, bytes := store junk 0 (data.take k), shareable := true }])
          (Heap.extent
            (h ++ [{ data := alloc.address h.length, bytes := store junk 0 (data.take k), shareable := true }])) := by
        refine ⟨fun hnone ↦ absurd hnone (by simp), fun r hr ↦ ?_⟩
        obtain rfl : h.length = r := Option.some_inj.mp hr
        rw [Heap.extent, Heap.bytes_append_self, hmem, Ptr.stop, Nat.zero_add, List.length_append]
        exact ⟨Nat.lt_succ_self _, hfits⟩
      obtain ⟨hsound, hpushed, -⟩ := hproper.sound.pushBack hin (tidy_extent _)
      have hbytes : Ptr.bytes
          (h ++ [{ data := alloc.address h.length, bytes := store junk 0 (data.take k), shareable := true }])
          { raw := some h.length, len := k } = data.take k := by
        simp only [Ptr.bytes, Heap.bytes_append_self, List.drop_zero, hfront]
      rw [hbytes, hcontents] at hpushed
      have hshort : (l.contents h ++ data.take k).length < 2 ^ 32 := by
        rw [List.length_append, hl.length_contents, htake]
        omega
      exact ⟨hsound.proper (hpushed ▸ hshort), Or.inr ⟨k, rfl, by omega, by omega, hpushed⟩⟩
    · -- the buffer is given up with what it holds
      rw [if_neg (by omega)]
      exact ⟨hproper, Or.inl ⟨hneg, rfl⟩⟩

theorem retried_ne_stray (rs : List CallResult) : retried rs ≠ .error .stray := by
  induction rs with
  | nil => rintro ⟨⟩
  | cons r rs ih =>
    cases r with
    | moved k => rintro ⟨⟩
    | failed errno =>
      rw [retried]
      split_ifs
      · exact ih
      · rintro ⟨⟩

/-- No read leaves the buffer. -/
theorem readFile_ne_stray (hpage : 0 < page) (hl : l.Proper h) {opens rs closes : List CallResult}
    {data : Bytes} {size : ℕ} (hsize : size + page ≤ 2 ^ 32) (hlong : l.len + size < 2 ^ 32)
    (hvalid : ∀ errno, failure rs = some errno → IsErrno errno) :
    readFile alloc page h l opens rs closes data size ≠ .error .stray := by
  intro hstray
  rw [readFile] at hstray
  split at hstray
  · rename_i hopen
    exact retried_ne_stray opens (hopen.trans (congrArg _ (Except.error.inj hstray)))
  · exact nomatch hstray
  · rcases @readFd_spec alloc page h l hpage hl rs data size hsize hlong hvalid with
      hhang | ⟨ret, raw, l', hfd, -⟩
    · rw [hhang] at hstray
      exact nomatch hstray
    · rw [hfd] at hstray
      dsimp only at hstray
      split at hstray
      · rename_i hclose
        exact retried_ne_stray closes (hclose.trans (congrArg _ (Except.error.inj hstray)))
      · split_ifs at hstray

/-- **What is written is read.** `write_file` has written the content of a list to a file whose size
is told as it is. Then `read_file` never reads beyond its buffer and leaves every other list as it is,
and either it fails and adds nothing to its own list, or it returns 0 and adds a first part of the
content; and this is all of it exactly if there is no text in `*error`. The results of the calls may
be any. -/
theorem readFile_writeFile {iovMax : ℕ} {heap : Heap} {bl : BufferList}
    {opens rs closes : List CallResult}
    (hmax : 1 < iovMax) (hsegment : ∀ p ∈ bl.buffers, p.In heap heap.extent)
    (hopens : ∀ r ∈ opens, Sound r) (hopened : .moved 0 ∈ opens) (hsound : ∀ r ∈ rs, Sound r)
    (huseful : (bl.contents heap).length < useful rs) (hcloses : ∀ r ∈ closes, Sound r)
    (hclosed : .moved 0 ∈ closes) :
    ∃ f, writeFile iovMax heap bl opens rs closes = .ok (((bl.contents heap).length : ℤ), some f) ∧
      ∀ (alloc : Allocator) (page : ℕ) (h : Heap) (l : BufferList) (opens' rs' closes' : List CallResult),
        0 < page → l.Proper h → f.data.length + page ≤ 2 ^ 32 → l.len + f.data.length < 2 ^ 32 →
        (∀ errno, retried opens' = .ok (some errno) → IsErrno errno) →
        (∀ errno, failure rs' = some errno → IsErrno errno) →
        readFile alloc page h l opens' rs' closes' f.data f.data.length ≠ .error .stray ∧
        ∀ o, readFile alloc page h l opens' rs' closes' f.data f.data.length = .ok o →
        (∀ m : BufferList, m.Proper h → m.Proper o.heap ∧ m.contents o.heap = m.contents h) ∧
          (o.ret < 0 ∧ o.error ≠ none ∧ o.list = l ∨
            o.ret = 0 ∧ o.list.Proper o.heap ∧ ∃ k ≤ (bl.contents heap).length,
              o.list.contents o.heap = l.contents h ++ (bl.contents heap).take k ∧
                (o.error = none ↔ k = (bl.contents heap).length)) := by
  obtain ⟨f, hrun, hdata⟩ := writeFile_eq hmax hsegment hopens hopened hsound huseful hcloses hclosed
  refine ⟨f, hrun, fun alloc page h l opens' rs' closes' hpage hl hsize hlong hopenErr hreadErr ↦ ?_⟩
  rw [hdata] at hsize hlong ⊢
  refine ⟨readFile_ne_stray hpage hl hsize hlong hreadErr, fun o hread ↦ ?_⟩
  rw [readFile] at hread
  cases hopen : retried opens' with
  | error e =>
    rw [hopen] at hread
    exact nomatch hread
  | ok opened =>
    cases opened with
    | some errno =>
      rw [hopen] at hread
      obtain rfl := Except.ok.inj hread
      have hpos := (hopenErr errno hopen).1
      exact ⟨fun m hm ↦ ⟨hm, rfl⟩, Or.inl ⟨by dsimp only; omega, Option.some_ne_none _, rfl⟩⟩
    | none =>
      rw [hopen] at hread
      dsimp only at hread
      rcases @readFd_spec alloc page h l hpage hl rs' (bl.contents heap) _ hsize hlong hreadErr with
        hhang | ⟨ret, raw, l', hfd, hproper, hcases⟩
      · rw [hhang] at hread
        exact nomatch hread
      · rw [hfd] at hread
        dsimp only at hread
        cases hclose : retried closes' with
        | error e =>
          rw [hclose] at hread
          exact nomatch hread
        | ok closed =>
          rw [hclose] at hread
          dsimp only at hread
          rcases hcases with ⟨hneg, rfl⟩ | ⟨k, rfl, hk, -, hcontents⟩
          · rw [if_pos hneg] at hread
            obtain rfl := Except.ok.inj hread
            exact ⟨fun m hm ↦ hm.append [raw], Or.inl ⟨hneg, Option.some_ne_none _, rfl⟩⟩
          · rw [if_neg (by omega)] at hread
            obtain rfl := Except.ok.inj hread
            refine ⟨fun m hm ↦ hm.append [raw], Or.inr ⟨rfl, hproper, k, hk, hcontents, ?_⟩⟩
            -- a file that ends early leaves a text, but not an error
            dsimp only
            by_cases hall : k = (bl.contents heap).length
            · rw [hall, if_neg (not_not_intro rfl)]
              exact iff_of_true rfl rfl
            · rw [if_pos (by exact_mod_cast hall)]
              exact iff_of_false (Option.some_ne_none _) hall

/-- Memory that is zero at first. -/
def zeros : Allocator := { address := fun _ ↦ 0, junk := fun _ _ ↦ 0 }

/-- Two segments are written; the reader gets them in two parts that are cut elsewhere. -/
theorem readFile_writeFile_cut :
    ∃ f o, writeFile 1024 [{ bytes := [1, 2, 3] }]
        { buffers := [{ raw := some 0, len := 2 }, { raw := some 0, off := 2, len := 1 }] }
        [.moved 0] [.moved 2, .moved 1, .moved 1, .moved 1] [.moved 0] = .ok (3, some f) ∧
      readFile zeros 4 [] {} [.moved 0] [.moved 1, .failed 4, .moved 9] [.moved 0] f.data f.data.length = .ok o ∧
      o.list.contents o.heap = [1, 2, 3] := by
  obtain ⟨f, hwrite, hread⟩ := @readFile_writeFile 1024 [{ bytes := [1, 2, 3] }]
    { buffers := [{ raw := some 0, len := 2 }, { raw := some 0, off := 2, len := 1 }] }
    [.moved 0] [.moved 2, .moved 1, .moved 1, .moved 1] [.moved 0] (by decide)
    (by simp [Ptr.In, Heap.extent, Heap.bytes, Ptr.stop]) (by decide) (by decide) (by decide) (by decide)
    (by decide) (by decide)
  have hfile : f = { data := [1, 2, 3], pos := 3 } := by
    have hrun : writeFile 1024 [{ bytes := [1, 2, 3] }]
        { buffers := [{ raw := some 0, len := 2 }, { raw := some 0, off := 2, len := 1 }] }
        [.moved 0] [.moved 2, .moved 1, .moved 1, .moved 1] [.moved 0] =
          .ok (3, some { data := [1, 2, 3], pos := 3 }) := by decide
    exact (Option.some_inj.mp (Prod.mk.inj (Except.ok.inj (hrun.symm.trans hwrite))).2).symm
  subst hfile
  have hrun : readFile zeros 4 [] {} [.moved 0] [.moved 1, .failed 4, .moved 9] [.moved 0] [1, 2, 3] 3 =
      .ok {
        ret := 0
        heap := [{ bytes := [1, 2, 3, 0] }]
        list := { buffers := [{ raw := some 0, len := 3 }], len := 3 } } := by
    decide +kernel
  obtain ⟨-, hfails | ⟨-, -, k, -, hcontents, hall⟩⟩ := (hread zeros 4 [] {} [.moved 0]
    [.moved 1, .failed 4, .moved 9] [.moved 0] (by decide) ⟨by simp, rfl, by decide⟩ (by decide)
    (by decide) (by simp [retried])
    (by simp [SafeIo.failure, eintr])).2 _ hrun
  · exact absurd hfails.1 (by decide)
  · refine ⟨_, _, hwrite, hrun, ?_⟩
    rw [hcontents, hall.mp rfl]
    rfl

end ReadFile

end AsyncMessenger
