import Mathlib.Data.List.Basic
import Mathlib.Data.Int.Notation

/-!
# Transfers that are repeated

`safe_read`, `safe_pread`, `safe_write` and `safe_pwrite` call the function they are named after
until all is transferred. What the calls come to is a list: each moves some bytes or fails. The four
loops keep their progress in different variables, and `safe_pwrite` does not keep the count that it
returns.

`transfer` says what the results come to, without a loop variable: how many bytes are moved in all,
and why no more. `Transfers` says of the four functions that they move these bytes, in a row, and
return their number or the error. `transfers_iff` is the equivalence: three of the functions do so
for all results, and the fourth, `safe_pwrite`, exactly if its count is not needed.
-/

namespace AsyncMessenger

namespace SafeIo

/-- `EINTR`. -/
def eintr : ℕ := 4

/-- `EAGAIN`. -/
def eagain : ℕ := 11

/-- What one call comes to. -/
inductive CallResult
  /-- As many bytes are moved as there are, but at most so many. -/
  | moved (n : ℕ)
  | failed (errno : ℕ)
  deriving DecidableEq, Repr

/-- An open file and its offset. -/
structure OpenFile where
  data : List UInt8
  pos : ℕ := 0
  deriving DecidableEq, Repr

/-- `m` with `bs` at `i`; what is missing up to `i` is filled with zeros. -/
def store (m : List UInt8) (i : ℕ) (bs : List UInt8) : List UInt8 :=
  if bs = [] then m else m.take i ++ List.replicate (i - m.length) 0 ++ bs ++ m.drop (i + bs.length)

/-- `pread(fd, _, count, offset)`: the bytes. -/
def pread (data : List UInt8) (count offset : ℕ) : CallResult → Except ℕ (List UInt8)
  | .moved n => .ok ((data.drop offset).take (min n count))
  | .failed errno => .error errno

/-- `pwrite(fd, bytes, _, offset)`: how many are written, and the file. -/
def pwrite (data bytes : List UInt8) (offset : ℕ) : CallResult → Except ℕ (ℕ × List UInt8)
  | .moved n => .ok (min n bytes.length, store data offset (bytes.take n))
  | .failed errno => .error errno

/-- The loop of `safe_read`. The results of the calls may run out before it ends. `mem` is the
memory, and `buf` the place of the buffer in it. -/
def safeReadLoop : List CallResult → OpenFile → (mem : List UInt8) → (buf cnt count : ℕ) →
    Option (ℤ × OpenFile × List UInt8)
  | [], f, mem, _, cnt, count => if cnt < count then none else some (cnt, f, mem)
  | r :: rs, f, mem, buf, cnt, count =>
    if cnt < count then
      match pread f.data (count - cnt) f.pos r with
      | .ok got =>
        if got.length = 0 then some (cnt, f, mem)
        else
          safeReadLoop rs { f with pos := f.pos + got.length } (store mem buf got) (buf + got.length)
            (cnt + got.length) count
      | .error errno =>
        if errno = eintr then safeReadLoop rs f mem buf cnt count
        else if errno = eagain ∧ 0 < cnt then some (cnt, f, mem)
        else some (-errno, f, mem)
    else some (cnt, f, mem)

/-- `safe_read`. -/
def safeRead (rs : List CallResult) (f : OpenFile) (mem : List UInt8) (buf count : ℕ) :
    Option (ℤ × OpenFile × List UInt8) :=
  safeReadLoop rs f mem buf 0 count

/-- The loop of `safe_pread`. -/
def safePreadLoop : List CallResult → (data mem : List UInt8) → (b cnt count offset : ℕ) →
    Option (ℤ × List UInt8)
  | [], _, mem, _, cnt, count, _ => if cnt < count then none else some (cnt, mem)
  | r :: rs, data, mem, b, cnt, count, offset =>
    if cnt < count then
      match pread data (count - cnt) (offset + cnt) r with
      | .ok got =>
        if got.length = 0 then some (cnt, mem)
        else safePreadLoop rs data (store mem (b + cnt) got) b (cnt + got.length) count offset
      | .error errno =>
        if errno = eintr then safePreadLoop rs data mem b cnt count offset
        else if errno = eagain ∧ 0 < cnt then some (cnt, mem)
        else some (-errno, mem)
    else some (cnt, mem)

/-- `safe_pread`. -/
def safePread (rs : List CallResult) (data mem : List UInt8) (buf count offset : ℕ) :
    Option (ℤ × List UInt8) :=
  safePreadLoop rs data mem buf 0 count offset

/-- The loop of `safe_write`. -/
def safeWriteLoop : List CallResult → OpenFile → (mem : List UInt8) → (buf cnt count : ℕ) →
    Option (ℤ × OpenFile)
  | [], f, _, _, cnt, count => if 0 < count then none else some (cnt, f)
  | r :: rs, f, mem, buf, cnt, count =>
    if 0 < count then
      match pwrite f.data ((mem.drop buf).take count) f.pos r with
      | .ok (n, data) =>
        safeWriteLoop rs { data, pos := f.pos + n } mem (buf + n) (cnt + n) (count - n)
      | .error errno =>
        if errno = eintr then safeWriteLoop rs f mem buf cnt count
        else if errno = eagain ∧ 0 < cnt then some (cnt, f)
        else some (-errno, f)
    else some (cnt, f)

/-- `safe_write`. -/
def safeWrite (rs : List CallResult) (f : OpenFile) (mem : List UInt8) (buf count : ℕ) :
    Option (ℤ × OpenFile) :=
  safeWriteLoop rs f mem buf 0 count

/-- The loop of `safe_pwrite`. Nothing is added to `cnt`. -/
def safePwriteLoop : List CallResult → (data mem : List UInt8) → (buf cnt count offset : ℕ) →
    Option (ℤ × List UInt8)
  | [], data, _, _, cnt, count, _ => if 0 < count then none else some (cnt, data)
  | r :: rs, data, mem, buf, cnt, count, offset =>
    if 0 < count then
      match pwrite data ((mem.drop buf).take count) offset r with
      | .ok (n, data) => safePwriteLoop rs data mem (buf + n) cnt (count - n) (offset + n)
      | .error errno =>
        if errno = eintr then safePwriteLoop rs data mem buf cnt count offset
        else if errno = eagain ∧ 0 < cnt then some (cnt, data)
        else some (-errno, data)
    else some (cnt, data)

/-- `safe_pwrite`. -/
def safePwrite (rs : List CallResult) (data mem : List UInt8) (buf count offset : ℕ) :
    Option (ℤ × List UInt8) :=
  safePwriteLoop rs data mem buf 0 count offset

/-! ## What they are for

The abstract transfer: the results are gone through until one of them is a failure, or nothing
moves, or enough has been moved. What it returns is the number of bytes moved, unless a call failed
for good. -/

/-- Why a transfer stops. -/
inductive TransferEnd
  | complete
  | eof
  | failed (errno : ℕ)
  deriving DecidableEq, Repr

/-- What the results come to when `k` bytes have been moved: how many there are in the end, of the
`room` that there is, and why no more. A reader takes an empty result for the end of the file. -/
def transfer (reader : Bool) (room count : ℕ) : List CallResult → ℕ → Option (ℕ × TransferEnd)
  | [], k => if k < count then none else some (k, .complete)
  | r :: rs, k =>
    if k < count then
      match r with
      | .moved n =>
        if reader ∧ min n (room - k) = 0 then some (k, .eof)
        else transfer reader room count rs (k + min n (room - k))
      | .failed errno =>
        if errno = eintr then transfer reader room count rs k else some (k, .failed errno)
    else some (k, .complete)

/-- What is to be returned. -/
def report (k : ℕ) : TransferEnd → ℤ
  | .complete | .eof => k
  | .failed errno => if errno = eagain ∧ 0 < k then k else -errno

/-- How many of the results move something, if there is anything to be moved. -/
def useful : List CallResult → ℕ
  | [] => 0
  | .moved n :: rs => if 0 < n then useful rs + 1 else useful rs
  | .failed _ :: rs => useful rs

/-- How many bytes the results would move before one of them is a failure. -/
def offered : List CallResult → ℕ
  | [] => 0
  | .moved n :: rs => n + offered rs
  | .failed errno :: rs => if errno = eintr then offered rs else 0

/-- The failure that is not an interruption. -/
def failure : List CallResult → Option ℕ
  | [] => none
  | .moved _ :: rs => failure rs
  | .failed errno :: rs => if errno = eintr then failure rs else some errno

/-- The four functions move consecutive bytes and return what they have moved, as soon as the
results are enough for them to return. -/
structure Transfers (rs : List CallResult) (f : OpenFile) (mem : List UInt8) (buf count offset : ℕ) :
    Prop where
  returns : failure rs ≠ none ∨ count < useful rs →
    (safeRead rs f mem buf count).isSome ∧ (safePread rs f.data mem buf count offset).isSome
      ∧ (safeWrite rs f mem buf count).isSome ∧ (safePwrite rs f.data mem buf count offset).isSome
  read : safeRead rs f mem buf count
    = (transfer true (min count (f.data.length - f.pos)) count rs 0).map fun (k, stop) ↦
      (report k stop, { f with pos := f.pos + k }, store mem buf ((f.data.drop f.pos).take k))
  pread : safePread rs f.data mem buf count offset
    = (transfer true (min count (f.data.length - offset)) count rs 0).map fun (k, stop) ↦
      (report k stop, store mem buf ((f.data.drop offset).take k))
  write : safeWrite rs f mem buf count
    = (transfer false count count rs 0).map fun (k, stop) ↦
      (report k stop, { data := store f.data f.pos ((mem.drop buf).take k), pos := f.pos + k })
  pwrite : safePwrite rs f.data mem buf count offset
    = (transfer false count count rs 0).map fun (k, stop) ↦
      (report k stop, store f.data offset ((mem.drop buf).take k))

variable {rs : List CallResult} {f : OpenFile} {mem data m bs cs : List UInt8}
variable {buf cnt count offset i k : ℕ}

/-! ## Bytes in a row -/

@[simp] theorem store_nil : store m i [] = m := if_pos rfl

/-- Two pieces one after the other. -/
theorem store_store (m : List UInt8) (i : ℕ) (bs cs : List UInt8) :
    store (store m i bs) (i + bs.length) cs = store m i (bs ++ cs) := by
  by_cases hbs : bs = []
  · rw [hbs, store_nil, List.length_nil, Nat.add_zero, List.nil_append]
  by_cases hcs : cs = []
  · rw [hcs, store_nil, List.append_nil]
  have hne : bs ++ cs ≠ [] := List.append_ne_nil_of_left_ne_nil hbs cs
  have hhead : (m.take i ++ List.replicate (i - m.length) 0).length = i := by
    rw [List.length_append, List.length_take, List.length_replicate]
    omega
  rw [store, if_neg hcs, store, if_neg hbs, store, if_neg hne]
  generalize m.take i ++ List.replicate (i - m.length) 0 = head at hhead ⊢
  have hlen : (head ++ bs).length = i + bs.length := by rw [List.length_append, hhead]
  rw [List.take_left' hlen, List.length_append, hlen, Nat.sub_eq_zero_of_le (Nat.le_add_right _ _),
    List.replicate_zero, List.append_nil, ← List.drop_drop, List.drop_left' hlen, List.drop_drop,
    List.length_append, Nat.add_assoc, List.append_assoc head bs cs]

/-- What a reader gets behind `k` bytes, of the room that is left. -/
theorem got_eq (n : ℕ) (hk : k ≤ min count (data.length - i)) :
    (data.drop i).take k ++ (data.drop (i + k)).take (min n (count - k))
        = (data.drop i).take (k + min n (min count (data.length - i) - k))
      ∧ ((data.drop (i + k)).take (min n (count - k))).length
        = min n (min count (data.length - i) - k) := by
  have hlen : ((data.drop (i + k)).take (min n (count - k))).length
      = min n (min count (data.length - i) - k) := by
    rw [List.length_take, List.length_drop]
    omega
  refine ⟨?_, hlen⟩
  have hsame : (data.drop (i + k)).take (min n (count - k))
      = ((data.drop i).drop k).take (min n (min count (data.length - i) - k)) := by
    rw [List.drop_drop, ← hlen, List.length_take, List.take_eq_take_iff]
    omega
  rw [hsame, ← List.take_add]

/-- What a writer hands over behind `k` bytes, of what is left. -/
theorem given_eq (n : ℕ) (hk : k ≤ count) (hbuf : i + count ≤ m.length) :
    (m.drop i).take k ++ ((m.drop (i + k)).take (count - k)).take n
        = (m.drop i).take (k + min n (count - k))
      ∧ min n ((m.drop (i + k)).take (count - k)).length = min n (count - k) := by
  have hlen : ((m.drop (i + k)).take (count - k)).length = count - k := by
    rw [List.length_take, List.length_drop]
    omega
  refine ⟨?_, by rw [hlen]⟩
  rw [List.take_take, ← List.drop_drop, ← List.take_add]

theorem length_slice (hk : k ≤ data.length - i) : ((data.drop i).take k).length = k := by
  rw [List.length_take, List.length_drop]
  omega

/-! ## The loops

Each loop is compared with the transfer from the middle on, with the bytes that have been moved so
far. The four lemmas are of the same shape, and differ in the variables that keep the progress; in
the last one the count is not among them. -/

theorem transfer_isSome {reader : Bool} {room : ℕ} (hroom : reader = false → room = count)
    (henough : failure rs ≠ none ∨ count < useful rs + k) :
    (transfer reader room count rs k).isSome := by
  induction rs generalizing k with
  | nil =>
    obtain habsurd | hlt := henough
    · exact absurd rfl habsurd
    · rw [useful] at hlt
      rw [transfer, if_neg (by omega)]
      rfl
  | cons r rs ih =>
    by_cases hk : k < count
    · cases r with
      | moved n =>
        rw [transfer, if_pos hk]
        -- a read that moves nothing is the end of the file; a write goes on
        by_cases hzero : reader = true ∧ min n (room - k) = 0
        · rw [if_pos hzero]
          rfl
        · rw [if_neg hzero]
          refine ih (henough.imp_right fun hlt ↦ ?_)
          rw [useful] at hlt
          by_cases hn : 0 < n
          · rw [if_pos hn] at hlt
            have hsome : 0 < min n (room - k) := by
              cases reader with
              | true =>
                have hne : min n (room - k) ≠ 0 := fun h ↦ hzero ⟨rfl, h⟩
                omega
              | false =>
                have hall := hroom rfl
                omega
            omega
          · rw [if_neg hn] at hlt
            omega
      | failed errno =>
        rw [transfer, if_pos hk]
        by_cases hintr : errno = eintr
        · rw [if_pos hintr]
          rw [failure, if_pos hintr] at henough
          exact ih henough
        · rw [if_neg hintr]
          rfl
    · cases r with
      | _ =>
        rw [transfer, if_neg hk]
        rfl

/-- How the loops end when a call has failed. -/
theorem stopped {α : Type} (errno k : ℕ) (x : α) :
    (if errno = eagain ∧ 0 < k then some ((k : ℤ), x) else some (-(errno : ℤ), x))
      = some (report k (.failed errno), x) := by
  by_cases hagain : errno = eagain ∧ 0 < k
  · rw [if_pos hagain, report, if_pos hagain]
  · rw [if_neg hagain, report, if_neg hagain]

/-- **`safe_read`** from the middle of its loop on. -/
theorem safeReadLoop_eq (hk : k ≤ min count (f.data.length - f.pos)) :
    safeReadLoop rs { f with pos := f.pos + k } (store mem buf ((f.data.drop f.pos).take k)) (buf + k) k
        count
      = (transfer true (min count (f.data.length - f.pos)) count rs k).map fun (k, stop) ↦
        (report k stop, { f with pos := f.pos + k }, store mem buf ((f.data.drop f.pos).take k)) := by
  induction rs generalizing k with
  | nil =>
    rw [safeReadLoop, transfer]
    by_cases hlt : k < count
    · rw [if_pos hlt, if_pos hlt]
      rfl
    · rw [if_neg hlt, if_neg hlt]
      rfl
  | cons r rs ih =>
    by_cases hlt : k < count
    · cases r with
      | moved n =>
        rw [safeReadLoop, if_pos hlt, transfer, if_pos hlt]
        dsimp only [SafeIo.pread]
        obtain ⟨hgot, hlen⟩ := got_eq n hk
        have hmem := store_store mem buf ((f.data.drop f.pos).take k)
          ((f.data.drop (f.pos + k)).take (min n (count - k)))
        rw [length_slice (by omega), hgot] at hmem
        rw [hlen, hmem]
        by_cases hzero : min n (min count (f.data.length - f.pos) - k) = 0
        · rw [if_pos hzero, if_pos ⟨rfl, hzero⟩]
          rfl
        · rw [if_neg hzero, if_neg fun h ↦ hzero h.2, Nat.add_assoc, Nat.add_assoc]
          exact ih (by omega)
      | failed errno =>
        rw [safeReadLoop, if_pos hlt, transfer, if_pos hlt]
        dsimp only [SafeIo.pread]
        by_cases hintr : errno = eintr
        · rw [if_pos hintr, if_pos hintr]
          exact ih hk
        · rw [if_neg hintr, if_neg hintr]
          exact stopped errno k _
    · rw [safeReadLoop, if_neg hlt]
      cases r with
      | _ =>
        rw [transfer, if_neg hlt]
        rfl

/-- **`safe_pread`** from the middle of its loop on. -/
theorem safePreadLoop_eq (hk : k ≤ min count (data.length - offset)) :
    safePreadLoop rs data (store mem buf ((data.drop offset).take k)) buf k count offset
      = (transfer true (min count (data.length - offset)) count rs k).map fun (k, stop) ↦
        (report k stop, store mem buf ((data.drop offset).take k)) := by
  induction rs generalizing k with
  | nil =>
    rw [safePreadLoop, transfer]
    by_cases hlt : k < count
    · rw [if_pos hlt, if_pos hlt]
      rfl
    · rw [if_neg hlt, if_neg hlt]
      rfl
  | cons r rs ih =>
    by_cases hlt : k < count
    · cases r with
      | moved n =>
        rw [safePreadLoop, if_pos hlt, transfer, if_pos hlt]
        dsimp only [SafeIo.pread]
        obtain ⟨hgot, hlen⟩ := got_eq n hk
        have hmem := store_store mem buf ((data.drop offset).take k)
          ((data.drop (offset + k)).take (min n (count - k)))
        rw [length_slice (by omega), hgot] at hmem
        rw [hlen, hmem]
        by_cases hzero : min n (min count (data.length - offset) - k) = 0
        · rw [if_pos hzero, if_pos ⟨rfl, hzero⟩]
          rfl
        · rw [if_neg hzero, if_neg fun h ↦ hzero h.2]
          exact ih (by omega)
      | failed errno =>
        rw [safePreadLoop, if_pos hlt, transfer, if_pos hlt]
        dsimp only [SafeIo.pread]
        by_cases hintr : errno = eintr
        · rw [if_pos hintr, if_pos hintr]
          exact ih hk
        · rw [if_neg hintr, if_neg hintr]
          exact stopped errno k _
    · rw [safePreadLoop, if_neg hlt]
      cases r with
      | _ =>
        rw [transfer, if_neg hlt]
        rfl

/-- **`safe_write`** from the middle of its loop on. -/
theorem safeWriteLoop_eq (hk : k ≤ count) (hbuf : buf + count ≤ mem.length) :
    safeWriteLoop rs { data := store data i ((mem.drop buf).take k), pos := i + k } mem (buf + k) k
        (count - k)
      = (transfer false count count rs k).map fun (k, stop) ↦
        (report k stop, { data := store data i ((mem.drop buf).take k), pos := i + k }) := by
  induction rs generalizing k with
  | nil =>
    rw [safeWriteLoop, transfer]
    by_cases hlt : k < count
    · rw [if_pos hlt, if_pos (Nat.sub_pos_of_lt hlt)]
      rfl
    · rw [if_neg hlt, if_neg fun h ↦ hlt (Nat.lt_of_sub_pos h)]
      rfl
  | cons r rs ih =>
    by_cases hlt : k < count
    · cases r with
      | moved n =>
        rw [safeWriteLoop, if_pos (Nat.sub_pos_of_lt hlt), transfer, if_pos hlt,
          if_neg fun h ↦ Bool.false_ne_true h.1]
        dsimp only [SafeIo.pwrite]
        obtain ⟨hgiven, hlen⟩ := given_eq n hk hbuf
        have hdata := store_store data i ((mem.drop buf).take k)
          (((mem.drop (buf + k)).take (count - k)).take n)
        rw [length_slice (by omega), hgiven] at hdata
        rw [hlen, hdata, Nat.add_assoc, Nat.add_assoc, Nat.sub_sub]
        exact ih (by omega)
      | failed errno =>
        rw [safeWriteLoop, if_pos (Nat.sub_pos_of_lt hlt), transfer, if_pos hlt]
        dsimp only [SafeIo.pwrite]
        by_cases hintr : errno = eintr
        · rw [if_pos hintr, if_pos hintr]
          exact ih hk
        · rw [if_neg hintr, if_neg hintr]
          exact stopped errno k _
    · rw [safeWriteLoop, if_neg fun h ↦ hlt (Nat.lt_of_sub_pos h)]
      cases r with
      | _ =>
        rw [transfer, if_neg hlt]
        rfl

/-- **`safe_pwrite`** from the middle of its loop on. It moves the same bytes, but returns as if
there were none. -/
theorem safePwriteLoop_eq (hk : k ≤ count) (hbuf : buf + count ≤ mem.length) :
    safePwriteLoop rs (store data offset ((mem.drop buf).take k)) mem (buf + k) 0 (count - k)
        (offset + k)
      = (transfer false count count rs k).map fun (k, stop) ↦
        (report 0 stop, store data offset ((mem.drop buf).take k)) := by
  induction rs generalizing k with
  | nil =>
    rw [safePwriteLoop, transfer]
    by_cases hlt : k < count
    · rw [if_pos hlt, if_pos (Nat.sub_pos_of_lt hlt)]
      rfl
    · rw [if_neg hlt, if_neg fun h ↦ hlt (Nat.lt_of_sub_pos h)]
      rfl
  | cons r rs ih =>
    by_cases hlt : k < count
    · cases r with
      | moved n =>
        rw [safePwriteLoop, if_pos (Nat.sub_pos_of_lt hlt), transfer, if_pos hlt,
          if_neg fun h ↦ Bool.false_ne_true h.1]
        dsimp only [SafeIo.pwrite]
        obtain ⟨hgiven, hlen⟩ := given_eq n hk hbuf
        have hdata := store_store data offset ((mem.drop buf).take k)
          (((mem.drop (buf + k)).take (count - k)).take n)
        rw [length_slice (by omega), hgiven] at hdata
        rw [hlen, hdata, Nat.add_assoc, Nat.add_assoc, Nat.sub_sub]
        exact ih (by omega)
      | failed errno =>
        rw [safePwriteLoop, if_pos (Nat.sub_pos_of_lt hlt), transfer, if_pos hlt]
        dsimp only [SafeIo.pwrite]
        by_cases hintr : errno = eintr
        · rw [if_pos hintr, if_pos hintr]
          exact ih hk
        · rw [if_neg hintr, if_neg hintr]
          exact stopped errno 0 _
    · rw [safePwriteLoop, if_neg fun h ↦ hlt (Nat.lt_of_sub_pos h)]
      cases r with
      | _ =>
        rw [transfer, if_neg hlt]
        rfl

/-! ## What they return

The transfer from the beginning. For three of the functions it is what they return. -/

/-- What the results come to for a writer. -/
theorem transfer_write (hk : k ≤ count) :
    transfer false count count rs k = if count ≤ k + offered rs then some (count, .complete)
      else (failure rs).map fun errno ↦ (k + offered rs, .failed errno) := by
  induction rs generalizing k with
  | nil =>
    rw [transfer, offered, failure]
    by_cases hlt : k < count
    · rw [if_pos hlt, if_neg (by omega)]
      rfl
    · rw [if_neg hlt, if_pos (by omega), show k = count by omega]
  | cons r rs ih =>
    by_cases hlt : k < count
    · cases r with
      | moved n =>
        rw [transfer, if_pos hlt, if_neg fun h ↦ Bool.false_ne_true h.1, ih (by omega), offered, failure]
        by_cases hall : count ≤ k + (n + offered rs)
        · rw [if_pos hall, if_pos (by omega)]
        · rw [if_neg hall, if_neg (by omega), Nat.min_eq_left (by omega), Nat.add_assoc]
      | failed errno =>
        rw [transfer, if_pos hlt, offered, failure]
        by_cases hintr : errno = eintr
        · rw [if_pos hintr, if_pos hintr, if_pos hintr]
          exact ih hk
        · rw [if_neg hintr, if_neg hintr, if_neg hintr, if_neg (by omega)]
          rfl
    · have hcount : k = count := by omega
      subst hcount
      rw [if_pos (Nat.le_add_right _ _)]
      cases r with
      | _ => rw [transfer, if_neg hlt]

/-- The reports agree exactly if nothing has been moved, or the last call has failed for good. -/
theorem report_zero_iff (stop : TransferEnd) :
    report 0 stop = report k stop ↔ k = 0 ∨ ∃ errno, stop = .failed errno ∧ errno ≠ eagain := by
  cases stop with
  | complete =>
    have hstop : ¬∃ errno, TransferEnd.complete = .failed errno ∧ errno ≠ eagain := by rintro ⟨_, ⟨⟩, _⟩
    rw [or_iff_left hstop, report, report]
    omega
  | eof =>
    have hstop : ¬∃ errno, TransferEnd.eof = .failed errno ∧ errno ≠ eagain := by rintro ⟨_, ⟨⟩, _⟩
    rw [or_iff_left hstop, report, report]
    omega
  | failed errno =>
    have hstop : (∃ e, TransferEnd.failed errno = .failed e ∧ e ≠ eagain) ↔ errno ≠ eagain := by
      constructor
      · rintro ⟨_, ⟨⟩, hne⟩
        exact hne
      · exact fun hne ↦ ⟨errno, rfl, hne⟩
    rw [hstop, report, report, if_neg fun h ↦ Nat.lt_irrefl 0 h.2]
    by_cases hagain : errno = eagain ∧ 0 < k
    · rw [if_pos hagain]
      omega
    · rw [if_neg hagain]
      omega

theorem safeRead_eq : safeRead rs f mem buf count
    = (transfer true (min count (f.data.length - f.pos)) count rs 0).map fun (k, stop) ↦
      (report k stop, { f with pos := f.pos + k }, store mem buf ((f.data.drop f.pos).take k)) := by
  rw [← safeReadLoop_eq (Nat.zero_le _), List.take_zero, store_nil]
  rfl

theorem safePread_eq : safePread rs data mem buf count offset
    = (transfer true (min count (data.length - offset)) count rs 0).map fun (k, stop) ↦
      (report k stop, store mem buf ((data.drop offset).take k)) := by
  rw [← safePreadLoop_eq (Nat.zero_le _), List.take_zero, store_nil]
  rfl

theorem safeWrite_eq (hbuf : buf + count ≤ mem.length) : safeWrite rs f mem buf count
    = (transfer false count count rs 0).map fun (k, stop) ↦
      (report k stop, { data := store f.data f.pos ((mem.drop buf).take k), pos := f.pos + k }) := by
  rw [← safeWriteLoop_eq (Nat.zero_le count) hbuf, List.take_zero, store_nil]
  rfl

/-- What `safe_pwrite` returns is what would be right if it had written nothing. -/
theorem safePwrite_eq (rs : List CallResult) (data : List UInt8) (offset : ℕ)
    (hbuf : buf + count ≤ mem.length) : safePwrite rs data mem buf count offset
    = (transfer false count count rs 0).map fun (k, stop) ↦
      (report 0 stop, store data offset ((mem.drop buf).take k)) := by
  rw [← safePwriteLoop_eq (Nat.zero_le count) hbuf, List.take_zero, store_nil]
  rfl

/-- **The loops report what they have moved** exactly if `safe_pwrite` is not given the chance to
lose its count: it has nothing to write, or it ends with a failure before all is written, and not
with `EAGAIN` when something is written. -/
theorem transfers_iff (rs : List CallResult) (f : OpenFile) (offset : ℕ)
    (hbuf : buf + count ≤ mem.length) :
    Transfers rs f mem buf count offset
      ↔ count = 0 ∨ offered rs < count ∧ (offered rs = 0 ∨ failure rs ≠ some eagain) := by
  have hpwrite := safePwrite_eq rs f.data offset hbuf
  have hreturns : failure rs ≠ none ∨ count < useful rs →
      (safeRead rs f mem buf count).isSome ∧ (safePread rs f.data mem buf count offset).isSome
        ∧ (safeWrite rs f mem buf count).isSome ∧ (safePwrite rs f.data mem buf count offset).isSome := by
    intro henough
    rw [safeRead_eq, safePread_eq, safeWrite_eq hbuf, hpwrite]
    simp only [Option.isSome_map]
    exact ⟨transfer_isSome (by simp) henough, transfer_isSome (by simp) henough,
      transfer_isSome (fun _ ↦ rfl) henough, transfer_isSome (fun _ ↦ rfl) henough⟩
  rw [transfer_write (Nat.zero_le count), Nat.zero_add] at hpwrite
  constructor
  · intro h
    -- `safe_pwrite` has reported 0, which has to be what the condition asks for
    have hsame := hpwrite.symm.trans h.pwrite
    rw [transfer_write (Nat.zero_le count), Nat.zero_add] at hsame
    by_cases hall : count ≤ offered rs
    · rw [if_pos hall] at hsame
      have hzero : report 0 .complete = report count .complete := (Prod.mk.inj (Option.some.inj hsame)).1
      obtain hzero | ⟨_, ⟨⟩, _⟩ := (report_zero_iff _).mp hzero
      exact .inl hzero
    · rw [if_neg hall] at hsame
      refine .inr ⟨Nat.lt_of_not_le hall, ?_⟩
      cases hfailure : failure rs with
      | none => exact .inr (Option.some_ne_none _).symm
      | some errno =>
        rw [hfailure] at hsame
        have hzero : report 0 (.failed errno) = report (offered rs) (.failed errno) :=
          (Prod.mk.inj (Option.some.inj hsame)).1
        obtain hzero | ⟨_, ⟨⟩, hne⟩ := (report_zero_iff _).mp hzero
        · exact .inl hzero
        · exact .inr fun h ↦ hne (Option.some.inj h)
  · intro h
    refine ⟨hreturns, safeRead_eq, safePread_eq, safeWrite_eq hbuf, hpwrite.trans ?_⟩
    rw [transfer_write (Nat.zero_le count), Nat.zero_add]
    by_cases hall : count ≤ offered rs
    · obtain rfl : count = 0 := by
        obtain hzero | ⟨hlt, -⟩ := h
        · exact hzero
        · omega
      rw [if_pos hall]
      rfl
    · rw [if_neg hall]
      obtain rfl | ⟨-, h⟩ := h
      · exact absurd (Nat.zero_le _) hall
      cases hfailure : failure rs with
      | none => rfl
      | some errno =>
        have hsame : report 0 (.failed errno) = report (offered rs) (.failed errno) := by
          refine (report_zero_iff _).mpr (h.imp_right fun hne ↦ ⟨errno, rfl, ?_⟩)
          rintro rfl
          exact hne hfailure
        exact congrArg some (Prod.ext hsame rfl)

/-- The device is full after two bytes, and every loop says so. -/
theorem full_device :
    Transfers [.moved 2, .failed 4, .failed 28] { data := [1, 2, 3] } [7, 8, 9, 0] 1 3 2 :=
  (transfers_iff _ _ 2 (by decide)).mpr (.inr ⟨by decide, .inr (by decide)⟩)

/-- All three bytes are written, and none is reported. -/
theorem safePwrite_loses_count :
    safePwrite [.moved 2, .moved 2] [] [7, 8, 9] 0 3 0 = some (0, [7, 8, 9])
      ∧ safeWrite [.moved 2, .moved 2] { data := [] } [7, 8, 9] 0 3
        = some (3, { data := [7, 8, 9], pos := 3 })
      ∧ ¬Transfers [.moved 2, .moved 2] { data := [] } [7, 8, 9] 0 3 0 := by
  refine ⟨by decide, by decide, fun h ↦ ?_⟩
  exact absurd h.pwrite (by decide)

end SafeIo

end AsyncMessenger
