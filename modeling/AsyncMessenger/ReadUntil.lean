import AsyncMessenger.Protocol

/-!
# Reading from the socket

`read_until` fills a buffer of known length. It first takes what an earlier read has prefetched into
`recv_buf`; then it reads from the socket, straight into the target if the read is large, and through
`recv_buf` otherwise. When the kernel has nothing more, the bytes that have come stay in the target,
`state_offset` remembers how many they are, and the next call goes on from there.

The stream is the list of bytes the kernel has not handed over yet. How it is cut into the results of
`read` is a list of numbers: each says how many bytes the kernel is ready to hand over, and 0, or the
end of the list, is `EAGAIN`.
-/

namespace AsyncMessenger

/-- What `read_until` works on. -/
structure Recv where
  /-- The bytes of the stream the kernel has not handed over. -/
  wire : Bytes := []
  /-- `recv_buf`, from `recv_start` to `recv_end`. -/
  buf : Bytes := []
  /-- The first `state_offset` bytes of the target. -/
  part : Bytes := []
  deriving DecidableEq, Repr

/-- What `read_until` returns. -/
inductive Got
  /-- An assertion fails. -/
  | abort
  /-- So many bytes are missing. -/
  | again (left : ℕ)
  | done (bs : Bytes)
  deriving DecidableEq, Repr

namespace Recv

/-- The bytes that have not been used, in their order. -/
def unread (r : Recv) : Bytes := r.part ++ (r.buf ++ r.wire)

/-- `read_bulk` of `len` bytes, when the kernel is ready to hand over `k`. -/
def readBulk (r : Recv) (len k : ℕ) : Bytes := r.wire.take (min k len)

/-- The loop for a large read, straight into the target. -/
def readLarge (len : ℕ) : List ℕ → Recv → Got × Recv
  | [], r => (.again (len - r.part.length), r)
  | k :: ks, r =>
    let got := r.readBulk (len - r.part.length) k
    let r' : Recv := { r with wire := r.wire.drop got.length, part := r.part ++ got }
    if got.length = len - r.part.length then (.done r'.part, { r' with part := [] })
    else if got = [] then (.again (len - r'.part.length), r')
    else readLarge len ks r'

/-- What has been prefetched does not fill the target, and goes there. -/
def copyOut (len : ℕ) (r : Recv) : Got × Recv :=
  (.again (len - (r.part ++ r.buf).length), { r with buf := [], part := r.part ++ r.buf })

/-- The loop that prefetches up to `recv_max_prefetch` bytes. -/
def readAhead (max len : ℕ) : List ℕ → Recv → Got × Recv
  | [], r => r.copyOut len
  | k :: ks, r =>
    let got := r.readBulk (max - r.buf.length) k
    let r' : Recv := { r with wire := r.wire.drop got.length, buf := r.buf ++ got }
    if len - r.part.length ≤ r'.buf.length then
      (.done (r.part ++ r'.buf.take (len - r.part.length)),
        { r' with buf := r'.buf.drop (len - r.part.length), part := [] })
    else if got = [] then r'.copyOut len
    else readAhead max len ks r'

/-- `read_until`. -/
def readUntil (max len : ℕ) (ks : List ℕ) (r : Recv) : Got × Recv :=
  -- assert(state_offset == 0)
  if r.buf ≠ [] ∧ r.part ≠ [] then (.abort, r)
  else if r.buf ≠ [] ∧ len - r.part.length ≤ r.buf.length then
    (.done (r.part ++ r.buf.take (len - r.part.length)),
      { r with buf := r.buf.drop (len - r.part.length), part := [] })
  else
    let r' : Recv := { r with buf := [], part := r.part ++ r.buf }
    if max < len then readLarge len ks r' else readAhead max len ks r'

/-! ## No byte is lost -/

/-- What a read of `len` bytes does, whatever the kernel hands over: it delivers the next `len` bytes,
or it keeps what has come. -/
inductive Reads (len : ℕ) (r : Recv) : Got × Recv → Prop
  | done (bs : Bytes) (r' : Recv) (hlen : bs.length = len) (hpart : r'.part = [])
      (hall : bs ++ r'.unread = r.unread) : Reads len r (.done bs, r')
  | again (r' : Recv) (hbuf : r'.buf = []) (hpart : r'.part.length < len)
      (hall : r'.unread = r.unread) : Reads len r (.again (len - r'.part.length), r')

theorem readBulk_append (r : Recv) (len k : ℕ) :
    r.readBulk len k ++ r.wire.drop (r.readBulk len k).length = r.wire := by
  rw [readBulk, List.length_take]
  rcases Nat.le_total (min k len) r.wire.length with h | h
  · rw [Nat.min_eq_left h, List.take_append_drop]
  · rw [Nat.min_eq_right h, List.take_of_length_le h, List.drop_length, List.append_nil]

theorem length_readBulk_le (r : Recv) (len k : ℕ) : (r.readBulk len k).length ≤ len := by
  rw [readBulk, List.length_take]
  exact (Nat.min_le_left ..).trans (Nat.min_le_right ..)

theorem Reads.trans {len : ℕ} {r r' : Recv} {x : Got × Recv} (hr : r'.unread = r.unread)
    (h : Reads len r' x) : Reads len r x := by
  cases h with
  | done bs r'' hlen hpart hall => exact .done bs r'' hlen hpart (hall.trans hr)
  | again r'' hbuf hpart hall => exact .again r'' hbuf hpart (hall.trans hr)

theorem reads_readLarge {len : ℕ} (ks : List ℕ) {r : Recv} (hbuf : r.buf = [])
    (hpart : r.part.length < len) : Reads len r (readLarge len ks r) := by
  induction ks generalizing r with
  | nil => exact .again r hbuf hpart rfl
  | cons k ks ih =>
    have hsplit := r.readBulk_append (len - r.part.length) k
    have hle := r.length_readBulk_le (len - r.part.length) k
    rw [readLarge]
    generalize r.readBulk (len - r.part.length) k = got at hsplit hle ⊢
    have hall : ({ r with wire := r.wire.drop got.length, part := r.part ++ got } : Recv).unread =
        r.unread := by
      simp [unread, hbuf, hsplit]
    dsimp only
    split_ifs with hfull hnone
    · refine .done _ _ ?_ rfl ?_
      · rw [List.length_append, hfull]
        omega
      · rw [← hall]
        simp [unread]
    · refine .again { r with wire := r.wire.drop got.length, part := r.part ++ got } hbuf ?_ hall
      rw [hnone, List.append_nil]
      exact hpart
    · refine (ih (r := { r with wire := r.wire.drop got.length, part := r.part ++ got }) hbuf ?_).trans
        hall
      rw [List.length_append]
      omega

theorem reads_copyOut {len : ℕ} {r : Recv} (h : (r.part ++ r.buf).length < len) :
    Reads len r (r.copyOut len) :=
  .again { r with buf := [], part := r.part ++ r.buf } rfl h (by simp [unread])

theorem reads_readAhead {max len : ℕ} (ks : List ℕ) {r : Recv}
    (hpart : (r.part ++ r.buf).length < len) : Reads len r (readAhead max len ks r) := by
  induction ks generalizing r with
  | nil => exact reads_copyOut hpart
  | cons k ks ih =>
    have hsplit := r.readBulk_append (max - r.buf.length) k
    rw [readAhead]
    generalize r.readBulk (max - r.buf.length) k = got at hsplit ⊢
    have hall : ({ r with wire := r.wire.drop got.length, buf := r.buf ++ got } : Recv).unread =
        r.unread := by
      simp [unread, hsplit]
    rw [List.length_append] at hpart
    dsimp only
    split_ifs with hfull hnone
    · refine .done _ _ ?_ rfl ?_
      · rw [List.length_append, List.length_take, Nat.min_eq_left hfull]
        omega
      · rw [← hall]
        simp only [unread, List.nil_append, List.append_assoc]
        rw [← List.append_assoc (List.take _ _), List.take_append_drop]
        simp
    · refine (reads_copyOut ?_).trans hall
      simp only [hnone, List.append_nil, List.length_append]
      exact hpart
    · refine (ih (r := { r with wire := r.wire.drop got.length, buf := r.buf ++ got }) ?_).trans hall
      rw [List.length_append]
      exact Nat.add_lt_of_lt_sub' (Nat.not_le.mp hfull)

/-- **`read_until` loses no byte**, as long as nothing is prefetched over a read that has begun. -/
theorem reads_readUntil (max : ℕ) {len : ℕ} (ks : List ℕ) {r : Recv} (hok : r.buf = [] ∨ r.part = [])
    (hpart : r.part.length < len) : Reads len r (readUntil max len ks r) := by
  rw [readUntil, if_neg (by rcases hok with h | h <;> simp [h])]
  split_ifs with hfull hlarge
  · refine .done _ _ ?_ rfl ?_
    · rw [List.length_append, List.length_take, Nat.min_eq_left hfull.2]
      omega
    · simp only [unread, List.nil_append, List.append_assoc]
      rw [← List.append_assoc (List.take _ _), List.take_append_drop]
  all_goals
    have hshort : (r.part ++ r.buf).length < len := by
      rw [List.length_append]
      by_cases hbuf : r.buf = []
      · rw [hbuf]
        exact hpart
      · exact Nat.add_lt_of_lt_sub' (Nat.not_le.mp fun hle ↦ hfull ⟨hbuf, hle⟩)
    have hall : ({ r with buf := [], part := r.part ++ r.buf } : Recv).unread = r.unread := by
      simp [unread]
  · exact (reads_readLarge ks rfl hshort).trans hall
  · refine (reads_readAhead ks ?_).trans hall
    rw [List.append_nil]
    exact hshort

/-! ## A read takes what it can

No read hands bytes back to the kernel or to the prefetch buffer, and one whose target is not full yet
takes at least a byte when there is one to take. -/

/-- The bytes that no target has: those that are prefetched and those the kernel has. -/
def ahead (r : Recv) : ℕ := r.buf.length + r.wire.length

theorem length_unread (r : Recv) : r.unread.length = r.part.length + r.ahead := by
  rw [unread, ahead, List.length_append, List.length_append]

theorem readBulk_ne_nil {r : Recv} {len k : ℕ} (hwire : r.wire ≠ []) (hk : 0 < k) (hlen : 0 < len) :
    r.readBulk len k ≠ [] := by
  have hwire' := List.length_pos_iff.mpr hwire
  rw [← List.length_pos_iff, readBulk, List.length_take]
  omega

theorem wire_readLarge_le (len : ℕ) (ks : List ℕ) (r : Recv) :
    (readLarge len ks r).2.wire.length ≤ r.wire.length := by
  induction ks generalizing r with
  | nil => exact le_rfl
  | cons k ks ih =>
    rw [readLarge]
    dsimp only
    split_ifs
    · exact (List.drop_sublist ..).length_le
    · exact (List.drop_sublist ..).length_le
    · exact (ih _).trans ((List.drop_sublist ..).length_le)

theorem wire_readAhead_le (max len : ℕ) (ks : List ℕ) (r : Recv) :
    (readAhead max len ks r).2.wire.length ≤ r.wire.length := by
  induction ks generalizing r with
  | nil => exact le_rfl
  | cons k ks ih =>
    rw [readAhead]
    dsimp only
    split_ifs
    · exact (List.drop_sublist ..).length_le
    · exact (List.drop_sublist ..).length_le
    · exact (ih _).trans ((List.drop_sublist ..).length_le)

theorem wire_readUntil_le (max len : ℕ) (ks : List ℕ) (r : Recv) :
    (readUntil max len ks r).2.wire.length ≤ r.wire.length := by
  rw [readUntil]
  dsimp only
  split_ifs
  · exact le_rfl
  · exact le_rfl
  · exact wire_readLarge_le ..
  · exact wire_readAhead_le ..

/-- With nothing prefetched, the first call of the kernel takes from the wire. -/
theorem wire_readUntil_lt (max : ℕ) {len k : ℕ} (ks : List ℕ) {r : Recv} (hbuf : r.buf = [])
    (hwire : r.wire ≠ []) (hk : 0 < k) (hpart : r.part.length < len) :
    (readUntil max len (k :: ks) r).2.wire.length < r.wire.length := by
  have hpos := List.length_pos_iff.mpr hwire
  have hdrop {got : Bytes} (hne : got ≠ []) : (r.wire.drop got.length).length < r.wire.length := by
    rw [List.length_drop]
    exact Nat.sub_lt hpos (List.length_pos_iff.mpr hne)
  rw [readUntil, if_neg (fun h ↦ h.1 hbuf), if_neg (fun h ↦ h.1 hbuf)]
  dsimp only
  rw [hbuf, List.append_nil]
  split_ifs with hlarge
  · have hgot := @readBulk_ne_nil { r with buf := [] } (len - r.part.length) k hwire hk
      (Nat.sub_pos_of_lt hpart)
    rw [readLarge]
    dsimp only
    split_ifs
    · exact hdrop hgot
    · exact (wire_readLarge_le ..).trans_lt (hdrop hgot)
  · have hgot := @readBulk_ne_nil { r with buf := [] } max k hwire hk (by omega)
    rw [readAhead]
    dsimp only
    split_ifs
    · exact hdrop hgot
    · exact hdrop hgot
    · refine (wire_readAhead_le ..).trans_lt ?_
      exact hdrop hgot

/-- A read that fills its target or finds a byte takes one. -/
theorem ahead_readUntil (max : ℕ) {len : ℕ} (ks : List ℕ) {r : Recv} (hok : r.buf = [] ∨ r.part = [])
    (hpart : r.part.length < len) :
    (readUntil max len ks r).2.ahead ≤ r.ahead ∧
      (0 < ks.headD 0 → 0 < r.ahead → (readUntil max len ks r).2.ahead < r.ahead) := by
  have hreads := reads_readUntil max ks hok hpart
  have hle := wire_readUntil_le max len ks r
  have hlt : r.buf = [] → 0 < ks.headD 0 → 0 < r.ahead →
      (readUntil max len ks r).2.wire.length < r.wire.length := by
    intro hbuf hoffer hahead
    cases ks with
    | nil => exact absurd hoffer (lt_irrefl 0)
    | cons k ks =>
      refine wire_readUntil_lt max ks hbuf (fun hwire ↦ ?_) hoffer hpart
      rw [ahead, hbuf, hwire] at hahead
      exact absurd hahead (lt_irrefl 0)
  generalize readUntil max len ks r = got at hreads hle hlt ⊢
  cases hreads with
  | done bs r' hlen hnil hall =>
    have hall' := congrArg List.length hall
    rw [List.length_append, length_unread, length_unread, hnil, hlen, List.length_nil] at hall'
    have hless : r'.ahead < r.ahead := by omega
    exact ⟨hless.le, fun _ _ ↦ hless⟩
  | again r' hbuf' hshort hall =>
    have hahead' : r'.ahead = r'.wire.length := by
      rw [ahead, hbuf', List.length_nil, Nat.zero_add]
    rw [hahead']
    refine ⟨hle.trans (Nat.le_add_left ..), fun hoffer hahead ↦ ?_⟩
    by_cases hbuf : r.buf = []
    · exact (hlt hbuf hoffer hahead).trans_le (Nat.le_add_left ..)
    · have hbuf_pos := List.length_pos_iff.mpr hbuf
      exact hle.trans_lt (Nat.lt_add_of_pos_left hbuf_pos)

end Recv

end AsyncMessenger
