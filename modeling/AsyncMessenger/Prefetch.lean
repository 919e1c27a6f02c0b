import AsyncMessenger.Iterator
import AsyncMessenger.ReadUntil

/-!
# The prefetch buffer

The buffer of `read_until`, with its indices: `recv_buf` holds what has been prefetched between
`recv_start` and `recv_end`, and the bytes before and behind are left from earlier reads. The
counters are unsigned and are compared with the signed results of `read`.

## The two loops

`read_until` first uses what has been prefetched. If that is not enough it reads: straight into the
target if this is larger than the buffer, and into the buffer otherwise, of which it then copies the
part that is asked for. Both loops stop at the first result that is not positive. When the target is
not full by then, what has been prefetched goes to the target all the same, `state_offset` keeps
count, and the number of bytes that are missing is returned.

## The refinement

`ReadState.readUntil` is `read_until` on this buffer, and `Recv.readUntil` the same on lists of
bytes: the stream, what is prefetched, and what the target has got. `Stands` relates the two, and
`Refines` relates their results. The two loops have a relation of their own for the beginning of a
turn, and a lemma for one turn; `refines_readUntil` follows, and what is proved of the lists holds
of the buffer then.

A session is a sequence of calls, whatever the kernel does at each of them. `delivers_session` says
that each target gets exactly the next bytes of the stream, that a positive result is the number of
bytes that are missing, and that neither assertion fails and no `read` leaves its buffer.

## The hand-over

When a connection is replaced, what has been prefetched for the new one is handed over with the
socket. The copy is of the right length and begins at the wrong place.
-/

namespace AsyncMessenger

/-- `memcpy` of `src` to the place `offset` of a block of memory. -/
def memcpy (dst : Bytes) (offset : ℕ) (src : Bytes) : Bytes :=
  dst.take offset ++ src ++ dst.drop (offset + src.length)

/-- What the kernel does when it is asked to read. -/
inductive Ready
  /-- It has so many bytes ready; if there are none it says `EAGAIN`. -/
  | bytes (k : ℕ)
  | again
  | interrupted
  | closed
  | failed
  deriving DecidableEq, Repr

/-- The most `read` hands over at once. -/
def maxReadCount : ℕ := 0x7ffff000

/-- The number of bytes ready. -/
def Ready.count : Ready → ℕ
  | .bytes k => min k maxReadCount
  | _ => 0

/-- The socket is neither closed nor broken. -/
def Ready.alive : Ready → Bool
  | .closed | .failed => false
  | _ => true

/-- Where a `read` puts the bytes. -/
inductive ReadBuffer
  | recvBuf
  | target
  deriving DecidableEq, Repr

/-- A call of `read`. -/
structure ReadCall where
  buffer : ReadBuffer
  offset : UInt32
  len : UInt32
  /-- The number of bytes it has got. -/
  got : ℕ := 0
  deriving DecidableEq, Repr

/-- What a connection keeps for its reads, and for those of a connection it may be replaced by. -/
structure Prefetch where
  recvMaxPrefetch : UInt32
  recvBuf : Bytes
  recvStart : UInt32 := 0
  recvEnd : UInt32 := 0
  stateOffset : UInt32 := 0
  replacingBuf : Bytes := []
  deriving DecidableEq, Repr

/-- A `read_until` on its way. -/
structure ReadState extends Prefetch where
  /-- The target. -/
  p : Bytes
  left : UInt32 := 0
  /-- The bytes of the stream the kernel has not handed over. -/
  wire : Bytes
  /-- The calls of `read` so far. -/
  reads : List ReadCall := []
  deriving DecidableEq, Repr

/-- How `read_until` ends. -/
inductive Answer
  | assertion
  | ret (r : ℤ)
  deriving DecidableEq, Repr

/-- A `do` loop whose turns begin with a `read`: a turn leaves the function, or its result decides
whether the loop goes on. The kernel has nothing more after the last event. -/
def doLoop {σ ρ : Type} (turn : Ready → σ → ρ ⊕ (ℤ × σ)) (after : σ → ρ) : List Ready → σ → ρ
  | [], x => (turn .again x).elim id fun y ↦ after y.2
  | e :: es, x =>
    (turn e x).elim id fun y ↦ if 0 < y.1 then doLoop turn after es y.2 else after y.2

/-- What every turn keeps holds where the loop ends. -/
theorem doLoop_rule {σ ρ : Type} {turn : Ready → σ → ρ ⊕ (ℤ × σ)} {after : σ → ρ} {I : σ → Prop}
    {P : ρ → Prop} (hreturn : ∀ e x y, I x → turn e x = .inl y → P y)
    (hturn : ∀ e x y, I x → turn e x = .inr y → I y.2) (hafter : ∀ x, I x → P (after x))
    (script : List Ready) {x : σ} (hx : I x) : P (doLoop turn after script x) := by
  induction script generalizing x with
  | nil =>
    rw [doLoop]
    cases h : turn .again x with
    | inl y => exact hreturn _ _ _ hx h
    | inr y => exact hafter _ (hturn _ _ _ hx h)
  | cons e script ih =>
    rw [doLoop]
    cases h : turn e x with
    | inl y => exact hreturn _ _ _ hx h
    | inr y =>
      show P (if 0 < y.1 then _ else _)
      by_cases hpos : 0 < y.1
      · rw [if_pos hpos]
        exact ih (hturn _ _ _ hx h)
      · rw [if_neg hpos]
        exact hafter _ (hturn _ _ _ hx h)

namespace ReadState

/-- The kernel hands over some bytes. -/
def store (x : ReadState) (call : ReadCall) (got : Bytes) : ReadState :=
  { x with
    wire := x.wire.drop got.length
    reads := x.reads ++ [{ call with got := got.length }]
    recvBuf := if call.buffer = .recvBuf then memcpy x.recvBuf call.offset.toNat got else x.recvBuf
    p := if call.buffer = .target then memcpy x.p call.offset.toNat got else x.p }

/-- `read_bulk`. -/
def readBulk (x : ReadState) (call : ReadCall) : Ready → ℤ × ReadState
  | .bytes k =>
    let got := x.wire.take (min call.len.toNat (Ready.bytes k).count)
    -- a read of no bytes looks like the end of the stream
    if call.len = 0 then (-1, x.store call []) else (toInt got.length, x.store call got)
  | .again | .interrupted => (0, x.store call [])
  | .closed | .failed => (-1, x.store call [])

/-- The `read` of the rest of the target. -/
def callTarget (x : ReadState) : ReadCall := { buffer := .target, offset := x.stateOffset, len := x.left }

/-- The `read` that fills the prefetch buffer. -/
def callRecvBuf (x : ReadState) : ReadCall :=
  { buffer := .recvBuf, offset := x.recvEnd, len := x.recvMaxPrefetch - x.recvEnd }

/-- One turn of the loop for a large read. -/
def turnLarge (e : Ready) (x : ReadState) : (Answer × ReadState) ⊕ (ℤ × ReadState) :=
  let (r, x) := x.readBulk x.callTarget e
  if r < 0 then .inl (.ret (-1), x)
  else if r = toInt x.left.toNat then .inl (.ret 0, { x with stateOffset := 0 })
  else .inr (r, { x with
    stateOffset := x.stateOffset + .ofNat r.toNat
    left := x.left - .ofNat r.toNat })

/-- One turn of the loop that prefetches. -/
def turnAhead (len : UInt32) (e : Ready) (x : ReadState) : (Answer × ReadState) ⊕ (ℤ × ReadState) :=
  let (r, x) := x.readBulk x.callRecvBuf e
  if r < 0 then .inl (.ret (-1), x)
  else
    let x := { x with recvEnd := x.recvEnd + UInt32.ofNat r.toNat }
    if toInt x.left.toNat ≤ r then
      let x := { x with recvStart := len - x.stateOffset }
      .inl (.ret 0, { x with
        p := memcpy x.p x.stateOffset.toNat (x.recvBuf.take x.recvStart.toNat)
        stateOffset := 0 })
    else .inr (r, { x with left := x.left - UInt32.ofNat r.toNat })

/-- `read_until` ends without the whole target. -/
def missing (len : UInt32) (x : ReadState) : Answer × ReadState :=
  (.ret (toInt (len - x.stateOffset).toNat), x)

/-- What has been prefetched does not fill the target, and goes there. -/
def copyOut (x : ReadState) : ReadState :=
  let n := x.recvEnd - x.recvStart
  { x with
    p := memcpy x.p x.stateOffset.toNat (x.recvBuf.take n.toNat)
    stateOffset := x.stateOffset + n
    recvStart := 0
    recvEnd := 0 }

/-- `read_until`, when nothing is left in the prefetch buffer. -/
def fetch (len : UInt32) (script : List Ready) (x : ReadState) : Answer × ReadState :=
  -- assert(recv_end == recv_start)
  if x.recvEnd ≠ x.recvStart then (.assertion, x)
  else
    let x := { x with recvStart := 0, recvEnd := 0 }
    if x.recvMaxPrefetch < len then doLoop turnLarge (missing len) script x
    else doLoop (turnAhead len) (fun y ↦ missing len y.copyOut) script x

/-- `read_until`. -/
def readUntil (len : UInt32) (script : List Ready) (x : ReadState) : Answer × ReadState :=
  -- assert(len)
  if len = 0 then (.assertion, x)
  else
    let x := { x with left := len - x.stateOffset }
    if x.recvStart < x.recvEnd then
      -- assert(state_offset == 0)
      if x.stateOffset ≠ 0 then (.assertion, x)
      else
        let toRead := min (x.recvEnd - x.recvStart) x.left
        let x := { x with
          p := memcpy x.p 0 ((x.recvBuf.drop x.recvStart.toNat).take toRead.toNat)
          recvStart := x.recvStart + toRead
          left := x.left - toRead }
        if x.left = 0 then (.ret 0, { x with stateOffset := 0 })
        else fetch len script { x with stateOffset := x.stateOffset + toRead }
    else fetch len script x

end ReadState

/-! ## The buffer as a list of bytes

The unread part of `recv_buf` is a list of bytes, and the target is a list of which the first
`state_offset` bytes are there. Whether an unsigned difference is the difference of the numbers is
shown where the order of the indices is at hand, and nowhere else. -/

theorem length_memcpy {dst src : Bytes} {offset : ℕ} (h : offset + src.length ≤ dst.length) :
    (memcpy dst offset src).length = dst.length := by
  simp only [memcpy, List.length_append, List.length_take, List.length_drop]
  omega

/-- The bytes up to the end of the copy. -/
theorem take_memcpy {dst src : Bytes} {offset : ℕ} (h : offset + src.length ≤ dst.length) :
    (memcpy dst offset src).take (offset + src.length) = dst.take offset ++ src := by
  have hlen : (dst.take offset ++ src).length = offset + src.length := by
    rw [List.length_append, List.length_take, Nat.min_eq_left (by omega)]
  rw [memcpy, ← hlen, List.take_left]

/-- The bytes prefetched and not used. -/
def Prefetch.unread (x : Prefetch) : Bytes := (x.recvBuf.take x.recvEnd.toNat).drop x.recvStart.toNat

/-- The indices of the prefetch buffer are in order. -/
structure Prefetch.Ok (max : UInt32) (x : Prefetch) : Prop where
  max_eq : x.recvMaxPrefetch = max
  recvBuf_length : x.recvBuf.length = max.toNat
  start_le : x.recvStart.toNat ≤ x.recvEnd.toNat
  end_le : x.recvEnd.toNat ≤ max.toNat

theorem Prefetch.Ok.length_unread {max : UInt32} {x : Prefetch} (h : x.Ok max) :
    x.unread.length = x.recvEnd.toNat - x.recvStart.toNat := by
  rw [unread, List.length_drop, List.length_take, h.recvBuf_length, Nat.min_eq_left h.end_le]

/-- A `read` of at least one byte, inside of the buffer it fills. -/
def ReadCall.InBounds (max len : UInt32) (c : ReadCall) : Prop :=
  0 < c.len.toNat ∧ c.offset.toNat + c.len.toNat ≤
    match c.buffer with
    | .recvBuf => max.toNat
    | .target => len.toNat

namespace ReadState

/-- The buffer and the target hold what the lists say. -/
structure Stands (max len : UInt32) (x : ReadState) (r : Recv) : Prop where
  ok : x.Ok max
  p_length : x.p.length = len.toNat
  offset_lt : x.stateOffset.toNat < len.toNat
  wire : r.wire = x.wire
  buf : r.buf = x.unread
  part : r.part = x.p.take x.stateOffset.toNat
  reads : ∀ c ∈ x.reads, c.InBounds max len

/-- A `read_until` ends like the one on lists. -/
inductive Refines (max len : UInt32) : Answer × ReadState → Got × Recv → Prop
  | done (y : ReadState) (bs : Bytes) (r : Recv) (hok : y.Ok max) (hp : y.p = bs)
      (hoffset : y.stateOffset = 0) (hwire : r.wire = y.wire) (hbuf : r.buf = y.unread)
      (hpart : r.part = []) (hreads : ∀ c ∈ y.reads, c.InBounds max len) :
      Refines max len (.ret 0, y) (.done bs, r)
  | again (y : ReadState) (r : Recv) (h : Stands max len y r) (hbuf : r.buf = [])
      (hlast : ∃ c ∈ y.reads.getLast?, c.got = 0) :
      Refines max len (.ret (len.toNat - r.part.length : ℕ), y) (.again (len.toNat - r.part.length), r)

variable {max len : UInt32} {x : ReadState} {r : Recv} {e : Ready} {script : List Ready}

theorem Stands.length_part (h : Stands max len x r) : r.part.length = x.stateOffset.toNat := by
  rw [h.part, List.length_take, h.p_length, Nat.min_eq_left h.offset_lt.le]

theorem count_lt (e : Ready) : e.count < 2 ^ 31 := by
  have hmax : maxReadCount < 2 ^ 31 := by decide
  cases e with
  | bytes k => exact (Nat.min_le_right ..).trans_lt hmax
  | _ => exact Nat.two_pow_pos 31

/-- A `read` from a living socket takes what is ready. -/
theorem readBulk_of_alive (halive : e.alive = true) {call : ReadCall} (hlen : 0 < call.len.toNat)
    {got : Bytes} (hgot : x.wire.take (min call.len.toNat e.count) = got) :
    x.readBulk call e = ((got.length : ℤ), x.store call got) := by
  subst hgot
  let got := x.wire.take (min call.len.toNat e.count)
  have hint : toInt got.length = got.length := by
    refine Iter.toInt_of_lt ((List.length_take_le ..).trans_lt ?_)
    exact (Nat.min_le_right ..).trans_lt (count_lt e)
  have hne : ¬call.len = 0 := by
    rintro h
    rw [h] at hlen
    exact absurd hlen (by decide)
  cases e with
  | bytes k =>
    rw [← hint]
    exact if_neg hne
  | again => simp [Ready.count, readBulk]
  | interrupted => simp [Ready.count, readBulk]
  | closed => cases halive
  | failed => cases halive

/-- The next `read` is in bounds as well. -/
theorem Stands.reads_store {call : ReadCall} (h : Stands max len x r) (hcall : call.InBounds max len)
    (got : Bytes) : ∀ c ∈ (x.store call got).reads, c.InBounds max len := by
  intro c hc
  rcases List.mem_append.mp hc with hc | hc
  · exact h.reads c hc
  · rw [List.mem_singleton.mp hc]
    exact hcall

/-- The loop for a large read is at the beginning of a turn. -/
structure StandsLarge (max len : UInt32) (x : ReadState) (r : Recv) : Prop extends
    Stands max len x r where
  start_eq : x.recvStart = 0
  end_eq : x.recvEnd = 0
  left_eq : x.left.toNat = len.toNat - x.stateOffset.toNat

/-- One turn of the loop for a large read: the target is full, or the bytes that have come are at its
beginning. -/
theorem turnLarge_cases (h : StandsLarge max len x r) (hlen : len.toNat < 2 ^ 31)
    (halive : e.alive = true) :
    let got := r.readBulk (len.toNat - r.part.length) e.count
    let r' : Recv := { r with wire := r.wire.drop got.length, part := r.part ++ got }
    (got.length = len.toNat - r.part.length ∧ ∃ y, turnLarge e x = .inl (.ret 0, y) ∧
      Refines max len (.ret 0, y) (.done r'.part, { r' with part := [] })) ∨
    (got.length < len.toNat - r.part.length ∧ ∃ y, turnLarge e x = .inr (got.length, y) ∧
      StandsLarge max len y r' ∧ ∃ c ∈ y.reads.getLast?, c.got = got.length) := by
  intro got r'
  have hpart := h.length_part
  have hoffset := h.offset_lt
  have hgot : x.wire.take (min x.left.toNat e.count) = got := by
    rw [← h.wire, h.left_eq, ← hpart]
    rw [Nat.min_comm]
    rfl
  have hle : got.length ≤ len.toNat - r.part.length := r.length_readBulk_le _ _
  have hcall : ReadCall.InBounds max len x.callTarget := by
    constructor
    · show 0 < x.left.toNat
      rw [h.left_eq]
      omega
    · show x.stateOffset.toNat + x.left.toNat ≤ len.toNat
      rw [h.left_eq]
      omega
  have hread := readBulk_of_alive halive hcall.1 hgot
  have hint : toInt x.left.toNat = x.left.toNat := Iter.toInt_of_lt (by rw [h.left_eq]; omega)
  have hfit : x.stateOffset.toNat + got.length ≤ x.p.length := by
    rw [h.p_length]
    omega
  have hreads := h.toStands.reads_store hcall got
  have htake : (memcpy x.p x.stateOffset.toNat got).take (x.stateOffset.toNat + got.length) =
      r.part ++ got := by
    rw [take_memcpy hfit, h.part]
  -- the descriptor is alive, so that the error branch is not taken
  have hturn : turnLarge e x =
      if (got.length : ℤ) = x.left.toNat then
        .inl (.ret 0, { x.store x.callTarget got with stateOffset := 0 })
      else .inr (got.length, { x.store x.callTarget got with
        stateOffset := x.stateOffset + .ofNat got.length
        left := x.left - .ofNat got.length }) := by
    rw [turnLarge, hread]
    refine (if_neg (Int.not_lt.mpr (Int.natCast_nonneg _))).trans ?_
    rw [← hint]
    rfl
  rcases Nat.lt_or_eq_of_le hle with hlt | heq
  · right
    have hne : ¬(got.length : ℤ) = x.left.toNat := by
      rw [h.left_eq]
      omega
    have hadd : (x.stateOffset + .ofNat got.length).toNat = x.stateOffset.toNat + got.length :=
      Iter.toNat_add_ofNat (by omega)
    refine ⟨hlt, _, hturn.trans (if_neg hne), ?_, _, List.getLast?_concat, rfl⟩
    refine { ok := ⟨h.ok.max_eq, h.ok.recvBuf_length, h.ok.start_le, h.ok.end_le⟩
             p_length := (length_memcpy hfit).trans h.p_length
             offset_lt := ?_
             wire := congrArg (List.drop got.length) h.wire
             buf := h.buf
             part := ?_
             reads := hreads
             start_eq := h.start_eq
             end_eq := h.end_eq
             left_eq := ?_ }
    · show (x.stateOffset + .ofNat got.length).toNat < len.toNat
      rw [hadd]
      omega
    · show r.part ++ got = (memcpy x.p x.stateOffset.toNat got).take _
      rw [hadd, htake]
    · show (x.left - .ofNat got.length).toNat = len.toNat - (x.stateOffset + .ofNat got.length).toNat
      rw [hadd, Iter.toNat_sub_ofNat (by rw [h.left_eq]; omega), h.left_eq]
      omega
  · left
    have hfull : (got.length : ℤ) = x.left.toNat := by
      rw [h.left_eq]
      omega
    have hp : memcpy x.p x.stateOffset.toNat got = r.part ++ got := by
      rw [← htake, List.take_of_length_le]
      rw [length_memcpy hfit, h.p_length]
      omega
    refine ⟨heq, _, hturn.trans (if_pos hfull), ?_⟩
    exact .done { x.store x.callTarget got with stateOffset := 0 } _ _
      ⟨h.ok.max_eq, h.ok.recvBuf_length, h.ok.start_le, h.ok.end_le⟩ hp rfl
      (congrArg (List.drop got.length) h.wire) h.buf rfl hreads

theorem refines_missing (h : Stands max len x r) (hbuf : r.buf = []) (hlen : len.toNat < 2 ^ 31)
    (hlast : ∃ c ∈ x.reads.getLast?, c.got = 0) :
    Refines max len (missing len x) (.again (len.toNat - r.part.length), r) := by
  have hsub : (len - x.stateOffset).toNat = len.toNat - r.part.length := by
    rw [UInt32.toNat_sub_of_le _ _ (UInt32.le_iff_toNat_le.mpr h.offset_lt.le), h.length_part]
  have hint : toInt (len - x.stateOffset).toNat = (len.toNat - r.part.length : ℕ) := by
    rw [hsub, Iter.toInt_of_lt (by omega)]
  rw [missing, hint]
  exact .again x r h hbuf hlast

/-- After the last event the kernel has nothing. -/
theorem readBulk_zero (r : Recv) (len : ℕ) : r.readBulk len 0 = [] := by
  rw [Recv.readBulk, Nat.zero_min, List.take_zero]

/-- The loop for a large read does what the one on lists does. -/
theorem refines_readLarge (h : StandsLarge max len x r) (hbuf : r.buf = []) (hlen : len.toNat < 2 ^ 31)
    (halive : ∀ e ∈ script, e.alive = true) :
    Refines max len (doLoop turnLarge (missing len) script x)
      (Recv.readLarge len.toNat (script.map Ready.count) r) := by
  induction script generalizing x r with
  | nil =>
    have hnone := readBulk_zero r (len.toNat - r.part.length)
    have hturn := turnLarge_cases h hlen (e := .again) rfl
    have hpart := h.length_part
    have hoffset := h.offset_lt
    simp only [Ready.count, hnone, List.length_nil, List.drop_zero, List.append_nil] at hturn
    rcases hturn with ⟨hfull, -⟩ | ⟨-, y, hturn, hy, hlast⟩
    · omega
    · rw [doLoop, hturn]
      exact refines_missing hy.toStands hbuf hlen hlast
  | cons e script ih =>
    rw [List.map_cons, Recv.readLarge]
    have hturn := turnLarge_cases h hlen (halive e List.mem_cons_self)
    generalize r.readBulk (len.toNat - r.part.length) e.count = got at hturn ⊢
    dsimp only at hturn ⊢
    rcases hturn with ⟨hfull, y, hturn, hy⟩ | ⟨hlt, y, hturn, hy, hlast⟩
    · rw [doLoop, hturn, if_pos hfull]
      exact hy
    · rw [doLoop, hturn, if_neg hlt.ne]
      show Refines max len (if (0 : ℤ) < got.length then _ else _) _
      by_cases hnone : got = []
      · rw [if_neg (by simp [hnone]), if_pos hnone]
        rw [hnone] at hlast
        exact refines_missing hy.toStands hbuf hlen hlast
      · rw [if_pos (by simpa using List.length_pos_iff.mpr hnone), if_neg hnone]
        exact ih hy hbuf fun e' he' ↦ halive e' (List.mem_cons_of_mem _ he')

/-- The loop that prefetches is at the beginning of a turn. -/
structure StandsAhead (max len : UInt32) (x : ReadState) (r : Recv) : Prop extends
    Stands max len x r where
  small : len.toNat ≤ max.toNat
  start_eq : x.recvStart = 0
  short : x.stateOffset.toNat + x.recvEnd.toNat < len.toNat
  left_eq : x.left.toNat = len.toNat - x.stateOffset.toNat - x.recvEnd.toNat

theorem StandsAhead.buf_eq (h : StandsAhead max len x r) : r.buf = x.recvBuf.take x.recvEnd.toNat := by
  rw [h.buf, Prefetch.unread, h.start_eq]
  exact List.drop_zero

theorem StandsAhead.length_buf (h : StandsAhead max len x r) : r.buf.length = x.recvEnd.toNat := by
  rw [h.buf_eq, List.length_take, h.ok.recvBuf_length, Nat.min_eq_left h.ok.end_le]

/-- A copy that fills the target. -/
theorem memcpy_full (h : Stands max len x r) (src : Bytes)
    (hsrc : src.length = len.toNat - r.part.length) :
    memcpy x.p x.stateOffset.toNat src = r.part ++ src := by
  have hpart := h.length_part
  have hoffset := h.offset_lt
  have hfit : x.stateOffset.toNat + src.length ≤ x.p.length := by
    rw [h.p_length]
    omega
  have hlen := (length_memcpy hfit).trans h.p_length
  rw [h.part, ← take_memcpy hfit, List.take_of_length_le]
  omega

theorem StandsAhead.room (h : StandsAhead max len x r) :
    (x.recvMaxPrefetch - x.recvEnd).toNat = max.toNat - x.recvEnd.toNat := by
  rw [h.ok.max_eq, UInt32.toNat_sub_of_le _ _ (UInt32.le_iff_toNat_le.mpr h.ok.end_le)]

theorem StandsAhead.inBounds (h : StandsAhead max len x r) : ReadCall.InBounds max len x.callRecvBuf := by
  have hshort := h.short
  have hsmall := h.small
  have hend := h.ok.end_le
  constructor
  · show 0 < (x.recvMaxPrefetch - x.recvEnd).toNat
    rw [h.room]
    omega
  · show x.recvEnd.toNat + (x.recvMaxPrefetch - x.recvEnd).toNat ≤ max.toNat
    rw [h.room]
    omega

/-- What a turn does with the bytes it has got. -/
theorem StandsAhead.turnAhead_eq (h : StandsAhead max len x r) (hlen : len.toNat < 2 ^ 31)
    (halive : e.alive = true) {got : Bytes} (hgot : r.readBulk (max.toNat - r.buf.length) e.count = got) :
    turnAhead len e x =
      if (x.left.toNat : ℤ) ≤ got.length then
        .inl (.ret 0, { x.store x.callRecvBuf got with
          recvEnd := x.recvEnd + .ofNat got.length
          recvStart := len - x.stateOffset
          p := memcpy x.p x.stateOffset.toNat
            ((memcpy x.recvBuf x.recvEnd.toNat got).take (len - x.stateOffset).toNat)
          stateOffset := 0 })
      else .inr (got.length, { x.store x.callRecvBuf got with
        recvEnd := x.recvEnd + .ofNat got.length
        left := x.left - .ofNat got.length }) := by
  have htake : x.wire.take (min (x.recvMaxPrefetch - x.recvEnd).toNat e.count) = got := by
    rw [← h.wire, h.room, ← h.length_buf, Nat.min_comm, ← hgot]
    rfl
  have hint : toInt x.left.toNat = x.left.toNat := Iter.toInt_of_lt (by rw [h.left_eq]; omega)
  rw [turnAhead, readBulk_of_alive halive h.inBounds.1 htake]
  refine (if_neg (Int.not_lt.mpr (Int.natCast_nonneg _))).trans ?_
  rw [← hint]
  rfl

section Ahead

variable {got : Bytes}

theorem StandsAhead.toNat_recvEnd (h : StandsAhead max len x r)
    (hle : got.length ≤ max.toNat - x.recvEnd.toNat) :
    (x.recvEnd + .ofNat got.length).toNat = x.recvEnd.toNat + got.length := by
  have hend := h.ok.end_le
  have hmax := max.toNat_lt
  exact Iter.toNat_add_ofNat (by omega)

theorem StandsAhead.fits (h : StandsAhead max len x r) (hle : got.length ≤ max.toNat - x.recvEnd.toNat) :
    x.recvEnd.toNat + got.length ≤ x.recvBuf.length := by
  have hend := h.ok.end_le
  rw [h.ok.recvBuf_length]
  omega

theorem StandsAhead.take_recvBuf (h : StandsAhead max len x r)
    (hle : got.length ≤ max.toNat - x.recvEnd.toNat) :
    (memcpy x.recvBuf x.recvEnd.toNat got).take (x.recvEnd + .ofNat got.length).toNat = r.buf ++ got := by
  rw [h.toNat_recvEnd hle, take_memcpy (h.fits hle), ← h.buf_eq]

/-- Too few bytes have come, and they stay in the prefetch buffer. -/
theorem StandsAhead.keeps (h : StandsAhead max len x r) (hle : got.length ≤ max.toNat - x.recvEnd.toNat)
    (hlt : (r.buf ++ got).length < len.toNat - r.part.length) :
    StandsAhead max len
      { x.store x.callRecvBuf got with
        recvEnd := x.recvEnd + .ofNat got.length
        left := x.left - .ofNat got.length }
      { r with wire := r.wire.drop got.length, buf := r.buf ++ got } := by
  have hoffset := h.offset_lt
  have hend := h.toNat_recvEnd hle
  have hmax := h.ok.end_le
  rw [List.length_append, h.length_buf, h.length_part] at hlt
  refine { ok := ⟨h.ok.max_eq, (length_memcpy (h.fits hle)).trans h.ok.recvBuf_length, ?_, ?_⟩
           p_length := h.p_length
           offset_lt := h.offset_lt
           wire := congrArg (List.drop got.length) h.wire
           buf := ?_
           part := h.part
           reads := h.toStands.reads_store h.inBounds got
           small := h.small
           start_eq := h.start_eq
           short := ?_
           left_eq := ?_ }
  · show x.recvStart.toNat ≤ (x.recvEnd + .ofNat got.length).toNat
    rw [h.start_eq]
    exact Nat.zero_le _
  · show (x.recvEnd + .ofNat got.length).toNat ≤ max.toNat
    omega
  · show r.buf ++ got = ((memcpy x.recvBuf x.recvEnd.toNat got).take
      (x.recvEnd + .ofNat got.length).toNat).drop x.recvStart.toNat
    rw [h.take_recvBuf hle, h.start_eq]
    rfl
  · show x.stateOffset.toNat + (x.recvEnd + .ofNat got.length).toNat < len.toNat
    omega
  · show (x.left - .ofNat got.length).toNat =
      len.toNat - x.stateOffset.toNat - (x.recvEnd + .ofNat got.length).toNat
    rw [hend, Iter.toNat_sub_ofNat (by rw [h.left_eq]; omega), h.left_eq]
    omega

/-- There is enough for the target, and the rest stays in the prefetch buffer. -/
theorem StandsAhead.fills (h : StandsAhead max len x r) (hle : got.length ≤ max.toNat - x.recvEnd.toNat)
    (hge : len.toNat - r.part.length ≤ (r.buf ++ got).length) :
    Refines max len
      (.ret 0, { x.store x.callRecvBuf got with
        recvEnd := x.recvEnd + .ofNat got.length
        recvStart := len - x.stateOffset
        p := memcpy x.p x.stateOffset.toNat
          ((memcpy x.recvBuf x.recvEnd.toNat got).take (len - x.stateOffset).toNat)
        stateOffset := 0 })
      (.done (r.part ++ (r.buf ++ got).take (len.toNat - r.part.length)),
        { r with wire := r.wire.drop got.length, buf := (r.buf ++ got).drop (len.toNat - r.part.length),
                 part := [] }) := by
  have hend := h.toNat_recvEnd hle
  have hmax := h.ok.end_le
  have hstart : (len - x.stateOffset).toNat = len.toNat - r.part.length := by
    rw [UInt32.toNat_sub_of_le _ _ (UInt32.le_iff_toNat_le.mpr h.offset_lt.le), h.length_part]
  have hp := memcpy_full h.toStands ((r.buf ++ got).take (len.toNat - r.part.length))
    (by rw [List.length_take]; omega)
  rw [List.length_append, h.length_buf] at hge
  have hsrc : (memcpy x.recvBuf x.recvEnd.toNat got).take (len - x.stateOffset).toNat =
      (r.buf ++ got).take (len.toNat - r.part.length) := by
    rw [← h.take_recvBuf hle, List.take_take, hstart, Nat.min_eq_left (by omega)]
  rw [hsrc]
  refine .done { x.store x.callRecvBuf got with
    recvEnd := x.recvEnd + .ofNat got.length
    recvStart := len - x.stateOffset
    p := memcpy x.p x.stateOffset.toNat ((r.buf ++ got).take (len.toNat - r.part.length))
    stateOffset := 0 } _ _ ?_ hp rfl (congrArg (List.drop got.length) h.wire) ?_ rfl
    (h.toStands.reads_store h.inBounds got)
  · refine ⟨h.ok.max_eq, (length_memcpy (h.fits hle)).trans h.ok.recvBuf_length, ?_, ?_⟩
    · show (len - x.stateOffset).toNat ≤ (x.recvEnd + .ofNat got.length).toNat
      omega
    · show (x.recvEnd + .ofNat got.length).toNat ≤ max.toNat
      omega
  · show (r.buf ++ got).drop (len.toNat - r.part.length) =
      ((memcpy x.recvBuf x.recvEnd.toNat got).take
        (x.recvEnd + .ofNat got.length).toNat).drop (len - x.stateOffset).toNat
    rw [h.take_recvBuf hle, hstart]

end Ahead

/-- One turn of the loop that prefetches: there is enough for the target, or everything stays in the
prefetch buffer. -/
theorem turnAhead_cases (h : StandsAhead max len x r) (hlen : len.toNat < 2 ^ 31)
    (halive : e.alive = true) :
    let got := r.readBulk (max.toNat - r.buf.length) e.count
    let r' : Recv := { r with wire := r.wire.drop got.length, buf := r.buf ++ got }
    (len.toNat - r.part.length ≤ r'.buf.length ∧ ∃ y, turnAhead len e x = .inl (.ret 0, y) ∧
      Refines max len (.ret 0, y) (.done (r.part ++ r'.buf.take (len.toNat - r.part.length)),
        { r' with buf := r'.buf.drop (len.toNat - r.part.length), part := [] })) ∨
    (r'.buf.length < len.toNat - r.part.length ∧ ∃ y, turnAhead len e x = .inr (got.length, y) ∧
      StandsAhead max len y r' ∧ ∃ c ∈ y.reads.getLast?, c.got = got.length) := by
  intro got r'
  have hle : got.length ≤ max.toNat - x.recvEnd.toNat := h.length_buf ▸ r.length_readBulk_le _ _
  have hturn := h.turnAhead_eq hlen halive rfl
  have hlength : r'.buf.length = x.recvEnd.toNat + got.length := by
    rw [List.length_append, h.length_buf]
  have hleft : x.left.toNat = len.toNat - r.part.length - x.recvEnd.toNat := by
    rw [h.left_eq, h.length_part]
  rcases Nat.lt_or_ge r'.buf.length (len.toNat - r.part.length) with hlt | hge
  · have hfew : ¬(x.left.toNat : ℤ) ≤ got.length := by omega
    exact .inr ⟨hlt, _, hturn.trans (if_neg hfew), h.keeps hle hlt, _, List.getLast?_concat, rfl⟩
  · have henough : (x.left.toNat : ℤ) ≤ got.length := by omega
    exact .inl ⟨hge, _, hturn.trans (if_pos henough), h.fills hle hge⟩

/-- What has been prefetched goes to the target. -/
theorem StandsAhead.copyOut (h : StandsAhead max len x r) :
    Stands max len x.copyOut { r with buf := [], part := r.part ++ r.buf } := by
  have hpart := h.length_part
  have hshort := h.short
  have hend : (x.recvEnd - x.recvStart).toNat = x.recvEnd.toNat := by
    rw [h.start_eq, UInt32.sub_zero]
  have hsrc : x.recvBuf.take (x.recvEnd - x.recvStart).toNat = r.buf := by
    rw [hend, h.buf_eq]
  have hfit : x.stateOffset.toNat + r.buf.length ≤ x.p.length := by
    rw [h.p_length, h.length_buf]
    exact hshort.le
  have hadd : (x.stateOffset + (x.recvEnd - x.recvStart)).toNat =
      x.stateOffset.toNat + r.buf.length := by
    have hlt := len.toNat_lt
    rw [UInt32.toNat_add, hend, h.length_buf, Nat.mod_eq_of_lt (by omega)]
  refine { ok := ⟨h.ok.max_eq, h.ok.recvBuf_length, le_rfl, Nat.zero_le _⟩
           p_length := ?_
           offset_lt := ?_
           wire := h.wire
           buf := ?_
           part := ?_
           reads := h.reads }
  · show (memcpy x.p x.stateOffset.toNat (x.recvBuf.take (x.recvEnd - x.recvStart).toNat)).length = _
    rw [hsrc, length_memcpy hfit, h.p_length]
  · show (x.stateOffset + (x.recvEnd - x.recvStart)).toNat < len.toNat
    rw [hadd, h.length_buf]
    exact hshort
  · show [] = (x.recvBuf.take 0).drop 0
    rfl
  · show r.part ++ r.buf = (memcpy x.p x.stateOffset.toNat
      (x.recvBuf.take (x.recvEnd - x.recvStart).toNat)).take
        (x.stateOffset + (x.recvEnd - x.recvStart)).toNat
    rw [hadd, hsrc, take_memcpy hfit, h.part]

/-- The loop that prefetches does what the one on lists does. -/
theorem refines_readAhead (h : StandsAhead max len x r) (hlen : len.toNat < 2 ^ 31)
    (halive : ∀ e ∈ script, e.alive = true) :
    Refines max len (doLoop (turnAhead len) (fun y ↦ missing len y.copyOut) script x)
      (Recv.readAhead max.toNat len.toNat (script.map Ready.count) r) := by
  induction script generalizing x r with
  | nil =>
    have hnone := readBulk_zero r (max.toNat - r.buf.length)
    have hturn := turnAhead_cases h hlen (e := .again) rfl
    have hpart := h.length_part
    have hshort := h.short
    have hbuf := h.length_buf
    simp only [Ready.count, hnone, List.length_nil, List.drop_zero, List.append_nil] at hturn
    rcases hturn with ⟨hfull, -⟩ | ⟨-, y, hturn, hy, hlast⟩
    · omega
    · rw [doLoop, hturn]
      exact refines_missing hy.copyOut rfl hlen hlast
  | cons e script ih =>
    rw [List.map_cons, Recv.readAhead]
    have hturn := turnAhead_cases h hlen (halive e List.mem_cons_self)
    generalize r.readBulk (max.toNat - r.buf.length) e.count = got at hturn ⊢
    dsimp only at hturn ⊢
    rcases hturn with ⟨hfull, y, hturn, hy⟩ | ⟨hlt, y, hturn, hy, hlast⟩
    · rw [doLoop, hturn, if_pos hfull]
      exact hy
    · rw [doLoop, hturn, if_neg (Nat.not_le.mpr hlt)]
      show Refines max len (if (0 : ℤ) < got.length then _ else _) _
      by_cases hnone : got = []
      · rw [if_neg (by simp [hnone]), if_pos hnone]
        rw [hnone] at hlast
        exact refines_missing hy.copyOut rfl hlen hlast
      · rw [if_pos (by simpa using List.length_pos_iff.mpr hnone), if_neg hnone]
        exact ih hy fun e' he' ↦ halive e' (List.mem_cons_of_mem _ he')

/-- When the prefetch buffer is empty. -/
theorem refines_fetch (h : Stands max len x r) (hbuf : r.buf = []) (hempty : x.recvEnd = x.recvStart)
    (hleft : x.left.toNat = len.toNat - x.stateOffset.toNat) (hlen : len.toNat < 2 ^ 31)
    (halive : ∀ e ∈ script, e.alive = true) :
    Refines max len (fetch len script x)
      (if max.toNat < len.toNat then Recv.readLarge len.toNat (script.map Ready.count) r
        else Recv.readAhead max.toNat len.toNat (script.map Ready.count) r) := by
  have hstands : Stands max len { x with recvStart := 0, recvEnd := 0 } r :=
    ⟨⟨h.ok.max_eq, h.ok.recvBuf_length, le_rfl, Nat.zero_le _⟩, h.p_length, h.offset_lt, h.wire, hbuf,
      h.part, h.reads⟩
  rw [fetch, if_neg (not_not.mpr hempty)]
  dsimp only
  have hiff : x.recvMaxPrefetch < len ↔ max.toNat < len.toNat := by
    rw [h.ok.max_eq, UInt32.lt_iff_toNat_lt]
  by_cases hlarge : max.toNat < len.toNat
  · rw [if_pos (hiff.mpr hlarge), if_pos hlarge]
    exact refines_readLarge ⟨hstands, rfl, rfl, hleft⟩ hbuf hlen halive
  · rw [if_neg fun hlt ↦ hlarge (hiff.mp hlt), if_neg hlarge]
    exact refines_readAhead ⟨hstands, Nat.not_lt.mp hlarge, rfl, h.offset_lt, hleft⟩ hlen halive

theorem toNat_min (a b : UInt32) : (min a b).toNat = min a.toNat b.toNat := by
  show (if a ≤ b then a else b).toNat = _
  rw [min_def]
  by_cases h : a ≤ b
  · rw [if_pos h, if_pos (UInt32.le_iff_toNat_le.mp h)]
  · rw [if_neg h, if_neg fun hle ↦ h (UInt32.le_iff_toNat_le.mpr hle)]

theorem Stands.buf_eq_nil_iff (h : Stands max len x r) : r.buf = [] ↔ ¬x.recvStart < x.recvEnd := by
  rw [← List.length_eq_zero_iff, h.buf, h.ok.length_unread, UInt32.lt_iff_toNat_lt]
  omega

/-- Nothing has been prefetched. -/
theorem refines_unprefetched (h : Stands max len x r) (hempty : r.buf = []) (hlen : len.toNat < 2 ^ 31)
    (hleft : (len - x.stateOffset).toNat = len.toNat - x.stateOffset.toNat)
    (halive : ∀ e ∈ script, e.alive = true) :
    Refines max len (fetch len script { x with left := len - x.stateOffset })
      (if max.toNat < len.toNat then Recv.readLarge len.toNat (script.map Ready.count) r
        else Recv.readAhead max.toNat len.toNat (script.map Ready.count) r) := by
  have hidle := h.buf_eq_nil_iff.mp hempty
  refine refines_fetch ⟨h.ok, h.p_length, h.offset_lt, h.wire, h.buf, h.part, h.reads⟩ hempty ?_ hleft
    hlen halive
  have hle := h.ok.start_le
  rw [UInt32.lt_iff_toNat_lt] at hidle
  show x.recvEnd = x.recvStart
  exact UInt32.toNat_inj.mp (by omega)

/-- The first copy, out of the prefetch buffer: `toRead` bytes of what is there. -/
structure FirstCopy (x : ReadState) (r : Recv) (len toRead : UInt32) : Prop where
  toNat_eq : toRead.toNat = min r.buf.length len.toNat
  start_eq : (x.recvStart + toRead).toNat = x.recvStart.toNat + toRead.toNat
  start_le : (x.recvStart + toRead).toNat ≤ x.recvEnd.toNat
  src : (x.recvBuf.drop x.recvStart.toNat).take toRead.toNat = r.buf.take toRead.toNat
  rest : (x.recvBuf.take x.recvEnd.toNat).drop (x.recvStart + toRead).toNat = r.buf.drop toRead.toNat
  left : (len - toRead).toNat = len.toNat - toRead.toNat

theorem Stands.length_buf (h : Stands max len x r) :
    r.buf.length = x.recvEnd.toNat - x.recvStart.toNat := by
  rw [h.buf, h.ok.length_unread]

theorem Stands.firstCopy (h : Stands max len x r) :
    FirstCopy x r len (min (x.recvEnd - x.recvStart) len) := by
  generalize htoRead : min (x.recvEnd - x.recvStart) len = toRead
  have hbuflen := h.length_buf
  have hn : toRead.toNat = min r.buf.length len.toNat := by
    rw [← htoRead, toNat_min, hbuflen, UInt32.toNat_sub_of_le _ _
      (UInt32.le_iff_toNat_le.mpr h.ok.start_le)]
  have hle := h.ok.start_le
  have hend := h.ok.end_le
  have hmaxlt := max.toNat_lt
  have hstart : (x.recvStart + toRead).toNat = x.recvStart.toNat + toRead.toNat := by
    rw [UInt32.toNat_add, Nat.mod_eq_of_lt]
    omega
  refine ⟨hn, hstart, by omega, ?_, ?_, ?_⟩
  · rw [h.buf, Prefetch.unread, List.drop_take, List.take_take, Nat.min_eq_left]
    omega
  · rw [h.buf, Prefetch.unread, List.drop_drop, hstart]
  · exact UInt32.toNat_sub_of_le _ _ (UInt32.le_iff_toNat_le.mpr (by omega))

variable {toRead : UInt32}

/-- What has been prefetched fills the target. -/
theorem refines_prefetched (h : Stands max len x r) (hnone : r.part = []) (hzero : x.stateOffset = 0)
    (hcopy : FirstCopy x r len toRead) (hfull : len.toNat ≤ r.buf.length) :
    Refines max len
      (.ret 0, { x with
        p := memcpy x.p 0 (r.buf.take toRead.toNat)
        recvStart := x.recvStart + toRead
        left := len - toRead
        stateOffset := 0 })
      (.done (r.buf.take toRead.toNat), { r with buf := r.buf.drop toRead.toNat, part := [] }) := by
  have hn := hcopy.toNat_eq
  have hall : (r.buf.take toRead.toNat).length = len.toNat - r.part.length := by
    rw [List.length_take, hnone, List.length_nil]
    omega
  have hp := memcpy_full h (r.buf.take toRead.toNat) hall
  rw [hzero, hnone, List.nil_append] at hp
  exact .done { x with
    p := memcpy x.p 0 (r.buf.take toRead.toNat)
    recvStart := x.recvStart + toRead
    left := len - toRead
    stateOffset := 0 } _ _
    ⟨h.ok.max_eq, h.ok.recvBuf_length, hcopy.start_le, h.ok.end_le⟩ hp rfl h.wire hcopy.rest.symm rfl h.reads

/-- What has been prefetched goes to the target, and more is read. -/
theorem refines_rest (h : Stands max len x r) (hcopy : FirstCopy x r len toRead)
    (hshort : r.buf.length < len.toNat) (hlen : len.toNat < 2 ^ 31)
    (halive : ∀ e ∈ script, e.alive = true) :
    Refines max len
      (fetch len script { x with
        p := memcpy x.p 0 r.buf
        recvStart := x.recvStart + toRead
        left := len - toRead
        stateOffset := 0 + toRead })
      (if max.toNat < len.toNat then
        Recv.readLarge len.toNat (script.map Ready.count) { r with buf := [], part := r.buf }
      else Recv.readAhead max.toNat len.toNat (script.map Ready.count) { r with buf := [], part := r.buf }) := by
  have hn := hcopy.toNat_eq
  have hall : toRead.toNat = r.buf.length := by omega
  have hfit : 0 + r.buf.length ≤ x.p.length := by
    rw [h.p_length]
    omega
  have hdone : x.recvEnd = x.recvStart + toRead := by
    apply UInt32.toNat_inj.mp
    have hbuflen := h.length_buf
    have hle := h.ok.start_le
    rw [hcopy.start_eq, hall, hbuflen]
    omega
  refine refines_fetch (x := { x with
    p := memcpy x.p 0 r.buf
    recvStart := x.recvStart + toRead
    left := len - toRead
    stateOffset := 0 + toRead })
    ⟨⟨h.ok.max_eq, h.ok.recvBuf_length, hcopy.start_le, h.ok.end_le⟩, ?_, ?_, h.wire, ?_, ?_, h.reads⟩ rfl
    hdone ?_ hlen halive
  · exact (length_memcpy hfit).trans h.p_length
  · show (0 + toRead).toNat < len.toNat
    rw [UInt32.zero_add]
    omega
  · show [] = (x.recvBuf.take x.recvEnd.toNat).drop (x.recvStart + toRead).toNat
    rw [hcopy.rest, hall, List.drop_length]
  · show r.buf = (memcpy x.p 0 r.buf).take (0 + toRead).toNat
    rw [UInt32.zero_add, hall]
    have htaken := take_memcpy hfit
    rw [Nat.zero_add, List.take_zero, List.nil_append] at htaken
    exact htaken.symm
  · show (len - toRead).toNat = len.toNat - (0 + toRead).toNat
    rw [UInt32.zero_add, hcopy.left]

/-- **`read_until` on the prefetch buffer does what it does on lists.** -/
theorem refines_readUntil (h : Stands max len x r) (hbegun : r.buf = [] ∨ r.part = [])
    (hlen : len.toNat < 2 ^ 31) (halive : ∀ e ∈ script, e.alive = true) :
    Refines max len (x.readUntil len script)
      (Recv.readUntil max.toNat len.toNat (script.map Ready.count) r) := by
  have hpart := h.length_part
  have hoffset := h.offset_lt
  have hpos : ¬len = 0 := by
    rintro rfl
    exact absurd hoffset (Nat.not_lt_zero _)
  have hleft : (len - x.stateOffset).toNat = len.toNat - x.stateOffset.toNat :=
    UInt32.toNat_sub_of_le _ _ (UInt32.le_iff_toNat_le.mpr hoffset.le)
  have hsafe : ¬(r.buf ≠ [] ∧ r.part ≠ []) := fun hboth ↦ hbegun.elim hboth.1 hboth.2
  rw [readUntil, if_neg hpos, Recv.readUntil, if_neg hsafe]
  dsimp only
  by_cases hempty : r.buf = []
  · rw [if_neg (h.buf_eq_nil_iff.mp hempty), if_neg fun hfull ↦ hfull.1 hempty]
    have hr : ({ r with buf := [], part := r.part ++ r.buf } : Recv) = r := by
      cases r
      simp_all
    rw [hr]
    exact refines_unprefetched h hempty hlen hleft halive
  · -- a target is begun with what has been prefetched
    have hsome : x.recvStart < x.recvEnd := by
      by_contra hnot
      exact hempty (h.buf_eq_nil_iff.mpr hnot)
    have hnone : r.part = [] := hbegun.resolve_left hempty
    have hzero : x.stateOffset = 0 := by
      rw [hnone] at hpart
      exact UInt32.toNat_inj.mp hpart.symm
    rw [if_pos hsome, if_neg (not_not.mpr hzero), hzero, UInt32.sub_zero]
    have hcopy := h.firstCopy
    generalize min (x.recvEnd - x.recvStart) len = toRead at hcopy ⊢
    have hn := hcopy.toNat_eq
    have hsubleft := hcopy.left
    rw [hcopy.src]
    by_cases hfull : len.toNat ≤ r.buf.length
    · have hall : toRead.toNat = len.toNat := by omega
      rw [if_pos (UInt32.toNat_inj.mp (by rw [hsubleft, hall, Nat.sub_self]; rfl)), hnone,
        if_pos ⟨hempty, by simpa using hfull⟩, List.nil_append, List.length_nil, Nat.sub_zero, ← hall]
      exact refines_prefetched h hnone hzero hcopy hfull
    · have hshort : r.buf.length < len.toNat := Nat.lt_of_not_le hfull
      have hmore : ¬len - toRead = 0 := by
        intro hdone
        have hzeroed := congrArg UInt32.toNat hdone
        rw [hsubleft, UInt32.toNat_zero] at hzeroed
        omega
      have hall : toRead.toNat = r.buf.length := by omega
      rw [if_neg hmore, if_neg (by simp [hnone, hfull]), List.take_of_length_le hall.ge, hnone, List.nil_append]
      exact refines_rest h hcopy hshort hlen halive

end ReadState

/-! ## Calls of `read_until`

A target is asked for until it is full. In between `state_offset` stays in the connection, and the
prefetch buffer is empty, so that the assertion at the beginning of the next call holds. -/

/-- A call of `read_until`, and what it leaves. -/
structure CallRecord where
  answer : Answer
  /-- The target. -/
  p : Bytes
  /-- The bytes of the stream the kernel has not handed over. -/
  wire : Bytes
  reads : List ReadCall
  deriving DecidableEq, Repr

/-- One target after the other is filled. Each call meets some events, and is repeated with the same
target until it returns 0. -/
def session : List (List Ready) → List Bytes → Prefetch → Bytes → List CallRecord
  | [], _, _, _ => []
  | _, [], _, _ => []
  | script :: calls, p :: ps, x, wire =>
    let (answer, y) := ReadState.readUntil (.ofNat p.length) script { x with p, wire }
    { answer, p := y.p, wire := y.wire, reads := y.reads } ::
      match answer with
      | .ret r =>
        if r = 0 then session calls ps y.toPrefetch y.wire
        else if 0 < r then session calls (y.p :: ps) y.toPrefetch y.wire
        else []
      | .assertion => []

/-- The calls deliver the stream in pieces of the lengths asked for. -/
inductive Delivers (max : UInt32) : Bytes → List ℕ → List CallRecord → Prop
  | nil (stream : Bytes) (lens : List ℕ) : Delivers max stream lens []
  /-- The target is full. -/
  | done {stream : Bytes} {len : ℕ} {lens : List ℕ} {c : CallRecord} {rest : List CallRecord}
      (hanswer : c.answer = .ret 0) (hlen : c.p.length = len)
      (hreads : ∀ call ∈ c.reads, call.InBounds max (.ofNat len))
      (hrest : Delivers max stream lens rest) :
      Delivers max (c.p ++ stream) (len :: lens) (c :: rest)
  /-- So many bytes are missing. The others of those the kernel has handed over are in the target, and
  it has just handed over nothing. -/
  | again {stream : Bytes} {len missing : ℕ} {lens : List ℕ} {c : CallRecord} {rest : List CallRecord}
      (hanswer : c.answer = .ret missing) (hpos : 0 < missing) (hle : missing ≤ len)
      (hlen : c.p.length = len) (hall : c.p.take (len - missing) ++ c.wire = stream)
      (hlast : ∃ call ∈ c.reads.getLast?, call.got = 0)
      (hreads : ∀ call ∈ c.reads, call.InBounds max (.ofNat len))
      (hrest : Delivers max stream (len :: lens) rest) :
      Delivers max stream (len :: lens) (c :: rest)

/-- The lists of bytes a connection stands for that fills a target. -/
def Prefetch.toRecv (x : Prefetch) (p wire : Bytes) : Recv :=
  { wire, buf := x.unread, part := p.take x.stateOffset.toNat }

variable {max : UInt32}

/-- **Calls of `read_until` deliver the stream**, also if the first target is partly filled. -/
theorem delivers_of_begun {calls : List (List Ready)} {p : Bytes} {ps : List Bytes} {x : Prefetch}
    {wire : Bytes} (hok : x.Ok max) (hoffset : x.stateOffset.toNat < p.length)
    (hbegun : x.unread = [] ∨ x.stateOffset = 0)
    (hps : ∀ q ∈ p :: ps, 1 ≤ q.length ∧ q.length < 2 ^ 31)
    (halive : ∀ script ∈ calls, ∀ e ∈ script, e.alive = true) :
    Delivers max (x.toRecv p wire).unread ((p :: ps).map List.length) (session calls (p :: ps) x wire) := by
  induction calls generalizing p ps x wire with
  | nil => exact .nil _ _
  | cons script calls ih =>
    have hp := hps p List.mem_cons_self
    have hlen : (UInt32.ofNat p.length).toNat = p.length :=
      UInt32.toNat_ofNat_of_lt' (hp.2.trans (by decide))
    have hstands : ReadState.Stands max (.ofNat p.length) { x with p, wire } (x.toRecv p wire) :=
      ⟨hok, hlen.symm, hlen.symm ▸ hoffset, rfl, rfl, rfl, fun c hc ↦ absurd hc List.not_mem_nil⟩
    have hpart : (x.toRecv p wire).buf = [] ∨ (x.toRecv p wire).part = [] := by
      refine hbegun.imp_right fun hzero ↦ ?_
      rw [Prefetch.toRecv, hzero]
      rfl
    have hrefines := ReadState.refines_readUntil hstands hpart (hlen.symm ▸ hp.2)
      (halive script List.mem_cons_self)
    have hshort : (x.toRecv p wire).part.length < (UInt32.ofNat p.length).toNat := by
      rw [hstands.length_part]
      exact hstands.offset_lt
    have hreads := Recv.reads_readUntil max.toNat (script.map Ready.count) hpart hshort
    rw [session]
    -- what one call gives is known from the lists it stands for; the rest is the next calls
    generalize ReadState.readUntil (.ofNat p.length) script { x with p, wire } = out at hrefines ⊢
    generalize Recv.readUntil _ _ _ _ = got at hrefines hreads
    have hcalls : ∀ script ∈ calls, ∀ e ∈ script, e.alive = true :=
      fun script hs ↦ halive script (List.mem_cons_of_mem _ hs)
    have hrest : ∀ q ∈ ps, 1 ≤ q.length ∧ q.length < 2 ^ 31 :=
      fun q hq ↦ hps q (List.mem_cons_of_mem _ hq)
    cases hrefines with
    | done y bs r hoky hbs hzero hwire hbuf hnone hin =>
      cases hreads with
      | done _ _ hbslen _ hall =>
        have hstream : r.unread = y.unread ++ y.wire := by
          rw [Recv.unread, hnone, hbuf, hwire, List.nil_append]
        rw [← hall, ← hbs, hstream]
        refine Delivers.done (c := { answer := .ret 0, p := y.p, wire := y.wire, reads := y.reads }) rfl
          ((congrArg List.length hbs).trans (hbslen.trans hlen)) hin ?_
        cases ps with
        | nil =>
          cases calls with
          | nil => exact .nil _ _
          | cons => exact .nil _ _
        | cons q qs =>
          have hstart : (y.toRecv q y.wire).unread = y.unread ++ y.wire := by
            rw [Recv.unread, Prefetch.toRecv, hzero]
            rfl
          rw [← hstart]
          refine ih hoky ?_ (.inr hzero) hrest hcalls
          rw [hzero]
          exact (hrest q List.mem_cons_self).1
    | again y r hy hbuf hlast =>
      have hylen : y.p.length = p.length := hy.p_length.trans hlen
      have hyoffset := hlen ▸ hy.offset_lt
      have hr : r = y.toRecv y.p y.wire := by
        rw [Prefetch.toRecv, ← hy.wire, ← hy.buf, ← hy.part]
      have hall : r.unread = (x.toRecv p wire).unread := by
        generalize hleft : Got.again ((UInt32.ofNat p.length).toNat - r.part.length) = left at hreads
        cases hreads with
        | done => cases hleft
        | again _ _ _ hall => exact hall
      -- the target is not full: the next call goes on with it
      rw [hy.length_part, hlen]
      have hpos : 0 < p.length - y.stateOffset.toNat := by omega
      refine .again rfl hpos (Nat.sub_le ..) hylen ?_ hlast hy.reads ?_
      · rw [← hall, Recv.unread, hbuf, hy.part, hy.wire]
        congr 2
        omega
      · show Delivers max _ _ (if ((p.length - y.stateOffset.toNat : ℕ) : ℤ) = 0 then _ else _)
        rw [if_neg (Int.natCast_ne_zero.mpr hpos.ne'), if_pos (Int.natCast_pos.mpr hpos), ← hall, hr, ← hylen]
        refine ih hy.ok (hylen.symm ▸ hyoffset) (.inl (hy.buf.symm.trans hbuf)) ?_ hcalls
        rintro q (_ | ⟨_, hq⟩)
        · rw [hylen]
          exact hp
        · exact hrest q hq

/-- **`read_until` is independent of how the stream is cut**: each target gets exactly the next bytes of
it, a positive result is the number of bytes still missing, every `read` is for at least one byte and
inside of its buffer, and no assertion fails. -/
theorem delivers_session {x : Prefetch} (hok : x.Ok max) (hoffset : x.stateOffset = 0)
    {ps : List Bytes} (hps : ∀ p ∈ ps, 1 ≤ p.length ∧ p.length < 2 ^ 31) {calls : List (List Ready)}
    (halive : ∀ script ∈ calls, ∀ e ∈ script, e.alive = true) (wire : Bytes) :
    Delivers max (x.unread ++ wire) (ps.map List.length) (session calls ps x wire) := by
  cases ps with
  | nil =>
    cases calls with
    | nil => exact .nil _ _
    | cons => exact .nil _ _
  | cons p ps =>
    have hstart : (x.toRecv p wire).unread = x.unread ++ wire := by
      rw [Recv.unread, Prefetch.toRecv, hoffset]
      rfl
    rw [← hstart]
    refine delivers_of_begun hok ?_ (.inr hoffset) hps halive
    rw [hoffset]
    exact (hps p List.mem_cons_self).1

/-- A new connection, that prefetches 512 bytes at once. -/
def Prefetch.fresh : Prefetch := { recvMaxPrefetch := 512, recvBuf := List.replicate 512 0 }

theorem Prefetch.fresh_ok : fresh.Ok 512 :=
  ⟨rfl, List.length_replicate, le_rfl, Nat.zero_le _⟩

/-- A call that is interrupted, and one that goes on. -/
theorem delivers_session_fresh :
    Delivers 512 [1, 2, 3] [3]
      (session [[.bytes 1, .interrupted], [.bytes 2]] [[0, 0, 0]] Prefetch.fresh [1, 2, 3]) := by
  have hps : ∀ p ∈ [([0, 0, 0] : Bytes)], 1 ≤ p.length ∧ p.length < 2 ^ 31 := by simp
  have halive : ∀ script ∈ [[Ready.bytes 1, .interrupted], [.bytes 2]],
      ∀ e ∈ script, e.alive = true := by simp [Ready.alive]
  exact delivers_session Prefetch.fresh_ok rfl hps halive [1, 2, 3]

/-! ## Handing the unread input over

`handle_connect_msg` copies from the beginning of `recv_buf`, where the bytes that were read last
are, instead of from `recv_start`. The bytes that are delivered afterwards are the right ones
exactly if the two parts of the buffer are equal. -/

namespace Prefetch

/-- The replace branch of `handle_connect_msg`, for the buffers: what the accepting connection has
prefetched goes to the registered one. -/
def handOver (x existing : Prefetch) : Prefetch :=
  { existing with replacingBuf := x.recvBuf.take (x.recvEnd - x.recvStart).toNat }

/-- `do_replace`, for the buffers. -/
def doReplace (x : Prefetch) : Prefetch :=
  { x with
    recvStart := 0
    stateOffset := 0
    recvBuf := memcpy x.recvBuf 0 x.replacingBuf
    recvEnd := .ofNat x.replacingBuf.length
    replacingBuf := [] }

/-- The replacement delivers the unread input of the accepting connection, and then what comes from the
socket. -/
def HandsOver (max : UInt32) (x existing : Prefetch) : Prop :=
  ∀ (calls : List (List Ready)) (ps : List Bytes) (wire : Bytes),
    (∀ p ∈ ps, 1 ≤ p.length ∧ p.length < 2 ^ 31) →
    (∀ script ∈ calls, ∀ e ∈ script, e.alive = true) →
    Delivers max (x.unread ++ wire) (ps.map List.length)
      (session calls ps (x.handOver existing).doReplace wire)

theorem Ok.length_sub {x : Prefetch} (h : x.Ok max) :
    (x.recvEnd - x.recvStart).toNat = x.unread.length := by
  rw [h.length_unread, UInt32.toNat_sub_of_le _ _ (UInt32.le_iff_toNat_le.mpr h.start_le)]

/-- What is copied is the beginning of the buffer. -/
theorem ok_doReplace {x existing : Prefetch} (h : x.Ok max) (he : existing.Ok max) :
    (x.handOver existing).doReplace.Ok max ∧
      (x.handOver existing).doReplace.unread = x.recvBuf.take x.unread.length := by
  have hle : x.unread.length ≤ max.toNat := by
    have hend := h.end_le
    rw [h.length_unread]
    omega
  have hlen : (x.handOver existing).replacingBuf.length = x.unread.length := by
    rw [handOver, h.length_sub, List.length_take, h.recvBuf_length, Nat.min_eq_left hle]
  have hend : (x.handOver existing).doReplace.recvEnd.toNat = x.unread.length := by
    rw [doReplace, hlen]
    exact UInt32.toNat_ofNat_of_lt' (hle.trans_lt max.toNat_lt)
  have hfit : 0 + (x.handOver existing).replacingBuf.length ≤ existing.recvBuf.length := by
    rw [hlen, he.recvBuf_length]
    omega
  refine ⟨⟨he.max_eq, (length_memcpy hfit).trans he.recvBuf_length, Nat.zero_le _, hend ▸ hle⟩, ?_⟩
  have htake := take_memcpy hfit
  rw [Nat.zero_add, hlen] at htake
  rw [unread, hend]
  apply htake.trans
  rw [List.take_zero, List.nil_append, handOver, h.length_sub]

end Prefetch

/-- The bytes that have been delivered. -/
def delivered (records : List CallRecord) : Bytes :=
  (records.filter fun c ↦ c.answer = .ret 0).flatMap (·.p)

theorem Delivers.isPrefix {stream : Bytes} {lens : List ℕ} {records : List CallRecord}
    (h : Delivers max stream lens records) : delivered records <+: stream := by
  induction h with
  | nil => exact List.nil_prefix
  | @done _ _ _ _ rest hanswer _ _ _ ih =>
    rw [delivered, List.filter_cons_of_pos (by simpa using hanswer), List.flatMap_cons]
    exact (List.prefix_append_right_inj _).mpr ih
  | again hanswer hpos _ _ _ _ _ _ ih =>
    rw [delivered, List.filter_cons_of_neg]
    · exact ih
    · rw [hanswer]
      simpa using hpos.ne'

/-- The first byte of those prefetched is read. -/
theorem readUntil_one {x : Prefetch} (hok : x.Ok max) (hoffset : x.stateOffset = 0) {b : UInt8}
    {bs : Bytes} (hunread : x.unread = b :: bs) (wire : Bytes) :
    ∃ y : ReadState, ReadState.readUntil 1 [] { x with p := [0], wire } = (.ret 0, y) ∧
      y.Ok max ∧ y.stateOffset = 0 ∧ y.unread = bs ∧ y.p = [b] ∧ y.wire = wire := by
  have hstands : ReadState.Stands max 1 { x with p := [0], wire } { wire, buf := b :: bs, part := [] } := by
    refine ⟨hok, rfl, ?_, rfl, hunread.symm, ?_, fun c hc ↦ absurd hc List.not_mem_nil⟩
    · rw [hoffset]
      decide
    · rw [hoffset]
      rfl
  have halive : ∀ e ∈ ([] : List Ready), e.alive = true := fun e he ↦ absurd he List.not_mem_nil
  have hrefines := ReadState.refines_readUntil hstands (.inr rfl) (by decide) halive
  have hlists : Recv.readUntil max.toNat (1 : UInt32).toNat [] { wire, buf := b :: bs, part := [] } =
      (.done [b], { wire, buf := bs, part := [] }) := by
    rw [Recv.readUntil, if_neg (by simp), if_pos ⟨by simp, by simp⟩]
    rfl
  rw [List.map_nil, hlists] at hrefines
  generalize ReadState.readUntil 1 [] { x with p := [0], wire } = out at hrefines ⊢
  cases hrefines with
  | done y _ _ hoky hp hzero hwire hbuf _ _ =>
    exact ⟨y, rfl, hoky, hzero, hbuf.symm, hp, hwire.symm⟩

/-- Single bytes are delivered from the prefetch buffer. -/
theorem delivered_single {x : Prefetch} (hok : x.Ok max) (hoffset : x.stateOffset = 0) (wire : Bytes) :
    delivered (session (List.replicate x.unread.length []) (List.replicate x.unread.length [0]) x wire) =
      x.unread := by
  generalize hunread : x.unread = bs
  induction bs generalizing x with
  | nil => rfl
  | cons b bs ih =>
    obtain ⟨y, hread, hoky, hzero, hbs, hp, hwire⟩ := readUntil_one hok hoffset hunread wire
    rw [List.length_cons, List.replicate_succ, List.replicate_succ, session]
    have hread' : ReadState.readUntil (UInt32.ofNat [(0 : UInt8)].length) [] { x with p := [0], wire } =
        (.ret 0, y) := hread
    rw [hread']
    dsimp only
    rw [if_pos rfl, delivered, List.filter_cons_of_pos (by simp), List.flatMap_cons, hp, hwire]
    exact congrArg (b :: ·) (ih hoky hzero hbs)

theorem Prefetch.HandsOver.eq {x existing : Prefetch} (h : x.Ok max) (he : existing.Ok max)
    (hover : x.HandsOver max existing) :
    x.recvBuf.take (x.recvEnd - x.recvStart).toNat = x.unread := by
  obtain ⟨hok, hunread⟩ := Prefetch.ok_doReplace h he
  have hlen : x.unread.length ≤ x.recvBuf.length := by
    have hend := h.end_le
    rw [h.length_unread, h.recvBuf_length]
    omega
  let n := (x.handOver existing).doReplace.unread.length
  have hps : ∀ p ∈ List.replicate n [(0 : UInt8)], 1 ≤ p.length ∧ p.length < 2 ^ 31 := by
    intro p hp
    rw [List.eq_of_mem_replicate hp]
    decide
  have halive : ∀ script ∈ List.replicate n ([] : List Ready), ∀ e ∈ script, e.alive = true := by
    intro script hs e he
    rw [List.eq_of_mem_replicate hs] at he
    cases he
  have hinit := (hover _ _ [] hps halive).isPrefix
  rw [delivered_single hok rfl, List.append_nil, hunread] at hinit
  rw [h.length_sub]
  apply hinit.eq_of_length
  rw [List.length_take, Nat.min_eq_left hlen]

/-- **The unread input is handed over** exactly if the accepting connection has the same bytes at the
beginning of its prefetch buffer. -/
theorem handsOver_iff {x existing : Prefetch} (h : x.Ok max) (he : existing.Ok max) :
    x.HandsOver max existing ↔ x.recvBuf.take (x.recvEnd - x.recvStart).toNat = x.unread := by
  refine ⟨Prefetch.HandsOver.eq h he, fun heq calls ps wire hps halive ↦ ?_⟩
  obtain ⟨hok, hunread⟩ := Prefetch.ok_doReplace h he
  rw [← heq, h.length_sub, ← hunread]
  exact delivers_session hok rfl hps halive wire

/-- A peer that has sent nothing ahead. -/
theorem handsOver_fresh : Prefetch.fresh.HandsOver 512 Prefetch.fresh :=
  (handsOver_iff Prefetch.fresh_ok Prefetch.fresh_ok).mpr rfl

/-- The first byte is from the handshake, the second was sent ahead. -/
def Prefetch.ahead : Prefetch :=
  { recvMaxPrefetch := 512, recvBuf := 1 :: 2 :: List.replicate 510 0, recvStart := 1, recvEnd := 2 }

/-- The replacement reads the byte of the handshake again, and not the one that was sent ahead. -/
theorem handshake_is_replayed :
    ¬∀ x existing : Prefetch, x.Ok 512 → existing.Ok 512 → x.HandsOver 512 existing := by
  intro h
  have hlen : Prefetch.ahead.recvBuf.length = 512 :=
    congrArg (· + 2) List.length_replicate
  have hok : Prefetch.ahead.Ok 512 := ⟨rfl, hlen, by decide, by decide⟩
  have heq := (h _ _ hok Prefetch.fresh_ok).eq hok Prefetch.fresh_ok
  exact absurd heq (by decide)

end AsyncMessenger
