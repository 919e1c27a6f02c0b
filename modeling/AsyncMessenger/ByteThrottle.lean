import Mathlib.Algebra.BigOperators.Group.List.Basic
import Mathlib.Data.List.Perm.Basic
import AsyncMessenger.Reservation
import AsyncMessenger.StateBuffer

/-!
# The byte throttle

Every connection of a messenger whose policies set `throttler_bytes`, the messages it has received
and the throttle they share. A message being read has its size reserved; the message object takes
the reservation over, and its destructor gives back what `dispatch_throttle_size` says. But
`pre_dispatch` sets that field to zero, so what a dispatched message held is never given back.

## The books

`Conserved` says that the count of the throttle is what is held: the payload of every message that
is alive, and the size of every message that is being read. The books of a messenger (`Books`) say
the same up to the units that have been lost so far, so that a step which loses something can be
booked like any other (`books_step`). Conservation holds along a run exactly if no step loses
anything, which is the condition: no message with a payload is destroyed after `pre_dispatch` has
seen it.

## What has to be known of a connection

That what a connection gives back is what it has reserved needs two invariants. Its policy has the
throttle from the reservation on, although a policy is replaced when a connect message is answered
(`Throttled`): before that a fault closes the connection. And the sections that have been read have
the lengths the header says (`Sections`), so that the payload of the whole message is the size that
was reserved for it, in 32 bits.
-/

namespace AsyncMessenger

/-! ## The throttle

The blocking `get` is `none` while it has to wait. The queue of the waiters is a matter of a module
of its own. -/

/-- `Throttle`, without its queue of waiters. -/
structure Throttle where
  count : ℕ := 0
  max : ℕ
  deriving DecidableEq, Repr

namespace Throttle

/-- `_should_wait`. -/
def shouldWait (t : Throttle) (c : ℕ) : Prop :=
  t.max ≠ 0 ∧ ((c ≤ t.max ∧ t.max < t.count + c) ∨ (t.max ≤ c ∧ t.max < t.count))

instance (t : Throttle) (c : ℕ) : Decidable (t.shouldWait c) := inferInstanceAs (Decidable (_ ∧ _))

/-- `get`; `none` while it has to wait. -/
def get (t : Throttle) (c : ℕ) : Option Throttle :=
  if t.max = 0 then some t
  else if t.shouldWait c then none
  else some { t with count := t.count + c }

/-- `put`; `none` is the failed assertion that the count does not go negative. -/
def put (t : Throttle) (c : ℕ) : Option Throttle :=
  if t.max = 0 then some t
  else if t.count < c then none
  else some { t with count := t.count - c }

theorem get_eq_some {t t' : Throttle} {c : ℕ} (hmax : 0 < t.max) (h : t.get c = some t') :
    t' = { t with count := t.count + c } := by
  rw [get, if_neg (by omega), Option.ite_none_left_eq_some, Option.some_inj] at h
  exact h.2.symm

theorem put_eq_some {t t' : Throttle} {c : ℕ} (hmax : 0 < t.max) (h : t.put c = some t') :
    c ≤ t.count ∧ t' = { t with count := t.count - c } := by
  rw [put, if_neg (by omega), Option.ite_none_left_eq_some, Option.some_inj] at h
  exact ⟨by omega, h.2.symm⟩

end Throttle

variable {β : Type} {enc : Frame → List β} {K : Codec} {flags : CrcFlags}

namespace Conn

/-! ## The policy of a session

An accepted connection begins with the default policy, which has no throttle, and gets the one of
its peer's type when the connect message is answered. In between nothing is reserved, and a fault
stops the connection instead of letting it keep its policy. -/

/-- An accepted connection that has not seen a connect message yet. Its policy is still the default
one, so that any fault closes it. -/
structure Fresh (c : Conn β) : Prop where
  lossy : c.policy.lossy = true
  opening : c.opening = none
  afterSend : c.stateAfterSend = .none ∨ c.stateAfterSend = .acceptingWaitBannerAddr
  state : c.state ∈ [State.accepting, .waitSend, .acceptingWaitBannerAddr, .acceptingWaitConnectMsg,
    .acceptingWaitConnectMsgAuth, .closed]

/-- The policy sets the throttles as required, or no session can open before it is replaced by one that
does. -/
def Sets (q : Bool × Bool → Prop) (c : Conn β) : Prop := q c.policy.throttlers ∨ c.Fresh

/-- The policy has a byte throttle, or no session can open before it is replaced by one that has. -/
def Throttled (c : Conn β) : Prop := c.policy.throttlerBytes = true ∨ c.Fresh

theorem Fresh.congr {c c' : Conn β} (h : c.Fresh) (hpolicy : c'.policy.lossy = c.policy.lossy)
    (hstore : c'.store = c.store) (hstate : c'.state ∈ [State.accepting, .waitSend,
      .acceptingWaitBannerAddr, .acceptingWaitConnectMsg, .acceptingWaitConnectMsgAuth, .closed]) :
    c'.Fresh := by
  simp only [store, Prod.mk.injEq] at hstore
  exact ⟨hpolicy ▸ h.lossy, hstore.2 ▸ h.opening, hstore.1 ▸ h.afterSend, hstate⟩

/-- A fault closes such a connection. -/
theorem Fresh.faultStops {c : Conn β} (h : c.Fresh) : c.faultStops = true := by
  have hconnecting : c.state.isConnecting = false := by
    have hs := h.state
    revert hs
    cases c.state <;> decide
  rw [Conn.faultStops, h.lossy, hconnecting]
  rfl

theorem fresh_stop {c : Conn β} (h : c.Fresh) : c.stop.Fresh :=
  h.congr (by rw [policy_stop]) (store_stop c) (by rw [state_stop]; simp)

theorem Fresh.fault_state {c : Conn β} (h : c.Fresh) : c.fault.state = .closed := by
  rw [fault]
  split_ifs with hs hstops
  · exact hs
  · exact state_stop c
  · exact absurd h.faultStops hstops

variable {q : Bool × Bool → Prop}

theorem sets_doReplace {c : Conn β} {r : ReplaceInput} (h : c.Sets q) :
    (c.doReplace enc r).conn.Sets q := by
  have hpolicy : (c.doReplace enc r).conn.policy = c.policy := (doReplace_frame c r).2
  have hstore : (c.doReplace enc r).conn.store = c.store := (doReplace_frame c r).1
  obtain ⟨htake, hkeep, hstate⟩ := c.takeOver_frame r.random
  rcases h with hset | hfresh
  · exact Or.inl (by rwa [hpolicy])
  · refine Or.inr (hfresh.congr (by rw [hpolicy]) hstore ?_)
    have hfresh' : (c.takeOver r.random).Fresh :=
      hfresh.congr (by rw [hkeep]) htake (by rw [hstate]; simp)
    obtain ⟨reply, -, -, ⟨out, heq⟩ | ⟨k, b, heq⟩⟩ := c.doReplace_cases enc r
    · -- the answer cannot be sent, and the fault closes the connection
      have hfault : ({ c.takeOver r.random with outcomingBl := out, replacing := 0 } : Conn β).Fresh :=
        hfresh'.congr rfl rfl hfresh'.state
      have hclosed : (c.doReplace enc r).conn.state = .closed := by
        rw [heq]
        exact hfault.fault_state
      rw [hclosed]
      simp
    · have hwait : (c.doReplace enc r).conn.state = .acceptingWaitConnectMsg := by
        rw [heq]
        rfl
      rw [hwait]
      simp

theorem sets_rule : CoreRule enc (Sets (β := β) q) where
  congr c c' hcore h := by
    have hpolicy : c'.policy = c.policy := (congrArg Conn.policy hcore).symm
    have hstate : c'.state = c.state := (congrArg Conn.state hcore).symm
    rcases h with hset | hfresh
    · exact Or.inl (hpolicy ▸ hset)
    · exact Or.inr (hfresh.congr (by rw [hpolicy]) (congrArg store hcore).symm
        (hstate ▸ hfresh.state))
  connect c hs h := by
    refine Or.inl (h.resolve_right fun hfresh ↦ ?_)
    have hmem := hfresh.state
    rw [hs] at hmem
    exact absurd hmem (by decide)
  lossy c h := h.imp id fun hfresh ↦ hfresh.congr hfresh.lossy.symm rfl hfresh.state
  handOver c _ _ _ _ _ _ h := h.imp id fun hfresh ↦ hfresh.congr rfl rfl hfresh.state
  stop c h := h.imp (fun hset ↦ by rwa [policy_stop]) fresh_stop
  faultRetry c _ hstops h := by
    apply Or.inl
    rw [(faultRetry_frame c).2]
    refine h.resolve_right fun hfresh ↦ ?_
    rw [hfresh.faultStops] at hstops
    exact absurd hstops (by simp)
  doReplace c r _ h := sets_doReplace h

theorem throttled_rule : CoreRule enc (Throttled (β := β)) := sets_rule (q := fun t ↦ t.2 = true)

theorem Fresh.trySend {c : Conn β} (h : c.Fresh) (bl : List β) (kernel : Option ℕ) :
    (c.trySend bl kernel).conn.Fresh := by
  obtain ⟨hstate, hstore, hpolicy⟩ := c.trySend_frame bl kernel
  exact h.congr (by rw [hpolicy]) hstore (hstate ▸ h.state)

theorem Fresh.onRead {c : Conn β} {inp : Input β} {k : Chunk → Outcome β} (h : c.Fresh)
    (hk : ∀ chunk, (k chunk).conn.Sets q) : (c.onRead inp k).conn.Sets q := by
  rw [Conn.onRead]
  split
  · exact Or.inr h
  · exact Or.inr h
  · exact hk _

/-- The first passes of an accepted connection, up to the answer to its connect message. -/
theorem Fresh.pass {c : Conn β} {inp : Input β} (hlater : c.Later) (h : c.Fresh)
    (hnew : q inp.newPolicy.throttlers) : (c.pass K flags enc inp).conn.Sets q := by
  have hpass : c.pass K flags enc inp = c.processState K flags enc inp := by
    have hlow : ¬ (State.connectingSendConnectMsg.code ≤ c.state.code ∧
        c.state.code ≤ State.connectingReady.code) := by
      have hs := h.state
      revert hs
      cases c.state <;> decide
    simp only [Conn.pass, hlow, and_false, if_false]
  have hgoto {s : State} {g : ℕ} (hmem : s ∈ [State.accepting, .waitSend, .acceptingWaitBannerAddr,
      .acceptingWaitConnectMsg, .acceptingWaitConnectMsgAuth, .closed]) :
      (c.goto s g).conn.Sets q := Or.inr (h.congr rfl rfl hmem)
  rw [hpass]
  by_cases hclosed : c.state = .closed
  · simp only [processState, hclosed]
    exact Or.inr h
  · have hconn : c.processState K flags enc inp = c.processConnection enc inp := by
      refine processState_eq ?_ ?_ <;>
        (have hs := h.state; revert hs hclosed; cases c.state <;> decide)
    rw [hconn]
    have hs := h.state
    simp only [List.mem_cons, List.not_mem_nil, or_false, hclosed] at hs
    rcases hs with hs | hs | hs | hs | hs <;> simp only [processConnection, hs]
    · -- the banner goes out, at once or later
      split_ifs
      · have hsent := h.trySend ([Frame.banner, .addrs].flatMap enc) inp.kernel
        simp only [sendThen]
        split
        · exact Or.inr hsent
        · exact Or.inr (hsent.congr rfl rfl (by simp))
        · exact Or.inr ⟨hsent.lossy, hsent.opening, Or.inr rfl, by simp⟩
      · exact Or.inr h
    · rw [flushed]
      split_ifs with hout hnone
      · exact Or.inr (h.congr rfl rfl h.state)
      · exact Or.inr h
      · exact Or.inr ⟨h.lossy, h.opening, Or.inl rfl, by
          simp [goto, h.afterSend.resolve_left hnone]⟩
    · refine h.onRead fun chunk ↦ ?_
      split
      · split_ifs
        · exact hgoto (by simp)
        · exact Or.inr h
      · exact Or.inr h
    · refine h.onRead fun chunk ↦ ?_
      split
      · exact Or.inr (h.congr rfl rfl (by simp [goto]))
      · exact Or.inr h
    · -- the connect message is answered under the policy for its sender
      have hanswer : (c.gotConnectMsg enc inp).conn.Sets q :=
        Or.inl (by rwa [(goes_gotConnectMsg hlater hs).throttlers])
      simp only [h.opening]
      split_ifs
      · exact hanswer
      · exact h.onRead fun _ ↦ hanswer

theorem sets_pass {c : Conn β} {inp : Input β} (hlater : c.Later) (h : c.Sets q)
    (hnew : q inp.newPolicy.throttlers) : (c.pass K flags enc inp).conn.Sets q := by
  rcases h with hset | hfresh
  · apply Or.inl
    by_cases hopen : c.state.isOpen = true
    · rw [pass_of_isOpen hopen]
      have hreads : c.Reads (c.processOpen K flags inp).conn := reads_processOpen hopen
      have hpolicy := congrArg Conn.policy hreads.1
      exact (congrArg (fun p : Policy ↦ q p.throttlers) hpolicy).mpr hset
    · rcases pass_of_not_isOpen hlater (by simpa using hopen) with hgoes | ⟨hs, -, heq⟩
      · rwa [hgoes.throttlers]
      · rw [heq]
        rwa [(goes_gotConnectMsg hlater hs).throttlers]
  · exact hfresh.pass hlater hnew

theorem throttled_pass {c : Conn β} {inp : Input β} (hlater : c.Later) (h : c.Throttled)
    (hnew : inp.newPolicy.throttlerBytes = true) : (c.pass K flags enc inp).conn.Throttled :=
  sets_pass (q := fun t ↦ t.2 = true) hlater h hnew

/-! ## The sections of the message being read

A property for each of the states between the header and the end of the message. The front and the
middle are read in one piece, the data as it comes. -/

end Conn

/-- The bytes of the three sections a header announces. -/
def MsgHeader.payloadSize (h : MsgHeader) : ℕ := h.frontLen + h.middleLen + h.dataLen

/-- The states between a header and the end of its message. -/
def State.sectioned (s : State) : Bool :=
  State.openMessageHeader.code < s.code && s.code ≤ State.openMessageDispatch.code

theorem State.not_sectioned_of_mem_successors (s : State) :
    ∀ s' ∈ s.successors, s'.sectioned = false := by
  cases s <;> decide

namespace Conn

/-- How far the sections of the current message have been read, state by state; the header announces
fewer than `2 ^ 32` bytes. -/
def Sections (c : Conn β) : Prop :=
  match c.state with
  | .openMessageThrottleMessage | .openMessageThrottleBytes | .openMessageReadFront =>
    c.currentHeader.payloadSize < 2 ^ 32 ∧ c.front = [] ∧ c.middle = [] ∧ c.data = []
  | .openMessageReadMiddle =>
    c.currentHeader.payloadSize < 2 ^ 32 ∧ c.front.length = c.currentHeader.frontLen ∧
      c.middle = [] ∧ c.data = []
  | .openMessageReadDataPrepare =>
    c.currentHeader.payloadSize < 2 ^ 32 ∧ c.front.length = c.currentHeader.frontLen ∧
      c.middle.length = c.currentHeader.middleLen ∧ c.data = []
  | .openMessageReadData =>
    c.currentHeader.payloadSize < 2 ^ 32 ∧ c.front.length = c.currentHeader.frontLen ∧
      c.middle.length = c.currentHeader.middleLen ∧
      c.data.length + c.msgLeft = c.currentHeader.dataLen
  | .openMessageReadFooter | .openMessageThrottleDispatchSize | .openMessageDispatch =>
    c.currentHeader.payloadSize < 2 ^ 32 ∧ c.front.length = c.currentHeader.frontLen ∧
      c.middle.length = c.currentHeader.middleLen ∧ c.data.length = c.currentHeader.dataLen
  | _ => True

theorem sections_of_state {c : Conn β} (h : c.state.sectioned = false) : c.Sections := by
  revert h
  rw [Sections]
  cases c.state <;> intro _ <;> trivial

theorem sections_rule : CoreRule enc (Sections (β := β)) where
  congr c c' hcore h := by
    have hsections := congrArg Sections hcore
    exact hsections.mp h
  connect _ _ _ := sections_of_state rfl
  lossy _ h := h
  handOver _ _ _ _ _ _ _ h := h
  stop c _ := sections_of_state (by rw [state_stop]; rfl)
  faultRetry c _ _ _ := by
    apply sections_of_state
    simp only [faultRetry]
    split_ifs <;> rfl
  doReplace c r _ _ := by
    have hfault (d : Conn β) (hd : d.state = .acceptingWaitConnectMsg) :
        d.fault.state.sectioned = false := by
      rw [fault]
      split_ifs
      · rw [hd]
        rfl
      · rw [state_stop]
        rfl
      · simp only [faultRetry]
        split_ifs <;> rfl
    apply sections_of_state
    obtain ⟨reply, -, -, ⟨out, heq⟩ | ⟨k, b, heq⟩⟩ := c.doReplace_cases enc r
    · rw [heq]
      exact hfault _ (c.takeOver_frame r.random).2.2
    · rw [heq]
      rfl

/-- The front and the middle section are read in one piece. -/
theorem length_of_readBytes {c : Conn β} {arrived bs : Bytes} {t : Target} {len : ℕ}
    (hs : c.state = .openMessageReadFront ∨ c.state = .openMessageReadMiddle)
    (hcall : c.readCall = some (t, len)) (h : (c.readBytes arrived).1 = .done (.bytes bs)) :
    bs.length = len := by
  have hdata : c.state ≠ .openMessageReadData := by
    rcases hs with hs | hs <;> rw [hs] <;> decide
  have hchunk : c.chunkOf (arrived.take len) = .bytes (arrived.take len) := by
    rcases hs with hs | hs <;> rw [chunkOf, hs]
  simp only [readBytes, hcall, hdata, if_false] at h
  by_cases hlen : arrived.length < len
  · rw [if_pos hlen] at h
    exact absurd h (by simp)
  · rw [if_neg hlen, hchunk, Read.done.injEq, Chunk.bytes.injEq] at h
    rw [← h, List.length_take]
    omega

/-- The data section is read as it comes, but not beyond its end. -/
theorem length_le_of_readBytes {c : Conn β} {arrived bs : Bytes}
    (hs : c.state = .openMessageReadData) (h : (c.readBytes arrived).1 = .done (.bytes bs)) :
    bs.length ≤ c.msgLeft := by
  rw [readBytes, readCall, hs] at h
  dsimp only at h
  by_cases hleft : c.msgLeft = 0
  · rw [if_pos hleft] at h
    exact absurd h (by simp)
  · rw [if_neg hleft] at h
    simp only [if_true] at h
    by_cases harrived : arrived = []
    · rw [if_pos harrived] at h
      exact absurd h (by simp)
    · rw [if_neg harrived, Read.done.injEq, Chunk.bytes.injEq] at h
      rw [← h, List.length_take]
      omega

/-- A pass that reads finds what `read_until` delivers, and a header that announces fewer than
`2 ^ 32` bytes. -/
structure ReadsWell (c : Conn β) (inp : Input β) : Prop where
  stream : ∀ chunk, inp.read = .done chunk → ∃ arrived, (c.readBytes arrived).1 = .done chunk
  header : c.state = .openMessageHeader → ∀ h, inp.read = .done (.header h) →
    h.payloadSize < 2 ^ 32

theorem sections_onRead {c : Conn β} {inp : Input β} {k : Chunk → Outcome β} (h : c.Sections)
    (hk : ∀ chunk, inp.read = .done chunk → (k chunk).conn.Sections) :
    (c.onRead inp k).conn.Sections := by
  rw [onRead]
  split
  · exact h
  · exact h
  · exact hk _ ‹_›

theorem sections_processOpen {c : Conn β} {inp : Input β} (h : c.Sections)
    (hread : c.ReadsWell inp) : (c.processOpen K flags inp).conn.Sections := by
  rw [processOpen]
  split <;> rename_i hs
  · -- `STATE_OPEN`
    refine sections_onRead h fun chunk _ ↦ ?_
    split
    · split
      · rename_i s htag
        apply sections_of_state
        rw [stateOfTag] at htag
        split_ifs at htag <;> (rw [Option.some_inj] at htag; subst htag; rfl)
      · exact h
    · exact h
  · -- `STATE_OPEN_KEEPALIVE2`
    exact sections_onRead h fun _ _ ↦ sections_of_state rfl
  · -- `STATE_OPEN_KEEPALIVE2_ACK`
    exact sections_onRead h fun _ _ ↦ sections_of_state rfl
  · -- `STATE_OPEN_TAG_ACK`
    refine sections_onRead h fun chunk _ ↦ ?_
    split
    · exact sections_of_state rfl
    · exact h
  · -- `STATE_OPEN_MESSAGE_HEADER`
    refine sections_onRead h fun chunk hchunk ↦ ?_
    split
    · rw [gotHeader]
      split_ifs
      · exact h
      · exact ⟨hread.header hs _ hchunk, rfl, rfl, rfl⟩
    · exact h
  · -- `STATE_OPEN_MESSAGE_THROTTLE_MESSAGE`
    simp only [Sections, hs] at h
    exact h
  · -- `STATE_OPEN_MESSAGE_THROTTLE_BYTES`
    simp only [Sections, hs] at h
    exact h
  · -- `STATE_OPEN_MESSAGE_READ_FRONT`
    have h' := h
    simp only [Sections, hs] at h
    split_ifs with hzero
    · exact ⟨h.1, by rw [goto, h.2.1, hzero]; rfl, h.2.2⟩
    · refine sections_onRead h' fun chunk hchunk ↦ ?_
      split
      · obtain ⟨arrived, harrived⟩ := hread.stream _ hchunk
        have hcall : c.readCall = some (.section, c.currentHeader.frontLen) := by
          simp [readCall, hs, hzero]
        have hlen := length_of_readBytes (Or.inl hs) hcall harrived
        exact ⟨h.1, hlen, h.2.2⟩
      · exact h'
  · -- `STATE_OPEN_MESSAGE_READ_MIDDLE`
    have h' := h
    simp only [Sections, hs] at h
    split_ifs with hzero
    · exact ⟨h.1, h.2.1, by rw [goto, h.2.2.1, hzero]; rfl, h.2.2.2⟩
    · refine sections_onRead h' fun chunk hchunk ↦ ?_
      split
      · obtain ⟨arrived, harrived⟩ := hread.stream _ hchunk
        have hcall : c.readCall = some (.section, c.currentHeader.middleLen) := by
          simp [readCall, hs, hzero]
        have hlen := length_of_readBytes (Or.inr hs) hcall harrived
        exact ⟨h.1, h.2.1, hlen, h.2.2.2⟩
      · exact h'
  · -- `STATE_OPEN_MESSAGE_READ_DATA_PREPARE`
    simp only [Sections, hs] at h
    refine ⟨h.1, h.2.1, h.2.2.1, ?_⟩
    rw [goto, h.2.2.2]
    exact Nat.zero_add _
  · -- `STATE_OPEN_MESSAGE_READ_DATA`
    have h' := h
    simp only [Sections, hs] at h
    split_ifs with hzero
    · exact ⟨h.1, h.2.1, h.2.2.1, by rw [goto]; dsimp only; omega⟩
    · refine sections_onRead h' fun chunk hchunk ↦ ?_
      split
      · rename_i bs
        obtain ⟨arrived, harrived⟩ := hread.stream _ hchunk
        have hlen := length_le_of_readBytes hs harrived
        have hsum : (c.data ++ bs).length + (c.msgLeft - bs.length) = c.currentHeader.dataLen := by
          rw [List.length_append]
          omega
        by_cases hdone : c.msgLeft - bs.length = 0
        · rw [gotData, if_pos hdone]
          rw [hdone, Nat.add_zero] at hsum
          exact ⟨h.1, h.2.1, h.2.2.1, hsum⟩
        · rw [gotData, if_neg hdone]
          exact ⟨h.1, h.2.1, h.2.2.1, hsum⟩
      · exact h'
  · -- `STATE_OPEN_MESSAGE_READ_FOOTER`
    have h' := h
    simp only [Sections, hs] at h
    refine sections_onRead h' fun chunk _ ↦ ?_
    split
    · rw [gotFooter]
      split_ifs
      · simp only [Sections, failed, hs]
        exact h
      · exact h
    · exact h'
  · -- `STATE_OPEN_MESSAGE_THROTTLE_DISPATCH_SIZE`
    simp only [Sections, hs] at h
    exact h
  · -- `STATE_OPEN_MESSAGE_DISPATCH`
    rcases dispatchMessage_cases (K := K) c inp with
      ⟨-, heq⟩ | ⟨m, -, -, heq⟩ | ⟨m, b, p, flow, -, -, -, heq⟩
    · rw [heq]
      exact h
    · rw [heq]
      exact sections_of_state rfl
    · rw [heq]
      exact sections_of_state rfl
  · exact h

theorem sections_pass {c : Conn β} {inp : Input β} (hlater : c.Later) (h : c.Sections)
    (hread : c.ReadsWell inp) : (c.pass K flags enc inp).conn.Sections := by
  by_cases hopen : c.state.isOpen = true
  · rw [pass_of_isOpen hopen]
    exact sections_processOpen h hread
  · have hnot : c.state.sectioned = false := by
      revert hopen
      cases c.state <;> decide
    have hgoes {p : Bool × Bool} {o : Outcome β} (ho : c.Goes p o) : o.conn.Sections := by
      apply sections_of_state
      rcases ho.state with hs | hs
      · rw [hs, hnot]
      · exact c.state.not_sectioned_of_mem_successors _ hs
    rcases pass_of_not_isOpen hlater (by simpa using hopen) with hpass | ⟨hs, -, heq⟩
    · exact hgoes hpass
    · rw [heq]
      exact hgoes (goes_gotConnectMsg hlater hs)

end Conn

namespace Conn

/-- The size reserved for the message being read: past `STATE_OPEN_MESSAGE_THROTTLE_BYTES`, up to
`STATE_OPEN_MESSAGE_DISPATCH`. -/
def reserved (c : Conn β) : ℕ := if c.state.sized then c.currentHeader.payloadSize else 0

theorem throttlerBytes_of_sized {c : Conn β} (h : c.Throttled) (hs : c.state.sized = true) :
    c.policy.throttlerBytes = true := by
  refine h.resolve_right fun hfresh ↦ ?_
  have hmem := hfresh.state
  revert hmem hs
  cases c.state <;> decide

theorem payloadSize_lt_of_sized {c : Conn β} (h : c.Sections) (hs : c.state.sized = true) :
    c.currentHeader.payloadSize < 2 ^ 32 := by
  revert h hs
  rw [Sections]
  cases c.state <;> simp +contextual [State.sized, State.code, State.ctorIdx]

/-- The connection holds what it has reserved: no 32-bit sum has wrapped around. -/
theorem releaseThrottle_eq_reserved {c : Conn β} (ht : c.Throttled) (hs : c.Sections) :
    c.releaseThrottle.2 = c.reserved := by
  rw [reserved]
  split_ifs with hsized
  · rw [releaseThrottle_of_sized hsized, if_pos (throttlerBytes_of_sized ht hsized)]
    exact Nat.mod_eq_of_lt (payloadSize_lt_of_sized hs hsized)
  · have hnot : ¬ (State.openMessageThrottleBytes.code < c.state.code ∧
        c.state.code ≤ State.openMessageDispatch.code ∧ c.policy.throttlerBytes = true) := by
      simp only [State.sized, Bool.and_eq_true, decide_eq_true_eq] at hsized
      exact fun h ↦ hsized ⟨h.1, h.2.1⟩
    rw [releaseThrottle, if_neg hnot]

/-- A whole message has the size that was reserved for it. -/
theorem reserved_of_dispatch {c : Conn β} (hs : c.state = .openMessageDispatch) (h : c.Sections) :
    c.reserved = c.front.length + c.middle.length + c.data.length ∧
      c.reserved = c.currentHeader.messageSize := by
  have hsized : c.state.sized = true := by rw [hs]; rfl
  have hlt := payloadSize_lt_of_sized h hsized
  rw [reserved, if_pos hsized]
  refine ⟨?_, (Nat.mod_eq_of_lt hlt).symm⟩
  simp only [Sections, hs] at h
  rw [MsgHeader.payloadSize, h.2.1, h.2.2.1, h.2.2.2]

end Conn

/-! ## The messenger

The ledger has the connections, the throttle and the received messages that are alive. A step of a
connection is settled with the throttle as the code does it: `get` in the state for it,
`release_throttle` in `_stop` and `fault`, and the destructor of each message. -/

section Sums

variable {α : Type} {l : List α} {i : ℕ} {a : α}

theorem sum_map_set (h : l[i]? = some a) (f : α → ℕ) (b : α) :
    ((l.set i b).map f).sum + f a = (l.map f).sum + f b := by
  obtain ⟨hi, rfl⟩ := List.getElem?_eq_some_iff.mp h
  rw [((List.set_perm_cons_eraseIdx hi b).map f).sum_eq,
    ← ((List.getElem_cons_eraseIdx_perm hi).map f).sum_eq, List.map_cons, List.map_cons,
    List.sum_cons, List.sum_cons]
  omega

theorem sum_map_eraseIdx (h : l[i]? = some a) (f : α → ℕ) :
    ((l.eraseIdx i).map f).sum + f a = (l.map f).sum := by
  obtain ⟨hi, rfl⟩ := List.getElem?_eq_some_iff.mp h
  rw [← ((List.getElem_cons_eraseIdx_perm hi).map f).sum_eq, List.map_cons, List.sum_cons]
  omega

end Sums

/-- A received message object that is still alive. -/
structure Received where
  /-- The bytes of its three sections. -/
  payload : ℕ
  /-- Its `byte_throttler` is set. -/
  throttled : Bool
  /-- Its `dispatch_throttle_size`. -/
  size : ℕ
  /-- It waits in the dispatch queue: `pre_dispatch` has not seen it. -/
  queued : Bool
  deriving DecidableEq, Repr

/-- `pre_dispatch`: the reservation is cleared, in case the message is queued again. -/
def Received.preDispatch (r : Received) : Received := { r with size := 0, queued := false }

/-- The connections of a messenger, its byte throttle and the messages it has received. -/
structure Ledger (β : Type) where
  nodes : List (Node β) := []
  throttle : Throttle
  alive : List Received := []

/-- What happens to a messenger. -/
inductive LedgerEvent (β : Type)
  | connect (policy : Policy)
  | accept (fd : Fd)
  /-- A step of one connection, with the bytes that have arrived on its socket; `fast` says that a
  message it delivers goes to `fast_dispatch`. -/
  | node (i : ℕ) (e : Node.Recv β) (fast : Bool)
  /-- The dispatch thread takes a message from its queue. -/
  | dispatch (j : ℕ)
  /-- The last reference to a message goes away: `discard_queue` and a dispatch thread that is shutting
  down do this to a queued message, the application to a dispatched one. -/
  | destroy (j : ℕ)

namespace Ledger

open Node

/-- `Message::~Message`. -/
def destructor (t : Throttle) (r : Received) : Option Throttle :=
  if r.throttled then t.put r.size else some t

/-- The message object of a connection that has read a whole message. -/
def receivedFrom (c : Conn β) (m : Message) : Received :=
  { payload := m.payloadSize
    throttled := c.policy.throttlerBytes
    size := c.currentHeader.messageSize
    queued := true }

/-- What a step of a connection does to the throttle and to the messages. -/
def settle (L : Ledger β) (c : Conn β) (fast : Bool) : Effect β → Option (Throttle × List Received)
  | .throttleBytes n => (L.throttle.get n).map fun t ↦ (t, L.alive)
  | .discard m => (destructor L.throttle (receivedFrom c m)).map fun t ↦ (t, L.alive)
  | .deliver m =>
    some (L.throttle,
      (if fast then (receivedFrom c m).preDispatch else receivedFrom c m) :: L.alive)
  | _ => some (L.throttle, L.alive)

/-- One step of the messenger. -/
def step (enc : Frame → List β) (K : Codec) (flags : CrcFlags) (L : Ledger β) :
    LedgerEvent β → Option (Ledger β)
  | .connect policy => some { L with nodes := outgoing policy :: L.nodes }
  | .accept fd => some { L with nodes := accepted fd :: L.nodes }
  | .node i e fast =>
    L.nodes[i]?.bind fun n ↦
      (n.step enc K flags (receive n.conn e.2 e.1)).bind fun res ↦
        (settle L n.conn fast res.effect).bind fun s ↦
          (s.1.put res.released.2).map fun t ↦
            { nodes := L.nodes.set i res.node, throttle := t, alive := s.2 }
  | .dispatch j =>
    L.alive[j]?.bind fun r ↦
      if r.queued then some { L with alive := L.alive.set j r.preDispatch } else none
  | .destroy j =>
    L.alive[j]?.bind fun r ↦
      (destructor L.throttle r).map fun t ↦ { L with throttle := t, alive := L.alive.eraseIdx j }

/-- What the throttle has to account for: the payload of every message alive, and the size of every
message being read. -/
def held (L : Ledger β) : ℕ :=
  (L.alive.map Received.payload).sum + (L.nodes.map fun n ↦ n.conn.reserved).sum

/-- The count of the throttle is what is held. -/
def Conserved (L : Ledger β) : Prop := L.throttle.count = L.held

instance (L : Ledger β) : Decidable L.Conserved := inferInstanceAs (Decidable (_ = _))

/-- Every policy of the messenger sets `throttler_bytes`, and no message announces `2 ^ 32` bytes or
more. -/
def Admissible (L : Ledger β) : LedgerEvent β → Prop
  | .connect policy => policy.throttlerBytes = true
  | .node i e _ => ∀ n, L.nodes[i]? = some n →
    (∀ inp, e.1 = .pass inp → inp.newPolicy.throttlerBytes = true) ∧
    (n.conn.state = .openMessageHeader → MsgHeader.layout.sum ≤ e.2.length →
      (MsgHeader.ofBytes (e.2.take MsgHeader.layout.sum)).payloadSize < 2 ^ 32)
  | _ => True

/-- No message with a payload is destroyed after `pre_dispatch` has seen it. -/
def KeepsReservation (L : Ledger β) : LedgerEvent β → Prop
  | .destroy j => ∀ r, L.alive[j]? = some r → r.queued = true ∨ r.payload = 0
  | _ => True

/-- What a step loses: the payload of a dispatched message it destroys. -/
def lost (L : Ledger β) : LedgerEvent β → ℕ
  | .destroy j => match L.alive[j]? with
    | none => 0
    | some r => if r.queued then 0 else r.payload
  | _ => 0

theorem lost_eq_zero_iff {L : Ledger β} {e : LedgerEvent β} :
    L.lost e = 0 ↔ L.KeepsReservation e := by
  cases e with
  | destroy j =>
    rw [lost, KeepsReservation]
    cases L.alive[j]? with
    | none => simp
    | some r => by_cases hq : r.queued = true <;> simp [hq]
  | _ => simp [lost, KeepsReservation]

/-- The books of a messenger that has lost `k` units so far. -/
structure Books (k : ℕ) (L : Ledger β) : Prop where
  max : 0 < L.throttle.max
  nodes : ∀ n ∈ L.nodes, n.conn.Later ∧ n.conn.Throttled ∧ n.conn.Sections
  alive : ∀ r ∈ L.alive, r.throttled = true ∧ r.size = if r.queued then r.payload else 0
  count : L.throttle.count = L.held + k

/-- What arrives on the socket of an admissible step reads well. -/
theorem readsWell_of_receive {c : Conn β} {e : Node.Recv β} {inp : Input β}
    (hpass : receive c e.2 e.1 = .pass inp)
    (hheader : c.state = .openMessageHeader → MsgHeader.layout.sum ≤ e.2.length →
      (MsgHeader.ofBytes (e.2.take MsgHeader.layout.sum)).payloadSize < 2 ^ 32) :
    c.ReadsWell inp := by
  obtain ⟨-, -, -, hread⟩ := receive_eq_pass hpass
  have hdone {chunk : Chunk} (hchunk : inp.read = .done chunk) :
      (c.readBytes e.2).1 = .done chunk := by
    rcases hread with herror | hread
    · rw [herror] at hchunk
      exact absurd hchunk (by simp)
    · rw [← hread, hchunk]
  refine ⟨fun chunk hchunk ↦ ⟨e.2, hdone hchunk⟩, fun hs h hchunk ↦ ?_⟩
  have hbytes := hdone hchunk
  rw [Conn.readBytes, Conn.readCall, hs] at hbytes
  simp only [reduceCtorEq, if_false] at hbytes
  by_cases hlen : e.2.length < MsgHeader.layout.sum
  · rw [if_pos hlen] at hbytes
    exact absurd hbytes (by simp)
  · rw [if_neg hlen, Conn.chunkOf, hs, Read.done.injEq, Chunk.header.injEq] at hbytes
    exact hbytes ▸ hheader hs (Nat.not_lt.mp hlen)

/-- The invariants of a connection survive an admissible step. -/
theorem node_step {L : Ledger β} {i : ℕ} {e : Node.Recv β} {fast : Bool} {n : Node β} {res : Result β}
    (hn : L.nodes[i]? = some n) (hadm : L.Admissible (.node i e fast))
    (h : n.conn.Later ∧ n.conn.Throttled ∧ n.conn.Sections)
    (hstep : n.step enc K flags (receive n.conn e.2 e.1) = some res) :
    res.node.conn.Later ∧ res.node.conn.Throttled ∧ res.node.conn.Sections := by
  obtain ⟨hpolicy, hheader⟩ := hadm n hn
  obtain ⟨hlater, hthrottled, hsections⟩ := h
  have hnext : n.next enc K flags (receive n.conn e.2 e.1) = some res.node := by
    rw [next, hstep]
    rfl
  refine ⟨later_next hlater hnext,
    next_core Conn.throttled_rule hthrottled (fun inp _ hpass _ ↦ ?_) hnext,
    next_core Conn.sections_rule hsections (fun inp _ hpass _ ↦ ?_) hnext⟩
  · obtain ⟨inp₀, he, hnew, -⟩ := receive_eq_pass hpass
    exact Conn.throttled_pass hlater hthrottled (hnew ▸ hpolicy inp₀ he)
  · exact Conn.sections_pass hlater hsections (readsWell_of_receive hpass hheader)

/-- A message that is handed on has the size that was reserved. -/
theorem reserved_of_message {n : Node β} {res : Result β} {m : Message} (h : Accounts n res)
    (hthrottled : n.conn.Throttled) (hsections : n.conn.Sections)
    (hm : res.effect = .deliver m ∨ res.effect = .discard m) :
    n.conn.policy.throttlerBytes = true ∧ m.payloadSize = n.conn.reserved ∧
      n.conn.currentHeader.messageSize = n.conn.reserved ∧
      (n.conn.handed res.effect).2 = n.conn.reserved ∧ res.effect.taken.2 = 0 := by
  obtain ⟨hs, hsize⟩ := h.completes m hm
  obtain ⟨hread, hheader⟩ := Conn.reserved_of_dispatch hs hsections
  refine ⟨Conn.throttlerBytes_of_sized hthrottled (by rw [hs]; rfl), by rw [hsize, hread],
    hheader.symm, ?_, ?_⟩
  · rw [← Conn.releaseThrottle_eq_reserved hthrottled hsections]
    rcases hm with hm | hm <;> rw [hm] <;> rfl
  · rcases hm with hm | hm <;> rw [hm] <;> rfl

/-- The step of a connection, in the books: `t` is the throttle before `release_throttle`. -/
theorem settle_spec {L : Ledger β} {n : Node β} {res : Result β} {fast : Bool} {k : ℕ}
    {t : Throttle} {alive : List Received} (hbooks : L.Books k)
    (h : n.conn.Later ∧ n.conn.Throttled ∧ n.conn.Sections) (hacc : Accounts n res)
    (h' : res.node.conn.Throttled ∧ res.node.conn.Sections)
    (hsettle : settle L n.conn fast res.effect = some (t, alive)) :
    t.max = L.throttle.max ∧
      (∀ r ∈ alive, r.throttled = true ∧ r.size = if r.queued then r.payload else 0) ∧
      t.count + (L.alive.map Received.payload).sum + n.conn.reserved =
        L.throttle.count + (alive.map Received.payload).sum + res.node.conn.reserved +
          res.released.2 := by
  obtain ⟨-, hthrottled, hsections⟩ := h
  have hsum : res.node.conn.reserved + res.released.2 + (n.conn.handed res.effect).2 =
      n.conn.reserved + res.effect.taken.2 := by
    rw [← Conn.releaseThrottle_eq_reserved hthrottled hsections,
      ← Conn.releaseThrottle_eq_reserved h'.1 h'.2]
    exact congrArg Prod.snd hacc.sum
  -- an effect that charges nothing and hands nothing on
  have hsame (htaken : res.effect.taken.2 = 0) (hhanded : (n.conn.handed res.effect).2 = 0)
      (heq : (L.throttle, L.alive) = (t, alive)) :
      t.max = L.throttle.max ∧
        (∀ r ∈ alive, r.throttled = true ∧ r.size = if r.queued then r.payload else 0) ∧
        t.count + (L.alive.map Received.payload).sum + n.conn.reserved =
          L.throttle.count + (alive.map Received.payload).sum + res.node.conn.reserved +
            res.released.2 := by
    rw [Prod.mk.injEq] at heq
    obtain ⟨rfl, rfl⟩ := heq
    exact ⟨rfl, hbooks.alive, by omega⟩
  cases heffect : res.effect with
  | throttleBytes size =>
    rw [heffect] at hsettle hsum
    rw [settle, Option.map_eq_some_iff] at hsettle
    obtain ⟨t', hget, heq⟩ := hsettle
    rw [Prod.mk.injEq] at heq
    obtain ⟨rfl, rfl⟩ := heq
    rw [Throttle.get_eq_some hbooks.max hget]
    refine ⟨rfl, hbooks.alive, ?_⟩
    have htaken : (n.conn.handed (.throttleBytes size)).2 = 0 ∧
        (Effect.taken (.throttleBytes size : Effect β)).2 = size := ⟨rfl, rfl⟩
    dsimp only
    omega
  | discard m =>
    obtain ⟨hset, -, hsize, hhanded, htaken⟩ := reserved_of_message hacc hthrottled hsections (Or.inr heffect)
    rw [heffect, settle, Option.map_eq_some_iff] at hsettle
    obtain ⟨t', hput, heq⟩ := hsettle
    rw [Prod.mk.injEq] at heq
    obtain ⟨rfl, rfl⟩ := heq
    rw [destructor, receivedFrom, if_pos hset, hsize] at hput
    obtain ⟨hle, rfl⟩ := Throttle.put_eq_some hbooks.max hput
    refine ⟨rfl, hbooks.alive, ?_⟩
    dsimp only at hle ⊢
    omega
  | deliver m =>
    obtain ⟨hset, hpayload, hsize, hhanded, htaken⟩ := reserved_of_message hacc hthrottled hsections (Or.inl heffect)
    rw [heffect, settle, Option.some_inj, Prod.mk.injEq] at hsettle
    obtain ⟨rfl, rfl⟩ := hsettle
    refine ⟨rfl, ?_, ?_⟩
    · intro r hr
      rcases List.mem_cons.mp hr with rfl | hr
      · cases fast with
        | true => exact ⟨hset, rfl⟩
        | false => exact ⟨hset, hsize.trans hpayload.symm⟩
      · exact hbooks.alive r hr
    · have hx : Received.payload (if fast = true then (receivedFrom n.conn m).preDispatch
          else receivedFrom n.conn m) = n.conn.reserved := by
        cases fast <;> exact hpayload
      rw [List.map_cons, List.sum_cons, hx]
      omega
  | none =>
    rw [heffect] at hsame hsettle
    exact hsame rfl rfl (Option.some_inj.mp hsettle)
  | register =>
    rw [heffect] at hsame hsettle
    exact hsame rfl rfl (Option.some_inj.mp hsettle)
  | replace existing =>
    rw [heffect] at hsame hsettle
    exact hsame rfl rfl (Option.some_inj.mp hsettle)
  | keepalive =>
    rw [heffect] at hsame hsettle
    exact hsame rfl rfl (Option.some_inj.mp hsettle)
  | throttleMessage =>
    rw [heffect] at hsame hsettle
    exact hsame rfl rfl (Option.some_inj.mp hsettle)

/-- A new connection has nothing reserved. -/
theorem Books.add {k : ℕ} {L : Ledger β} {n : Node β} (h : L.Books k)
    (hn : n.conn.Later ∧ n.conn.Throttled ∧ n.conn.Sections) (hnone : n.conn.reserved = 0) :
    Books k { L with nodes := n :: L.nodes } := by
  refine ⟨h.max, ?_, h.alive, ?_⟩
  · intro n' hn'
    rcases List.mem_cons.mp hn' with rfl | hn'
    · exact hn
    · exact h.nodes n' hn'
  · rw [held, List.map_cons, List.sum_cons, hnone, Nat.zero_add]
    exact h.count

theorem Books.node {k i : ℕ} {L L' : Ledger β} {e : Event β × List UInt8} {fast : Bool} (h : L.Books k)
    (hadm : L.Admissible (.node i e fast)) (hstep : L.step enc K flags (.node i e fast) = some L') :
    L'.Books (k + L.lost (.node i e fast)) := by
  rw [step, Option.bind_eq_some_iff] at hstep
  obtain ⟨n, hn, hstep⟩ := hstep
  rw [Option.bind_eq_some_iff] at hstep
  obtain ⟨res, hres, hstep⟩ := hstep
  rw [Option.bind_eq_some_iff] at hstep
  obtain ⟨⟨t, alive⟩, hsettle, hstep⟩ := hstep
  rw [Option.map_eq_some_iff] at hstep
  obtain ⟨t', hput, rfl⟩ := hstep
  have hinv := h.nodes n (List.mem_of_getElem? hn)
  have hinv' := node_step hn hadm hinv hres
  obtain ⟨hmax, halive, hcount⟩ :=
    settle_spec h hinv (accounts_step hinv.1 hres) hinv'.2 hsettle
  obtain ⟨hle, rfl⟩ := Throttle.put_eq_some (hmax ▸ h.max) hput
  refine ⟨hmax ▸ h.max, ?_, halive, ?_⟩
  · intro n' hn'
    rcases List.mem_or_eq_of_mem_set hn' with hmem | rfl
    · exact h.nodes n' hmem
    · exact hinv'
  · have hset := sum_map_set hn (fun n ↦ n.conn.reserved) res.node
    have hbefore := h.count
    simp only [held, lost] at hbefore ⊢
    dsimp only at hset hle
    omega

/-- `pre_dispatch` leaves the payload of a message as it is. -/
theorem Books.dispatch {k j : ℕ} {L L' : Ledger β} (h : L.Books k)
    (hstep : L.step enc K flags (.dispatch j) = some L') : L'.Books (k + L.lost (.dispatch j)) := by
  rw [step, Option.bind_eq_some_iff] at hstep
  obtain ⟨r, hr, hstep⟩ := hstep
  rw [Option.ite_none_right_eq_some, Option.some_inj] at hstep
  obtain ⟨hqueued, rfl⟩ := hstep
  refine ⟨h.max, h.nodes, ?_, ?_⟩
  · intro r' hr'
    rcases List.mem_or_eq_of_mem_set hr' with hmem | rfl
    · exact h.alive r' hmem
    · exact ⟨(h.alive r (List.mem_of_getElem? hr)).1, rfl⟩
  · have hset := sum_map_set hr Received.payload r.preDispatch
    have hpayload : r.preDispatch.payload = r.payload := rfl
    have hbefore := h.count
    simp only [held, lost] at hbefore ⊢
    omega

/-- What a message does not give back when it is destroyed is lost. -/
theorem Books.destroy {k j : ℕ} {L L' : Ledger β} (h : L.Books k)
    (hstep : L.step enc K flags (.destroy j) = some L') : L'.Books (k + L.lost (.destroy j)) := by
  rw [step, Option.bind_eq_some_iff] at hstep
  obtain ⟨r, hr, hstep⟩ := hstep
  rw [Option.map_eq_some_iff] at hstep
  obtain ⟨t, hput, rfl⟩ := hstep
  obtain ⟨hset, hsize⟩ := h.alive r (List.mem_of_getElem? hr)
  rw [destructor, if_pos hset, hsize] at hput
  obtain ⟨hle, rfl⟩ := Throttle.put_eq_some h.max hput
  refine ⟨h.max, h.nodes, fun r' hr' ↦ h.alive r' (List.mem_of_mem_eraseIdx hr'), ?_⟩
  have hsum := sum_map_eraseIdx hr Received.payload
  have hbefore := h.count
  simp only [held, lost, hr] at hbefore ⊢
  by_cases hq : r.queued = true
  · rw [if_pos hq] at hle ⊢
    rw [if_pos hq]
    omega
  · rw [if_neg hq] at hle ⊢
    rw [if_neg hq]
    omega

/-- One step changes the books by what it loses. -/
theorem books_step {k : ℕ} {L L' : Ledger β} {e : LedgerEvent β} (h : L.Books k)
    (hadm : L.Admissible e) (hstep : L.step enc K flags e = some L') :
    L'.Books (k + L.lost e) := by
  cases e with
  | connect policy =>
    rw [step, Option.some_inj] at hstep
    subst hstep
    exact h.add ⟨later_outgoing _, Or.inl hadm, Conn.sections_of_state rfl⟩ rfl
  | accept fd =>
    rw [step, Option.some_inj] at hstep
    subst hstep
    exact h.add ⟨later_accepted _, Or.inr ⟨rfl, rfl, Or.inl rfl, by simp [accepted]⟩,
      Conn.sections_of_state rfl⟩ rfl
  | node i e fast => exact h.node hadm hstep
  | dispatch j => exact h.dispatch hstep
  | destroy j => exact h.destroy hstep

/-! ## Runs -/

/-- A messenger without connections, whose byte throttle has a positive maximum. -/
def Initial (L : Ledger β) : Prop :=
  L.nodes = [] ∧ L.alive = [] ∧ L.throttle.count = 0 ∧ 0 < L.throttle.max

theorem books_of_initial {L : Ledger β} (h : L.Initial) : L.Books 0 := by
  obtain ⟨hnodes, halive, hcount, hmax⟩ := h
  refine ⟨hmax, ?_, ?_, ?_⟩
  · rw [hnodes]
    simp
  · rw [halive]
    simp
  · rw [hcount, held, hnodes, halive]
    rfl

/-- Conservation along a run from balanced books: it holds at every point exactly if no step loses
anything. -/
theorem conserved_iff_of_books {es : List (LedgerEvent β)} : ∀ {L L' : Ledger β}, L.Books 0 →
    Run.Meets (step enc K flags) Admissible L es → Run.exec (step enc K flags) L es = some L' →
    ((∀ fs, fs <+: es → ∀ M, Run.exec (step enc K flags) L fs = some M → M.Conserved) ↔
      Run.Meets (step enc K flags) KeepsReservation L es) := by
  induction es with
  | nil =>
    intro L L' hbooks _ _
    refine ⟨fun _ ↦ trivial, fun _ fs hfs M hM ↦ ?_⟩
    rw [List.prefix_nil.mp hfs, Run.exec_nil, Option.some_inj] at hM
    exact hM ▸ hbooks.count
  | cons e es ih =>
    intro L L' hbooks hadm hrun
    rw [Run.exec_cons, Option.bind_eq_some_iff] at hrun
    obtain ⟨L₁, hstep, hrest⟩ := hrun
    have hbooks₁ := books_step hbooks hadm.1 hstep
    rw [Nat.zero_add] at hbooks₁
    constructor
    · intro hall
      -- conservation right after the step says that it loses nothing
      have hone : L₁.Conserved := by
        refine hall [e] ⟨es, rfl⟩ L₁ ?_
        rw [Run.exec_cons, hstep]
        rfl
      have hzero : L.lost e = 0 := by
        have hcount := hbooks₁.count
        rw [Conserved] at hone
        omega
      rw [hzero] at hbooks₁
      refine Run.Meets.cons (lost_eq_zero_iff.mp hzero) hstep ?_
      refine (ih hbooks₁ (hadm.2 L₁ hstep) hrest).mp fun fs hfs M hM ↦ ?_
      refine hall (e :: fs) (List.cons_prefix_cons.mpr ⟨rfl, hfs⟩) M ?_
      rw [Run.exec_cons, hstep]
      exact hM
    · intro hkeeps fs hfs M hM
      rw [lost_eq_zero_iff.mpr hkeeps.1] at hbooks₁
      cases fs with
      | nil =>
        rw [Run.exec_nil, Option.some_inj] at hM
        exact hM ▸ hbooks.count
      | cons f fs =>
        obtain ⟨rfl, htail⟩ := List.cons_prefix_cons.mp hfs
        rw [Run.exec_cons, hstep, Option.bind_some] at hM
        exact (ih hbooks₁ (hadm.2 L₁ hstep) hrest).mpr (hkeeps.2 L₁ hstep) fs htail M hM

/-- **Byte-throttle conservation.** Along every run of a messenger whose policies set
`throttler_bytes`, with messages of fewer than `2 ^ 32` bytes: the throttle holds exactly the payload
of the received messages alive and the size of the messages being read, in every state of the run, if
and only if no step of it destroys a message with a payload that has been dispatched. -/
theorem throttle_conserved_iff {L L' : Ledger β} {es : List (LedgerEvent β)} (hinit : L.Initial)
    (hadm : Run.Meets (step enc K flags) Admissible L es)
    (hrun : Run.exec (step enc K flags) L es = some L') :
    (∀ fs, fs <+: es → ∀ M, Run.exec (step enc K flags) L fs = some M → M.Conserved) ↔
      Run.Meets (step enc K flags) KeepsReservation L es :=
  conserved_iff_of_books (books_of_initial hinit) hadm hrun

/-- The header of a message with one byte of payload. -/
def oneByte : MsgHeader := { seq := 1, frontLen := 1 }

/-- A connection is accepted, a peer connects and sends a message with one byte of payload, and the
message is queued for dispatch. -/
def oneByteArrives : List (LedgerEvent Frame) :=
  let policy : Policy := { Policy.statefulServer 0 0 with throttlerBytes := true }
  let pass (inp : Input Frame) (arrived : Bytes) : LedgerEvent Frame :=
    .node 0 (.pass { inp with newPolicy := policy }, arrived) false
  [.accept ⟨0, .acc⟩,
    .node 0 (.process true, []) false,
    pass { kernel := some 2 } [],
    pass {} (banner ++ List.replicate sizeofEntityAddr 0),
    pass {} (MsgConnect.bytes {}),
    pass {} [],
    pass {} [],
    pass { kernel := some 1 } [],
    pass {} [],
    pass {} [7],
    pass {} oneByte.bytes,
    pass {} [],
    pass {} [],
    pass {} [42],
    pass {} [],
    pass {} [],
    pass {} [],
    pass {} (MsgFooter.bytes { flags := MsgFooter.complete }),
    pass {} [],
    pass {} []]

/-- The messenger of the runs below. -/
def smallThrottle : Ledger Frame := { throttle := { max := 100 } }

theorem admissible_oneByteArrives : ∀ e ∈ oneByteArrives, ∀ L : Ledger Frame, L.Admissible e := by
  intro e he L
  simp only [oneByteArrives, List.mem_cons, List.not_mem_nil, or_false] at he
  have hnode {inp : Input Frame} {arrived : Bytes}
      (hpolicy : inp.newPolicy.throttlerBytes = true)
      (hsmall : MsgHeader.layout.sum ≤ arrived.length →
        (MsgHeader.ofBytes (arrived.take MsgHeader.layout.sum)).payloadSize < 2 ^ 32) :
      L.Admissible (.node 0 (.pass inp, arrived) false) := by
    refine fun n _ ↦ ⟨fun inp' heq ↦ ?_, fun _ ↦ hsmall⟩
    rw [Event.pass.injEq] at heq
    exact heq ▸ hpolicy
  rcases he with rfl | rfl | he
  · trivial
  · exact fun n _ ↦ ⟨fun inp heq ↦ by simp at heq, fun _ hlen ↦ absurd hlen (by decide)⟩
  · rcases he with rfl | rfl | rfl | rfl | rfl | rfl | rfl | rfl | rfl | rfl | rfl | rfl | rfl |
      rfl | rfl | rfl | rfl | rfl <;> exact hnode rfl (by decide +kernel)

/-- The one-byte message arrives and is dispatched, and the throttle is right all along. -/
theorem throttle_conserved_until_destroyed :
    ∃ L, Run.exec (step (fun f ↦ [f]) Codec.trivial ⟨true, true⟩) smallThrottle
        (oneByteArrives ++ [.dispatch 0]) = some L ∧
      ∀ fs, fs <+: oneByteArrives ++ [.dispatch 0] → ∀ M,
        Run.exec (step (fun f ↦ [f]) Codec.trivial ⟨true, true⟩) smallThrottle fs = some M →
          M.Conserved := by
  have hsome : (Run.exec (step (fun f ↦ [f]) Codec.trivial ⟨true, true⟩) smallThrottle
      (oneByteArrives ++ [.dispatch 0])).isSome = true := by decide +kernel
  obtain ⟨L, hL⟩ := Option.isSome_iff_exists.mp hsome
  have hadm : Run.Meets (step (fun f ↦ [f]) Codec.trivial ⟨true, true⟩) Admissible smallThrottle
      (oneByteArrives ++ [.dispatch 0]) := by
    refine Run.Meets.of_forall (fun e he M ↦ ?_) _
    rcases List.mem_append.mp he with he | he
    · exact admissible_oneByteArrives e he M
    · rw [List.mem_singleton.mp he]
      trivial
  have hkeeps : Run.Meets (step (fun f ↦ [f]) Codec.trivial ⟨true, true⟩) KeepsReservation
      smallThrottle (oneByteArrives ++ [.dispatch 0]) := by
    refine Run.Meets.of_forall (fun e he M ↦ ?_) _
    simp only [oneByteArrives, List.cons_append, List.nil_append, List.mem_cons, List.not_mem_nil,
      or_false] at he
    rcases he with rfl | rfl | rfl | rfl | rfl | rfl | rfl | rfl | rfl | rfl | rfl | rfl | rfl |
      rfl | rfl | rfl | rfl | rfl | rfl | rfl | rfl <;> trivial
  exact ⟨L, hL, (throttle_conserved_iff ⟨rfl, rfl, rfl, by decide⟩ hadm hL).mpr hkeeps⟩

/-- The dispatched message is destroyed: nothing is alive and nothing is being read, and the throttle
still counts its byte. -/
theorem dispatched_byte_never_released :
    Run.Meets (step (fun f ↦ [f]) Codec.trivial ⟨true, true⟩) Admissible smallThrottle
        (oneByteArrives ++ [.dispatch 0, .destroy 0]) ∧
      ∃ L, Run.exec (step (fun f ↦ [f]) Codec.trivial ⟨true, true⟩) smallThrottle
          (oneByteArrives ++ [.dispatch 0, .destroy 0]) = some L ∧
        L.alive = [] ∧ (L.nodes.map fun n ↦ n.conn.reserved) = [0] ∧ L.throttle.count = 1 ∧
        ¬ L.Conserved := by
  refine ⟨Run.Meets.of_forall (fun e he M ↦ ?_) _, ?_⟩
  · rcases List.mem_append.mp he with he | he
    · exact admissible_oneByteArrives e he M
    · simp only [List.mem_cons, List.not_mem_nil, or_false] at he
      rcases he with rfl | rfl <;> trivial
  · have hend : (Run.exec (step (fun f ↦ [f]) Codec.trivial ⟨true, true⟩) smallThrottle
        (oneByteArrives ++ [.dispatch 0, .destroy 0])).map (fun L ↦
          (L.alive, L.nodes.map fun n ↦ n.conn.reserved, L.throttle.count)) = some ([], [0], 1) := by
      decide +kernel
    obtain ⟨L, hL, hvalues⟩ := Option.map_eq_some_iff.mp hend
    simp only [Prod.mk.injEq] at hvalues
    obtain ⟨halive, hnodes, hcount⟩ := hvalues
    refine ⟨L, hL, halive, hnodes, hcount, fun hcons ↦ ?_⟩
    rw [Conserved, held, halive, hnodes, hcount] at hcons
    exact absurd hcons (by decide)

end Ledger

end AsyncMessenger
