import Mathlib.Algebra.Group.Prod
import AsyncMessenger.StateMachine

/-!
# What a connection holds of the throttles

The connection that reads a message reserves one unit of the message throttle and the size of the
message in the byte throttle. `releaseThrottle` is what it would give back at any moment, so it is
also what it holds. Every step of a node is balanced: what the connection holds afterwards, plus
what the step gave back or handed to a message object, is what it held before plus what it took.

The state is the only record of what has been reserved: there is no field for it. So a step that
changes the state has to take or to give what the two states differ by, and the paths that leave a
session behind, `fault`, `_stop` and `do_replace`, have to give back before they change it. The
functions are gone through from the inside to the outside, `Balanced` for passes and `Accounts` for
the steps of a node.
-/

namespace AsyncMessenger

/-- What a pass takes from the message throttle and from the byte throttle. -/
def Effect.taken {β : Type} : Effect β → ℕ × ℕ
  | .throttleMessage => (1, 0)
  | .throttleBytes n => (0, n)
  | _ => (0, 0)

/-- The states in which a message is being read with something reserved for it. -/
def State.reading (s : State) : Bool :=
  State.openMessageThrottleMessage.code < s.code && s.code ≤ State.openMessageDispatch.code

/-- Past `STATE_OPEN_MESSAGE_THROTTLE_BYTES`, up to `STATE_OPEN_MESSAGE_DISPATCH`. -/
def State.sized (s : State) : Bool :=
  State.openMessageThrottleBytes.code < s.code && s.code ≤ State.openMessageDispatch.code

theorem State.not_reading_of_mem_successors (s : State) : ∀ s' ∈ s.successors, s'.reading = false := by
  cases s <;> decide

namespace Conn

variable {β : Type} {enc : Frame → List β} {K : Codec} {flags : CrcFlags}

/-- What a received message takes along: from here on its destructor gives it back. -/
def handed (c : Conn β) : Effect β → ℕ × ℕ
  | .deliver _ => c.releaseThrottle
  | .discard _ => c.releaseThrottle
  | _ => (0, 0)

theorem releaseThrottle_congr {c c' : Conn β} (hstate : c'.state = c.state)
    (hpolicy : c'.policy.throttlers = c.policy.throttlers)
    (hheader : c'.currentHeader = c.currentHeader) : c'.releaseThrottle = c.releaseThrottle := by
  simp only [Policy.throttlers, Prod.mk.injEq] at hpolicy
  rw [releaseThrottle, releaseThrottle, hstate, hpolicy.1, hpolicy.2, hheader]

theorem releaseThrottle_core {c c' : Conn β} (h : c'.core = c.core) :
    c'.releaseThrottle = c.releaseThrottle := by
  have hrelease := congrArg releaseThrottle h
  exact hrelease

theorem releaseThrottle_of_not_reading {c : Conn β} (h : c.state.reading = false) :
    c.releaseThrottle = (0, 0) := by
  have hnot : ¬ (State.openMessageThrottleMessage.code < c.state.code ∧
      c.state.code ≤ State.openMessageDispatch.code) := by
    simpa [State.reading] using h
  have hlt : State.openMessageThrottleMessage.code < State.openMessageThrottleBytes.code := by decide
  have hbytes : ¬ (State.openMessageThrottleBytes.code < c.state.code ∧
      c.state.code ≤ State.openMessageDispatch.code ∧ c.policy.throttlerBytes = true) :=
    fun hb ↦ hnot ⟨Nat.lt_trans hlt hb.1, hb.2.1⟩
  have hmessages : ¬ (State.openMessageThrottleMessage.code < c.state.code ∧
      c.state.code ≤ State.openMessageDispatch.code ∧ c.policy.throttlerMessages = true) :=
    fun hm ↦ hnot ⟨hm.1, hm.2.1⟩
  rw [releaseThrottle, if_neg hbytes, if_neg hmessages]

theorem releaseThrottle_of_sized {c : Conn β} (h : c.state.sized = true) :
    c.releaseThrottle = (if c.policy.throttlerMessages then 1 else 0,
      if c.policy.throttlerBytes then c.currentHeader.messageSize else 0) := by
  simp only [State.sized, Bool.and_eq_true, decide_eq_true_eq] at h
  have hlt : State.openMessageThrottleMessage.code < State.openMessageThrottleBytes.code := by decide
  have hlt' := Nat.lt_trans hlt h.1
  simp only [releaseThrottle, h.1, h.2, hlt', true_and]

/-! ## The operations that end a session

Each of them calls `release_throttle` first, in the state that it finds. -/

theorem releaseThrottle_stop (c : Conn β) : c.stop.releaseThrottle = (0, 0) :=
  releaseThrottle_of_not_reading (by rw [state_stop]; rfl)

theorem releaseThrottle_faultRetry (c : Conn β) : c.faultRetry.releaseThrottle = (0, 0) := by
  apply releaseThrottle_of_not_reading
  simp only [faultRetry]
  split_ifs <;> rfl

theorem releaseThrottle_doReplace (c : Conn β) (r : ReplaceInput) :
    (c.doReplace enc r).conn.releaseThrottle = (0, 0) := by
  have hfault (d : Conn β) : d.fault.releaseThrottle = (0, 0) := by
    rw [fault]
    split_ifs with hclosed
    · exact releaseThrottle_of_not_reading (by rw [hclosed]; rfl)
    · exact releaseThrottle_stop d
    · exact releaseThrottle_faultRetry d
  obtain ⟨reply, -, -, ⟨out, h⟩ | ⟨k, b, h⟩⟩ := c.doReplace_cases enc r
  · rw [h]
    exact hfault _
  · rw [h]
    exact releaseThrottle_of_not_reading rfl

/-! ## The passes -/

/-- The effect hands on a message, and only the last state of reading does that, with the sections
that have been read. -/
def Completes (c : Conn β) (effect : Effect β) : Prop :=
  ∀ m, effect = .deliver m ∨ effect = .discard m → c.state = .openMessageDispatch ∧
    m.payloadSize = c.front.length + c.middle.length + c.data.length

/-- Whatever changes hands in a pass is accounted for. -/
structure Balanced (c : Conn β) (o : Outcome β) : Prop where
  sum : o.conn.releaseThrottle + c.handed o.effect = c.releaseThrottle + o.effect.taken
  completes : c.Completes o.effect

theorem completes_of_quiet {c : Conn β} {effect : Effect β} (h : effect.Quiet) :
    c.Completes effect := by
  rintro m (rfl | rfl) <;> exact absurd h id

theorem balanced_of_quiet {c : Conn β} {o : Outcome β} (heffect : o.effect = .none)
    (h : o.conn.releaseThrottle = c.releaseThrottle) : c.Balanced o := by
  refine ⟨?_, completes_of_quiet (by rw [heffect]; trivial)⟩
  rw [heffect, h]
  rfl

theorem balanced_of_not_reading {c : Conn β} {o : Outcome β} (heffect : o.effect.Quiet)
    (h : c.state.reading = false) (h' : o.conn.state.reading = false) : c.Balanced o := by
  have hquiet : c.handed o.effect = (0, 0) ∧ o.effect.taken = (0, 0) := by
    revert heffect
    cases o.effect <;> simp [Effect.Quiet, handed, Effect.taken]
  refine ⟨?_, completes_of_quiet heffect⟩
  rw [releaseThrottle_of_not_reading h, releaseThrottle_of_not_reading h', hquiet.1, hquiet.2]

theorem Goes.balanced {c : Conn β} {p : Bool × Bool} {o : Outcome β} (h : c.Goes p o)
    (hopen : c.state.isOpen = false) : c.Balanced o := by
  have hnot : c.state.reading = false := by
    revert hopen
    cases c.state <;> decide
  apply balanced_of_not_reading h.quiet hnot
  rcases h.state with hs | hs
  · rw [hs, hnot]
  · exact c.state.not_reading_of_mem_successors _ hs

theorem balanced_onRead {c : Conn β} {inp : Input β} {k : Chunk → Outcome β}
    (hk : ∀ chunk, c.Balanced (k chunk)) : c.Balanced (c.onRead inp k) := by
  rw [onRead]
  split
  · exact balanced_of_quiet rfl rfl
  · exact balanced_of_quiet rfl rfl
  · exact hk _

/-- While the sections of a message are read, the reservation stays as it is. -/
theorem balanced_of_sized {c : Conn β} {o : Outcome β} (heffect : o.effect = .none)
    (h : c.state.sized = true) (h' : o.conn.state.sized = true)
    (hpolicy : o.conn.policy = c.policy) (hheader : o.conn.currentHeader = c.currentHeader) :
    c.Balanced o := by
  apply balanced_of_quiet heffect
  rw [releaseThrottle_of_sized h, releaseThrottle_of_sized h', hpolicy, hheader]

theorem not_reading_of_stateOfTag {t : ℕ} {s : State} (h : stateOfTag t = some s) :
    s.reading = false := by
  rw [stateOfTag] at h
  split_ifs at h <;> (rw [Option.some_inj] at h; subst h; rfl)

/-- The message takes over what its connection had reserved. -/
theorem balanced_dispatchMessage {c : Conn β} {inp : Input β} (hs : c.state = .openMessageDispatch) :
    c.Balanced (c.dispatchMessage K flags inp) := by
  have hmessage {m m' : Message} (hm : Message.decodeMessage K flags inp.newId c.currentHeader
      c.currentFooter c.front c.middle c.data = some m) (heq : m = m') :
      c.state = .openMessageDispatch ∧
        m'.payloadSize = c.front.length + c.middle.length + c.data.length := by
    obtain ⟨-, hfront, hmiddle, hdata⟩ := Message.header_of_decodeMessage K flags hm
    exact ⟨hs, by rw [← heq, Message.payloadSize, hfront, hmiddle, hdata]⟩
  have hsum : (0, 0) + c.releaseThrottle = c.releaseThrottle + (0, 0) :=
    (zero_add c.releaseThrottle).trans (add_zero c.releaseThrottle).symm
  rcases dispatchMessage_cases (K := K) c inp with
    ⟨-, h⟩ | ⟨m, hm, -, h⟩ | ⟨m, b, p, flow, hm, -, -, h⟩
  · rw [h]
    exact balanced_of_quiet rfl rfl
  · rw [h]
    refine ⟨?_, fun m' heq ↦ hmessage hm (by simpa using heq)⟩
    rw [releaseThrottle_of_not_reading rfl]
    exact hsum
  · rw [h]
    refine ⟨?_, fun m' heq ↦ hmessage hm (by simpa using heq)⟩
    rw [releaseThrottle_of_not_reading rfl]
    exact hsum

theorem balanced_processOpen {c : Conn β} {inp : Input β} :
    c.Balanced (c.processOpen K flags inp) := by
  have hfailed (d : Conn β) (g : ℕ) (h : d.releaseThrottle = c.releaseThrottle) :
      c.Balanced (d.failed g) := balanced_of_quiet rfl h
  rw [processOpen]
  split <;> rename_i hs
  · -- `STATE_OPEN`
    refine balanced_onRead fun chunk ↦ ?_
    split
    · split
      · rename_i htag
        exact balanced_of_not_reading trivial (by rw [hs]; rfl) (not_reading_of_stateOfTag htag)
      · exact hfailed c _ rfl
    · exact hfailed c _ rfl
  · -- `STATE_OPEN_KEEPALIVE2`
    exact balanced_onRead fun _ ↦ balanced_of_not_reading trivial (by rw [hs]; rfl) rfl
  · -- `STATE_OPEN_KEEPALIVE2_ACK`
    exact balanced_onRead fun _ ↦ balanced_of_not_reading trivial (by rw [hs]; rfl) rfl
  · -- `STATE_OPEN_TAG_ACK`
    refine balanced_onRead fun chunk ↦ ?_
    split
    · exact balanced_of_not_reading trivial (by rw [hs]; rfl) rfl
    · exact hfailed c _ rfl
  · -- `STATE_OPEN_MESSAGE_HEADER`
    refine balanced_onRead fun chunk ↦ ?_
    split
    · rw [gotHeader]
      split_ifs
      · exact hfailed c _ rfl
      · exact balanced_of_not_reading trivial (by rw [hs]; rfl) rfl
    · exact hfailed c _ rfl
  · -- one unit of the message throttle is taken
    constructor
    · simp only [releaseThrottle, goto, hs]
      by_cases hset : c.policy.throttlerMessages = true <;>
        simp [handed, Effect.taken, State.code, State.ctorIdx, hset]
    · intro m hm
      split_ifs at hm <;> simp at hm
  · -- the size of the message is taken, if it is not zero
    constructor
    · simp only [releaseThrottle, goto, hs]
      by_cases hset : c.policy.throttlerBytes = true <;>
        by_cases hzero : c.currentHeader.messageSize = 0 <;>
          simp [handed, Effect.taken, State.code, State.ctorIdx, hset, hzero]
    · intro m hm
      split_ifs at hm <;> simp at hm
  · -- `STATE_OPEN_MESSAGE_READ_FRONT`
    split_ifs
    · exact balanced_of_sized rfl (by rw [hs]; rfl) rfl rfl rfl
    · refine balanced_onRead fun chunk ↦ ?_
      split
      · exact balanced_of_sized rfl (by rw [hs]; rfl) rfl rfl rfl
      · exact hfailed c _ rfl
  · -- `STATE_OPEN_MESSAGE_READ_MIDDLE`
    split_ifs
    · exact balanced_of_sized rfl (by rw [hs]; rfl) rfl rfl rfl
    · refine balanced_onRead fun chunk ↦ ?_
      split
      · exact balanced_of_sized rfl (by rw [hs]; rfl) rfl rfl rfl
      · exact hfailed c _ rfl
  · -- `STATE_OPEN_MESSAGE_READ_DATA_PREPARE`
    exact balanced_of_sized rfl (by rw [hs]; rfl) rfl rfl rfl
  · -- `STATE_OPEN_MESSAGE_READ_DATA`
    split_ifs
    · exact balanced_of_sized rfl (by rw [hs]; rfl) rfl rfl rfl
    · refine balanced_onRead fun chunk ↦ ?_
      split
      · refine balanced_of_sized rfl (by rw [hs]; rfl) ?_ rfl rfl
        rw [gotData, goto]
        dsimp only
        split_ifs <;> rfl
      · exact hfailed c _ rfl
  · -- `STATE_OPEN_MESSAGE_READ_FOOTER`
    refine balanced_onRead fun chunk ↦ ?_
    split
    · rw [gotFooter]
      split_ifs
      · exact hfailed _ _ rfl
      · exact balanced_of_sized rfl (by rw [hs]; rfl) rfl rfl rfl
    · exact hfailed c _ rfl
  · -- `STATE_OPEN_MESSAGE_THROTTLE_DISPATCH_SIZE`
    exact balanced_of_sized rfl (by rw [hs]; rfl) rfl rfl rfl
  · -- `STATE_OPEN_MESSAGE_DISPATCH`
    exact balanced_dispatchMessage hs
  · exact balanced_of_quiet rfl rfl

/-- **Every pass is balanced.** -/
theorem balanced_pass {c : Conn β} {inp : Input β} (h : c.Later) :
    c.Balanced (c.pass K flags enc inp) := by
  by_cases hopen : c.state.isOpen = true
  · rw [pass_of_isOpen hopen]
    exact balanced_processOpen
  · have hclosed : c.state.isOpen = false := by simpa using hopen
    rcases pass_of_not_isOpen h hclosed with hgoes | ⟨hs, -, heq⟩
    · exact hgoes.balanced hclosed
    · rw [heq]
      exact (goes_gotConnectMsg h hs).balanced hclosed

end Conn

namespace Node

variable {β : Type} {enc : Frame → List β} {K : Codec} {flags : CrcFlags}

open Conn

/-! ## The steps of a node -/

/-- What the connection held is kept or given back, and nothing else happens. -/
def Settles (c : Conn β) (res : Result β) : Prop :=
  res.node.conn.releaseThrottle + res.released = c.releaseThrottle ∧ res.effect = .none

theorem settles_of_core {c : Conn β} {n : Node β} {out : Option Fd × List β}
    (h : n.conn.core = c.core) : Settles c { node := n, out } :=
  ⟨by rw [releaseThrottle_core h]; exact add_zero _, rfl⟩

/-- The session ends: everything is given back. -/
theorem settles_of_release {c : Conn β} {n : Node β} {out : Option Fd × List β}
    (h : n.conn.releaseThrottle = (0, 0)) :
    Settles c { node := n, out, released := c.releaseThrottle } :=
  ⟨by rw [h]; exact zero_add _, rfl⟩

theorem Settles.congr {c c' : Conn β} {res : Result β} (h : Settles c res)
    (hcore : c.core = c'.core) : Settles c' res :=
  ⟨h.1.trans (releaseThrottle_core hcore), h.2⟩

theorem settles_fault {c : Conn β} {win : Option (Window β)} {k : Option Caller} :
    Settles c (fault c win k) := by
  rw [fault]
  split_ifs
  · exact settles_of_core (core_eq_of_shell (shell_finish c win k))
  · exact settles_of_core rfl
  · apply settles_of_release
    rw [releaseThrottle_core (core_eq_of_shell (shell_finish ..)), releaseThrottle_faultRetry]

theorem settles_afterWait {c : Conn β} {win : Option (Window β)} {k : Caller} {close : Bool}
    {prev : State} {r : ReplaceInput} : Settles c (afterWait enc c win k close prev r) := by
  rw [afterWait]
  split_ifs
  · apply settles_of_release
    rw [releaseThrottle_core (core_eq_of_shell (shell_again ..)), releaseThrottle_doReplace]
  · exact settles_of_core rfl
  · exact settles_fault

theorem settles_writeFail {c : Conn β} {r : ReplaceInput} : Settles c (writeFail enc c r) := by
  simp only [writeFail]
  split_ifs
  · exact (settles_of_release (c := { c with sending := false })
      (releaseThrottle_doReplace _ r)).congr rfl
  · exact (settles_fault (c := { c with sending := false })).congr rfl

theorem settles_afterWrite {c : Conn β} {pc : WritePc} {left : Option ℕ} {gather : ℕ}
    {r : ReplaceInput} : Settles c (afterWrite enc K flags c pc left gather r) := by
  cases left with
  | none => exact settles_writeFail
  | some left =>
    obtain ⟨n, hn, hshell⟩ := shell_afterWrite enc K flags c pc left gather r
    rw [hn]
    exact settles_of_core (core_eq_of_shell hshell)

theorem settles_returnTrySend {c : Conn β} {owner : Owner} {loc : Loc} {left : Option ℕ}
    {gather : ℕ} {r : ReplaceInput} :
    Settles c (returnTrySend enc K flags c owner loc left gather r) := by
  rw [returnTrySend.eq_def]
  split
  · exact settles_of_core (core_eq_of_shell (shell_finishSend ..))
  · exact settles_afterWrite
  · exact settles_of_core rfl

theorem settles_relock {n : Node β} {w : Window β} {gather : ℕ} {r : ReplaceInput} :
    Settles n.conn (relock enc K flags n w gather r) := by
  simp only [relock]
  split_ifs
  · exact settles_returnTrySend
  · split
    · exact settles_of_core rfl
    · rename_i c hsplice
      split_ifs
      · exact settles_of_core (core_eq_of_shell (shell_splice hsplice))
      · exact settles_returnTrySend.congr ((core_eq_of_shell (shell_setAction c)).trans (core_eq_of_shell (shell_splice hsplice)))

theorem settles_waitSending {n : Node β} {c : Conn β} {k : Caller} {close : Bool} {r : ReplaceInput} :
    Settles c (waitSending enc n c k close r) := by
  rw [waitSending]
  split_ifs
  · exact settles_of_core rfl
  · exact settles_afterWait

theorem settles_handleReplace {n : Node β} {r : ReplaceInput} :
    Settles n.conn (handleReplace enc n r) := by
  simp only [handleReplace]
  split_ifs
  · exact settles_of_release (c := n.conn) (releaseThrottle_doReplace _ r)
  · exact settles_of_core rfl

theorem settles_sendMessage {n : Node β} {m : Message} {concurrent : Bool} {gather : ℕ} :
    Settles n.conn { node := sendMessage enc K flags n m concurrent gather } := by
  simp only [sendMessage]
  split_ifs with _ _ _ _ hstandby
  · exact settles_of_core rfl
  · exact settles_of_core rfl
  · exact settles_of_core rfl
  · exact settles_of_core rfl
  · -- a connection in standby holds nothing, and neither does one that connects
    refine ⟨?_, rfl⟩
    rw [releaseThrottle_of_not_reading (c := n.conn) (by rw [hstandby.1]; rfl),
      releaseThrottle_of_not_reading rfl]
    rfl
  · exact settles_of_core (core_eq_of_shell (shell_startWrite _))

theorem settles_markDisposable {n : Node β} :
    Settles n.conn { node := { n with conn := n.conn.markDisposable } } := by
  have hlossy : ({ n.conn with policy := { n.conn.policy with lossy := true } } :
      Conn β).releaseThrottle = n.conn.releaseThrottle := rfl
  refine ⟨?_, rfl⟩
  simp only [markDisposable]
  split_ifs with hstandby
  · rw [releaseThrottle_stop, releaseThrottle_of_not_reading (c := n.conn) (by rw [hstandby]; rfl)]
    rfl
  · rw [hlossy]
    exact add_zero _

/-- What one step does to the books: what the connection holds afterwards, what was given back and
what a message took along add up to what it held and what it took. -/
structure Accounts (n : Node β) (res : Result β) : Prop where
  sum : res.node.conn.releaseThrottle + res.released + n.conn.handed res.effect =
    n.conn.releaseThrottle + res.effect.taken
  completes : n.conn.Completes res.effect

theorem Settles.accounts {n : Node β} {res : Result β} (h : Settles n.conn res) :
    Accounts n res := by
  refine ⟨?_, completes_of_quiet (by rw [h.2]; trivial)⟩
  rw [h.1, h.2]
  rfl

theorem accounts_processPass {n : Node β} {k : Caller} {inp : Input β} (h : n.conn.Later) :
    Accounts n (processPass enc K flags n k inp) := by
  have hpass : n.conn.Balanced (n.conn.pass K flags enc inp) := balanced_pass h
  have hwait (close : Bool) : Accounts n
      { waitSending enc n (n.conn.pass K flags enc inp).conn k close inp.replace with
        effect := (n.conn.pass K flags enc inp).effect
        gseq := some (n.conn.pass K flags enc inp).gseq } := by
    refine ⟨?_, hpass.completes⟩
    rw [settles_waitSending.1]
    exact hpass.sum
  simp only [processPass]
  split
  · refine ⟨?_, hpass.completes⟩
    rw [releaseThrottle_core (core_eq_of_shell (shell_again ..))]
    exact hpass.sum
  · refine ⟨?_, hpass.completes⟩
    rw [releaseThrottle_core (core_eq_of_shell (shell_finish ..))]
    exact hpass.sum
  · exact Settles.accounts (settles_of_core rfl)
  · exact hwait false
  · exact hwait true

/-- **Every step of a node is balanced.** -/
theorem accounts_step {n : Node β} {e : Event β} {res : Result β} (h : n.conn.Later)
    (hstep : n.step enc K flags e = some res) : Accounts n res := by
  cases (Step.of_step hstep).2 with
  | sendMessage => exact settles_sendMessage.accounts
  | sendKeepaliveClosed => exact Settles.accounts (settles_of_core rfl)
  | sendKeepalive => exact Settles.accounts (settles_of_core (core_eq_of_shell (shell_startWrite _)))
  | sendmsg => exact Settles.accounts (settles_of_core rfl)
  | sendmsgError => exact Settles.accounts (settles_of_core rfl)
  | relock => exact settles_relock.accounts
  | setStopping => exact Settles.accounts (settles_of_core rfl)
  | markDisposable => exact settles_markDisposable.accounts
  | cStop => exact Settles.accounts (settles_of_release (releaseThrottle_stop _))
  | handOver =>
    exact Settles.accounts ⟨(add_zero _).trans (releaseThrottle_congr rfl rfl rfl), rfl⟩
  | handleReplace => exact settles_handleReplace.accounts
  | timer => exact Settles.accounts (settles_of_core rfl)
  | readable => exact Settles.accounts (settles_of_core rfl)
  | pass => exact accounts_processPass h
  | wake => exact settles_afterWait.accounts
  | leave =>
    refine (settles_of_release ?_).accounts
    rw [releaseThrottle_core (core_eq_of_shell (shell_finish ..)), releaseThrottle_stop]
  | handleWrite => exact Settles.accounts (settles_of_core (core_eq_of_shell (shell_handleWrite ..)))

end Node

end AsyncMessenger
