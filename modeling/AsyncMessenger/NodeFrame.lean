import AsyncMessenger.Node
import AsyncMessenger.PassFrame

/-!
# What a step can do to a connection

Most steps of a node only move output around and set flags and watchers. `Conn.core` erases those
fields; `CoreRule` lists the few operations that change the rest, and `next_core` says once that a
property of the core kept by these operations, and by the passes of `do_process`, is kept by every
step.

The other half is about the shell of a connection, the fields that decide what it is for others: its
state, its descriptor, its numbers. Writing, waking and setting watchers leave it alone. Together
the two save every later invariant the walk through all the places that a thread can be at.
-/

namespace AsyncMessenger

namespace Conn

variable {β : Type}

/-- The connection without its output, its thread flags and its watchers. -/
def core (c : Conn β) : Conn β :=
  { c with
    q := {}
    outcomingBl := []
    inSeqAcked := 0
    keepalive := false
    keepaliveAck := false
    sending := false
    wantSend := false
    handleWriteDelayed := false
    evRead := false
    evWrite := false
    evProcess := false
    evReplace := false
    stopping := false
    queueReset := false }

/-- The connection without its output, its send flags and the watchers of its socket. -/
def shell (c : Conn β) : Conn β :=
  { c with
    q := {}
    outcomingBl := []
    inSeqAcked := 0
    keepalive := false
    keepaliveAck := false
    sending := false
    wantSend := false
    handleWriteDelayed := false
    evRead := false
    evWrite := false
    evProcess := false }

theorem core_eq_of_shell {c c' : Conn β} (h : c.shell = c'.shell) : c.core = c'.core := by
  have hcore : c.shell.core = c'.shell.core := congrArg core h
  exact hcore

theorem kickWrite_eq (c : Conn β) : ∃ b, c.kickWrite = { c with evWrite := b } := by
  rw [kickWrite]
  split_ifs
  · exact ⟨_, startWrite_eq c⟩
  · exact ⟨c.evWrite, rfl⟩

@[simp] theorem shell_startWrite (c : Conn β) : c.startWrite.shell = c.shell := by
  rw [startWrite_eq]
  rfl

@[simp] theorem shell_setAction (c : Conn β) : c.setAction.shell = c.shell := by
  rw [setAction_eq]
  rfl

@[simp] theorem shell_kickWrite (c : Conn β) : c.kickWrite.shell = c.shell := by
  obtain ⟨b, hb⟩ := c.kickWrite_eq
  rw [hb]
  rfl

theorem shell_sendKeepaliveOrAck (enc : Frame → List β) (c : Conn β) (f : Frame) :
    (c.sendKeepaliveOrAck enc f).shell = c.shell := by
  rw [sendKeepaliveOrAck, shell_setAction]
  rfl

@[simp] theorem shell_sendKeepalive (enc : Frame → List β) (c : Conn β) :
    (c.sendKeepalive enc).shell = c.shell := by
  rw [sendKeepalive]
  split_ifs
  · exact c.shell_sendKeepaliveOrAck enc _
  · rfl

@[simp] theorem shell_sendKeepaliveAck (enc : Frame → List β) (c : Conn β) :
    (c.sendKeepaliveAck enc).shell = c.shell := by
  rw [sendKeepaliveAck]
  split_ifs
  · exact c.shell_sendKeepaliveOrAck enc _
  · rfl

/-- A property of the core, and the operations that may break it. -/
structure CoreRule (enc : Frame → List β) (I : Conn β → Prop) : Prop where
  congr : ∀ c c' : Conn β, c.core = c'.core → I c → I c'
  connect : ∀ c : Conn β, c.state = .standby → I c → I c.connect
  lossy : ∀ c : Conn β, I c → I { c with policy := { c.policy with lossy := true } }
  handOver : ∀ (c : Conn β) sd m auth reset fromPeer, ¬ c.busy → I c →
    I (c.markReplacing sd m auth reset fromPeer)
  stop : ∀ c : Conn β, I c → I c.stop
  faultRetry : ∀ c : Conn β, c.state ≠ .closed → c.faultStops = false → I c → I c.faultRetry
  doReplace : ∀ (c : Conn β) r, c.replacing = 1 → I c → I (c.doReplace enc r).conn

/-- The states a connection is in after `_connect`, `fault`, `_stop` and `do_replace`. -/
def parted : List State := [.connecting, .standby, .closed, .acceptingWaitConnectMsg]

theorem faultRetry_mem_parted (c : Conn β) : c.faultRetry.state ∈ parted := by
  simp only [faultRetry]
  split_ifs <;> simp [parted]

theorem fault_mem_parted (c : Conn β) : c.fault.state ∈ parted := by
  rw [fault]
  split_ifs with hclosed
  · rw [hclosed]
    decide
  · rw [state_stop]
    decide
  · exact faultRetry_mem_parted c

theorem doReplace_mem_parted (enc : Frame → List β) (c : Conn β) (r : ReplaceInput) :
    (c.doReplace enc r).conn.state ∈ parted := by
  obtain ⟨reply, -, -, ⟨out, h⟩ | ⟨k, b, h⟩⟩ := c.doReplace_cases enc r
  · rw [h]
    exact fault_mem_parted { c.takeOver r.random with outcomingBl := out, replacing := 0 }
  · rw [h]
    simp [parted, clearAuthorizerReply]

/-- A property that says nothing about connections in a parted state. -/
theorem CoreRule.of_parted {enc : Frame → List β} {I : Conn β → Prop}
    (congr : ∀ c c' : Conn β, c.core = c'.core → I c → I c')
    (lossy : ∀ c : Conn β, I c → I { c with policy := { c.policy with lossy := true } })
    (handOver : ∀ (c : Conn β) sd m auth reset fromPeer, ¬ c.busy → I c →
      I (c.markReplacing sd m auth reset fromPeer))
    (hparted : ∀ c : Conn β, c.state ∈ parted → I c) : CoreRule enc I where
  congr := congr
  connect c _ _ := hparted c.connect (by simp [Conn.connect, parted])
  lossy := lossy
  handOver := handOver
  stop c _ := hparted c.stop (by rw [state_stop]; decide)
  faultRetry c _ _ _ := hparted _ c.faultRetry_mem_parted
  doReplace c r _ _ := hparted _ (c.doReplace_mem_parted enc r)

end Conn

namespace Node

variable {β : Type} {enc : Frame → List β} {K : Codec} {flags : CrcFlags} {I : Conn β → Prop}

open Conn

theorem loc_finish {c : Conn β} {win : Option (Window β)} {k : Option Caller} :
    (finish c win k).loc = .idle := by
  rcases k with _ | _ | _ <;> rfl

/-! ## What leaves the shell alone -/

@[simp] theorem shell_finish (c : Conn β) (win : Option (Window β)) (k : Option Caller) :
    (finish c win k).conn.shell = c.shell := by
  rcases k with _ | _ | _
  · rfl
  · exact shell_kickWrite c
  · exact shell_kickWrite { c with sending := false }

@[simp] theorem shell_again (c : Conn β) (win : Option (Window β)) (prev : State) (k : Caller) :
    (again c win prev k).conn.shell = c.shell := by
  rw [again]
  split_ifs
  · rfl
  · exact shell_finish c win k

@[simp] theorem shell_writeDone (c : Conn β) : (writeDone c).conn.shell = c.shell := by
  rw [writeDone, shell_kickWrite]
  rfl

@[simp] theorem shell_writeFlush (c : Conn β) (gather : ℕ) :
    (writeFlush enc c gather).conn.shell = c.shell := by
  rw [writeFlush]
  split_ifs
  · rfl
  · rw [shell_writeDone, shell_setAction]
  · rfl

@[simp] theorem shell_writeMessages (c : Conn β) (gather : ℕ) :
    (writeMessages enc K flags c gather).conn.shell = c.shell := by
  rw [writeMessages]
  split_ifs
  · exact shell_writeFlush c gather
  · split
    · exact shell_writeFlush c gather
    · rfl

@[simp] theorem shell_handleWrite (c : Conn β) (win : Option (Window β)) (gather : ℕ) :
    (handleWrite enc K flags c win gather).conn.shell = c.shell := by
  simp only [handleWrite]
  split_ifs
  · rfl
  · rw [shell_writeMessages, shell_sendKeepaliveAck, shell_sendKeepalive]
    rfl
  · exact shell_setAction _
  · rw [shell_writeDone, shell_setAction]
    rfl
  · rfl
  · rfl

@[simp] theorem shell_finishSend (c : Conn β) (loc : Loc) (error : Bool) :
    (finishSend c loc error).conn.shell = c.shell := by
  simp only [finishSend]
  split_ifs
  · exact shell_startWrite _
  · rfl

theorem shell_splice {c c' : Conn β} {sent : ℕ} (h : c.splice sent = some c') : c'.shell = c.shell := by
  rw [splice] at h
  split_ifs at h
  · rw [Option.some_inj] at h
    rw [h]
  · rw [Option.some_inj] at h
    rw [← h]
    rfl

/-- `handle_write` goes on: only a failed `_try_send` reaches into the shell. -/
theorem shell_afterWrite (enc : Frame → List β) (K : Codec) (flags : CrcFlags) (c : Conn β)
    (pc : WritePc) (left gather : ℕ) (r : ReplaceInput) :
    ∃ n, afterWrite enc K flags c pc (some left) gather r = { node := n } ∧ n.conn.shell = c.shell := by
  have hother : (if c.state = .waitSend then ({ conn := c, loc := .process .nested } : Node β)
      else writeDone c).conn.shell = c.shell := by
    split_ifs
    · rfl
    · exact shell_writeDone c
  rcases left with _ | left
  · cases pc with
    | message => exact ⟨_, rfl, shell_writeMessages c gather⟩
    | flush => exact ⟨_, rfl, shell_writeDone c⟩
    | other => exact ⟨_, rfl, hother⟩
  · cases pc with
    | message => exact ⟨_, rfl, shell_writeFlush c gather⟩
    | flush => exact ⟨_, rfl, shell_writeDone c⟩
    | other => exact ⟨_, rfl, hother⟩

/-! ## The core rule -/

section Core

variable (hI : CoreRule enc I)
include hI

theorem fault_core {c : Conn β} {win : Option (Window β)} {k : Option Caller} (h : I c) :
    I (fault c win k).node.conn := by
  rw [fault]
  split_ifs with hclosed hstops
  · exact hI.congr c _ (core_eq_of_shell (shell_finish c win k)).symm h
  · exact h
  · exact hI.congr c.faultRetry _ (core_eq_of_shell (shell_finish ..)).symm
      (hI.faultRetry c hclosed (by simpa using hstops) h)

theorem afterWait_core {c : Conn β} {win : Option (Window β)} {k : Caller} {close : Bool}
    {prev : State} {r : ReplaceInput} (h : I c) : I (afterWait enc c win k close prev r).node.conn := by
  rw [afterWait]
  split_ifs with hrepl hclose
  · exact hI.congr _ _ (core_eq_of_shell (shell_again ..)).symm (hI.doReplace c r hrepl h)
  · exact h
  · exact fault_core hI h

theorem writeFail_core {c : Conn β} {r : ReplaceInput} (h : I c) :
    I (writeFail enc c r).node.conn := by
  have h' : I ({ c with sending := false } : Conn β) := hI.congr c _ rfl h
  simp only [writeFail]
  split_ifs with hrepl
  · exact hI.doReplace _ r hrepl h'
  · exact fault_core hI h'

theorem afterWrite_core {c : Conn β} {pc : WritePc} {left : Option ℕ} {gather : ℕ}
    {r : ReplaceInput} (h : I c) : I (afterWrite enc K flags c pc left gather r).node.conn := by
  cases left with
  | none => exact writeFail_core hI h
  | some left =>
    obtain ⟨n, hn, hshell⟩ := shell_afterWrite enc K flags c pc left gather r
    rw [hn]
    exact hI.congr c _ (core_eq_of_shell hshell).symm h

theorem sendMessage_core {n : Node β} {m : Message} {concurrent : Bool} {gather : ℕ}
    (h : I n.conn) : I (sendMessage enc K flags n m concurrent gather).conn := by
  simp only [sendMessage]
  split_ifs with _ _ _ _ hstandby
  · exact h
  · exact hI.congr n.conn _ rfl h
  · exact h
  · exact hI.congr n.conn _ rfl h
  · exact hI.connect _ hstandby.1 (hI.congr n.conn _ rfl h)
  · exact hI.congr n.conn _ (core_eq_of_shell (by rw [shell_startWrite]; rfl)) h

theorem returnTrySend_core {c : Conn β} {owner : Owner} {loc : Loc} {left : Option ℕ} {gather : ℕ}
    {r : ReplaceInput} (h : I c) :
    I (returnTrySend enc K flags c owner loc left gather r).node.conn := by
  rw [returnTrySend.eq_def]
  split
  · exact hI.congr c _ (core_eq_of_shell (shell_finishSend ..)).symm h
  · exact afterWrite_core hI h
  · exact h

theorem relock_core {n : Node β} {w : Window β} {gather : ℕ} {r : ReplaceInput} (h : I n.conn) :
    I (relock enc K flags n w gather r).node.conn := by
  simp only [relock]
  split_ifs
  · exact returnTrySend_core hI h
  · split
    · exact h
    · rename_i c hsplice
      have hc : I c := hI.congr n.conn c (core_eq_of_shell (shell_splice hsplice)).symm h
      split_ifs
      · exact hc
      · exact returnTrySend_core hI (hI.congr c _ (core_eq_of_shell (shell_setAction c)).symm hc)

theorem waitSending_core {n : Node β} {c : Conn β} {k : Caller} {close : Bool} {r : ReplaceInput}
    (h : I c) : I (waitSending enc n c k close r).node.conn := by
  rw [waitSending]
  split_ifs
  · exact hI.congr c _ rfl h
  · exact afterWait_core hI h

theorem processPass_core {n : Node β} {k : Caller} {inp : Input β} (h : I n.conn)
    (hpass : I (n.conn.pass K flags enc inp).conn) :
    I (processPass enc K flags n k inp).node.conn := by
  simp only [processPass]
  split
  · exact hI.congr _ _ (core_eq_of_shell (shell_again ..)).symm hpass
  · exact hI.congr _ _ (core_eq_of_shell (shell_finish ..)).symm hpass
  · exact h
  · exact waitSending_core hI hpass
  · exact waitSending_core hI hpass

/-- **The core rule.** A property of the core that the operations of `CoreRule` and the passes of
`do_process` keep is kept by every step. -/
theorem next_core {n n' : Node β} {e : Event β} (h : I n.conn)
    (hpass : ∀ inp k, e = .pass inp → n.loc = .process k → I (n.conn.pass K flags enc inp).conn)
    (hnext : n.next enc K flags e = some n') : I n'.conn := by
  rw [next, Option.map_eq_some_iff] at hnext
  obtain ⟨res, hstep, rfl⟩ := hnext
  cases (Step.of_step hstep).2 with
  | sendMessage m concurrent gather => exact sendMessage_core hI h
  | sendKeepaliveClosed => exact h
  | sendKeepalive => exact hI.congr n.conn _ (core_eq_of_shell (by rw [shell_startWrite]; rfl)) h
  | sendmsg => exact h
  | sendmsgError => exact h
  | relock => exact relock_core hI h
  | setStopping => exact hI.congr n.conn _ rfl h
  | markDisposable =>
    simp only [markDisposable]
    split_ifs
    · exact hI.stop _ (hI.lossy n.conn h)
    · exact hI.lossy n.conn h
  | cStop => exact hI.stop n.conn h
  | handOver sd connect auth reset fromPeer hbusy =>
    exact hI.handOver n.conn sd connect auth reset fromPeer (by simp [hbusy]) h
  | handleReplace r =>
    have h' : I ({ n.conn with evReplace := false } : Conn β) := hI.congr n.conn _ rfl h
    simp only [handleReplace]
    split_ifs with hrepl
    · exact hI.doReplace _ r hrepl h'
    · exact h'
  | timer => exact hI.congr n.conn _ rfl h
  | readable => exact h
  | pass inp k hloc => exact processPass_core hI h (hpass inp k rfl hloc)
  | wake => exact afterWait_core hI h
  | leave => exact hI.congr _ _ (core_eq_of_shell (shell_finish ..)).symm (hI.stop n.conn h)
  | handleWrite => exact hI.congr _ _ (core_eq_of_shell (shell_handleWrite ..)).symm h

end Core

end Node

end AsyncMessenger
