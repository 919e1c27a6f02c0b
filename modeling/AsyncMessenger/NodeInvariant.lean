import AsyncMessenger.NodeFrame

/-!
# The flag `sending` and the places of the threads

`sending` is set exactly while some call of `_try_send` has the lock released, or while the event
thread runs the `do_process` inside its own `handle_write`. This holds in every run, whatever the
steps do to the output.

`Coherent` relates three things: the flag, the windows that are open, and the place of the event
thread. The window of a thread that sends and the nested `do_process` exclude each other, since both
need the flag to be down when they begin.

Each function that a step is put together from gets a lemma of its own: it takes places that agree
to places that agree. The lemmas follow the calls of the source, from `finish`, the end of every
`do_process`, up to `handle_write` and `send_message`, and `wf_next` only has to say which of them a
step uses.
-/

namespace AsyncMessenger

/-- The event thread is in the `do_process` called by `handle_write`. -/
def Loc.isNested : Loc → Bool
  | .process .nested => true
  | .waiting .nested _ _ => true
  | .leaving (some .nested) => true
  | _ => false

/-- The event thread is in a `_try_send` of `handle_write`. -/
def Loc.isWriting : Loc → Bool
  | .writing _ => true
  | _ => false

/-- The event thread has a window open. -/
def Window.isEvent {β : Type} (win : Option (Window β)) : Bool :=
  win.any fun w ↦ decide (w.owner = .event)

/-- The flag `sending`, the window and the place of the event thread agree. -/
structure Coherent {β : Type} (sending : Bool) (win : Option (Window β)) (loc : Loc) : Prop where
  sending_iff : sending = true ↔ win.isSome = true ∨ loc.isNested = true
  nested : loc.isNested = true → win = none
  writing_iff : Window.isEvent win = true ↔ loc.isWriting = true

/-- Places that are alike inside and outside of `handle_write`. -/
theorem Coherent.of_loc {β : Type} {sending : Bool} {win : Option (Window β)} {loc loc' : Loc}
    (h : Coherent sending win loc) (hnested : loc'.isNested = loc.isNested)
    (hwriting : loc'.isWriting = loc.isWriting) : Coherent sending win loc' :=
  ⟨by rw [hnested]; exact h.sending_iff, by rw [hnested]; exact h.nested, by
    rw [hwriting]; exact h.writing_iff⟩

namespace Conn

variable {β : Type}

@[simp] theorem sending_startWrite (c : Conn β) : c.startWrite.sending = c.sending := by
  rw [startWrite_eq]

@[simp] theorem sending_setAction (c : Conn β) : c.setAction.sending = c.sending := by
  rw [setAction_eq]

@[simp] theorem sending_kickWrite (c : Conn β) : c.kickWrite.sending = c.sending := by
  obtain ⟨b, hb⟩ := c.kickWrite_eq
  rw [hb]

@[simp] theorem sending_stop (c : Conn β) : c.stop.sending = c.sending :=
  congrArg Prod.fst c.threadFlags_stop

@[simp] theorem sending_faultRetry (c : Conn β) : c.faultRetry.sending = c.sending := by
  simp only [faultRetry]
  split_ifs <;> rfl

@[simp] theorem sending_fault (c : Conn β) : c.fault.sending = c.sending := by
  rw [fault]
  split_ifs
  · rfl
  · exact c.sending_stop
  · exact c.sending_faultRetry

@[simp] theorem sending_takeOver (c : Conn β) (random : ℕ) :
    (c.takeOver random).sending = c.sending := by
  simp only [takeOver]
  split_ifs <;> rfl

@[simp] theorem sending_doReplace (enc : Frame → List β) (c : Conn β) (r : ReplaceInput) :
    (c.doReplace enc r).conn.sending = c.sending := by
  obtain ⟨reply, -, -, ⟨out, h⟩ | ⟨k, b, h⟩⟩ := c.doReplace_cases enc r
  · rw [h]
    exact (sending_fault _).trans (sending_takeOver c r.random)
  · rw [h]
    exact sending_takeOver c r.random

@[simp] theorem sending_markDisposable (c : Conn β) : c.markDisposable.sending = c.sending := by
  simp only [markDisposable]
  split_ifs
  · exact sending_stop _
  · rfl

@[simp] theorem sending_pass (K : Codec) (flags : CrcFlags) (enc : Frame → List β) (c : Conn β)
    (inp : Input β) : (c.pass K flags enc inp).conn.sending = c.sending :=
  congrArg Prod.fst (c.threadFlags_pass inp)

@[simp] theorem sending_sendKeepalive (enc : Frame → List β) (c : Conn β) :
    (c.sendKeepalive enc).sending = c.sending := by
  rw [sendKeepalive]
  split_ifs
  · exact sending_setAction _
  · rfl

@[simp] theorem sending_sendKeepaliveAck (enc : Frame → List β) (c : Conn β) :
    (c.sendKeepaliveAck enc).sending = c.sending := by
  rw [sendKeepaliveAck]
  split_ifs
  · exact sending_setAction _
  · rfl

end Conn

namespace Node

variable {β : Type} {enc : Frame → List β} {K : Codec} {flags : CrcFlags}

open Conn

/-- The invariant of the threads. -/
def WF (n : Node β) : Prop := Coherent n.conn.sending n.win n.loc

theorem wf_openWindow_event {c : Conn β} {pc : WritePc} {gather : ℕ} (h : c.sending = true) :
    (openWindow c .event (.writing pc) gather).WF :=
  ⟨by simp [openWindow, h], by simp [openWindow, Loc.isNested], by
    simp [openWindow, Window.isEvent, Loc.isWriting]⟩

theorem wf_idle {c : Conn β} (h : c.sending = false) : ({ conn := c } : Node β).WF :=
  ⟨by simp [h, Loc.isNested], by simp [Loc.isNested], by simp [Window.isEvent, Loc.isWriting]⟩

/-- What follows `do_process` is well placed if `do_process` was. -/
theorem wf_finish {c : Conn β} {win : Option (Window β)} {k : Option Caller}
    (h : Coherent c.sending win (.leaving k)) : (finish c win k).WF := by
  rcases k with _ | _ | _
  · exact h.of_loc rfl rfl
  · rw [WF, finish, sending_kickWrite]
    exact h.of_loc rfl rfl
  · have hwin : win = none := h.nested rfl
    subst hwin
    exact wf_idle (sending_kickWrite _)

theorem wf_again {c : Conn β} {win : Option (Window β)} {prev : State} {k : Caller}
    (h : Coherent c.sending win (.process k)) : (again c win prev k).WF := by
  rw [again]
  split_ifs
  · exact h
  · exact wf_finish (h.of_loc (by cases k <;> rfl) rfl)

theorem wf_fault {c : Conn β} {win : Option (Window β)} {k : Option Caller}
    (h : Coherent c.sending win (.leaving k)) : (fault c win k).node.WF := by
  rw [fault]
  split_ifs
  · exact wf_finish h
  · exact h
  · exact wf_finish (by rw [sending_faultRetry]; exact h)

theorem wf_afterWait {c : Conn β} {win : Option (Window β)} {k : Caller} {close : Bool}
    {prev : State} {r : ReplaceInput} (h : Coherent c.sending win (.process k)) :
    (afterWait enc c win k close prev r).node.WF := by
  have hleaving : Coherent c.sending win (.leaving (some k)) := h.of_loc (by cases k <;> rfl) rfl
  rw [afterWait]
  split_ifs
  · exact wf_again (by rw [sending_doReplace]; exact h)
  · exact hleaving
  · exact wf_fault hleaving

theorem wf_writeFail {c : Conn β} {r : ReplaceInput} : (writeFail enc c r).node.WF := by
  simp only [writeFail]
  split_ifs
  · exact wf_idle (sending_doReplace ..)
  · exact wf_fault ⟨by simp [Loc.isNested], by simp, by simp [Window.isEvent, Loc.isWriting]⟩

theorem wf_writeDone {c : Conn β} : (writeDone c).WF := wf_idle (sending_kickWrite _)

theorem wf_writeFlush {c : Conn β} {gather : ℕ} (h : c.sending = true) :
    (writeFlush enc c gather).WF := by
  rw [writeFlush]
  split_ifs
  · exact wf_openWindow_event h
  · exact wf_writeDone
  · exact wf_openWindow_event h

theorem wf_writeMessages {c : Conn β} {gather : ℕ} (h : c.sending = true) :
    (writeMessages enc K flags c gather).WF := by
  rw [writeMessages]
  split_ifs
  · exact wf_writeFlush h
  · split
    · exact wf_writeFlush h
    · exact wf_openWindow_event h

theorem wf_nested {c : Conn β} (h : c.sending = true) :
    ({ conn := c, loc := .process .nested } : Node β).WF :=
  ⟨by simp [h, Loc.isNested], by simp, by simp [Window.isEvent, Loc.isWriting]⟩

theorem wf_handleWrite {c : Conn β} {win : Option (Window β)} {gather : ℕ}
    (h : Coherent c.sending win .idle) : (handleWrite enc K flags c win gather).WF := by
  simp only [handleWrite]
  split_ifs
  · exact h
  · exact wf_writeMessages (by simp)
  · exact wf_nested (by simp)
  · exact wf_writeDone
  · exact wf_openWindow_event rfl
  · exact wf_idle rfl

theorem wf_afterWrite {c : Conn β} {pc : WritePc} {left : Option ℕ} {gather : ℕ} {r : ReplaceInput}
    (h : c.sending = true) : (afterWrite enc K flags c pc left gather r).node.WF := by
  have hother : (if c.state = .waitSend then ({ conn := c, loc := .process .nested } : Node β)
      else writeDone c).WF := by
    split_ifs
    · exact wf_nested h
    · exact wf_writeDone
  rcases left with _ | _ | left
  · exact wf_writeFail
  · cases pc with
    | message => exact wf_writeMessages h
    | flush => exact wf_writeDone
    | other => exact hother
  · cases pc with
    | message => exact wf_writeFlush h
    | flush => exact wf_writeDone
    | other => exact hother

theorem wf_sendMessage {n : Node β} {m : Message} {concurrent : Bool} {gather : ℕ} (h : n.WF) :
    (sendMessage enc K flags n m concurrent gather).WF := by
  simp only [sendMessage]
  split_ifs with hstop hdirect
  · exact h
  · -- a direct send starts from a clear flag, so nobody else holds a window
    have hclear : n.conn.sending = false := by
      simp only [sendsDirectly, Bool.and_eq_true, Bool.not_eq_true'] at hdirect
      exact hdirect.1.1.1.2
    have hnone := h.sending_iff
    rw [hclear] at hnone
    simp only [Bool.false_eq_true, false_iff, not_or, Bool.not_eq_true] at hnone
    have hwriting := h.writing_iff
    rw [Option.isSome_eq_false_iff, Option.isNone_iff_eq_none] at hnone
    rw [hnone.1] at hwriting
    refine ⟨by simp [openWindow, Conn.send], fun hn ↦ ?_, ?_⟩
    · rw [openWindow, hnone.2] at hn
      exact absurd hn (by simp)
    · exact (by simp [openWindow, Window.isEvent] : _ ↔ Window.isEvent (none : Option (Window β)) = true).trans hwriting
  · exact h
  · exact h
  · exact h
  · exact ⟨by rw [sending_startWrite]; exact h.sending_iff, h.nested, h.writing_iff⟩

theorem wf_relock {n : Node β} {w : Window β} {gather : ℕ} {r : ReplaceInput}
    (h : Coherent n.conn.sending (some w) n.loc) :
    (relock enc K flags { n with win := none } w gather r).node.WF := by
  have hsending : n.conn.sending = true := h.sending_iff.mpr (Or.inl rfl)
  have hnested : n.loc.isNested = false := by
    by_contra hn
    exact absurd (h.nested (by simpa using hn)) (by simp)
  have hreturn (c : Conn β) (left : Option ℕ) (hc : c.sending = true) :
      (returnTrySend enc K flags c w.owner n.loc left gather r).node.WF := by
    cases howner : w.owner with
    | user =>
      have hwriting : n.loc.isWriting = false := by
        have hiff := h.writing_iff
        simpa [Window.isEvent, howner] using hiff
      refine ⟨?_, by simp [returnTrySend, finishSend], by
        simp [returnTrySend, finishSend, Window.isEvent, hwriting]⟩
      simp only [returnTrySend, finishSend, hnested]
      split_ifs <;> simp
    | event =>
      have hwriting : n.loc.isWriting = true := by
        have hiff := h.writing_iff
        simpa [Window.isEvent, howner] using hiff
      obtain ⟨pc, hpc⟩ : ∃ pc, n.loc = .writing pc := by
        revert hwriting
        cases n.loc <;> simp [Loc.isWriting]
      rw [hpc]
      exact wf_afterWrite hc
  simp only [relock]
  split_ifs
  · exact hreturn n.conn none hsending
  · split
    · exact h
    · rename_i c hsplice
      have hc : c.sending = true := by
        rw [splice] at hsplice
        split_ifs at hsplice <;> rw [Option.some_inj] at hsplice <;> rw [← hsplice] <;>
          exact hsending
      split_ifs
      · exact ⟨by simp [openWindow, hc], by simp [openWindow, hnested], h.writing_iff⟩
      · exact hreturn c.setAction _ (by rw [sending_setAction, hc])

theorem wf_processPass {n : Node β} {k : Caller} {inp : Input β} (hloc : n.loc = .process k)
    (h : n.WF) : (processPass enc K flags n k inp).node.WF := by
  have h' : Coherent (n.conn.pass K flags enc inp).conn.sending n.win (.process k) := by
    rw [sending_pass, ← hloc]
    exact h
  have hwait (close : Bool) :
      (waitSending enc n (n.conn.pass K flags enc inp).conn k close inp.replace).node.WF := by
    rw [waitSending]
    split_ifs
    · exact h'.of_loc (by cases k <;> rfl) rfl
    · exact wf_afterWait h'
  simp only [processPass]
  split
  · exact wf_again h'
  · exact wf_finish (h'.of_loc (by cases k <;> rfl) rfl)
  · exact h
  · exact hwait false
  · exact hwait true

/-- Every step keeps the flag and the threads together. -/
theorem wf_next {n n' : Node β} {e : Event β} (h : n.WF) (hnext : n.next enc K flags e = some n') :
    n'.WF := by
  rw [next, Option.map_eq_some_iff] at hnext
  obtain ⟨res, hstep, rfl⟩ := hnext
  -- a step that leaves `sending` and the window as they are
  have hflag {c : Conn β} (hc : c.sending = n.conn.sending) : ({ n with conn := c } : Node β).WF := by
    rw [WF, hc]
    exact h
  -- a step inside the window
  have hwindow {w w' : Window β} (hwin : n.win = some w) (howner : w'.owner = w.owner) :
      ({ n with win := some w' } : Node β).WF := by
    rw [WF, hwin] at h
    refine ⟨by simpa using h.sending_iff, fun hn ↦ absurd (h.nested hn) (by simp), ?_⟩
    rw [← h.writing_iff]
    simp [Window.isEvent, howner]
  cases (Step.of_step hstep).2 with
  | sendMessage => exact wf_sendMessage h
  | sendKeepaliveClosed => exact h
  | sendKeepalive => exact hflag (sending_startWrite _)
  | sendmsg taken w hwin => exact hwindow hwin rfl
  | sendmsgError w hwin => exact hwindow hwin rfl
  | relock gather r w hwin =>
    rw [WF, hwin] at h
    exact wf_relock h
  | setStopping => exact hflag rfl
  | markDisposable => exact hflag (sending_markDisposable _)
  | cStop => exact hflag (sending_stop _)
  | handOver => exact hflag rfl
  | handleReplace r =>
    simp only [handleReplace]
    split_ifs
    · exact hflag (sending_doReplace ..)
    · exact hflag rfl
  | timer hidle =>
    rw [WF, hidle] at h
    exact h.of_loc rfl rfl
  | readable hidle =>
    rw [WF, hidle] at h
    exact h.of_loc rfl rfl
  | pass inp k hloc => exact wf_processPass hloc h
  | wake r k close prev hloc =>
    rw [WF, hloc] at h
    exact wf_afterWait (h.of_loc (by cases k <;> rfl) rfl)
  | leave k hloc =>
    rw [WF, hloc] at h
    apply wf_finish
    rw [sending_stop]
    exact h
  | handleWrite gather hidle =>
    rw [WF, hidle] at h
    exact wf_handleWrite h

theorem not_sending_of_idle {n : Node β} (hwf : n.WF) (hidle : n.loc = .idle) (hnone : n.win = none) :
    n.conn.sending = false := by
  have hiff := hwf.sending_iff
  rw [hidle, hnone] at hiff
  simpa [Loc.isNested] using hiff

theorem win_none_of_not_sending {n : Node β} (hwf : n.WF) (h : n.conn.sending = false) :
    n.win = none := by
  have hiff := hwf.sending_iff
  rw [h] at hiff
  simp only [Bool.false_eq_true, false_iff, not_or, Bool.not_eq_true, Option.isSome_eq_false_iff,
    Option.isNone_iff_eq_none] at hiff
  exact hiff.1

theorem wf_initial {n : Node β} (h : Initial n) : n.WF := by
  cases h with
  | outgoing => exact wf_idle rfl
  | accepted => exact wf_idle rfl

end Node

end AsyncMessenger
