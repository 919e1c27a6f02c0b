import AsyncMessenger.SendWindow

/-!
# The write watcher

Output that nobody is sending waits for `ev_write`. The event thread leaves its methods through
`kick_write`, which starts the watcher whenever something is left to do; the other places that queue
output call `start_write` themselves, except that `send_message` does not while another thread is
sending. That thread's `_try_send` stops the watcher when `outcoming_bl` is empty, whatever has been
queued meanwhile, and starts it again only after an error or for a write event it has held up.

`Calm` is the invariant: when the event thread is in no method and nobody is sending, the watcher is
active if there is output. The senders are the ones to look at, since what is queued behind their
back while they send is theirs to care for; the condition of the result says that they find nothing
of the kind.
-/

namespace AsyncMessenger

variable {β : Type} {enc : Frame → List β} {K : Codec} {flags : CrcFlags}

namespace Conn

/-- The condition of `kick_write` in an open session. -/
def pending (c : Conn β) : Bool :=
  !c.q.outQ.isEmpty || c.keepalive || c.keepaliveAck || !c.outcomingBl.isEmpty

/-- Pending output of an open session has its watcher. -/
def Watched (c : Conn β) : Prop :=
  c.sd.isSome = true → c.state.isOpen = true → c.pending = true → c.evWrite = true

theorem watched_of_not_isOpen {c : Conn β} (h : c.state.isOpen = false) : c.Watched := by
  intro _ hopen _
  rw [h] at hopen
  exact absurd hopen (by simp)

theorem watched_startWrite (c : Conn β) : c.startWrite.Watched := by
  intro hsd _ _
  rw [startWrite_eq] at hsd ⊢
  exact Bool.or_eq_true_iff.mpr (Or.inr hsd)

theorem watched_kickWrite (c : Conn β) : c.kickWrite.Watched := by
  rw [kickWrite]
  by_cases h : (c.state.isOpen ∧ (!c.q.outQ.isEmpty ∨ c.keepalive ∨ c.keepaliveAck)) ∨
      (c.outcomingBl ≠ [] ∧ c.state ≠ .connecting ∧ c.state ≠ .standby ∧ c.state ≠ .wait ∧
        c.state ≠ .closed)
  · rw [if_pos h]
    exact watched_startWrite c
  · rw [if_neg h]
    intro _ hopen hpending
    refine absurd ?_ h
    simp only [pending, Bool.or_eq_true] at hpending
    rcases hpending with ((hq | hk) | ha) | hout
    · exact Or.inl ⟨hopen, Or.inl hq⟩
    · exact Or.inl ⟨hopen, Or.inr (Or.inl hk)⟩
    · exact Or.inl ⟨hopen, Or.inr (Or.inr ha)⟩
    · refine Or.inr ⟨by simpa using hout, ?_⟩
      refine ⟨?_, ?_, ?_, ?_⟩ <;> (intro hs; rw [hs] at hopen; exact absurd hopen (by decide))

theorem sd_faultRetry (c : Conn β) : c.faultRetry.sd = none := by
  simp only [faultRetry]
  split_ifs <;> rfl

theorem watched_faultRetry (c : Conn β) : c.faultRetry.Watched := by
  intro hsd
  rw [sd_faultRetry] at hsd
  exact absurd hsd (by simp)

theorem watched_stop (c : Conn β) : c.stop.Watched :=
  watched_of_not_isOpen (by rw [state_stop]; rfl)

theorem watched_fault (c : Conn β) : c.fault.Watched := by
  rw [fault]
  split_ifs with h
  · exact watched_of_not_isOpen (by rw [h]; rfl)
  · exact watched_stop c
  · exact watched_faultRetry c

/-- After `do_replace` no session is open: the peer has to send its connect message again. -/
theorem watched_doReplace (c : Conn β) (r : ReplaceInput) : (c.doReplace enc r).conn.Watched := by
  obtain ⟨reply, -, -, ⟨out, h⟩ | ⟨k, b, h⟩⟩ := c.doReplace_cases enc r
  · rw [h]
    exact watched_fault _
  · rw [h]
    exact watched_of_not_isOpen rfl

end Conn

open Conn

namespace Node

/-- A direct send that ends with everything written, while no other thread is inside the connection
and no write event has been held up, finds nothing queued in the open session. -/
def EndsClean (n : Node β) : Event β → Prop
  | .relock _ _ => ∀ w, n.win = some w → w.owner = .user → n.loc = .idle → w.error = false →
      n.conn.handleWriteDelayed = false → n.conn.outcomingBl.drop w.wrote = [] →
      n.conn.sd.isSome = true → n.conn.state.isOpen = true →
      n.conn.q.outQ = [] ∧ n.conn.keepalive = false ∧ n.conn.keepaliveAck = false
  | _ => True

/-- With no thread inside, pending output has its watcher. -/
def Calm (n : Node β) : Prop := n.loc = .idle → n.win = none → n.conn.Watched

theorem calm_of_loc {n : Node β} (h : n.loc ≠ .idle) : n.Calm := fun hidle ↦ absurd hidle h

theorem calm_of_watched {n : Node β} (h : n.conn.Watched) : n.Calm := fun _ _ ↦ h

theorem calm_of_window {n : Node β} {w : Window β} (h : n.win = some w) : n.Calm := by
  intro _ hnone
  rw [h] at hnone
  exact absurd hnone (by simp)

theorem calm_finish {c : Conn β} {win : Option (Window β)} {k : Option Caller}
    (h : k = none → c.Watched) : (finish c win k).Calm := by
  rcases k with _ | _ | _
  · exact calm_of_watched (h rfl)
  · exact calm_of_watched (watched_kickWrite _)
  · exact calm_of_watched (watched_kickWrite _)

theorem calm_again {c : Conn β} {win : Option (Window β)} {prev : State} {k : Caller} :
    (again c win prev k).Calm := by
  rw [again]
  split_ifs
  · exact calm_of_loc (by simp)
  · exact calm_finish (by simp)

theorem calm_fault {c : Conn β} {win : Option (Window β)} {k : Option Caller} :
    (fault c win k).node.Calm := by
  rw [fault]
  split_ifs with hclosed
  · exact calm_finish fun _ ↦ watched_of_not_isOpen (by rw [hclosed]; rfl)
  · exact calm_of_loc (by simp)
  · exact calm_finish fun _ ↦ watched_faultRetry c

theorem calm_afterWait {c : Conn β} {win : Option (Window β)} {k : Caller} {close : Bool}
    {prev : State} {r : ReplaceInput} : (afterWait enc c win k close prev r).node.Calm := by
  rw [afterWait]
  split_ifs
  · exact calm_again
  · exact calm_of_loc (by simp)
  · exact calm_fault

theorem calm_writeDone {c : Conn β} : (writeDone c).Calm := calm_of_watched (watched_kickWrite _)

theorem calm_writeFlush {c : Conn β} {gather : ℕ} : (writeFlush enc c gather).Calm := by
  rw [writeFlush]
  split_ifs
  · exact calm_of_window rfl
  · exact calm_writeDone
  · exact calm_of_window rfl

theorem calm_writeMessages {c : Conn β} {gather : ℕ} :
    (writeMessages enc K flags c gather).Calm := by
  rw [writeMessages]
  split_ifs
  · exact calm_writeFlush
  · split
    · exact calm_writeFlush
    · exact calm_of_window rfl

theorem calm_afterWrite {c : Conn β} {pc : WritePc} {left : Option ℕ} {gather : ℕ}
    {r : ReplaceInput} : (afterWrite enc K flags c pc left gather r).node.Calm := by
  have hother : (if c.state = .waitSend then ({ conn := c, loc := .process .nested } : Node β)
      else writeDone c).Calm := by
    split_ifs
    · exact calm_of_loc (by simp)
    · exact calm_writeDone
  rcases left with _ | _ | left
  · simp only [afterWrite, writeFail]
    split_ifs
    · exact calm_of_watched (watched_doReplace _ r)
    · exact calm_fault
  · cases pc with
    | message => exact calm_writeMessages
    | flush => exact calm_writeDone
    | other => exact hother
  · cases pc with
    | message => exact calm_writeFlush
    | flush => exact calm_writeDone
    | other => exact hother

theorem calm_handleWrite {n : Node β} {gather : ℕ} (hwf : n.WF) (hidle : n.loc = .idle) :
    (handleWrite enc K flags n.conn n.win gather).Calm := by
  simp only [handleWrite]
  split_ifs with hsending hopen hother hempty hwait
  · -- the flag belongs to a user's window
    rcases hn : n.win with _ | w
    · rw [not_sending_of_idle hwf hidle hn] at hsending
      exact absurd hsending (by simp)
    · exact calm_of_window rfl
  · exact calm_writeMessages
  · exact calm_of_loc (by simp)
  · exact calm_writeDone
  · exact calm_of_window rfl
  · refine calm_of_watched (watched_of_not_isOpen ?_)
    simpa using hopen

theorem calm_sendMessage {n : Node β} {m : Message} {concurrent : Bool} {gather : ℕ} (hwf : n.WF)
    (h : n.Calm) : (sendMessage enc K flags n m concurrent gather).Calm := by
  simp only [sendMessage]
  split_ifs with hstop hdirect hclosed hsending hstandby
  · exact h
  · exact calm_of_window rfl
  · exact h
  · intro hidle hnone
    have hclear : n.conn.sending = false := not_sending_of_idle hwf hidle hnone
    rw [hclear] at hsending
    exact absurd hsending (by simp)
  · exact calm_of_watched (watched_of_not_isOpen rfl)
  · exact calm_of_watched (watched_startWrite _)

/-- The user's thread returns from its `_try_send`. -/
theorem calm_finishSend {c : Conn β} {loc : Loc}
    (hclean : loc = .idle → c.handleWriteDelayed = false → c.outcomingBl = [] →
      c.sd.isSome = true → c.state.isOpen = true →
      c.q.outQ = [] ∧ c.keepalive = false ∧ c.keepaliveAck = false) :
    (finishSend c.setAction loc false).Calm := by
  intro hidle _
  rw [setAction_eq, finishSend]
  dsimp only
  by_cases hdelayed : c.handleWriteDelayed = true
  · rw [if_pos (Or.inr hdelayed)]
    exact watched_startWrite _
  · rw [if_neg (by simp [hdelayed])]
    intro hsd hopen hpending
    by_cases hout : c.outcomingBl = []
    · obtain ⟨hq, hk, ha⟩ := hclean hidle (by simpa using hdelayed) hout hsd hopen
      simp [pending, hq, hk, ha, hout] at hpending
    · have hsd' : c.sd.isSome = true := hsd
      simp [hout, hsd']

theorem calm_relock {n : Node β} {w : Window β} {gather : ℕ} {r : ReplaceInput} (hwf : n.WF)
    (hwin : n.win = some w) (hclean : n.EndsClean (.relock gather r)) :
    (relock enc K flags { n with win := none } w gather r).node.Calm := by
  have hevent (howner : w.owner = .event) : ∃ pc, n.loc = .writing pc := by
    have hiff := hwf.writing_iff
    rw [hwin] at hiff
    simp only [Window.isEvent, Option.any_some, howner, decide_true, true_iff] at hiff
    revert hiff
    cases n.loc <;> simp [Loc.isWriting]
  simp only [relock]
  split_ifs with herror
  · cases howner : w.owner with
    | user => exact calm_of_watched (watched_startWrite _)
    | event =>
      obtain ⟨pc, hpc⟩ := hevent howner
      rw [hpc]
      exact calm_afterWrite
  · split
    · exact calm_of_window rfl
    · rename_i c hsplice
      split_ifs
      · exact calm_of_window rfl
      · cases howner : w.owner with
        | user =>
          refine calm_finishSend fun hidle hdelayed hout hsd hopen ↦ ?_
          have hclean' := hclean w hwin howner hidle (by simpa using herror)
          rw [splice] at hsplice
          split_ifs at hsplice with hzero hne
          · rw [Option.some_inj] at hsplice
            subst hsplice
            rw [hzero, List.drop_zero] at hclean'
            exact hclean' hdelayed hout hsd hopen
          · rw [Option.some_inj] at hsplice
            subst hsplice
            exact hclean' hdelayed hout hsd hopen
        | event =>
          obtain ⟨pc, hpc⟩ := hevent howner
          rw [hpc]
          exact calm_afterWrite

theorem calm_next {n n' : Node β} {e : Event β} (hwf : n.WF) (h : n.Calm) (hclean : n.EndsClean e)
    (hnext : n.next enc K flags e = some n') : n'.Calm := by
  rw [next, Option.map_eq_some_iff] at hnext
  obtain ⟨res, hstep, rfl⟩ := hnext
  cases (Step.of_step hstep).2 with
  | sendMessage => exact calm_sendMessage hwf h
  | sendKeepaliveClosed => exact h
  | sendKeepalive => exact calm_of_watched (watched_startWrite _)
  | sendmsg => exact calm_of_window rfl
  | sendmsgError => exact calm_of_window rfl
  | relock gather r w hwin => exact calm_relock hwf hwin hclean
  | setStopping => exact h
  | markDisposable =>
    simp only [Conn.markDisposable]
    split_ifs
    · exact calm_of_watched (watched_stop _)
    · exact h
  | cStop => exact calm_of_watched (watched_stop _)
  | handOver => exact h
  | handleReplace r =>
    simp only [handleReplace]
    split_ifs
    · exact calm_of_watched (watched_doReplace _ r)
    · exact h
  | timer => exact calm_of_loc (by simp)
  | readable => exact calm_of_loc (by simp)
  | pass inp k hloc =>
    have hwait (close : Bool) : (waitSending enc n (n.conn.pass K flags enc inp).conn k close
        inp.replace).node.Calm := by
      rw [waitSending]
      split_ifs
      · exact calm_of_loc (by simp)
      · exact calm_afterWait
    simp only [processPass]
    split
    · exact calm_again
    · exact calm_finish (by simp)
    · exact h
    · exact hwait false
    · exact hwait true
  | wake => exact calm_afterWait
  | leave k hloc => exact calm_finish fun _ ↦ watched_stop _
  | handleWrite gather hidle => exact calm_handleWrite hwf hidle

/-- **No stranded output.** In every run whose direct senders end clean, whenever no thread is inside
a method of the connection, the pending output of an open session has its write watcher active. -/
theorem no_stranded_output {n n' : Node β} {es : List (Event β)} (hinit : Initial n)
    (hmeets : Run.Meets (next enc K flags) EndsClean n es)
    (hrun : Run.exec (next enc K flags) n es = some n') (hidle : n'.loc = .idle)
    (hnone : n'.win = none) (hsd : n'.conn.sd.isSome = true) (hopen : n'.conn.state.isOpen = true)
    (hpending : n'.conn.pending = true) : n'.conn.evWrite = true := by
  have hinv : n'.WF ∧ n'.Calm := by
    refine Run.invariant_of_meets (I := fun n ↦ n.WF ∧ n.Calm) ?_ ?_ hmeets hrun
    · rintro s e s' ⟨hwf, hcalm⟩ hclean hnext
      exact ⟨wf_next hwf hnext, calm_next hwf hcalm hclean hnext⟩
    · refine ⟨wf_initial hinit, calm_of_watched (watched_of_not_isOpen ?_)⟩
      cases hinit <;> rfl
  exact hinv.2 hidle hnone hsd hopen hpending

/-- A keepalive asked for after a send: the watcher runs. -/
theorem no_stranded_output_keepalive :
    ∃ n, Run.exec (next (fun f ↦ [f]) Codec.trivial ⟨true, true⟩) (accepted ⟨0, .acc⟩)
        (acceptRun {} (.statefulServer 0 0) ++
          [.sendMessage {} false 0, .sendmsg 1, .relock 0 {}, .sendKeepalive]) = some n ∧
      n.conn.pending = true ∧ n.conn.evWrite = true := by
  have hsend : Run.Meets (next (fun f ↦ [f]) Codec.trivial ⟨true, true⟩) EndsClean
      (accepted ⟨0, .acc⟩)
      (acceptRun {} (.statefulServer 0 0) ++ [.sendMessage {} false 0, .sendmsg 1]) := by
    repeat' first | exact trivial | refine ⟨trivial, fun _ _ ↦ ?_⟩
  have hmeets : Run.Meets (next (fun f ↦ [f]) Codec.trivial ⟨true, true⟩) EndsClean
      (accepted ⟨0, .acc⟩) ((acceptRun {} (.statefulServer 0 0) ++
        [.sendMessage {} false 0, .sendmsg 1]) ++ [.relock 0 {}, .sendKeepalive]) :=
    hsend.append rfl
      ⟨fun _ _ _ _ _ _ _ _ _ ↦ ⟨rfl, rfl, rfl⟩, fun _ _ ↦ ⟨trivial, fun _ _ ↦ trivial⟩⟩
  exact ⟨_, rfl, rfl, no_stranded_output (.accepted _) hmeets rfl rfl rfl rfl rfl rfl⟩

/-- A second thread queues its message while the first one is in `sendmsg`, and the first one takes
the watcher away: the message stays in `out_q` with nobody to send it. -/
theorem second_message_stranded :
    ∃ n, Run.exec (next (fun f ↦ [f]) Codec.trivial ⟨true, true⟩) (accepted ⟨0, .acc⟩)
        (acceptRun {} (.statefulServer 0 0) ++
          [.sendMessage {} false 0, .sendMessage {} false 0, .sendmsg 1, .relock 0 {}]) = some n ∧
      n.loc = .idle ∧ n.win.isNone = true ∧ n.conn.sd.isSome = true ∧ n.conn.state.isOpen = true ∧
      n.conn.q.outQ ≠ [] ∧ n.conn.evWrite = false := by
  exact ⟨_, rfl, rfl, rfl, rfl, rfl, by decide, rfl⟩

end Node

end AsyncMessenger
