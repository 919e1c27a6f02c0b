import AsyncMessenger.Lib.Run
import AsyncMessenger.NodeInvariant

/-!
# What a sender trims

`_try_send` gathers the front of `outcoming_bl`, releases the lock around `do_sendmsg` and then
removes as many bytes as the socket took. That is right only if the front is still what it gathered.

Three paths clear `outcoming_bl` without waiting for a sender: `handle_replace`, `C_stop`, and the
`_stop` of a lossy fault, which gives up the lock between its `wait_sending` and its clearing. In
every run in which these steps find no sender active, a thread that takes the lock again finds its
bytes at the front of `outcoming_bl`.

## Windows

A window is the time between the moment a sender has gathered its bytes and the moment it takes the
lock again. In a window others may append to `outcoming_bl`, since that leaves its front alone.
There is never more than one window, because of `sending`; the steps that clear the list are those
the condition is about. The invariant speaks of the window that is open, whichever thread it belongs
to.
-/

namespace AsyncMessenger

variable {β : Type} {enc : Frame → List β} {K : Codec} {flags : CrcFlags}

open Conn

namespace Node

/-- The steps that clear `outcoming_bl` without `wait_sending` find no sender active. -/
def ClearsAlone (n : Node β) : Event β → Prop
  | .handleReplace _ => n.conn.replacing = 1 → n.conn.sending = false
  | .cStop => n.conn.state ≠ .closed → n.conn.sending = false
  | .leave => n.conn.state ≠ .closed → n.conn.sending = false
  | _ => True

/-- Every open window still has its bytes at the front of `outcoming_bl`. -/
def Held (n : Node β) : Prop :=
  ∀ w, n.win = some w → w.gathered <+: n.conn.outcomingBl ∧ w.wrote ≤ w.gathered.length ∧
    n.conn.state ≠ .standby ∧ (w.owner = .user → n.conn.state.isOpen = true)

theorem held_of_none {n : Node β} (h : n.win = none) : n.Held := by
  intro w hw
  rw [h] at hw
  exact absurd hw (by simp)

theorem held_openWindow {c : Conn β} {owner : Owner} {loc : Loc} {gather : ℕ}
    (hstate : c.state ≠ .standby) (huser : owner = .user → c.state.isOpen = true) :
    (openWindow c owner loc gather).Held := by
  intro w hw
  rw [openWindow, Option.some_inj] at hw
  subst hw
  exact ⟨List.take_prefix _ _, Nat.zero_le _, hstate, huser⟩

/-- A step that leaves window, output and state alone. -/
theorem Held.congr {n n' : Node β} (h : n.Held) (hwin : n'.win = n.win)
    (hout : n'.conn.outcomingBl = n.conn.outcomingBl) (hstate : n'.conn.state = n.conn.state) :
    n'.Held := by
  intro w hw
  rw [hout, hstate]
  exact h w (hwin ▸ hw)

/-! ## The steps of the event thread that open windows -/

theorem win_finish {c : Conn β} {k : Option Caller} : (finish c none k).win = none := by
  rcases k with _ | _ | _ <;> rfl

theorem win_again {c : Conn β} {prev : State} {k : Caller} : (again c none prev k).win = none := by
  rw [again]
  split_ifs
  · rfl
  · exact win_finish

theorem win_fault {c : Conn β} {k : Option Caller} : (fault c none k).node.win = none := by
  rw [fault]
  split_ifs
  · exact win_finish
  · rfl
  · exact win_finish

theorem win_afterWait {c : Conn β} {k : Caller} {close : Bool} {prev : State} {r : ReplaceInput} :
    (afterWait enc c none k close prev r).node.win = none := by
  rw [afterWait]
  split_ifs
  · exact win_again
  · rfl
  · exact win_fault

theorem held_writeFlush {c : Conn β} {gather : ℕ} (h : c.state ≠ .standby) :
    (writeFlush enc c gather).Held := by
  rw [writeFlush]
  split_ifs
  · exact held_openWindow h (by simp)
  · exact held_of_none rfl
  · exact held_openWindow h (by simp)

theorem held_writeMessages {c : Conn β} {gather : ℕ} (h : c.state ≠ .standby) :
    (writeMessages enc K flags c gather).Held := by
  rw [writeMessages]
  split_ifs
  · exact held_writeFlush h
  · split
    · exact held_writeFlush h
    · exact held_openWindow h (by simp)

theorem held_afterWrite {c : Conn β} {pc : WritePc} {left : Option ℕ} {gather : ℕ}
    {r : ReplaceInput} (h : c.state ≠ .standby) :
    (afterWrite enc K flags c pc left gather r).node.Held := by
  have hother : (if c.state = .waitSend then ({ conn := c, loc := .process .nested } : Node β)
      else writeDone c).Held := by
    split_ifs
    · exact held_of_none rfl
    · exact held_of_none rfl
  rcases left with _ | _ | left
  · apply held_of_none
    simp only [afterWrite, writeFail]
    split_ifs
    · rfl
    · exact win_fault
  · cases pc with
    | message => exact held_writeMessages h
    | flush => exact held_of_none rfl
    | other => exact hother
  · cases pc with
    | message => exact held_writeFlush h
    | flush => exact held_of_none rfl
    | other => exact hother

theorem state_ne_standby_of_isOpen {s : State} (h : s.isOpen = true) : s ≠ .standby := by
  rintro rfl
  exact absurd h (by decide)

theorem held_handleWrite {n : Node β} {gather : ℕ} (h : n.Held) :
    (handleWrite enc K flags n.conn n.win gather).Held := by
  simp only [handleWrite]
  split_ifs with hsending hopen hother hempty hwait
  · exact h.congr rfl rfl rfl
  · refine held_writeMessages (state_ne_standby_of_isOpen ?_)
    have hcore := congrArg Conn.state (shell_sendKeepaliveAck enc
      (({ n.conn with sending := true } : Conn β).sendKeepalive enc))
    rw [shell_sendKeepalive] at hcore
    exact (congrArg State.isOpen hcore).trans hopen
  · exact held_of_none rfl
  · exact held_of_none rfl
  · exact held_openWindow hother.2.1 (by simp)
  · exact held_of_none rfl

/-! ## The other steps -/

theorem held_sendMessage {n : Node β} {m : Message} {concurrent : Bool} {gather : ℕ} (hwf : n.WF)
    (h : n.Held) : (sendMessage enc K flags n m concurrent gather).Held := by
  have hnone (hs : ¬ n.conn.sending = true) : n.win = none :=
    win_none_of_not_sending hwf (by simpa using hs)
  simp only [sendMessage]
  split_ifs with hstop hdirect hclosed hsending hstandby
  · exact h
  · simp only [sendsDirectly, Bool.and_eq_true] at hdirect
    have hopen : n.conn.state.isOpen = true := hdirect.1.1.2
    exact held_openWindow (state_ne_standby_of_isOpen hopen) fun _ ↦ hopen
  · exact h
  · exact h.congr rfl rfl rfl
  · exact held_of_none (hnone hsending)
  · exact held_of_none (hnone hsending)

theorem held_relock {n : Node β} {w : Window β} {gather : ℕ} {r : ReplaceInput}
    (hwin : n.win = some w) (h : n.Held) :
    (relock enc K flags { n with win := none } w gather r).node.Held := by
  obtain ⟨-, hwrote, hstandby, huser⟩ := h w hwin
  have hreturn (c : Conn β) (left : Option ℕ) (hc : c.state = n.conn.state) :
      (returnTrySend enc K flags c w.owner n.loc left gather r).node.Held := by
    rw [returnTrySend.eq_def]
    split
    · exact held_of_none rfl
    · exact held_afterWrite (hc ▸ hstandby)
    · exact held_of_none rfl
  simp only [relock]
  split_ifs
  · exact hreturn n.conn none rfl
  · split
    · exact h.congr hwin.symm rfl rfl
    · rename_i c hsplice
      have hc : c.state = n.conn.state := by
        rw [splice] at hsplice
        split_ifs at hsplice <;> rw [Option.some_inj] at hsplice <;> rw [← hsplice]
      split_ifs
      · exact held_openWindow (hc ▸ hstandby) fun ho ↦ hc ▸ huser ho
      · apply hreturn c.setAction _
        rw [setAction_eq]
        exact hc

/-- While a user's window is open the event thread only reads frames. -/
theorem held_processPass {n : Node β} {k : Caller} {inp : Input β} (hloc : n.loc = .process k)
    (hwf : n.WF) (h : n.Held) : (processPass enc K flags n k inp).node.Held := by
  rcases hn : n.win with _ | w
  · have hwinWait (close : Bool) : (waitSending enc n (n.conn.pass K flags enc inp).conn k close
        inp.replace).node.win = none := by
      rw [waitSending]
      split_ifs
      · exact hn
      · rw [hn]
        exact win_afterWait
    apply held_of_none
    simp only [processPass]
    split
    · rw [hn]
      exact win_again
    · rw [hn]
      exact win_finish
    · exact hn
    · exact hwinWait false
    · exact hwinWait true
  · obtain ⟨-, -, -, huser⟩ := h w hn
    -- the event thread is in `do_process`, so the window is not its own
    have howner : w.owner = .user := by
      have hiff := hwf.writing_iff
      rw [hloc, hn] at hiff
      cases ho : w.owner with
      | user => rfl
      | event => simp [Window.isEvent, ho, Loc.isWriting] at hiff
    have hopen := huser howner
    have hsending : n.conn.sending = true := hwf.sending_iff.mpr (Or.inl (by rw [hn]; rfl))
    have hk : (Loc.process k).isNested = false := by
      by_contra hne
      have hnone := hwf.nested (by rw [hloc]; simpa using hne)
      rw [hn] at hnone
      exact absurd hnone (by simp)
    have hreads : n.conn.Reads (n.conn.pass K flags enc inp).conn := by
      rw [pass_of_isOpen hopen]
      exact reads_processOpen hopen
    have hout : (n.conn.pass K flags enc inp).conn.outcomingBl = n.conn.outcomingBl := by
      have hframe := congrArg Conn.outcomingBl hreads.1
      exact hframe
    have hafter {n' : Node β} (hwin : n'.win = some w)
        (hout' : n'.conn.outcomingBl = (n.conn.pass K flags enc inp).conn.outcomingBl)
        (hstate' : n'.conn.state = (n.conn.pass K flags enc inp).conn.state) : n'.Held := by
      intro w' hw'
      rw [hwin, Option.some_inj] at hw'
      subst hw'
      rw [hout', hout, hstate']
      exact ⟨(h w hn).1, (h w hn).2.1, state_ne_standby_of_isOpen hreads.2, fun _ ↦ hreads.2⟩
    have hfinish : (finish (n.conn.pass K flags enc inp).conn n.win (some k)).Held := by
      cases k with
      | process =>
        obtain ⟨b, hb⟩ := (n.conn.pass K flags enc inp).conn.kickWrite_eq
        rw [finish, hb]
        exact hafter hn rfl rfl
      | nested => exact absurd hk (by decide)
    have hwait (close : Bool) : (waitSending enc n (n.conn.pass K flags enc inp).conn k close
        inp.replace).node.Held := by
      rw [waitSending, if_pos (by rw [sending_pass, hsending])]
      exact hafter hn rfl rfl
    simp only [processPass]
    split
    · rw [again]
      split_ifs
      · exact hafter hn rfl rfl
      · exact hfinish
    · exact hfinish
    · exact h
    · exact hwait false
    · exact hwait true

theorem held_next {n n' : Node β} {e : Event β} (hwf : n.WF) (h : n.Held)
    (hclear : n.ClearsAlone e) (hnext : n.next enc K flags e = some n') : n'.Held := by
  rw [next, Option.map_eq_some_iff] at hnext
  obtain ⟨res, hstep, rfl⟩ := hnext
  -- `_stop` clears the output; with a sender active it is called only where it does nothing
  have hstop (hc : n.conn.state ≠ .closed → n.conn.sending = false) :
      n.win = none ∨ n.conn.stop = n.conn := by
    by_cases hclosed : n.conn.state = .closed
    · exact Or.inr (by rw [Conn.stop, if_pos hclosed])
    · exact Or.inl (win_none_of_not_sending hwf (hc hclosed))
  cases (Step.of_step hstep).2 with
  | sendMessage => exact held_sendMessage hwf h
  | sendKeepaliveClosed => exact h
  | sendKeepalive => exact h.congr rfl (by rw [startWrite_eq]) (by rw [startWrite_eq])
  | sendmsg taken w hwin _ _ hfits =>
    intro w' hw'
    rw [Option.some_inj] at hw'
    subst hw'
    obtain ⟨hpre, -, hrest⟩ := h w hwin
    exact ⟨hpre, hfits, hrest⟩
  | sendmsgError w hwin =>
    intro w' hw'
    rw [Option.some_inj] at hw'
    subst hw'
    exact h w hwin
  | relock gather r w hwin => exact held_relock hwin h
  | setStopping => exact h.congr rfl rfl rfl
  | markDisposable =>
    rcases hn : n.win with _ | w
    · exact held_of_none rfl
    · have hstandby := (h w hn).2.2.1
      rw [Conn.markDisposable, if_neg hstandby]
      exact h.congr hn.symm rfl rfl
  | cStop =>
    rcases hstop hclear with hnone | hsame
    · exact held_of_none hnone
    · rw [hsame]
      exact h
  | handOver => exact h.congr rfl rfl rfl
  | handleReplace r =>
    simp only [handleReplace]
    split_ifs with hrepl
    · have hnone := win_none_of_not_sending hwf (hclear hrepl)
      exact held_of_none hnone
    · exact h.congr rfl rfl rfl
  | timer => exact h.congr rfl rfl rfl
  | readable => exact h.congr rfl rfl rfl
  | pass inp k hloc => exact held_processPass hloc hwf h
  | wake r k close prev hloc hsending =>
    have hnone := win_none_of_not_sending hwf hsending
    rw [hnone]
    exact held_of_none win_afterWait
  | leave k hloc =>
    rcases hstop hclear with hnone | hsame
    · rw [hnone]
      exact held_of_none win_finish
    · rw [hsame]
      rcases k with _ | _ | _
      · exact h.congr rfl rfl rfl
      · obtain ⟨b, hb⟩ := n.conn.kickWrite_eq
        rw [finish, hb]
        exact h.congr rfl rfl rfl
      · obtain ⟨b, hb⟩ := kickWrite_eq ({ n.conn with sending := false } : Conn β)
        rw [finish, hb]
        exact h.congr rfl rfl rfl
  | handleWrite gather => exact held_handleWrite h

/-- **A sender trims only what it gathered.** In every run whose clearing steps find no sender
active, an open window has its bytes at the front of `outcoming_bl`, and the `splice` that follows
removes exactly the bytes handed to the socket. -/
theorem splice_removes_what_was_sent {n n' : Node β} {es : List (Event β)} (hinit : Initial n)
    (hmeets : Run.Meets (next enc K flags) ClearsAlone n es)
    (hrun : Run.exec (next enc K flags) n es = some n') {w : Window β} (hwin : n'.win = some w) :
    w.gathered <+: n'.conn.outcomingBl ∧
      ∃ c, n'.conn.splice w.wrote = some c ∧
        n'.conn.outcomingBl = w.gathered.take w.wrote ++ c.outcomingBl := by
  have hinv : n'.WF ∧ n'.Held := by
    refine Run.invariant_of_meets (I := fun n ↦ n.WF ∧ n.Held) ?_ ?_ hmeets hrun
    · rintro s e s' ⟨hwf, hheld⟩ hclear hnext
      exact ⟨wf_next hwf hnext, held_next hwf hheld hclear hnext⟩
    · refine ⟨wf_initial hinit, held_of_none ?_⟩
      cases hinit <;> rfl
  obtain ⟨hpre, hwrote, -⟩ := hinv.2 w hwin
  refine ⟨hpre, ?_⟩
  obtain ⟨rest, hrest⟩ := hpre
  have hsplit : n'.conn.outcomingBl = w.gathered.take w.wrote ++ n'.conn.outcomingBl.drop w.wrote := by
    have htake : n'.conn.outcomingBl.take w.wrote = w.gathered.take w.wrote := by
      rw [← hrest, List.take_append_of_le_length hwrote]
    rw [← htake, List.take_append_drop]
  by_cases hzero : w.wrote = 0
  · refine ⟨n'.conn, by rw [splice, if_pos hzero], ?_⟩
    rw [hzero, List.take_zero, List.nil_append]
  · have hne : n'.conn.outcomingBl ≠ [] := by
      rw [← hrest]
      have hpos : w.gathered ≠ [] := by
        rintro hnil
        rw [hnil, List.length_nil] at hwrote
        omega
      simp [hpos]
    exact ⟨_, by rw [splice, if_neg hzero, if_neg hne], hsplit⟩

/-- A message sent without interference: the window holds the frame, and `splice` removes it. -/
theorem splice_removes_what_was_sent_undisturbed :
    ∃ n w, Run.exec (next (fun f ↦ [f]) Codec.trivial ⟨true, true⟩) (accepted ⟨0, .acc⟩)
        (acceptRun {} (.statefulServer 0 0) ++ [.sendMessage {} false 0, .sendmsg 1]) = some n ∧
      n.win = some w ∧ w.gathered <+: n.conn.outcomingBl ∧
        ∃ c, n.conn.splice w.wrote = some c ∧
          n.conn.outcomingBl = w.gathered.take w.wrote ++ c.outcomingBl := by
  have hmeets : Run.Meets (next (fun f ↦ [f]) Codec.trivial ⟨true, true⟩) ClearsAlone
      (accepted ⟨0, .acc⟩)
      (acceptRun {} (.statefulServer 0 0) ++ [.sendMessage {} false 0, .sendmsg 1]) := by
    repeat' first | exact trivial | refine ⟨trivial, fun _ _ ↦ ?_⟩
  exact ⟨_, _, rfl, rfl, splice_removes_what_was_sent (.accepted _) hmeets rfl rfl⟩

/-- A server accepts a connection, a thread sends a message, and another socket of the same peer is
handed over while that thread has the lock released. -/
def replaceDuringSend : List (Event Frame) :=
  acceptRun {} (.statefulServer 0 0) ++
    [.sendMessage {} false 0, .handOver (some ⟨1, .acc⟩) { connectSeq := 1, globalSeq := 1 } [] false
        false,
      .handleReplace { kernel := some 1 }]

/-- `handle_replace` empties `outcoming_bl` under a sender, and the `splice` of that sender throws. -/
theorem replace_takes_gathered_away :
    (∃ n w, Run.exec (next (fun f ↦ [f]) Codec.trivial ⟨true, true⟩) (accepted ⟨0, .acc⟩)
        replaceDuringSend = some n ∧ n.win = some w ∧ ¬ w.gathered <+: n.conn.outcomingBl) ∧
      (Run.exec (next (fun f ↦ [f]) Codec.trivial ⟨true, true⟩) (accepted ⟨0, .acc⟩)
        (replaceDuringSend ++ [.sendmsg 1, .relock 0 {}])).map Node.crashed = some true := by
  refine ⟨⟨_, _, rfl, rfl, ?_⟩, rfl⟩
  decide

end Node

end AsyncMessenger
