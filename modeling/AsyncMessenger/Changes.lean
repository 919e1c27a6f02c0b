import AsyncMessenger.NodeFrame

/-!
# What a step does

`Change` lists what the steps of a node do to everything but the output of its connection: most
steps do nothing, a few set a flag, a pass of `do_process` goes through the switch, and at the label
`fail` the connection is replaced, faults, or sets out for `_stop`. `change_next` says that there is
nothing else; results about runs go through this list.

## Quiet steps

A step is quiet if the connection has the same `shell` afterwards, which is the connection without
its output: its queues, its flags of sending and its watchers. Sending a message, writing, and the
unlocked stretches of a send are quiet; what is said about the handshake or about `replacing` is not
touched by them.

## Giving up

The event thread comes to a label `fail` from a pass, from `wait_sending` and from `handle_write`.
`GivesUp` says from where, and with which connection; `Aftermath` says what then happens under the
same hold of the lock. The two are separate because every way in may take every way out.
-/

namespace AsyncMessenger

/-- The event thread is idle, or in the loop of `do_process`. -/
def Loc.isPlain : Loc → Bool
  | .idle => true
  | .process _ => true
  | _ => false

/-- The event thread is past a label `fail`: in `wait_sending`, or on the way to `_stop`. -/
def Loc.isParting : Loc → Bool
  | .waiting .. => true
  | .leaving _ => true
  | _ => false

/-- The step is a call of `mark_down` or `stop`. -/
def Event.setsStopping {β : Type} : Event β → Bool
  | .setStopping _ => true
  | _ => false

namespace Node

variable {β : Type} (enc : Frame → List β) (K : Codec) (flags : CrcFlags)

open Conn

/-- A quiet step moves the event thread from `l` to `l'`, if at all: out of a method, into the loop of
`do_process`, or into a `_try_send` of `handle_write`, which writes nothing in three of the states. -/
inductive Moves (c : Conn β) (l : Loc) : Loc → Prop
  | stays : Moves c l l
  | plain (l' : Loc) (h : l'.isPlain = true) (hl : l.isParting = false) : Moves c l l'
  | writesOn (pc pc' : WritePc) (h : l = .writing pc) : Moves c l (.writing pc')
  | writes (pc : WritePc) (h : c.state ∉ [State.connecting, .standby, .wait])
      (hl : l.isParting = false) :
    Moves c l (.writing pc)

/-- The step gives up on the socket with the connection `c`: at a label `fail`, or, if `close` is set,
in `STATE_OPEN_TAG_CLOSE`. -/
inductive GivesUp (n : Node β) : Event β → Bool → Conn β → Prop
  | pass (inp k) (hloc : n.loc = .process k)
      (hflow : (n.conn.pass K flags enc inp).flow = .fail) :
    GivesUp n (.pass inp) false (n.conn.pass K flags enc inp).conn
  | passClose (inp k) (hloc : n.loc = .process k)
      (hflow : (n.conn.pass K flags enc inp).flow = .close) :
    GivesUp n (.pass inp) true (n.conn.pass K flags enc inp).conn
  | wake (r k close prev) (hloc : n.loc = .waiting k close prev) : GivesUp n (.wake r) close n.conn
  | write (gather r w pc) (hwin : n.win = some w) (herror : w.error = true)
      (howner : w.owner = .event) (hloc : n.loc = .writing pc) :
    GivesUp n (.relock gather r) false { n.conn with sending := false }

/-- What follows, under the same hold of the lock, once the step has given up with `c`. -/
inductive Aftermath (c : Conn β) (close : Bool) : Node β → Prop
  /-- Another socket has been handed over. -/
  | replaced (n' : Node β) (r : ReplaceInput) (hrepl : c.replacing = 1)
      (hshell : n'.conn.shell = (c.doReplace enc r).conn.shell) (hloc : n'.loc.isPlain = true) :
    Aftermath c close n'
  /-- The lock is released on the way to `_stop`: the peer closes, or a lossy connection faults. -/
  | parts (n' : Node β) (k : Option Caller) (hrepl : c.replacing ≠ 1)
      (hwhy : close = true ∨ c.state ≠ .closed ∧ c.faultStops = true)
      (hshell : n'.conn.shell = c.shell) (hloc : n'.loc = .leaving k) : Aftermath c close n'
  | faults (n' : Node β) (hrepl : c.replacing ≠ 1) (hclose : close = false)
      (hclosed : c.state ≠ .closed) (hstops : c.faultStops = false)
      (hshell : n'.conn.shell = c.faultRetry.shell) (hloc : n'.loc = .idle) : Aftermath c close n'
  /-- `fault` finds the connection closed. -/
  | closed (n' : Node β) (hrepl : c.replacing ≠ 1) (hclosed : c.state = .closed)
      (hshell : n'.conn.shell = c.shell) (hloc : n'.loc = .idle) : Aftermath c close n'

/-- What a step does. -/
inductive Change (n : Node β) : Event β → Node β → Prop
  | quiet (e : Event β) (n' : Node β) (he : e.setsStopping = false)
      (hshell : n'.conn.shell = n.conn.shell) (hloc : Moves n.conn n.loc n'.loc) :
    Change n e n'
  /-- A message is queued on a connection in `STATE_STANDBY`, which connects. -/
  | connects (m concurrent gather) (n' : Node β) (hs : n.conn.state = .standby)
      (hserver : n.conn.policy.server = false) (hstopping : n.conn.stopping = false)
      (hshell : n'.conn.shell = ({ n.conn with state := .connecting } : Conn β).shell)
      (hloc : n'.loc = n.loc) :
    Change n (.sendMessage m concurrent gather) n'
  | setStopping (marksDown : Bool) :
    Change n (.setStopping marksDown) { n with conn := { n.conn with
      stopping := true
      queueReset := n.conn.queueReset && !marksDown } }
  | markDisposable : Change n .markDisposable { n with conn := n.conn.markDisposable }
  | cStop (hidle : n.loc = .idle) (hstopping : n.conn.stopping = true) :
    Change n .cStop { n with conn := n.conn.stop }
  | leave (k) (n' : Node β) (hloc : n.loc = .leaving k) (hshell : n'.conn.shell = n.conn.stop.shell)
      (hidle : n'.loc = .idle) :
    Change n .leave n'
  | handOver (sd m auth reset fromPeer) (hbusy : n.conn.busy = false) :
    Change n (.handOver sd m auth reset fromPeer)
      { n with conn := n.conn.markReplacing sd m auth reset fromPeer }
  /-- `handle_replace` comes too late: `do_replace` has run already. -/
  | handleReplaceLate (r) (hidle : n.loc = .idle) (hev : n.conn.evReplace = true)
      (hrepl : n.conn.replacing ≠ 1) :
    Change n (.handleReplace r) { n with conn := { n.conn with evReplace := false } }
  | handleReplace (r) (hidle : n.loc = .idle) (hev : n.conn.evReplace = true)
      (hrepl : n.conn.replacing = 1) :
    Change n (.handleReplace r)
      { n with conn := (({ n.conn with evReplace := false } : Conn β).doReplace enc r).conn }
  | passes (inp k) (n' : Node β) (hloc : n.loc = .process k)
      (hflow : (n.conn.pass K flags enc inp).flow = .next ∨
        (n.conn.pass K flags enc inp).flow = .ret)
      (hshell : n'.conn.shell = (n.conn.pass K flags enc inp).conn.shell)
      (hloc' : n'.loc.isPlain = true) :
    Change n (.pass inp) n'
  /-- Another thread is inside `_try_send`. -/
  | waits (inp k) (close : Bool) (n' : Node β) (hloc : n.loc = .process k)
      (hflow : (n.conn.pass K flags enc inp).flow = if close then .close else .fail)
      (hshell : n'.conn.shell = (n.conn.pass K flags enc inp).conn.shell)
      (hloc' : n'.loc = .waiting k close n.conn.state) :
    Change n (.pass inp) n'
  | givesUp (e c close) (n' : Node β) (hup : GivesUp enc K flags n e close c)
      (hafter : Aftermath enc c close n') :
    Change n e n'

variable {enc K flags}

/-- A quiet step does not take the event thread back from a label `fail`. -/
theorem Moves.not_parting {c : Conn β} {l l' : Loc} (h : Moves c l l') (hl' : l'.isParting = false) :
    l.isParting = false := by
  cases h with
  | stays => exact hl'
  | plain l' h hl => exact hl
  | writesOn pc pc' h => exact h ▸ rfl
  | writes pc h hl => exact hl

/-! ## Where the event thread goes

Out of a method, or on into the next stretch of it. None of these steps takes the thread back from a
label `fail`. -/

theorem isPlain_again (c : Conn β) (win : Option (Window β)) (prev : State) (k : Caller) :
    (again c win prev k).loc.isPlain = true := by
  rw [again]
  split_ifs
  · rfl
  · rw [loc_finish]
    rfl

/-- A write goes on, or is over. -/
theorem loc_writeFlush (c : Conn β) (gather : ℕ) :
    (writeFlush enc c gather).loc = .idle ∨ ∃ pc, (writeFlush enc c gather).loc = .writing pc := by
  rw [writeFlush]
  split_ifs
  · exact Or.inr ⟨_, rfl⟩
  · exact Or.inl rfl
  · exact Or.inr ⟨_, rfl⟩

theorem loc_writeMessages (c : Conn β) (gather : ℕ) :
    (writeMessages enc K flags c gather).loc = .idle ∨
      ∃ pc, (writeMessages enc K flags c gather).loc = .writing pc := by
  rw [writeMessages]
  split_ifs
  · exact loc_writeFlush c gather
  · split
    · exact loc_writeFlush c gather
    · exact Or.inr ⟨_, rfl⟩

theorem moves_writesOn {c : Conn β} {l l' : Loc} {pc : WritePc} (hl : l = .writing pc)
    (h : l' = .idle ∨ ∃ pc', l' = .writing pc') : Moves c l l' := by
  rcases h with rfl | ⟨pc', rfl⟩
  · exact .plain _ rfl (hl ▸ rfl)
  · exact .writesOn pc pc' hl

theorem moves_handleWrite (c : Conn β) {l : Loc} (hl : l.isParting = false)
    (win : Option (Window β)) (gather : ℕ) :
    Moves c l (handleWrite enc K flags c win gather).loc := by
  simp only [handleWrite]
  split_ifs with _ hopen hother
  · exact .plain _ rfl hl
  · have hstate : c.state ∉ [State.connecting, .standby, .wait] := by
      intro hmem
      simp only [List.mem_cons, List.not_mem_nil, or_false] at hmem
      rcases hmem with h | h | h <;> rw [h] at hopen <;> exact absurd hopen (by decide)
    rcases @loc_writeMessages β enc K flags _ gather with h | ⟨pc, h⟩
    · rw [h]
      exact .plain _ rfl hl
    · rw [h]
      exact .writes pc hstate hl
  · exact .plain _ rfl hl
  · exact .plain _ rfl hl
  · exact .writes _ (by simpa using hother) hl
  · exact .plain _ rfl hl

theorem moves_afterWrite (c d : Conn β) {l : Loc} {pc : WritePc} (hl : l = .writing pc)
    (left gather : ℕ) (r : ReplaceInput) :
    Moves d l (afterWrite enc K flags c pc (some left) gather r).node.loc := by
  have hother : Moves d l (if c.state = .waitSend then
      ({ conn := c, loc := .process .nested } : Node β) else writeDone c).loc := by
    split_ifs <;> exact .plain _ rfl (hl ▸ rfl)
  rcases left with _ | left
  · cases pc with
    | message => exact moves_writesOn hl (loc_writeMessages c gather)
    | flush => exact .plain _ rfl (hl ▸ rfl)
    | other => exact hother
  · cases pc with
    | message => exact moves_writesOn hl (loc_writeFlush c gather)
    | flush => exact .plain _ rfl (hl ▸ rfl)
    | other => exact hother

/-! ## Giving up

`fault`, `do_replace` and the way to `_stop`, one of which follows a failure. -/

theorem aftermath_fault {c : Conn β} {win : Option (Window β)} {k : Option Caller}
    (hrepl : c.replacing ≠ 1) : Aftermath enc c false (fault c win k).node := by
  rw [fault]
  split_ifs with hclosed hstops
  · exact .closed _ hrepl hclosed (shell_finish ..) loc_finish
  · exact .parts _ k hrepl (Or.inr ⟨hclosed, hstops⟩) rfl rfl
  · exact .faults _ hrepl rfl hclosed (by simpa using hstops) (shell_finish ..) loc_finish

theorem aftermath_afterWait {c : Conn β} {win : Option (Window β)} {k : Caller} {close : Bool}
    {prev : State} {r : ReplaceInput} :
    Aftermath enc c close (afterWait enc c win k close prev r).node := by
  rw [afterWait]
  split_ifs with hrepl hclose
  · exact .replaced _ r hrepl (shell_again ..) (isPlain_again ..)
  · exact .parts _ (some k) hrepl (Or.inl hclose) rfl rfl
  · rw [Bool.not_eq_true] at hclose
    rw [hclose]
    exact aftermath_fault hrepl

theorem aftermath_writeFail {c : Conn β} {r : ReplaceInput} :
    Aftermath enc { c with sending := false } false (writeFail enc c r).node := by
  simp only [writeFail]
  split_ifs with hrepl
  · exact .replaced _ r hrepl rfl rfl
  · exact aftermath_fault hrepl

/-! ## Every step

The inversion of the step function, by cases of the event. -/

theorem change_sendMessage {n : Node β} {m : Message} {concurrent : Bool} {gather : ℕ} :
    Change enc K flags n (.sendMessage m concurrent gather)
      (sendMessage enc K flags n m concurrent gather) := by
  simp only [sendMessage]
  split_ifs with hstopping _ _ _ hstandby
  · exact .quiet _ _ rfl rfl .stays
  · exact .quiet _ _ rfl rfl .stays
  · exact .quiet _ _ rfl rfl .stays
  · exact .quiet _ _ rfl rfl .stays
  · exact .connects m concurrent gather _ hstandby.1 (by simpa using hstandby.2)
      (by simpa using hstopping) rfl rfl
  · refine .quiet _ _ rfl ?_ .stays
    rw [shell_startWrite]
    rfl

theorem change_relock {n : Node β} {w : Window β} {gather : ℕ} {r : ReplaceInput}
    (hwin : n.win = some w) :
    Change enc K flags n (.relock gather r)
      (relock enc K flags { n with win := none } w gather r).node := by
  have hreturn {c : Conn β} {left : ℕ} (hc : c.shell = n.conn.shell) :
      Change enc K flags n (.relock gather r)
        (returnTrySend enc K flags c w.owner n.loc (some left) gather r).node := by
    rw [returnTrySend.eq_def]
    split
    · exact .quiet _ _ rfl ((shell_finishSend ..).trans hc) .stays
    · rename_i pc _ hloc
      obtain ⟨n', hn', hshell⟩ := shell_afterWrite enc K flags c pc left gather r
      have hmoves : Moves n.conn n.loc (afterWrite enc K flags c pc (some left) gather r).node.loc :=
        moves_afterWrite c n.conn hloc left gather r
      rw [hn'] at hmoves ⊢
      exact .quiet _ _ rfl (hshell.trans hc) hmoves
    · exact .quiet _ _ rfl hc .stays
  simp only [relock]
  split_ifs with herror
  · rw [returnTrySend.eq_def]
    split
    · exact .quiet _ _ rfl (shell_finishSend ..) .stays
    · rename_i howner hloc
      exact .givesUp _ _ _ _ (.write gather r w _ hwin herror howner hloc) aftermath_writeFail
    · exact .quiet _ _ rfl rfl .stays
  · split
    · exact .quiet _ _ rfl rfl .stays
    · rename_i c hsplice
      split_ifs
      · exact .quiet _ _ rfl (shell_splice hsplice) .stays
      · exact hreturn ((shell_setAction c).trans (shell_splice hsplice))

theorem change_processPass {n : Node β} {k : Caller} {inp : Input β} (hloc : n.loc = .process k) :
    Change enc K flags n (.pass inp) (processPass enc K flags n k inp).node := by
  have hwait (close : Bool) (hflow : (n.conn.pass K flags enc inp).flow =
      if close then .close else .fail)
      (hup : GivesUp enc K flags n (.pass inp) close (n.conn.pass K flags enc inp).conn) :
      Change enc K flags n (.pass inp)
        (waitSending enc n (n.conn.pass K flags enc inp).conn k close inp.replace).node := by
    rw [waitSending]
    split_ifs
    · exact .waits inp k close _ hloc hflow rfl rfl
    · exact .givesUp _ _ _ _ hup aftermath_afterWait
  simp only [processPass]
  split <;> rename_i hflow
  · exact .passes inp k _ hloc (Or.inl hflow) (shell_again ..) (isPlain_again ..)
  · refine .passes inp k _ hloc (Or.inr hflow) (shell_finish ..) ?_
    rw [loc_finish]
    rfl
  · exact .quiet _ _ rfl rfl .stays
  · exact hwait false hflow (.pass inp k hloc hflow)
  · exact hwait true hflow (.passClose inp k hloc hflow)

/-- **What a step does.** -/
theorem change_next {n n' : Node β} {e : Event β} (hnext : n.next enc K flags e = some n') :
    Change enc K flags n e n' := by
  rw [next, Option.map_eq_some_iff] at hnext
  obtain ⟨res, hstep, rfl⟩ := hnext
  cases (Step.of_step hstep).2 with
  | sendMessage m concurrent gather => exact change_sendMessage
  | sendKeepaliveClosed => exact .quiet _ _ rfl rfl .stays
  | sendKeepalive =>
    refine .quiet _ _ rfl ?_ .stays
    rw [shell_startWrite]
    rfl
  | sendmsg => exact .quiet _ _ rfl rfl .stays
  | sendmsgError => exact .quiet _ _ rfl rfl .stays
  | relock gather r w hwin => exact change_relock hwin
  | setStopping marksDown => exact .setStopping marksDown
  | markDisposable => exact .markDisposable
  | cStop hidle hstopping => exact .cStop hidle hstopping
  | handOver sd m auth reset fromPeer hbusy => exact .handOver sd m auth reset fromPeer hbusy
  | handleReplace r hidle hev =>
    simp only [handleReplace]
    split_ifs with hrepl
    · exact .handleReplace r hidle hev hrepl
    · exact .handleReplaceLate r hidle hev hrepl
  | timer hidle => exact .quiet _ _ rfl rfl (.plain _ rfl (hidle ▸ rfl))
  | readable hidle => exact .quiet _ _ rfl rfl (.plain _ rfl (hidle ▸ rfl))
  | pass inp k hloc => exact change_processPass hloc
  | wake r k close prev hloc => exact .givesUp _ _ _ _ (.wake r k close prev hloc) aftermath_afterWait
  | leave k hloc => exact .leave k _ hloc (shell_finish ..) loc_finish
  | handleWrite gather hidle =>
    exact .quiet _ _ rfl (shell_handleWrite ..) (moves_handleWrite _ (hidle ▸ rfl) ..)

end Node

end AsyncMessenger
