import AsyncMessenger.Accepting
import AsyncMessenger.Lib.Progress

/-!
# Keepalives

A keepalive carries the time at which it was written, and the other side sends that time back.
Neither side keeps a queue: a request to send a keepalive is one flag, which `handle_write` lowers,
and so is an answer that is due, whose time is that of the newest keepalive. So an answer may be
skipped, but no time comes back twice or out of turn, and if nothing is lost the newest one does
come back.

## The two ends

The two ends are seen here with the frames between them. A frame may be lost at any time, which
stands for a socket that breaks and for one that is replaced, and the state of a connection may
become any other until it is `STATE_CLOSED`. That the bytes of a socket are taken apart into the
frames that were written has been proved for the reader; what it remembers of keepalives is what a
`Pulse` remembers of them (`Reader.heard_of_run`).

`handle_write` may be called at any time. The model has neither `sending` nor the write watcher, so
that it is called when something is asked for is no part of it; nor does anything here say that the
other side is ever heard from.

## The answer

The times that come back are ordered as they were written (`Asks.order`), for every run. When both
sides have a session open and nothing but their own moves happens, each move that changes anything
makes a measure smaller, and there is one as long as something is left to do (`Settles`). So in
whatever order they move they come to where nothing is asked for, due or on the way, and then the
newest time has come back, unless a frame was lost after it was written.
-/

namespace AsyncMessenger

/-- What a connection keeps for keepalives. -/
structure Pulse where
  state : State := .none
  keepalive : Bool := false
  keepaliveAck : Bool := false
  keepaliveAckStamp : Timespec := {}
  lastKeepaliveAck : Timespec := {}
  /-- The frames it has written that the other side has not read. -/
  unread : List WireFrame := []
  /-- History: the times of the keepalives it has written. -/
  sent : List Timespec := []
  /-- History: the times that have come back. -/
  acked : List Timespec := []
  /-- History: no frame has been lost since it wrote its last keepalive. -/
  whole : Bool := true

namespace Pulse

/-- `send_keepalive`. -/
def sendKeepalive (p : Pulse) : Pulse :=
  if p.state = .closed then p else { p with keepalive := true }

/-- The keepalive of `handle_write`, written at the time `now`. -/
def writeKeepalive (p : Pulse) (now : Timespec) : Pulse :=
  if p.keepalive then
    { p with
      keepalive := false
      unread := p.unread ++ [.keepalive2 now]
      sent := p.sent ++ [now]
      whole := true }
  else p

/-- Its answer to the newest keepalive that has been read. -/
def writeKeepaliveAck (p : Pulse) : Pulse :=
  if p.keepaliveAck then
    { p with keepaliveAck := false, unread := p.unread ++ [.keepalive2Ack p.keepaliveAckStamp] }
  else p

/-- `handle_write`; the messages and the acknowledgement that follow are given. -/
def handleWrite (p : Pulse) (now : Timespec) (others : List WireFrame) : Pulse :=
  if p.state.isOpen then
    let p := (p.writeKeepalive now).writeKeepaliveAck
    { p with unread := p.unread ++ others }
  else p

/-- `process`, when it has read a frame. -/
def receive (p : Pulse) : WireFrame → Pulse
  | .keepalive2 t => { p with keepaliveAck := true, keepaliveAckStamp := t }
  | .keepalive2Ack t => { p with lastKeepaliveAck := t, acked := p.acked ++ [t] }
  | _ => p

end Pulse

namespace WireFrame

/-- The time of a keepalive. -/
def asked : WireFrame → Option Timespec
  | .keepalive2 t => some t
  | _ => none

/-- The time an answer brings back. -/
def answered : WireFrame → Option Timespec
  | .keepalive2Ack t => some t
  | _ => none

def isOther (f : WireFrame) : Bool := f.asked.isNone && f.answered.isNone

end WireFrame

/-- What is still to be done: to write what is asked for, to read what is on the way, and to answer.
-/
def Pulse.work (p : Pulse) : ℕ :=
  (if p.keepalive then 4 else 0) + (if p.keepaliveAck then 2 else 0) +
    (p.unread.map fun f ↦ if f.asked.isSome then 3 else 1).sum

/-- The two ends of a session. -/
abbrev Keepalives := Bool → Pulse

namespace Keepalives

/-- What may happen next. -/
inductive Event
  | sendKeepalive (b : Bool)
  | handleWrite (b : Bool) (now : Timespec) (others : List WireFrame)
  /-- The thread that calls `send_message` writes the message itself. -/
  | sendMessage (b : Bool) (f : WireFrame)
  /-- A frame of the other side arrives. -/
  | read (b : Bool)
  /-- A frame that `b` has written is lost. -/
  | lose (b : Bool) (i : ℕ)
  | goto (b : Bool) (state : State)

/-- A frame has been lost on one of the two ways. -/
def spoil (s : Keepalives) : Keepalives := fun b ↦ { s b with whole := false }

def step (s : Keepalives) : Event → Option Keepalives
  | .sendKeepalive b => some (Function.update s b (s b).sendKeepalive)
  | .handleWrite b now others =>
    if others.all WireFrame.isOther then some (Function.update s b ((s b).handleWrite now others)) else none
  | .sendMessage b f =>
    if f.isOther ∧ (s b).state.isOpen then
      some (Function.update s b { s b with unread := (s b).unread ++ [f] })
    else none
  | .read b =>
    if (s b).state.isOpen then match (s !b).unread with
      | [] => none
      | f :: fs => some (Function.update (Function.update s (!b) { s !b with unread := fs }) b ((s b).receive f))
    else none
  | .lose b i =>
    if i < (s b).unread.length then
      some (spoil (Function.update s b { s b with unread := (s b).unread.eraseIdx i }))
    else none
  | .goto b state => if (s b).state = .closed then none else some (Function.update s b { s b with state })

/-- Nothing is asked for, due or on the way. -/
def Quiet (s : Keepalives) : Prop :=
  ∀ b, (s b).keepalive = false ∧ (s b).keepaliveAck = false ∧ (s b).unread = []

/-- What the two do by themselves, at the time `now`. -/
def Event.IsMove (now : Timespec) : Event → Prop
  | .handleWrite _ t others => t = now ∧ others = []
  | .read _ => True
  | _ => False

/-- What the two have still to do. -/
def measure (s : Keepalives) : ℕ := (s false).work + (s true).work

/-- A move leaves everything as it is or brings the two closer to the end, and until they have come
there one of the moves does. -/
structure Settles (now : Timespec) (s : Keepalives) : Prop where
  moves : ∀ e s', Event.IsMove now e → step s e = some s' → s' = s ∨ measure s' < measure s
  next : ¬Quiet s → ∃ e s', Event.IsMove now e ∧ step s e = some s' ∧ measure s' < measure s

end Keepalives

namespace Reader

variable {β : Type} {K : Codec} {flags : CrcFlags} {maxPrefetch page : ℕ} {s s' : Reader β} {p : Pulse}

/-! ## What the reader remembers

The link to the reader of the frames: it has the two times that its frames leave to a pulse that
receives them one after the other. -/

/-- The reader has the two times that its frames leave to a pulse. -/
structure Heard (p : Pulse) (s : Reader β) : Prop where
  stamp : (s.decoded.foldl Pulse.receive p).keepaliveAckStamp = s.keepaliveAckStamp
  last : (s.decoded.foldl Pulse.receive p).lastKeepaliveAck = s.lastKeepaliveAck

/-- With another frame. -/
theorem Heard.frame {f : WireFrame} (h : Heard p s) (hdecoded : s'.decoded = s.decoded ++ [f])
    (hstamp : (f.asked.getD s.keepaliveAckStamp) = s'.keepaliveAckStamp)
    (hlast : (f.answered.getD s.lastKeepaliveAck) = s'.lastKeepaliveAck) : Heard p s' := by
  have hfold : s'.decoded.foldl Pulse.receive p = (s.decoded.foldl Pulse.receive p).receive f := by
    rw [hdecoded, List.foldl_append]
    rfl
  constructor
  · rw [hfold, ← hstamp, ← h.stamp]
    cases f <;> rfl
  · rw [hfold, ← hlast, ← h.last]
    cases f <;> rfl

theorem Heard.record (h : Heard p s) (page : ℕ) (bs : Bytes) : Heard p (s.record page bs) := by
  rw [Reader.record]
  split
  · exact h.frame rfl rfl rfl
  · exact h.frame rfl rfl rfl
  · exact h.frame rfl rfl rfl
  · split
    · exact h
    · exact ⟨h.stamp, h.last⟩
  · exact h.frame rfl rfl rfl
  · exact h

theorem Heard.finish {o : Outcome β} {x : Reader β × Bool} (h : Heard p s)
    (hfinish : s.finish o = some x) :
    Heard p x.1 := by
  rw [Reader.finish] at hfinish
  split at hfinish
  · obtain rfl := Option.some_inj.mp hfinish
    exact ⟨h.stamp, h.last⟩
  · obtain rfl := Option.some_inj.mp hfinish
    exact ⟨h.stamp, h.last⟩
  · exact absurd hfinish (Option.some_ne_none _).symm

theorem Heard.pass {env : Env} {x : Reader β × Bool} (h : Heard p s)
    (hpass : s.pass K flags maxPrefetch page env = some x) : Heard p x.1 := by
  rw [Reader.pass] at hpass
  split_ifs at hpass
  · obtain ⟨y, -, hfinish⟩ := Option.bind_eq_some_iff.mp hpass
    exact Heard.finish (⟨h.stamp, h.last⟩ : Heard p { s with pieces := y.2.1, recv := y.2.2 }) hfinish
  · split at hpass
    · exact (h.record page []).finish hpass
    · split at hpass <;> rename_i recv _
      · exact absurd hpass (Option.some_ne_none _).symm
      · split_ifs at hpass
        exact Heard.finish (⟨h.stamp, h.last⟩ : Heard p { s with recv }) hpass
      · exact (Heard.record (⟨h.stamp, h.last⟩ : Heard p { s with recv }) page _).finish hpass

/-- What the frames of a stream do to a pulse is what a run over its bytes does to the two times. -/
theorem heard_of_run {turns : List Turn} (hdecoded : s.decoded = [])
    (hstamp : p.keepaliveAckStamp = s.keepaliveAckStamp)
    (hlast : p.lastKeepaliveAck = s.lastKeepaliveAck)
    (hrun : Run.exec (turn K flags maxPrefetch page) s turns = some s') : Heard p s' := by
  refine Run.invariant (I := Heard p) (fun t e t' h hturn ↦ ?_) ?_ hrun
  · cases e with
    | pass env =>
      rw [turn, Option.map_eq_some_iff] at hturn
      obtain ⟨x, hpass, rfl⟩ := hturn
      exact h.pass hpass
    | timer =>
      obtain rfl := Option.some_inj.mp hturn
      exact ⟨h.stamp, h.last⟩
  · exact ⟨by rw [hdecoded]; exact hstamp, by rw [hdecoded]; exact hlast⟩

end Reader

/-! ## The times on their way

`due` lists the times that have been sent and have not come back: on the way there, waiting for an
answer, on the way back. Together with those that have come back they are a sublist of what was
sent, in this order. -/

theorem WireFrame.filterMap_of_isOther {fs : List WireFrame} (h : fs.all isOther = true) :
    fs.filterMap asked = [] ∧ fs.filterMap answered = [] := by
  rw [List.all_eq_true] at h
  refine ⟨List.filterMap_eq_nil_iff.mpr fun f hf ↦ ?_, List.filterMap_eq_nil_iff.mpr fun f hf ↦ ?_⟩
  · exact Option.isNone_iff_eq_none.mp (Bool.and_eq_true_iff.mp (h f hf)).1
  · exact Option.isNone_iff_eq_none.mp (Bool.and_eq_true_iff.mp (h f hf)).2

namespace Pulse

/-- The time of the answer that is due. -/
def stamp (p : Pulse) : List Timespec := if p.keepaliveAck then [p.keepaliveAckStamp] else []

/-- The times that `p` has sent and `q` has, or that are on the way there or back, the oldest first.
-/
def due (p q : Pulse) : List Timespec :=
  q.unread.filterMap WireFrame.answered ++ (q.stamp ++ p.unread.filterMap WireFrame.asked)

/-- What holds of one that asks and the one that answers. -/
structure Asks (p q : Pulse) : Prop where
  order : (p.acked ++ p.due q).Sublist p.sent
  last : p.lastKeepaliveAck = p.acked.getLastD {}
  newest : p.whole = true → (p.acked ++ p.due q).getLast? = p.sent.getLast?

variable {p q p' q' : Pulse}

/-- A step that neither sends a time nor moves one. -/
theorem Asks.keep (h : p.Asks q) (hacked : p'.acked = p.acked)
    (hack : p'.lastKeepaliveAck = p.lastKeepaliveAck)
    (hsent : p'.sent = p.sent) (hwhole : p'.whole = p.whole) (hdue : p'.due q' = p.due q) : p'.Asks q' where
  order := by
    rw [hacked, hdue, hsent]
    exact h.order
  last := by
    rw [hack, hacked]
    exact h.last
  newest hw := by
    rw [hacked, hdue, hsent]
    exact h.newest (hwhole ▸ hw)

theorem Asks.sendKeepalive (h : p.Asks q) : p.sendKeepalive.Asks q := by
  rw [Pulse.sendKeepalive]
  split
  · exact h
  · exact h.keep rfl rfl rfl rfl rfl

theorem Asks.sendKeepalive_right (h : p.Asks q) : p.Asks q.sendKeepalive := by
  rw [Pulse.sendKeepalive]
  split
  · exact h
  · exact h.keep rfl rfl rfl rfl rfl

/-- A keepalive that is written is the newest of the times. -/
theorem Asks.writeKeepalive (h : p.Asks q) (now : Timespec) : (p.writeKeepalive now).Asks q := by
  rw [Pulse.writeKeepalive]
  split
  · have hdue : p.acked ++ ({ p with
        keepalive := false
        unread := p.unread ++ [.keepalive2 now]
        sent := p.sent ++ [now]
        whole := true } : Pulse).due q = p.acked ++ p.due q ++ [now] := by
      simp only [due, List.filterMap_append, List.append_assoc]
      rfl
    refine ⟨?_, h.last, fun _ ↦ ?_⟩
    · rw [hdue]
      exact h.order.append (List.Sublist.refl [now])
    · rw [hdue, List.getLast?_concat, List.getLast?_concat]
  · exact h

theorem Asks.writeKeepalive_right (h : p.Asks q) (now : Timespec) : p.Asks (q.writeKeepalive now) := by
  rw [Pulse.writeKeepalive]
  split
  · apply h.keep rfl rfl rfl rfl
    simp only [due, List.filterMap_append]
    exact congrArg (· ++ _) (List.append_nil _)
  · exact h

theorem Asks.writeKeepaliveAck (h : p.Asks q) : p.writeKeepaliveAck.Asks q := by
  rw [Pulse.writeKeepaliveAck]
  split
  · refine h.keep rfl rfl rfl rfl ?_
    simp only [due, List.filterMap_append]
    exact congrArg _ (congrArg _ (List.append_nil _))
  · exact h

/-- The answer that is due becomes the last on its way. -/
theorem Asks.writeKeepaliveAck_right (h : p.Asks q) : p.Asks q.writeKeepaliveAck := by
  rw [Pulse.writeKeepaliveAck]
  split <;> rename_i hack
  · apply h.keep rfl rfl rfl rfl
    have hstamp : q.stamp = [q.keepaliveAckStamp] := if_pos hack
    simp only [due, hstamp, List.filterMap_append, List.append_assoc]
    rfl
  · exact h

theorem due_others {others : List WireFrame} (hothers : others.all WireFrame.isOther = true) :
    ({ p with unread := p.unread ++ others } : Pulse).due q = p.due q ∧
      p.due { q with unread := q.unread ++ others } = p.due q := by
  obtain ⟨hasked, hanswered⟩ := WireFrame.filterMap_of_isOther hothers
  constructor
  · simp only [due, List.filterMap_append, hasked, List.append_nil]
  · simp only [due, List.filterMap_append, hanswered, List.append_nil]
    rfl

theorem Asks.handleWrite (h : p.Asks q) (now : Timespec) {others : List WireFrame}
    (hothers : others.all WireFrame.isOther = true) : (p.handleWrite now others).Asks q := by
  rw [Pulse.handleWrite]
  split
  · exact (h.writeKeepalive now).writeKeepaliveAck.keep rfl rfl rfl rfl (due_others hothers).1
  · exact h

theorem Asks.handleWrite_right (h : p.Asks q) (now : Timespec) {others : List WireFrame}
    (hothers : others.all WireFrame.isOther = true) : p.Asks (q.handleWrite now others) := by
  rw [Pulse.handleWrite]
  split
  · exact (h.writeKeepalive_right now).writeKeepaliveAck_right.keep rfl rfl rfl rfl (due_others hothers).2
  · exact h

/-! ## Reading -/

/-- The answer to a keepalive that is read takes the place of one that was due. -/
theorem Asks.ask {t : Timespec} {fs : List WireFrame} (h : p.Asks q)
    (hread : p.unread = .keepalive2 t :: fs) :
    ({ p with unread := fs } : Pulse).Asks (q.receive (.keepalive2 t)) := by
  have hold : p.acked ++ p.due q = p.acked ++ (q.unread.filterMap WireFrame.answered ++ q.stamp) ++
      (t :: fs.filterMap WireFrame.asked) := by
    rw [due, hread, List.append_assoc, List.append_assoc]
    rfl
  have hnew : p.acked ++ ({ p with unread := fs } : Pulse).due (q.receive (.keepalive2 t)) =
      p.acked ++ q.unread.filterMap WireFrame.answered ++ (t :: fs.filterMap WireFrame.asked) := by
    rw [due, List.append_assoc]
    rfl
  have horder := h.order
  have hnewest := h.newest
  rw [hold] at horder hnewest
  refine ⟨?_, h.last, fun hw ↦ ?_⟩
  · -- what was due before is left out
    rw [hnew]
    refine List.Sublist.trans ?_ horder
    rw [← List.append_assoc, List.append_assoc (_ ++ _) q.stamp]
    exact (List.Sublist.refl _).append (List.sublist_append_right _ _)
  · -- and the newest time is behind it
    rw [hnew, ← hnewest hw, List.getLast?_append_of_ne_nil _ (List.cons_ne_nil _ _),
      List.getLast?_append_of_ne_nil _ (List.cons_ne_nil _ _)]

/-- An answer that is read is the oldest of the times on the way. -/
theorem Asks.answer {t : Timespec} {fs : List WireFrame} (h : p.Asks q)
    (hread : q.unread = .keepalive2Ack t :: fs) :
    (p.receive (.keepalive2Ack t)).Asks { q with unread := fs } := by
  have hsame : p.acked ++ [t] ++ (p.receive (.keepalive2Ack t)).due { q with unread := fs } =
      p.acked ++ p.due q := by
    rw [due, due, hread, List.append_assoc]
    rfl
  refine ⟨?_, ?_, fun hw ↦ ?_⟩
  · exact hsame ▸ h.order
  · rw [receive, List.getLastD_concat]
  · exact (congrArg List.getLast? hsame).trans (h.newest hw)

/-- What a frame does to the reader as the one that asks, and as the one that answers. -/
theorem Asks.receive {f : WireFrame} {fs : List WireFrame} (h : p.Asks q) (hread : q.unread = f :: fs) :
    (p.receive f).Asks { q with unread := fs } := by
  cases f with
  | keepalive2Ack t => exact h.answer hread
  | _ => exact h.keep rfl rfl rfl rfl (by rw [due, due, hread]; rfl)

theorem Asks.receive_right {f : WireFrame} {fs : List WireFrame} (h : p.Asks q)
    (hread : p.unread = f :: fs) :
    ({ p with unread := fs } : Pulse).Asks (q.receive f) := by
  cases f with
  | keepalive2 t => exact h.ask hread
  | _ => exact h.keep rfl rfl rfl rfl (by rw [due, due, hread]; rfl)

/-- With a frame lost the times on the way are fewer. -/
theorem Asks.lose (h : p.Asks q) (hacked : p'.acked = p.acked)
    (hack : p'.lastKeepaliveAck = p.lastKeepaliveAck)
    (hsent : p'.sent = p.sent) (hwhole : p'.whole = false) (hstamp : q'.stamp = q.stamp)
    (hp : p'.unread.Sublist p.unread) (hq : q'.unread.Sublist q.unread) : p'.Asks q' where
  order := by
    rw [hacked, hsent, due, hstamp]
    refine List.Sublist.trans ((List.Sublist.refl _).append ?_) h.order
    exact (hq.filterMap _).append ((List.Sublist.refl _).append (hp.filterMap _))
  last := by
    rw [hack, hacked]
    exact h.last
  newest hw := by
    rw [hwhole] at hw
    exact nomatch hw

/-! ## What the two do by themselves

Writing a keepalive costs it more than the frame it becomes, reading one more than the answer that
is due then, and so on: the weights of `work` go down along the way of a keepalive. -/

/-- What will have come back when all is done. -/
def target (now : Timespec) (p : Pulse) : Timespec := if p.keepalive then now else p.sent.getLastD {}

/-- The newest keepalive has yet to be written, or nothing has been lost since it was. -/
def Sure (p : Pulse) : Prop := p.keepalive = true ∨ p.whole = true

/-- What has become of a side after moves of both. -/
structure Follows (now : Timespec) (p p' : Pulse) : Prop where
  state : p'.state = p.state
  sure : p.Sure → p'.Sure
  target : p'.target now = p.target now

theorem Follows.refl (now : Timespec) (p : Pulse) : p.Follows now p := ⟨rfl, id, rfl⟩

theorem Follows.trans {now : Timespec} (h : p.Follows now p') (h' : p'.Follows now q) :
    p.Follows now q :=
  ⟨h'.state.trans h.state, h'.sure ∘ h.sure, h'.target.trans h.target⟩

/-- A move that does not touch what the side asks for. -/
theorem Follows.of_eq {now : Timespec} (hstate : p'.state = p.state)
    (hkeepalive : p'.keepalive = p.keepalive)
    (hsent : p'.sent = p.sent) (hwhole : p'.whole = p.whole) : p.Follows now p' where
  state := hstate
  sure := by
    rw [Sure, Sure, hkeepalive, hwhole]
    exact id
  target := by
    rw [Pulse.target, Pulse.target, hkeepalive, hsent]

theorem follows_receive (now : Timespec) (p : Pulse) (f : WireFrame) : p.Follows now (p.receive f) := by
  cases f <;> exact .of_eq rfl rfl rfl rfl

theorem follows_writeKeepalive (now : Timespec) (p : Pulse) : p.Follows now (p.writeKeepalive now) := by
  rw [writeKeepalive]
  split <;> rename_i hasked
  · refine ⟨rfl, fun _ ↦ Or.inr rfl, ?_⟩
    rw [Pulse.target, Pulse.target, if_pos hasked]
    exact List.getLastD_concat
  · exact .refl now p

theorem follows_writeKeepaliveAck (now : Timespec) (p : Pulse) : p.Follows now p.writeKeepaliveAck := by
  rw [writeKeepaliveAck]
  split
  · exact .of_eq rfl rfl rfl rfl
  · exact .refl now p

theorem follows_handleWrite (now : Timespec) (p : Pulse) (others : List WireFrame) :
    p.Follows now (p.handleWrite now others) := by
  rw [handleWrite]
  split
  · exact ((follows_writeKeepalive now p).trans (follows_writeKeepaliveAck now _)).trans (.of_eq rfl rfl rfl rfl)
  · exact .refl now p

theorem work_writeKeepalive (p : Pulse) (now : Timespec) :
    work (p.writeKeepalive now) + (if p.keepalive then 1 else 0) = work p ∧
      (p.writeKeepalive now).keepaliveAck = p.keepaliveAck := by
  rw [writeKeepalive]
  split <;> rename_i hasked
  · refine ⟨?_, rfl⟩
    rw [work, work, List.map_append, List.sum_append, if_pos hasked]
    simp only [List.map_cons, List.map_nil, List.sum_cons, List.sum_nil, WireFrame.asked, Option.isSome_some,
      if_true, Bool.false_eq_true, if_false]
    omega
  · exact ⟨rfl, rfl⟩

theorem work_writeKeepaliveAck (p : Pulse) :
    work p.writeKeepaliveAck + (if p.keepaliveAck then 1 else 0) = work p := by
  rw [writeKeepaliveAck]
  split <;> rename_i hdue
  · rw [work, work, List.map_append, List.sum_append, if_pos hdue]
    simp only [List.map_cons, List.map_nil, List.sum_cons, List.sum_nil, WireFrame.asked, Option.isSome_none,
      Bool.false_eq_true, if_false]
    omega
  · rfl

/-- Something is written if something is asked for or due. -/
theorem work_handleWrite (now : Timespec) (hopen : p.state.isOpen = true)
    (hdue : p.keepalive = true ∨ p.keepaliveAck = true) : work (p.handleWrite now []) < work p := by
  obtain ⟨hasked, hsame⟩ := work_writeKeepalive p now
  have hanswered := work_writeKeepaliveAck (p.writeKeepalive now)
  have hwork : work (p.handleWrite now []) = work (p.writeKeepalive now).writeKeepaliveAck := by
    rw [handleWrite, if_pos hopen]
    exact congrArg (fun fs : List WireFrame ↦ _ + (fs.map _).sum) (List.append_nil _)
  rw [hwork]
  rw [hsame] at hanswered
  rcases hdue with hdue | hdue
  · rw [if_pos hdue] at hasked
    omega
  · rw [if_pos hdue] at hanswered
    omega

/-- Nothing is written if nothing is asked for or due. -/
theorem handleWrite_idle (now : Timespec) (hidle : ¬(p.keepalive = true ∨ p.keepaliveAck = true)) :
    p.handleWrite now [] = p := by
  have hasked : p.writeKeepalive now = p := if_neg fun h ↦ hidle (Or.inl h)
  have hdue : p.writeKeepaliveAck = p := if_neg fun h ↦ hidle (Or.inr h)
  rw [handleWrite, hasked, hdue]
  dsimp only
  rw [List.append_nil, ite_self]

theorem work_cons {f : WireFrame} {fs : List WireFrame} (hunread : q.unread = f :: fs) :
    work q = work { q with unread := fs } + if f.asked.isSome then 3 else 1 := by
  simp only [work, hunread, List.map_cons, List.sum_cons]
  omega

/-- The answer to a keepalive costs less than the keepalive. -/
theorem work_receive (p : Pulse) (f : WireFrame) :
    work (p.receive f) < work p + if f.asked.isSome then 3 else 1 := by
  cases f with
  | keepalive2 t =>
    have hload : (if (WireFrame.keepalive2 t).asked.isSome then 3 else 1) = 3 := rfl
    rw [hload, work, work, receive]
    dsimp only
    rw [if_pos rfl]
    omega
  | _ => exact Nat.lt_succ_self _

theorem work_read {f : WireFrame} {fs : List WireFrame} (hunread : q.unread = f :: fs) :
    work (p.receive f) + work { q with unread := fs } < work p + work q := by
  have hq := work_cons hunread
  have hp := work_receive p f
  omega

end Pulse

namespace Keepalives

variable {s s' : Keepalives} {b : Bool}

/-! ## Every step -/

def Inv (s : Keepalives) : Prop := ∀ b, (s b).Asks (s !b)

theorem inv_start : Inv fun _ ↦ {} := fun _ ↦ {
  order := List.Sublist.refl _
  last := rfl
  newest := fun _ ↦ rfl }

theorem update_not (s : Keepalives) (b : Bool) (p : Pulse) : Function.update s b p (!b) = s !b :=
  Function.update_of_ne (Bool.not_ne_self b) p s

/-- Only one of the two changes. -/
theorem inv_update {p : Pulse} (hasks : p.Asks (s !b)) (hanswers : (s !b).Asks p) :
    Inv (Function.update s b p) := by
  intro c
  by_cases hc : c = b
  · rw [hc, Function.update_self, update_not]
    exact hasks
  · obtain rfl := Bool.eq_not.mpr hc
    rw [update_not, Bool.not_not, Function.update_self]
    exact hanswers

theorem Inv.flip (h : Inv s) (b : Bool) : (s !b).Asks (s b) := by
  have hb := h !b
  rwa [Bool.not_not] at hb

theorem Inv.read {f : WireFrame} {fs : List WireFrame} (h : Inv s) (hunread : (s !b).unread = f :: fs) :
    Inv (Function.update (Function.update s (!b) { s !b with unread := fs }) b ((s b).receive f)) := by
  intro c
  by_cases hc : c = b
  · rw [hc, Function.update_self, update_not, Function.update_self]
    exact (h b).receive hunread
  · obtain rfl := Bool.eq_not.mpr hc
    rw [update_not, Bool.not_not, Function.update_self, Function.update_self]
    exact (h.flip b).receive_right hunread

theorem Inv.lose (h : Inv s) (b : Bool) (i : ℕ) :
    Inv (spoil (Function.update s b { s b with unread := (s b).unread.eraseIdx i })) := by
  intro c
  by_cases hc : c = b
  · rw [hc, spoil, spoil, Function.update_self, update_not]
    exact (h b).lose rfl rfl rfl rfl rfl (List.eraseIdx_sublist _ i) (List.Sublist.refl _)
  · obtain rfl := Bool.eq_not.mpr hc
    rw [spoil, spoil, update_not, Bool.not_not, Function.update_self]
    exact (h.flip b).lose rfl rfl rfl rfl rfl (List.Sublist.refl _) (List.eraseIdx_sublist _ i)

theorem inv_step {e : Event} (h : Inv s) (hstep : step s e = some s') : Inv s' := by
  cases e with
  | sendKeepalive b =>
    obtain rfl := Option.some_inj.mp hstep
    exact inv_update (h b).sendKeepalive (h.flip b).sendKeepalive_right
  | handleWrite b now others =>
    rw [step] at hstep
    split_ifs at hstep with hothers
    obtain rfl := Option.some_inj.mp hstep
    exact inv_update ((h b).handleWrite now hothers) ((h.flip b).handleWrite_right now hothers)
  | sendMessage b f =>
    rw [step] at hstep
    split_ifs at hstep with hf
    obtain rfl := Option.some_inj.mp hstep
    have hothers : [f].all WireFrame.isOther = true := by
      rw [List.all_cons, hf.1]
      rfl
    exact inv_update ((h b).keep rfl rfl rfl rfl (Pulse.due_others hothers).1)
      ((h.flip b).keep rfl rfl rfl rfl (Pulse.due_others hothers).2)
  | read b =>
    rw [step] at hstep
    split_ifs at hstep
    split at hstep <;> rename_i hunread
    · exact nomatch hstep
    · obtain rfl := Option.some_inj.mp hstep
      exact h.read hunread
  | lose b i =>
    rw [step] at hstep
    split_ifs at hstep
    obtain rfl := Option.some_inj.mp hstep
    exact h.lose b i
  | goto b state =>
    rw [step] at hstep
    split_ifs at hstep
    obtain rfl := Option.some_inj.mp hstep
    exact inv_update ((h b).keep rfl rfl rfl rfl rfl) ((h.flip b).keep rfl rfl rfl rfl rfl)

/-! ## The answer comes -/

theorem measure_eq (s : Keepalives) (b : Bool) : measure s = (s b).work + (s !b).work := by
  cases b
  · rfl
  · exact Nat.add_comm _ _

/-- On the way to an answer. -/
structure Going (now : Timespec) (s₀ s : Keepalives) : Prop where
  inv : Inv s
  opened : ∀ b, (s b).state.isOpen = true
  follows : ∀ b, (s₀ b).Follows now (s b)

variable {now : Timespec} {s₀ : Keepalives}

theorem Going.handleWrite (h : Going now s₀ s) (b : Bool) :
    step s (.handleWrite b now []) = some (Function.update s b ((s b).handleWrite now [])) ∧
      Going now s₀ (Function.update s b ((s b).handleWrite now [])) := by
  have hstep : step s (.handleWrite b now []) = some (Function.update s b ((s b).handleWrite now [])) := by
    rw [step, if_pos List.all_nil]
  refine ⟨hstep, inv_step h.inv hstep, fun c ↦ ?_, fun c ↦ ?_⟩
  · by_cases hc : c = b
    · rw [hc, Function.update_self, (Pulse.follows_handleWrite now (s b) []).state]
      exact h.opened b
    · rw [Function.update_of_ne hc]
      exact h.opened c
  · by_cases hc : c = b
    · rw [hc, Function.update_self]
      exact (h.follows b).trans (Pulse.follows_handleWrite now (s b) [])
    · rw [Function.update_of_ne hc]
      exact h.follows c

theorem Going.measure_handleWrite (h : Going now s₀ s)
    (hdue : (s b).keepalive = true ∨ (s b).keepaliveAck = true) :
    measure (Function.update s b ((s b).handleWrite now [])) < measure s := by
  rw [measure_eq _ b, measure_eq s b, Function.update_self, update_not]
  exact Nat.add_lt_add_right (Pulse.work_handleWrite now (h.opened b) hdue) _

theorem Going.read {f : WireFrame} {fs : List WireFrame} (h : Going now s₀ s)
    (hunread : (s !b).unread = f :: fs) :
    ∃ s', step s (.read b) = some s' ∧ Going now s₀ s' ∧ measure s' < measure s := by
  have hstep : step s (.read b) =
      some (Function.update (Function.update s (!b) { s !b with unread := fs }) b ((s b).receive f)) := by
    rw [step, if_pos (h.opened b), hunread]
  have hreads := Pulse.follows_receive now (s b) f
  have hread : (s !b).Follows now { s !b with unread := fs } := .of_eq rfl rfl rfl rfl
  refine ⟨_, hstep, ⟨inv_step h.inv hstep, fun c ↦ ?_, fun c ↦ ?_⟩, ?_⟩
  · by_cases hc : c = b
    · rw [hc, Function.update_self, hreads.state]
      exact h.opened b
    · obtain rfl := Bool.eq_not.mpr hc
      rw [update_not, Function.update_self]
      exact h.opened !b
  · by_cases hc : c = b
    · rw [hc, Function.update_self]
      exact (h.follows b).trans hreads
    · obtain rfl := Bool.eq_not.mpr hc
      rw [update_not, Function.update_self]
      exact (h.follows !b).trans hread
  · rw [measure_eq _ b, measure_eq s b, Function.update_self, update_not, Function.update_self]
    exact Pulse.work_read hunread

/-- A move of one of the two, whichever it is. -/
theorem Going.move {e : Event} (h : Going now s₀ s) (he : Event.IsMove now e) (hstep : step s e = some s') :
    Going now s₀ s' ∧ (s' = s ∨ measure s' < measure s) := by
  cases e with
  | handleWrite b t others =>
    obtain ⟨rfl, rfl⟩ := he
    obtain ⟨hwrite, hgoing⟩ := h.handleWrite b
    obtain rfl := Option.some_inj.mp (hwrite.symm.trans hstep)
    refine ⟨hgoing, ?_⟩
    by_cases hdue : (s b).keepalive = true ∨ (s b).keepaliveAck = true
    · exact Or.inr (h.measure_handleWrite hdue)
    · rw [Pulse.handleWrite_idle t hdue, Function.update_eq_self]
      exact Or.inl rfl
  | read b =>
    cases hunread : (s !b).unread with
    | nil =>
      rw [step, hunread, ite_self] at hstep
      exact nomatch hstep
    | cons f fs =>
      obtain ⟨t, hread, hgoing, hlt⟩ := h.read hunread
      obtain rfl := Option.some_inj.mp (hread.symm.trans hstep)
      exact ⟨hgoing, Or.inr hlt⟩
  | sendKeepalive b => exact he.elim
  | sendMessage b f => exact he.elim
  | lose b i => exact he.elim
  | goto b state => exact he.elim

/-- While anything is asked for, due or on the way, one of the two can go on. -/
theorem Going.next (h : Going now s₀ s) (hquiet : ¬ Quiet s) :
    ∃ e s', Event.IsMove now e ∧ step s e = some s' ∧ Going now s₀ s' ∧ measure s' < measure s := by
  by_cases hdue : ∃ b, (s b).keepalive = true ∨ (s b).keepaliveAck = true
  · obtain ⟨b, hb⟩ := hdue
    obtain ⟨hstep, hgoing⟩ := h.handleWrite b
    exact ⟨.handleWrite b now [], _, ⟨rfl, rfl⟩, hstep, hgoing, h.measure_handleWrite hb⟩
  · -- then there is a frame to be read
    obtain ⟨b, hb⟩ : ∃ b, (s b).unread ≠ [] := by
      by_contra hall
      refine hquiet fun b ↦ ⟨?_, ?_, ?_⟩
      · exact Bool.eq_false_iff.mpr fun hb ↦ hdue ⟨b, Or.inl hb⟩
      · exact Bool.eq_false_iff.mpr fun hb ↦ hdue ⟨b, Or.inr hb⟩
      · exact not_not.mp fun hb ↦ hall ⟨b, hb⟩
    obtain ⟨f, fs, hunread⟩ := List.exists_cons_of_ne_nil hb
    have hunread' : (s !!b).unread = f :: fs := (congrArg (fun c ↦ (s c).unread) (Bool.not_not b)).trans hunread
    obtain ⟨s', hstep, hnext⟩ := h.read hunread'
    exact ⟨.read !b, s', trivial, hstep, hnext⟩

theorem Going.settles (h : Going now s₀ s) : Settles now s where
  moves _ _ he hstep := (h.move he hstep).2
  next hquiet := by
    obtain ⟨e, s', he, hstep, -, hlt⟩ := h.next hquiet
    exact ⟨e, s', he, hstep, hlt⟩

/-- When nothing is on the way and nothing has been lost, the newest time has come back. -/
theorem Inv.lastKeepaliveAck_of_quiet (h : Inv s) (hquiet : Quiet s) (hsure : (s b).Sure) :
    (s b).lastKeepaliveAck = (s b).target now := by
  obtain ⟨hasked, -, hunread⟩ := hquiet b
  obtain ⟨-, hanswered, hunread'⟩ := hquiet !b
  have hdue : (s b).due (s !b) = [] := by
    rw [Pulse.due, Pulse.stamp, hunread, hunread', hanswered]
    rfl
  have hwhole : (s b).whole = true := hsure.resolve_left (by rw [hasked]; exact Bool.false_ne_true)
  have hnewest := (h b).newest hwhole
  rw [hdue, List.append_nil] at hnewest
  rw [(h b).last, Pulse.target, hasked, List.getLastD_eq_getLast?, hnewest, ← List.getLastD_eq_getLast?]
  rfl

/-- Where the two have come to the end, the time of the newest keepalive has come back. -/
theorem Going.last (h : Going now s₀ s) (hquiet : Quiet s) (hsure : (s₀ b).Sure) :
    (s b).lastKeepaliveAck = (s₀ b).target now := by
  rw [h.inv.lastKeepaliveAck_of_quiet hquiet ((h.follows b).sure hsure)]
  exact (h.follows b).target

/-- **Keepalives are answered in order, and the newest one is answered.** Whatever is lost, and
however the states change, the times that come back are some of those that were written, in the
order in which they were, and `last_keepalive_ack` is the newest of them; so it never goes back
unless the clock does. And when both sides have a session open, they come by themselves to where
nothing is asked for, due or on the way, whatever order they move in; then `last_keepalive_ack` is the
time of the last keepalive, unless a frame has been lost since it was written. -/
theorem acked_in_order {es : List Event} (hrun : Run.exec step (fun _ ↦ {}) es = some s) (b : Bool) :
    (s b).acked.Sublist (s b).sent ∧ (s b).lastKeepaliveAck = (s b).acked.getLastD {} ∧
      ((∀ c, (s c).state.isOpen = true) → (s b).keepalive = true ∨ (s b).whole = true → ∀ now,
        (∃ moves s', (∀ e ∈ moves, Event.IsMove now e) ∧ Run.exec step s moves = some s' ∧ Quiet s' ∧
          (s' b).lastKeepaliveAck = if (s b).keepalive then now else (s b).sent.getLastD {}) ∧
        ∀ moves s', (∀ e ∈ moves, Event.IsMove now e) → Run.exec step s moves = some s' →
          Settles now s' ∧ (Quiet s' →
            (s' b).lastKeepaliveAck = if (s b).keepalive then now else (s b).sent.getLastD {})) := by
  have h : Inv s := Run.invariant (fun _ _ _ ↦ inv_step) inv_start hrun
  refine ⟨(List.sublist_append_left _ _).trans (h b).order, (h b).last, fun hopen hsure now ↦ ⟨?_, ?_⟩⟩
  · -- the two go on until the measure is used up; what is asked for stays the same on the way
    obtain ⟨moves, s', hmoves, hrest, hgoing, hquiet⟩ :=
      Run.exists_of_measure measure (fun _ hgoing hquiet ↦ Going.next hgoing hquiet)
        (⟨h, hopen, fun c ↦ .refl now (s c)⟩ : Going now s s)
    exact ⟨moves, s', hmoves, hrest, hquiet, hgoing.last hquiet hsure⟩
  · intro moves s' hmoves hrest
    have hgoing : Going now s s' :=
      Run.invariant_of_meets (fun _ _ _ hgoing he hstep ↦ (Going.move hgoing he hstep).1)
        ⟨h, hopen, fun c ↦ .refl now (s c)⟩ (Run.Meets.of_forall (fun e he _ ↦ hmoves e he) s) hrest
    exact ⟨hgoing.settles, fun hquiet ↦ hgoing.last hquiet hsure⟩

/-- Two keepalives, of which the first is lost. -/
def secondAnswered : List Event :=
  [.goto true .opened, .sendKeepalive true, .handleWrite true { sec := 1 } [], .goto false .opened, .lose true 0,
    .sendKeepalive true, .handleWrite true { sec := 2 } [.ack 3]]

theorem acked_in_order_second :
    ∃ s, Run.exec step (fun _ ↦ {}) secondAnswered = some s ∧ (s true).sent = [{ sec := 1 }, { sec := 2 }] ∧
      ∃ moves s', Run.exec step s moves = some s' ∧ (s' true).lastKeepaliveAck = { sec := 2 } := by
  have hend : ((Run.exec step (fun _ ↦ {}) secondAnswered).any fun s ↦
      decide ((s true).sent = [{ sec := 1 }, { sec := 2 }]) && (s true).whole && !(s true).keepalive &&
        (s true).state.isOpen && (s false).state.isOpen) = true := by decide +kernel
  obtain ⟨s, hrun, hs⟩ := (Option.any_eq_true _ _).mp hend
  simp only [Bool.and_eq_true, Bool.not_eq_true', decide_eq_true_eq] at hs
  obtain ⟨⟨⟨⟨hsent, hwhole⟩, hasked⟩, hopen⟩, hopen'⟩ := hs
  obtain ⟨-, -, hanswer⟩ := acked_in_order hrun true
  obtain ⟨⟨moves, s', -, hrest, -, hlast⟩, -⟩ :=
    hanswer (Bool.forall_bool.mpr ⟨hopen', hopen⟩) (Or.inr hwhole) {}
  rw [hasked, hsent] at hlast
  exact ⟨s, hrun, hsent, moves, s', hrest, hlast⟩

end Keepalives

end AsyncMessenger
