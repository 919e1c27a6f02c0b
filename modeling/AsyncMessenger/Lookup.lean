import AsyncMessenger.Registry

/-!
# Looking up a connection

`get_connection` returns the connection registered for an address, or makes a new one. It looks at
the address only. A connection leaves the registry in `_stop`, on its event thread; `mark_down` and
`stop` have set `stopping` long before, and from then on `send_message` drops what it is given.

So `get_connection` may return a connection that takes nothing any more, and the theorem says
exactly when: if one of the steps so far is a call of `mark_down` or `stop` on it. `Recorded` is the
invariant that ties the flag to these calls. It is proved along the run, for all connections at
once, from `stopping_turn`: a step sets `stopping` of a connection if it is such a call, and no step
clears it.
-/

namespace AsyncMessenger

namespace Node

variable {β : Type} {enc : Frame → List β} {K : Codec} {flags : CrcFlags}

/-- The connection is neither closed nor stopping. -/
def Live (n : Node β) : Prop := n.conn.state ≠ .closed ∧ n.conn.stopping = false

/-- The message is queued, or numbered and on its way. -/
def Takes (n n' : Node β) (m : Message) : Prop :=
  n'.conn.q = n.conn.q.push m ∨ n'.conn.q = (n.conn.q.number n.conn.policy.lossy m).2

/-- `send_message` takes the messages for a live connection. -/
theorem takes_sendMessage {n : Node β} (h : n.Live) (m : Message) (concurrent : Bool) (gather : ℕ) :
    n.Takes (sendMessage enc K flags n m concurrent gather) m := by
  rw [sendMessage, if_neg (by simp [h.2])]
  split_ifs with hdirect hclosed
  · exact Or.inr rfl
  · exact absurd hclosed h.1
  · apply Or.inl
    simp only [Conn.startWrite_eq]
    split_ifs <;> rfl

/-- It drops them for any other. -/
theorem sendMessage_of_stopping {n : Node β} (h : n.conn.stopping = true) (m : Message)
    (concurrent : Bool) (gather : ℕ) : sendMessage enc K flags n m concurrent gather = n := by
  rw [sendMessage, if_pos h]

end Node

namespace Messenger

variable {α β : Type} {s : Messenger α β} {enc : Frame → List β} {K : Codec} {flags : CrcFlags}

/-- One of the steps is a call of `mark_down` or `stop` on connection `i`. -/
def Marks (acts : List (Action α β)) (i : ℕ) : Prop :=
  ∃ a marksDown, Action.run i a (.setStopping marksDown) ∈ acts

theorem fill_setsStopping (i : ℕ) (e : Event β) : (s.fill i e).setsStopping = e.setsStopping := by
  cases e <;> rfl

theorem eq_setStopping {e : Event β} (h : e.setsStopping = true) :
    ∃ marksDown, e = .setStopping marksDown := by
  cases e <;> first | exact ⟨_, rfl⟩ | exact absurd h (by simp [Event.setsStopping])

/-- A step sets `stopping` of a connection if it is a call of `mark_down` or `stop` on it. -/
theorem stopping_turn {act : Action α β} {i : ℕ} {reg : Bool} {m : Member α β}
    (hturn : Turn enc K flags s i act reg m) :
    m.node.conn.stopping = true ↔ (s.member i).node.conn.stopping = true ∨ Marks [act] i := by
  have hkeeps (h : m.node.conn.stopping = (s.member i).node.conn.stopping)
      (hact : ∀ a marksDown, act ≠ .run i a (.setStopping marksDown)) :
      m.node.conn.stopping = true ↔ (s.member i).node.conn.stopping = true ∨ Marks [act] i := by
    have hnot : ¬ Marks [act] i := by
      rintro ⟨a, marksDown, ha⟩
      exact hact a marksDown (List.mem_singleton.mp ha).symm
    rw [h]
    simp [hnot]
  cases hturn with
  | still act hact => exact hkeeps rfl fun a _ ha ↦ hact (ha ▸ rfl)
  | steps a e res hforeign hbegins hstep =>
    have hflag : res.node.conn.stopping = ((s.member i).node.conn.stopping || e.setsStopping) := by
      rw [← s.fill_setsStopping i e]
      exact Node.stopping_next (Node.next_of_step hstep)
    have hmarks : Marks [Action.run i a e] i ↔ e.setsStopping = true := by
      constructor
      · rintro ⟨b, marksDown, hb⟩
        rw [List.mem_singleton, Action.run.injEq] at hb
        rw [← hb.2.2]
        rfl
      · intro he
        obtain ⟨marksDown, rfl⟩ := eq_setStopping he
        exact ⟨a, marksDown, List.mem_singleton_self _⟩
    rw [hmarks, ← Bool.or_eq_true, ← hflag]
    rfl
  | handedOver j k a inp p reset fromPeer hj hex =>
    refine hkeeps rfl fun b _ hb ↦ ?_
    exact ne_of_existing hex (Action.run.inj hb).1.symm
  | woken act c hact hshell =>
    exact hkeeps (congrArg Conn.stopping hshell :) fun a _ ha ↦ hact (ha ▸ rfl)
  | timer hidle hev => exact hkeeps rfl (by simp)
  | replaces r hin =>
    refine hkeeps ?_ (by simp)
    simp only [Node.replace]
    split_ifs
    · exact Conn.stopping_doReplace _ r
    · rfl

theorem marks_append {acts : List (Action α β)} {act : Action α β} {i : ℕ} :
    Marks (acts ++ [act]) i ↔ Marks acts i ∨ Marks [act] i := by
  simp [Marks, exists_or]

theorem stopping_fresh [Inhabited α] {reg : Bool} {m : Member α β} (h : Fresh reg m) :
    m.node.conn.stopping = false := by
  cases h <;> rfl

variable [DecidableEq α] [Inhabited α]

theorem lt_of_marks {s' : Messenger α β} {act : Action α β} {i : ℕ}
    (hstep : s.step enc K flags act = some s') (h : Marks [act] i) : i < s.count := by
  obtain ⟨a, marksDown, ha⟩ := h
  rw [List.mem_singleton] at ha
  subst ha
  cases acts_of_step hstep with
  | runs j a e res hj => exact hj

/-- `stopping` is set exactly by the calls of `mark_down` and `stop` so far. -/
structure Recorded (acts : List (Action α β)) (s : Messenger α β) : Prop where
  registry : s.Registry
  bound : ∀ i, Marks acts i → i < s.count
  stopping : ∀ i < s.count, (s.member i).node.conn.stopping = true ↔ Marks acts i

theorem recorded_step {acts : List (Action α β)} {s' : Messenger α β} {act : Action α β}
    (h : Recorded acts s) (hstep : s.step enc K flags act = some s') : Recorded (acts ++ [act]) s' := by
  refine ⟨registry_step h.registry hstep, fun i hi ↦ ?_, fun i hi' ↦ ?_⟩
  · rcases marks_append.mp hi with hi | hi
    · exact (h.bound i hi).trans_le (count_le_step hstep)
    · exact (lt_of_marks hstep hi).trans_le (count_le_step hstep)
  · rw [marks_append]
    by_cases hi : i < s.count
    · rw [← h.stopping i hi]
      exact stopping_turn (turn_step h.registry hi hstep)
    · have hold : ¬ Marks acts i := fun hm ↦ hi (h.bound i hm)
      have hnew : ¬ Marks [act] i := fun hm ↦ hi (lt_of_marks hstep hm)
      have hfalse : (s'.member i).node.conn.stopping = false :=
        stopping_fresh (fresh_step h.registry hstep (Nat.not_lt.mp hi) hi')
      simp [hold, hnew, hfalse]

theorem recorded_of_exec {acts : List (Action α β)}
    (hrun : Run.exec (step enc K flags) init acts = some s) : Recorded acts s := by
  have hinit : Recorded [] (init : Messenger α β) :=
    ⟨registry_init, fun i ⟨_, h⟩ ↦ absurd h (by simp), fun i hi ↦ absurd hi (by simp [init])⟩
  exact Run.invariant_past (fun _ _ _ _ h hstep ↦ recorded_step h hstep) hinit hrun

/-- **`get_connection` and stopping connections.** The connection that `get_connection` returns is live,
and takes the messages that are sent on it at once, exactly if neither `mark_down` nor `stop` has been
called on it before. -/
theorem getConnection_live_iff {acts : List (Action α β)} {a : α} {policy : Policy} {i : ℕ}
    {s' : Messenger α β} (hrun : Run.exec (step enc K flags) init acts = some s)
    (hget : s.getConnection a policy = (i, s')) :
    ((s'.member i).node.Live ↔ ∀ b marksDown, Action.run i b (.setStopping marksDown) ∉ acts) ∧
      ((∀ b marksDown, Action.run i b (.setStopping marksDown) ∉ acts) → ∀ m concurrent gather,
        (s'.member i).node.Takes
          (Node.sendMessage enc K flags (s'.member i).node m concurrent gather) m) := by
  obtain ⟨hreg, hbound, hstopping⟩ := recorded_of_exec hrun
  have hlive : (s'.member i).node.Live ↔
      ∀ b marksDown, Action.run i b (.setStopping marksDown) ∉ acts := by
    rw [getConnection] at hget
    split at hget
    · -- a registered connection is not closed
      rename_i j hj
      obtain ⟨rfl, rfl⟩ := Prod.mk.inj hget
      obtain ⟨hlt, haddr⟩ := hreg.sound a j hj
      have hs : (s.member j).node.conn.state ≠ .closed :=
        (hreg.sane j hlt).live (registered_iff.mpr (haddr.symm ▸ hj))
      have hmarks : ¬ Marks acts j ↔
          ∀ b marksDown, Action.run j b (.setStopping marksDown) ∉ acts := by
        simp only [Marks, not_exists]
      rw [← hmarks, ← hstopping j hlt, Bool.not_eq_true]
      exact ⟨fun h ↦ h.2, fun h ↦ ⟨hs, h⟩⟩
    · obtain ⟨rfl, rfl⟩ := Prod.mk.inj hget
      rw [member_createConnect_self]
      refine ⟨fun _ b marksDown hb ↦ absurd (hbound _ ⟨b, marksDown, hb⟩) (lt_irrefl _), fun _ ↦ ⟨?_, rfl⟩⟩
      simp [Node.outgoing, Conn.connect]
  exact ⟨hlive, fun h m concurrent gather ↦ Node.takes_sendMessage (hlive.mpr h) m concurrent gather⟩

/-- Two connections are made, and the first one is marked down; its `C_stop` has not run yet. -/
def twoConnections : List (Action ℕ Frame) :=
  [.getConnection 1 (Policy.losslessPeer 0 0), .getConnection 2 (Policy.losslessPeer 0 0),
    .run 0 0 (.setStopping true)]

/-- Where the run ends, and what `get_connection` returns then. -/
theorem exists_getConnection (acts : List (Action ℕ Frame)) (a i : ℕ) (stopping : Bool)
    (hrun : (Run.exec frameStep init acts).map (fun s ↦
      ((s.getConnection a {}).1, ((s.getConnection a {}).2.member i).node.conn.stopping)) =
        some (i, stopping)) :
    ∃ s s', Run.exec frameStep init acts = some s ∧ s.getConnection a {} = (i, s') ∧
      (s'.member i).node.conn.stopping = stopping := by
  obtain ⟨s, hs, hpair⟩ := Option.map_eq_some_iff.mp hrun
  rw [Prod.mk.injEq] at hpair
  exact ⟨s, (s.getConnection a {}).2, hs, Prod.ext hpair.1 rfl, hpair.2⟩

/-- The other connection is returned, and is live. -/
theorem getConnection_live_iff_two_connections :
    ∃ s s', Run.exec frameStep init twoConnections = some s ∧
      s.getConnection 2 {} = (1, s') ∧ (s'.member 1).node.Live := by
  obtain ⟨s, s', hrun, hget, -⟩ :=
    exists_getConnection twoConnections 2 1 false (by decide +kernel)
  refine ⟨s, s', hrun, hget, (getConnection_live_iff hrun hget).1.mpr fun b marksDown ↦ ?_⟩
  simp [twoConnections]

/-- The connection that has been marked down is returned as well, and drops every message. -/
theorem getConnection_stopping :
    ∃ s s', Run.exec frameStep init twoConnections = some s ∧ s.getConnection 1 {} = (0, s') ∧
      ¬ (s'.member 0).node.Live ∧ ∀ m concurrent gather,
        Node.sendMessage (fun f ↦ [f]) Codec.trivial ⟨true, true⟩ (s'.member 0).node m concurrent
          gather = (s'.member 0).node := by
  obtain ⟨s, s', hrun, hget, hstopping⟩ :=
    exists_getConnection twoConnections 1 0 true (by decide +kernel)
  refine ⟨s, s', hrun, hget, fun h ↦ ?_, fun m concurrent gather ↦ ?_⟩
  · exact absurd (h.2.symm.trans hstopping) (by simp)
  · exact Node.sendMessage_of_stopping hstopping m concurrent gather

end Messenger

end AsyncMessenger
