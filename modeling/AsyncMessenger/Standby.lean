import AsyncMessenger.Registry

/-!
# Who goes to standby

A connection in `STATE_STANDBY` waits to be used again, so somebody has to be able to find it. `fault`
does not ask whether the connection is registered. It stops a lossy connection, and an accepted
connection is lossy to begin with, because that is the default of `Policy`; but `handle_connect_msg`
sets the policy that the messenger has for the peer before it decides on the connect message, and a
refused connection keeps it.

## Being found

The invariant says that a connection which nobody has registered is closed or still being accepted
(`Awaiting`). A fault puts such a connection to standby only if its policy is not lossy any more,
which is the doing of `handle_connect_msg`. The condition is therefore about connections that give
up on their socket: they are still lossy, unless they have been registered.
-/

namespace AsyncMessenger

namespace Conn

variable {β : Type} {enc : Frame → List β} {K : Codec} {flags : CrcFlags}

/-- The connection is being accepted, and nobody knows of it yet. -/
structure Awaiting (c : Conn β) : Prop where
  phase : c.phase ∈ State.awaiting
  opening : c.opening = none
  replacing : c.replacing = 0

theorem Awaiting.of_shell {c c' : Conn β} (h : c.Awaiting) (hshell : c'.shell = c.shell) :
    c'.Awaiting :=
  ⟨phase_eq_of_shell hshell ▸ h.phase, (congrArg Conn.opening hshell).trans h.opening,
    (congrArg Conn.replacing hshell).trans h.replacing⟩

theorem Awaiting.of_state {c : Conn β} {s : State} (hs : c.state = s) (hmem : s ∈ State.awaiting)
    (hopening : c.opening = none) (hrepl : c.replacing = 0) : c.Awaiting := by
  refine ⟨?_, hopening, hrepl⟩
  rw [phase_of_state hs (by rintro rfl; exact absurd hmem (by decide))]
  exact hmem

/-- The states an awaiting connection is in. -/
theorem Awaiting.state_mem {c : Conn β} (h : c.Awaiting) :
    c.state ∈ State.waitSend :: State.awaiting := by
  by_cases hs : c.state = .waitSend
  · rw [hs]
    exact List.mem_cons_self
  · have hmem := h.phase
    rw [phase_of_state rfl hs] at hmem
    exact List.mem_cons_of_mem _ hmem

theorem Awaiting.state_ne {c : Conn β} {s : State} (h : c.Awaiting)
    (hs : s ∉ State.waitSend :: State.awaiting) : c.state ≠ s := by
  rintro rfl
  exact hs h.state_mem

/-- A move of an awaiting connection leaves it waiting, closes it, or registers it. -/
theorem Move.awaiting {c : Conn β} {inp : Input β} {o : Outcome β} (h : Move enc c inp o)
    (hwait : c.Awaiting) :
    o.conn.Awaiting ∨ o.conn.state = .closed ∨ o.effect = .register := by
  have hno {s : State} (hs : c.state = s) (hnot : s ∉ State.waitSend :: State.awaiting) : False :=
    hwait.state_ne hnot hs
  have hat {d : Conn β} {s : State} (hs : d.state = s) (hmem : s ∈ State.awaiting)
      (hopening : d.opening = c.opening) (hrepl : d.replacing = c.replacing) : d.Awaiting :=
    .of_state hs hmem (hopening.trans hwait.opening) (hrepl.trans hwait.replacing)
  cases h with
  | waits => exact Or.inl ⟨hwait.phase, hwait.opening, hwait.replacing⟩
  | aborts | fails => exact Or.inl hwait
  | flushes hs hout hafter =>
    have hmem := hwait.phase
    rw [phase, if_pos hs] at hmem
    exact Or.inl (hat rfl hmem rfl rfl)
  | dials fd hs | failsDial hs => exact (hno hs (by decide)).elim
  | sends d frames next k evWrite s a hprep hnext =>
    cases hprep with
    | banner hs | addr hs | connect _ _ hs | seq _ hs => exact (hno hs (by decide)).elim
    | greeting hs =>
      refine Or.inl ⟨?_, hwait.opening, hwait.replacing⟩
      rw [hnext.phase_eq (by decide) rfl rfl]
      decide
    | reply frames next hs hsome =>
      exact absurd (hwait.opening.symm.trans hsome) (by simp)
  | failsSend d frames next hprep =>
    cases hprep with
    | banner hs | addr hs | connect _ _ hs | seq _ hs => exact (hno hs (by decide)).elim
    | greeting hs => exact Or.inl (hat hs (by decide) rfl rfl)
    | reply frames next hs hsome =>
      exact absurd (hwait.opening.symm.trans hsome) (by simp)
  | hears r hs | heeds d s g hs | connected hs | gotSeq n hs | accepted hs =>
    exact (hno hs (by decide)).elim
  | identified | asked | refuses => exact Or.inl (hat rfl (by simp [State.awaiting]) rfl rfl)
  | failsReply p out effect replacing hs hopening hp heffect hrepl =>
    refine Or.inl (.of_state hs (by decide) hopening ?_)
    rcases hrepl with hrepl | hrepl
    · exact hrepl.trans hwait.replacing
    · exact hrepl
  | handsOver => exact Or.inr (Or.inl (state_stop _))
  | opens => exact Or.inr (Or.inr rfl)
  | notifies hs hsome => exact absurd hwait.opening hsome

theorem awaiting_pass {c : Conn β} {inp : Input β} (hwait : c.Awaiting) :
    (c.pass K flags enc inp).conn.Awaiting ∨ (c.pass K flags enc inp).conn.state = .closed ∨
      (c.pass K flags enc inp).effect = .register := by
  rcases pass_cases K flags enc c inp with
    ⟨hopen, -⟩ | heq | ⟨hs, -⟩ | ⟨o, hmove, -, -, heq | ⟨-, heq⟩⟩
  · have hmem := hwait.state_mem
    simp only [State.awaiting, List.mem_cons, List.not_mem_nil, or_false] at hmem
    rcases hmem with hs | hs | hs | hs | hs <;> rw [hs] at hopen <;> exact absurd hopen (by decide)
  · rw [heq]
    exact Or.inl hwait
  · exact absurd hs (hwait.state_ne (by decide))
  · rw [heq]
    exact hmove.awaiting hwait
  · rw [heq]
    rcases hmove.awaiting hwait with h | h | h
    · exact Or.inl ⟨h.phase, h.opening, h.replacing⟩
    · exact Or.inr (Or.inl h)
    · exact Or.inr (Or.inr h)

end Conn

namespace Node

variable {β : Type} {enc : Frame → List β} {K : Codec} {flags : CrcFlags}

open Conn

/-- A step of an awaiting connection that does not fault, unless it is lossy. -/
theorem awaiting_step {n : Node β} {e : Event β} {res : Result β} (hlater : n.conn.Later)
    (hended : n.conn.Ended) (hwait : n.conn.Awaiting) (hforeign : e.isForeign = false)
    (hlossy : ∀ close c, GivesUp enc K flags n e close c → c.policy.lossy = true)
    (hstep : n.step enc K flags e = some res) :
    res.node.conn.Awaiting ∨ res.node.conn.state = .closed ∨ res.effect = .register := by
  have hstate {c c' : Conn β} (h : c'.shell = c.shell) : c'.state = c.state :=
    (congrArg Conn.state h :)
  have hpass {inp : Input β} (he : e = .pass inp)
      (hflow : (n.conn.pass K flags enc inp).flow ≠ .abort) :
      (n.conn.pass K flags enc inp).conn.Awaiting ∨
        (n.conn.pass K flags enc inp).conn.state = .closed ∨ res.effect = .register := by
    subst he
    rw [effect_of_pass hstep hflow]
    exact awaiting_pass hwait
  have hpasses {inp : Input β} (he : e = .pass inp)
      (hflow : (n.conn.pass K flags enc inp).flow ≠ .abort)
      (hshell : res.node.conn.shell = (n.conn.pass K flags enc inp).conn.shell) :
      res.node.conn.Awaiting ∨ res.node.conn.state = .closed ∨ res.effect = .register := by
    rcases hpass he hflow with h | h | h
    · exact Or.inl (h.of_shell hshell)
    · exact Or.inr (Or.inl ((hstate hshell).trans h))
    · exact Or.inr (Or.inr h)
  have hchange : Change enc K flags n e res.node := change_next (next_of_step hstep)
  generalize res.node = n' at hchange hpasses ⊢
  cases hchange with
  | quiet e n' he hshell hloc => exact Or.inl (hwait.of_shell hshell)
  | connects m concurrent gather n' hs => exact absurd hs (hwait.state_ne (by decide))
  | setStopping => exact Or.inl ⟨hwait.phase, hwait.opening, hwait.replacing⟩
  | markDisposable =>
    rw [Conn.markDisposable, if_neg (hwait.state_ne (by decide))]
    exact Or.inl ⟨hwait.phase, hwait.opening, hwait.replacing⟩
  | cStop hidle hstopping => exact Or.inr (Or.inl (state_stop _))
  | leave k n' hloc hshell hidle => exact Or.inr (Or.inl ((hstate hshell).trans (state_stop _)))
  | handOver | handleReplaceLate | handleReplace => exact absurd hforeign (by simp [Event.isForeign])
  | passes inp k n' hloc hflow hshell hloc' =>
    refine hpasses rfl ?_ hshell
    rcases hflow with h | h <;> rw [h] <;> decide
  | waits inp k close n' hloc hflow hshell hloc' =>
    refine hpasses rfl ?_ hshell
    rw [hflow]
    cases close <;> decide
  | givesUp e c close n' hup hafter =>
    have hc : c.Ended ∧ (c.Awaiting ∨ c.state = .closed ∨ res.effect = .register) := by
      refine ⟨hup.ended hlater hended, ?_⟩
      cases hup with
      | pass inp k hloc hflow => exact hpass rfl (by rw [hflow]; decide)
      | passClose inp k hloc hflow => exact hpass rfl (by rw [hflow]; decide)
      | wake => exact Or.inl hwait
      | write => exact Or.inl ⟨hwait.phase, hwait.opening, hwait.replacing⟩
    -- it still awaits when it gives up, so that it is closed if it is lossy
    obtain ⟨hcended, hcwait | hcclosed | hregister⟩ := hc
    · cases hafter with
      | replaced r hrepl => exact absurd (hcwait.replacing.symm.trans hrepl) (by decide)
      | parts k hrepl hwhy hshell hloc => exact Or.inl (hcwait.of_shell hshell)
      | faults hrepl hclose hclosed hstops hshell hloc =>
        have hconnecting : ∀ s ∈ State.waitSend :: State.awaiting, s.isConnecting = false := by decide
        rw [faultStops, hlossy close c hup, hconnecting c.state hcwait.state_mem] at hstops
        exact absurd hstops (by decide)
      | closed hrepl hclosed hshell hloc => exact Or.inr (Or.inl ((hstate hshell).trans hclosed))
    · cases hafter with
      | replaced r hrepl => exact absurd ((hcended hcclosed).1.symm.trans hrepl) (by decide)
      | parts k hrepl hwhy hshell hloc => exact Or.inr (Or.inl ((hstate hshell).trans hcclosed))
      | faults hrepl hclose hclosed hstops hshell hloc => exact absurd hcclosed hclosed
      | closed hrepl hclosed hshell hloc => exact Or.inr (Or.inl ((hstate hshell).trans hclosed))
    · exact Or.inr (Or.inr hregister)

end Node

namespace Messenger

variable {α β : Type} {s : Messenger α β} {enc : Frame → List β} {K : Codec} {flags : CrcFlags}

/-- A connection that is not registered is closed or awaits its connect message. -/
def Placed (reg : Bool) (m : Member α β) : Prop :=
  reg = true ∨ m.node.conn.state = .closed ∨ m.node.conn.Awaiting

variable (enc K flags) in
/-- A connection that gives up on its socket before it is registered has a lossy policy. -/
def LossyUntilRegistered (s : Messenger α β) (act : Action α β) : Prop :=
  ∀ i a e close c, act = .run i a e → s.registered i = false →
    Node.GivesUp enc K flags (s.member i).node (s.fill i e) close c → c.policy.lossy = true

theorem placed_turn {act : Action α β} {i : ℕ} {reg : Bool} {m : Member α β} (h : s.Registry)
    (hi : i < s.count) (hplaced : Placed (s.registered i) (s.member i))
    (hC : LossyUntilRegistered enc K flags s act) (hturn : Turn enc K flags s i act reg m) :
    Placed reg m := by
  have hsane := h.sane i hi
  cases hturn with
  | still act hact => exact hplaced
  | steps a e res hforeign hbegins hstep =>
    cases hcloses : Node.closes (s.member i).node res.node with
    | true =>
      simp only [Node.closes, Bool.and_eq_true, beq_iff_eq] at hcloses
      exact Or.inr (Or.inl hcloses.2)
    | false =>
      cases hreg : s.registered i with
      | true => exact Or.inl rfl
      | false =>
        rcases hplaced with htrue | hclosed | hwait
        · exact absurd (hreg.symm.trans htrue) (by simp)
        · exact Or.inr (Or.inl (Node.closed_next hsane.ended hclosed (Node.next_of_step hstep)))
        · have hawait := Node.awaiting_step hsane.later hsane.ended hwait
            ((isForeign_fill i e).trans hforeign) (fun close c hup ↦ hC i a e close c rfl hreg hup)
            hstep
          rcases hawait with hwait' | hclosed | hregister
          · exact Or.inr (Or.inr hwait')
          · exact Or.inr (Or.inl hclosed)
          · exact Or.inl (by simp [hregister, Effect.isRegister])
  | handedOver j k a inp p reset fromPeer hj hex => exact Or.inl (registered_of_existing h hex)
  | woken act c hact hshell =>
    rcases hplaced with hreg | hclosed | hwait
    · exact Or.inl hreg
    · exact Or.inr (Or.inl ((congrArg Conn.state hshell).trans hclosed))
    · exact Or.inr (Or.inr (hwait.of_shell hshell))
  | timer hidle hev =>
    rcases hplaced with hreg | hclosed | hwait
    · exact Or.inl hreg
    · exact Or.inr (Or.inl hclosed)
    · exact Or.inr (Or.inr ⟨hwait.phase, hwait.opening, hwait.replacing⟩)
  | replaces r hin =>
    have hsame (hrepl : (s.member i).node.conn.replacing = 0) :
        (s.member i).node.replace enc r = (s.member i).node := by
      rw [Node.replace, if_neg (by simp [hrepl])]
    rcases hplaced with hreg | hclosed | hwait
    · cases hcloses : Node.closes (s.member i).node ((s.member i).node.replace enc r) with
      | true =>
        simp only [Node.closes, Bool.and_eq_true, beq_iff_eq] at hcloses
        exact Or.inr (Or.inl hcloses.2)
      | false => exact Or.inl (by simp [hreg])
    · rw [hsame (hsane.ended hclosed).1]
      exact Or.inr (Or.inl hclosed)
    · rw [hsame hwait.replacing]
      exact Or.inr (Or.inr hwait)

/-! ## The connections being accepted

From the first byte to the answer of the connect message. A refusal puts the connection back to
waiting for another message, with the policy it has got. -/

variable [DecidableEq α]

theorem accepting_affect (i j : ℕ) (effect : Effect β) :
    (s.affect i effect).accepting j = true → s.accepting j = true ∧
      (j = i → effect = .register → s.existing i ≠ none) := by
  cases effect with
  | register =>
    rw [affect, accept]
    split_ifs with hsome
    · exact fun h ↦ ⟨h, fun _ _ hnone ↦ by simp [hnone] at hsome⟩
    · intro h
      by_cases hij : j = i
      · rw [hij] at h
        exact absurd h (by simp)
      · exact ⟨(Function.update_of_ne hij ..).symm.trans h, fun heq ↦ absurd heq hij⟩
  | replace c =>
    rw [affect]
    split <;> exact fun h ↦ ⟨h, by simp⟩
  | keepalive =>
    rw [affect]
    split
    · split_ifs <;> exact fun h ↦ ⟨h, by simp⟩
    · exact fun h ↦ ⟨h, by simp⟩
  | _ => exact fun h ↦ ⟨h, by simp⟩

theorem accepting_settle {i j : ℕ} {m : Member α β} {effect : Effect β} {g : ℕ}
    (h : (s.settle i m effect g).accepting j = true) :
    s.accepting j = true ∧ (j = i → Node.closes (s.member i).node m.node = false ∧
      (effect = .register →
        (({ s with gseq := g } : Messenger α β).put i m).existing i ≠ none)) := by
  rw [settle] at h
  split_ifs at h with hcloses
  · by_cases hij : j = i
    · rw [hij] at h
      exact absurd h (by simp [unregister])
    · have hafter : ((({ s with gseq := g } : Messenger α β).put i m).affect i effect).accepting j =
          true := (Function.update_of_ne hij ..).symm.trans h
      exact ⟨(accepting_affect i j effect hafter).1, fun heq ↦ absurd heq hij⟩
  · exact ⟨(accepting_affect i j effect h).1, fun hij ↦
      ⟨by simpa using hcloses, (accepting_affect i j effect h).2 hij⟩⟩

variable [Inhabited α]

/-- `add_accept` is the only way into `accepting_conns`. -/
theorem accepting_of_step {s' : Messenger α β} {act : Action α β} {i : ℕ}
    (hstep : s.step enc K flags act = some s') (h : s'.accepting i = true) :
    s.accepting i = true ∨ i = s.count ∧ ∃ fd, s' = s.addAccept fd := by
  cases acts_of_step hstep with
  | finds | creates | timer => exact Or.inl h
  | accepts fd =>
    by_cases hi : i = s.count
    · exact Or.inr ⟨hi, fd, rfl⟩
    · exact Or.inl ((Function.update_of_ne hi ..).symm.trans h)
  | runs | replaces => exact Or.inl (accepting_settle h).1

/-- The connections in `accepting_conns` are neither registered nor closed. -/
def Listed (s : Messenger α β) : Prop :=
  ∀ i, s.accepting i = true →
    i < s.count ∧ s.registered i = false ∧ (s.member i).node.conn.state ≠ .closed

/-- A connection that stays in `accepting_conns` has neither been registered nor closed. -/
theorem accepting_self {s' : Messenger α β} {act : Action α β} {i : ℕ} (h : s.Registry)
    (hi : i < s.count) (hold : s.registered i = false ∧ (s.member i).node.conn.state ≠ .closed)
    (hstep : s.step enc K flags act = some s') (hact : act.subject = some i)
    (hacc : s'.accepting i = true) :
    s'.registered i = false ∧ (s'.member i).node.conn.state ≠ .closed := by
  cases acts_of_step hstep with
  | finds | creates | accepts => exact absurd hact (by simp [Action.subject])
  | runs j a e res hj hforeign hbegins hres =>
    obtain rfl : j = i := Option.some_inj.mp hact
    obtain ⟨-, hself⟩ := accepting_settle hacc
    obtain ⟨hcloses, hexisting⟩ := hself rfl
    have hregister : res.effect ≠ .register := by
      intro hr
      obtain ⟨hnone, hs⟩ := existing_of_register hres hr
      apply hexisting hr
      rw [existing_put_after (by simp [Node.learns, hs])]
      exact hnone
    have hopen : Node.closes (s.member j).node res.node = false := hcloses
    rw [registered_settle_run h hi hres, member_settle_self, hold.1, hopen, Bool.false_or,
      Bool.not_false, Bool.true_and, ← Bool.not_eq_true, Effect.isRegister_iff]
    exact ⟨hregister, ne_closed_of_not_closes hcloses hold.2⟩
  | timer j =>
    obtain rfl : j = i := Option.some_inj.mp hact
    rw [registered, member_put_self]
    exact hold
  | replaces j r hj hin =>
    obtain rfl : j = i := Option.some_inj.mp hact
    obtain ⟨hcloses, -⟩ := (accepting_settle hacc).2 rfl
    have hnone : (Effect.none : Effect β).isRegister = false := rfl
    rw [registered_settle_self (by simp), member_settle_self, hcloses, hnone, Bool.or_false]
    exact ⟨hold.1, ne_closed_of_not_closes hcloses hold.2⟩

theorem listed_step {s' : Messenger α β} {act : Action α β} (h : s.Registry) (hlisted : s.Listed)
    (hstep : s.step enc K flags act = some s') : s'.Listed := by
  intro i hacc
  rcases accepting_of_step hstep hacc with hold | ⟨rfl, fd, rfl⟩
  · obtain ⟨hi, hold⟩ := hlisted i hold
    refine ⟨hi.trans_le (count_le_step hstep), ?_⟩
    by_cases hact : act.subject = some i
    · exact accepting_self h hi hold hstep hact hacc
    · obtain ⟨hreg, hs⟩ := (turn_step h hi hstep).of_other hact
      rw [hreg, hs]
      exact hold
  · have hmember : (s.addAccept fd).member s.count =
        { node := Node.accepted fd, peerAddr := default } := member_put_self _ _
    refine ⟨Nat.lt_succ_self _, ?_, by simp [hmember, Node.accepted]⟩
    rw [← Bool.not_eq_true, registered_iff]
    exact fun hconns ↦ absurd (h.sound _ _ hconns).1 (lt_irrefl _)

/-- **Only registered connections go to standby.** In every run in which a connection that gives up on
its socket before it is registered has a lossy policy, a connection in `STATE_STANDBY` is the one
registered for its peer, and the connections in `accepting_conns` are neither closed nor in
`STATE_STANDBY`. -/
theorem standby_registered {acts : List (Action α β)}
    (hmeets : Run.Meets (step enc K flags) (LossyUntilRegistered enc K flags) init acts)
    (hrun : Run.exec (step enc K flags) init acts = some s) :
    (∀ i < s.count, (s.member i).node.conn.state = .standby →
      s.conns (s.member i).peerAddr = some i) ∧
    ∀ i, s.accepting i = true → (s.member i).node.conn.state ∉ [State.closed, .standby] := by
  have hplaced : s.Registry ∧ ∀ i < s.count, Placed (s.registered i) (s.member i) := by
    refine forall_of_turn (fun reg m hfresh ↦ ?_)
      (fun s act i reg m h hall hC hi hturn ↦ placed_turn h hi (hall i hi) hC hturn) hmeets hrun
    cases hfresh with
    | outgoing => exact Or.inl rfl
    | accepted => exact Or.inr (Or.inr (.of_state (s := .accepting) rfl (by decide) rfl rfl))
  have hlisted : s.Registry ∧ s.Listed := by
    refine Run.invariant (I := fun s : Messenger α β ↦ s.Registry ∧ s.Listed)
      (fun s act s' h hstep ↦ ⟨registry_step h.1 hstep, listed_step h.1 h.2 hstep⟩)
      ⟨registry_init, fun i h ↦ absurd h (by simp [init])⟩ hrun
  have hstandby {i : ℕ} (hi : i < s.count) (hs : (s.member i).node.conn.state = .standby) :
      s.registered i = true := by
    rcases hplaced.2 i hi with hreg | hclosed | hwait
    · exact hreg
    · exact absurd (hs.symm.trans hclosed) (by decide)
    · exact absurd hs (hwait.state_ne (by decide))
  refine ⟨fun i hi hs ↦ registered_iff.mp (hstandby hi hs), fun i hacc ↦ ?_⟩
  obtain ⟨hi, hreg, hclosed⟩ := hlisted.2 i hacc
  simp only [List.mem_cons, List.not_mem_nil, or_false, not_or]
  exact ⟨hclosed, fun hs ↦ absurd (hreg.symm.trans (hstandby hi hs)) (by simp)⟩

/-- The step does not end at a label `fail`. -/
def goesOn (n : Node Frame) : Event Frame → Bool
  | .pass inp => (n.conn.pass Codec.trivial ⟨true, true⟩ (fun f ↦ [f]) inp).flow == .next
  | .wake _ => false
  | .relock .. => false
  | _ => true

/-- `LossyUntilRegistered`, for evaluation. -/
def lossyTest (s : Messenger ℕ Frame) : Action ℕ Frame → Bool
  | .run i _ e => s.registered i || goesOn (s.member i).node (s.fill i e)
  | _ => true

theorem lossy_of_test {s : Messenger ℕ Frame} {act : Action ℕ Frame} (h : s.lossyTest act = true) :
    LossyUntilRegistered (fun f ↦ [f]) Codec.trivial ⟨true, true⟩ s act := by
  rintro i a e close c rfl hreg hup
  rw [lossyTest, hreg, Bool.false_or] at h
  cases hfill : s.fill i e <;> rw [hfill] at h hup <;> cases hup
  all_goals simp_all [goesOn]

/-- A session is accepted and its socket fails: the connection goes to standby and is registered. -/
theorem standby_registered_peer :
    ∃ s, Run.exec frameStep init
        (acceptPeer {} (answer ++ [.pass { read := .error }])) = some s ∧
      (s.member 0).node.conn.state = .standby ∧ s.conns (s.member 0).peerAddr = some 0 := by
  have hstate : (Run.exec frameStep init (acceptPeer {} (answer ++
      [.pass { read := .error }]))).map (fun s ↦ (s.count, (s.member 0).node.conn.state)) =
      some (1, .standby) := by
    decide +kernel
  obtain ⟨s, hrun, hs⟩ := Option.map_eq_some_iff.mp hstate
  obtain ⟨hcount, hs⟩ := Prod.mk.inj hs
  have hmeets : Run.Meets frameStep
      (LossyUntilRegistered (fun f ↦ [f]) Codec.trivial ⟨true, true⟩) init
      (acceptPeer {} (answer ++ [.pass { read := .error }])) :=
    Run.Meets.of_check (fun _ _ ↦ lossy_of_test) (by decide +kernel)
  exact ⟨s, hrun, hs, (standby_registered hmeets hrun).1 0 (by omega) hs⟩

/-- A connect message is refused, because the messenger does not know the session it continues, and the
socket fails: the connection goes to standby, unregistered, and stays in `accepting_conns`. -/
theorem standby_unregistered_after_refusal :
    (Run.exec frameStep init
        (acceptPeer { connectSeq := 1 } [.pass { read := .error }])).map
      (fun s ↦ ((s.member 0).node.conn.state, s.conns (s.member 0).peerAddr, s.accepting 0)) =
      some (.standby, none, true) := by
  decide +kernel

end Messenger

end AsyncMessenger
