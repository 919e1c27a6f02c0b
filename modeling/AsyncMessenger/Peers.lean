import AsyncMessenger.GlobalSeq

/-!
# A messenger among honest peers

The peers of a messenger are messengers too. Each has a counter, from which it takes a number for every
attempt to connect and for every session it accepts; the connect messages it sends on one socket carry
numbers that do not get smaller. Among such peers the number of a registered session only grows, and no
attempt that is older than the session replaces it, unless a connection completes a connect of its own
while another socket waits to be taken over.

`Network` is the messenger with the counters of its peers, and a happening is a step of the
messenger, or a peer that takes a number. What is known of a single connection from the order of its
numbers is lifted to all of them by the rule of the single connection, with the counter of its own
peer.
-/

namespace AsyncMessenger

/-- A messenger, and the counters of its peers. -/
structure Network (α β : Type) where
  messenger : Messenger α β
  /-- `global_seq` of the messenger with the address. -/
  clock : α → ℕ := fun _ ↦ 0
  /-- History: the counter of its peer when the connection last dialed it. -/
  since : ℕ → ℕ := fun _ ↦ 0

namespace Network

/-- A step of the messenger, or a peer takes a number. -/
inductive Happening (α β : Type)
  | acts (act : Action α β)
  | issues (a : α)

variable {α β : Type}

/-- The counter of the connection's peer. -/
def now (w : Network α β) (i : ℕ) : ℕ := w.clock (w.messenger.member i).peerAddr

/-- The step dials the peer of the connection. -/
def dials (w : Network α β) : Action α β → ℕ → Bool
  | .run j _ (.pass _), i => j == i && (w.messenger.member i).node.conn.state == .connecting
  | _, _ => false

/-- The counters of the peers as the connections remember them after the step. -/
def dialed (w : Network α β) (act : Action α β) (i : ℕ) : ℕ :=
  if w.dials act i then w.now i else w.since i

/-- What the step reads comes from an honest peer. -/
def honest (w : Network α β) : Action α β → Bool
  | .run i _ (.pass inp) =>
    (w.messenger.member i).node.conn.honest (w.now i) (w.since i) inp.read
  | _ => true

variable (enc : Frame → List β) (K : Codec) (flags : CrcFlags)

/-- One step among honest peers. -/
def step [DecidableEq α] [Inhabited α] (w : Network α β) : Happening α β → Option (Network α β)
  | .issues a => some { w with clock := Function.update w.clock a (w.clock a + 1) }
  | .acts act =>
    if w.honest act then
      (w.messenger.step enc K flags act).map fun messenger ↦
        { w with messenger, since := w.dialed act }
    else none

variable {enc K flags} {w : Network α β}

/-! ## The connections in order -/

/-- The registry, the stages and the numbers are in order. -/
structure Timely (w : Network α β) : Prop where
  registry : w.messenger.Registry
  staged : ∀ i < w.messenger.count,
    (w.messenger.member i).node.Staged (w.messenger.registered i)
  dated : ∀ i < w.messenger.count,
    (w.messenger.member i).node.conn.Dated (w.messenger.registered i) (w.now i) (w.since i)

/-- No registered connection completes a connect with a number that is larger than that of the attempt
whose socket it has been handed. -/
def NotOvertaken (w : Network α β) (e : Happening α β) : Prop :=
  ∀ i a inp, e = .acts (.run i a (.pass inp)) → w.messenger.registered i = true →
    (w.messenger.member i).node.conn.state = .connectingReady →
    (w.messenger.member i).node.conn.replacing = 1 →
    (w.messenger.member i).node.conn.connectReply.globalSeq ≤
      (w.messenger.member i).node.conn.replacingConnect.globalSeq

theorem dialed_of_other {act : Action α β} {i : ℕ} (h : act.subject ≠ some i) :
    w.dialed act i = w.since i := by
  have hno : w.dials act i = false := by
    cases act with
    | run j a e =>
      have hij : (j == i) = false := beq_eq_false_iff_ne.mpr fun hij ↦ h (hij ▸ rfl)
      cases e <;> simp [dials, hij]
    | _ => rfl
  simp [dialed, hno]

/-- A step of its own finds the numbers of a connection in order, and what it needs to keep them so. -/
theorem meets_of_run {i : ℕ} {a : α} {e : Event β} (h : w.Timely) (hi : i < w.messenger.count)
    (hC : w.NotOvertaken (.acts (.run i a e))) (hhonest : w.honest (.run i a e) = true) :
    (w.messenger.member i).node.conn.Dated (w.messenger.registered i) (w.now i)
        (w.dialed (.run i a e) i) ∧
      (w.messenger.member i).node.Meets (w.messenger.registered i) (w.now i)
        (w.dialed (.run i a e) i) (w.messenger.fill i e) := by
  have hd := h.dated i hi
  cases e with
  | pass inp =>
    by_cases hs : (w.messenger.member i).node.conn.state = .connecting
    · have hsince : w.dialed (.run i a (.pass inp)) i = w.now i := by
        simp [dialed, dials, hs]
      rw [hsince]
      exact ⟨hd.redial hs, fun _ _ _ ↦ rfl, fun _ _ hne ↦ absurd hs hne,
        fun _ _ hreg hready ↦ hC i a inp rfl hreg hready⟩
    · have hsince : w.dialed (.run i a (.pass inp)) i = w.since i := by
        simp [dialed, dials, hs]
      rw [hsince]
      refine ⟨hd, fun _ _ hconn ↦ absurd hconn hs, fun inp' hinp _ ↦ ?_,
        fun _ _ hreg hready ↦ hC i a inp rfl hreg hready⟩
      rw [Messenger.fill, Event.pass.injEq] at hinp
      rw [← hinp]
      exact hhonest
  | _ =>
    exact ⟨hd, fun _ h ↦ absurd h (by simp [Messenger.fill]),
      fun _ h ↦ absurd h (by simp [Messenger.fill]), fun _ h ↦ absurd h (by simp [Messenger.fill])⟩

/-- What a step of its own means for the numbers of a connection. -/
theorem follows_steps {i : ℕ} {a : α} {e : Event β} {res : Result β} (h : w.Timely)
    (hi : i < w.messenger.count) (hforeign : e.isForeign = false)
    (hC : w.NotOvertaken (.acts (.run i a e))) (hhonest : w.honest (.run i a e) = true)
    (hstep : (w.messenger.member i).node.step enc K flags (w.messenger.fill i e) = some res) :
    res.node.conn.Dated (!Node.closes (w.messenger.member i).node res.node &&
        (w.messenger.registered i || res.effect.isRegister))
        (w.clock ((w.messenger.member i).after a res.node).peerAddr) (w.dialed (.run i a e) i) ∧
      (w.messenger.registered i = true →
        (w.messenger.member i).node.conn.peerGlobalSeq ≤ res.node.conn.peerGlobalSeq) := by
  have hsane := h.registry.sane i hi
  have hforeign' : (w.messenger.fill i e).isForeign = false :=
    (Messenger.isForeign_fill i e).trans hforeign
  obtain ⟨hd, hmeets⟩ := meets_of_run h hi hC hhonest
  have hfollows := Node.follows_next hsane.later hd (h.staged i hi) hmeets hforeign'
    (Node.next_of_step hstep)
  refine ⟨?_, hfollows.2⟩
  have hdated : res.node.conn.Dated (!Node.closes (w.messenger.member i).node res.node &&
      (w.messenger.registered i || res.effect.isRegister)) (w.now i) (w.dialed (.run i a e) i) := by
    cases hregister : res.effect.isRegister with
    | true =>
      exact (Node.dated_of_register hsane.later hd (h.staged i hi) hmeets hstep
        (Effect.isRegister_iff.mp hregister)).weaken fun _ ↦ rfl
    | false =>
      rw [Bool.or_false]
      exact hfollows.1.weaken fun hreg ↦ (Bool.and_eq_true_iff.mp hreg).2
  rw [Member.after]
  split_ifs with hlearns
  · -- An address is learned by a connection nobody knows.
    simp only [Node.learns, Bool.and_eq_true, beq_iff_eq] at hlearns
    have hunknown : w.messenger.registered i = false := by
      rw [← Bool.not_eq_true]
      intro hreg
      apply hsane.grown hreg
      rw [Conn.phase_of_state hlearns.1 (by decide)]
      decide
    have hregister : res.effect.isRegister = false := by
      rw [← Bool.not_eq_true, Effect.isRegister_iff]
      intro hr
      exact absurd (hlearns.1.symm.trans (Messenger.existing_of_register hstep hr).2) (by decide)
    rw [hunknown, hregister, Bool.or_false, Bool.and_false] at hdated ⊢
    exact hdated.relocate hlearns.2
  · exact hdated

/-- **What a step means for the numbers of a connection.** -/
theorem follows_turn {act : Action α β} {i : ℕ} {reg : Bool} {m : Member α β} (h : w.Timely)
    (hi : i < w.messenger.count) (hC : w.NotOvertaken (.acts act)) (hhonest : w.honest act = true)
    (hturn : Messenger.Turn enc K flags w.messenger i act reg m) :
    m.node.conn.Dated reg (w.clock m.peerAddr) (w.dialed act i) ∧
      (w.messenger.registered i = true →
        (w.messenger.member i).node.conn.peerGlobalSeq ≤ m.node.conn.peerGlobalSeq) := by
  have hd := h.dated i hi
  cases hturn with
  | still act hact =>
    rw [dialed_of_other hact]
    exact ⟨hd, fun _ ↦ le_rfl⟩
  | steps a e res hforeign hbegins hstep => exact follows_steps h hi hforeign hC hhonest hstep
  | handedOver j k a inp p reset fromPeer hj hex hloc hs hopening hv heffect =>
    have hji : (Action.run j a (.pass inp)).subject ≠ some i := by
      simp [Action.subject, (Messenger.ne_of_existing hex).symm]
    rw [dialed_of_other hji]
    exact ⟨Conn.dated_markReplacing hd hv, fun _ ↦ le_rfl⟩
  | woken act c hact hshell =>
    rw [dialed_of_other hact]
    exact ⟨hd.of_shell hshell, fun _ ↦ (congrArg Conn.peerGlobalSeq hshell).ge⟩
  | timer hidle hev =>
    have hdialed : w.dialed (.replaceTimer i) i = w.since i := by simp [dialed, dials]
    rw [hdialed]
    exact ⟨⟨hd.past, hd.asked, hd.dialed, hd.answered, hd.first, hd.second⟩, fun _ ↦ le_rfl⟩
  | replaces r hin =>
    have hdialed : w.dialed (.handleReplace i r) i = w.since i := by simp [dialed, dials]
    have hreplace : Node.Follows (w.messenger.registered i) (w.now i) (w.since i)
        (w.messenger.member i).node.conn ((w.messenger.member i).node.replace enc r).conn := by
      rw [Node.replace]
      split_ifs with hone
      · exact ⟨Conn.dated_doReplace hd hone, fun _ ↦ (Conn.doReplace_session enc _ r).1.ge⟩
      · exact ⟨hd, fun _ ↦ le_rfl⟩
    rw [hdialed]
    exact ⟨hreplace.1.weaken fun hreg ↦ (Bool.and_eq_true_iff.mp hreg).2, hreplace.2⟩

theorem dated_fresh [Inhabited α] {reg : Bool} {m : Member α β} {now since : ℕ}
    (h : Messenger.Fresh reg m) : m.node.conn.Dated reg now since := by
  have hdated {c : Conn β} {s : State} (hs : c.state = s)
      (hnot : s ∉ State.waitSend :: State.acceptingWaitConnectMsgAuth :: State.dialing)
      (hsession : c.peerGlobalSeq = 0) (hrepl : c.replacing = 0) : c.Dated reg now since := by
    have hphase : c.phase ∉ State.dialing := by
      rw [Conn.phase_of_state hs (by rintro rfl; exact hnot List.mem_cons_self)]
      exact fun hmem ↦ hnot (List.mem_cons_of_mem _ (List.mem_cons_of_mem _ hmem))
    exact {
      past := fun _ ↦ hsession ▸ Nat.zero_le _
      asked := fun hauth ↦ absurd (hs.symm.trans hauth) (by rintro rfl; simp at hnot)
      dialed := fun _ hmem ↦ absurd hmem hphase
      answered := fun hans ↦ absurd hans.phase_mem hphase
      first := fun _ hone ↦ absurd (hrepl.symm.trans hone) (by decide)
      second := fun htwo ↦ absurd (hrepl.symm.trans htwo) (by decide) }
  cases h with
  | outgoing a policy => exact hdated (s := .connecting) rfl (by decide) rfl rfl
  | accepted fd => exact hdated (s := .accepting) rfl (by decide) rfl rfl

variable [DecidableEq α] [Inhabited α]

/-- Nobody has connected, and nobody has taken a number. -/
def init : Network α β := { messenger := .init }

theorem timely_step {w' : Network α β} {e : Happening α β} (h : w.Timely) (hC : w.NotOvertaken e)
    (hstep : w.step enc K flags e = some w') :
    w'.Timely ∧ ∀ i < w.messenger.count, w.messenger.registered i = true →
      (w.messenger.member i).node.conn.peerGlobalSeq ≤
        (w'.messenger.member i).node.conn.peerGlobalSeq := by
  cases e with
  | issues a =>
    rw [step, Option.some_inj] at hstep
    subst hstep
    refine ⟨⟨h.registry, h.staged, fun i hi ↦ (h.dated i hi).mono ?_⟩, fun _ _ _ ↦ le_rfl⟩
    by_cases ha : (w.messenger.member i).peerAddr = a
    · simp [now, ha]
    · simp [now, Function.update_of_ne ha]
  | acts act =>
    rw [step, Option.ite_none_right_eq_some, Option.map_eq_some_iff] at hstep
    obtain ⟨hhonest, s', hs', rfl⟩ := hstep
    have hturn {i : ℕ} (hi : i < w.messenger.count) :
        Messenger.Turn enc K flags w.messenger i act (s'.registered i) (s'.member i) :=
      Messenger.turn_step h.registry hi hs'
    refine ⟨⟨Messenger.registry_step h.registry hs', fun i hi' ↦ ?_, fun i hi' ↦ ?_⟩,
      fun i hi hreg ↦ (follows_turn h hi hC hhonest (hturn hi)).2 hreg⟩
    · by_cases hi : i < w.messenger.count
      · exact Messenger.staged_turn h.registry hi (h.staged i hi) (hturn hi)
      · exact Messenger.staged_fresh
          (Messenger.fresh_step h.registry hs' (Nat.not_lt.mp hi) hi')
    · by_cases hi : i < w.messenger.count
      · exact (follows_turn h hi hC hhonest (hturn hi)).1
      · exact dated_fresh (Messenger.fresh_step h.registry hs' (Nat.not_lt.mp hi) hi')

/-- **The registry and the numbers of the sessions.** In every run among honest peers in which no
registered connection completes a connect with a number larger than that of an attempt whose socket it
has been handed: every entry of `conns` leads to a connection with that address which is not closed, no
socket waits to replace a session that is newer than its attempt, and the number of a registered session
does not become smaller in the next step. -/
theorem sessions_not_older {es : List (Happening α β)}
    (hmeets : Run.Meets (step enc K flags) NotOvertaken init es)
    (hrun : Run.exec (step enc K flags) init es = some w) :
    (∀ a i, w.messenger.conns a = some i → (w.messenger.member i).peerAddr = a ∧
      (w.messenger.member i).node.conn.state ≠ .closed) ∧
    (∀ i < w.messenger.count, w.messenger.registered i = true →
      (w.messenger.member i).node.conn.replacing = 1 →
      (w.messenger.member i).node.conn.peerGlobalSeq ≤
        (w.messenger.member i).node.conn.replacingConnect.globalSeq) ∧
    ∀ e w', w.NotOvertaken e → w.step enc K flags e = some w' →
      ∀ i < w.messenger.count, w.messenger.registered i = true →
        (w.messenger.member i).node.conn.peerGlobalSeq ≤
          (w'.messenger.member i).node.conn.peerGlobalSeq := by
  have htimely : w.Timely := by
    refine Run.invariant_of_meets (fun w e w' h hC hstep ↦ (timely_step h hC hstep).1) ?_ hmeets hrun
    exact ⟨Messenger.registry_init, fun _ h ↦ absurd h (by simp [init, Messenger.init]),
      fun _ h ↦ absurd h (by simp [init, Messenger.init])⟩
  refine ⟨fun a i hconns ↦ ?_, fun i hi hreg hone ↦ (htimely.dated i hi).first hreg hone,
    fun e w' hC hstep i hi hreg ↦ (timely_step htimely hC hstep).2 i hi hreg⟩
  obtain ⟨hi, haddr⟩ := htimely.registry.sound a i hconns
  refine ⟨haddr, (htimely.registry.sane i hi).live ?_⟩
  rw [Messenger.registered_iff, haddr]
  exact hconns

/-- Numbers as addresses, the frames themselves as output units, the trivial codec, both checksums. -/
abbrev frameStep : Network ℕ Frame → Happening ℕ Frame → Option (Network ℕ Frame) :=
  step (fun f ↦ [f]) Codec.trivial ⟨true, true⟩

/-- Connection `i`, with the peer at address 7, takes these steps. -/
def runs (i : ℕ) (es : List (Event Frame)) : List (Happening ℕ Frame) :=
  es.map fun e ↦ .acts (.run i 7 e)

/-- The peer at address 7 takes a number for an attempt of its own, while the messenger dials it and waits
for the reply. -/
def dialPeer : List (Happening ℕ Frame) :=
  .issues 7 :: .acts (.getConnection 7 (Policy.losslessPeer 0 0)) ::
    runs 0 [.process true, .pass { newSd := some ⟨0, .con⟩ },
      .pass { read := .done (.banner AsyncMessenger.banner), kernel := some 1 },
      .pass { read := .done .addrs, kernel := some 1 }, .pass { kernel := some 1 }, .pass {}]

/-- The attempt of the peer arrives, and wins against the connection that is being made. -/
def attempt (connect : MsgConnect) : List (Happening ℕ Frame) :=
  .acts (.addAccept ⟨1, .acc⟩) :: runs 1 [.process true, .pass { kernel := some 2 },
    .pass { read := .done (.bannerAddr AsyncMessenger.banner) },
    .pass { read := .done (.connect connect) },
    .pass { newPolicy := Policy.losslessPeer 0 0, peerLess := true }]

/-- The peer takes a number for the session it accepts, and its reply is read. -/
def answer (number : ℕ) : List (Happening ℕ Frame) :=
  .issues 7 :: runs 0 [.process false,
    .pass { read := .done (.reply { tag := Tag.ready, globalSeq := number, connectSeq := 1 }) },
    .pass {}, .pass {}, .pass {}]

/-- `NotOvertaken`, for evaluation. -/
def notOvertakenTest (w : Network ℕ Frame) : Happening ℕ Frame → Bool
  | .acts (.run i _ (.pass _)) =>
    (w.messenger.member i).node.conn.state != .connectingReady ||
      (w.messenger.member i).node.conn.replacing != 1
  | _ => true

theorem notOvertaken_of_test {w : Network ℕ Frame} {e : Happening ℕ Frame}
    (h : w.notOvertakenTest e = true) : w.NotOvertaken e := by
  rintro i a inp rfl hreg hs hone
  simp [notOvertakenTest, hs, hone] at h

/-- The session is made first, and a later attempt of the peer is handed over to it. -/
theorem sessions_not_older_in_turn :
    ∃ w, Run.exec frameStep init (dialPeer ++ answer 2 ++ .issues 7 ::
        attempt { globalSeq := 3 }) = some w ∧
      (w.messenger.member 0).node.conn.replacing = 1 ∧
      (w.messenger.member 0).node.conn.peerGlobalSeq ≤
        (w.messenger.member 0).node.conn.replacingConnect.globalSeq := by
  have hstate : (Run.exec frameStep init (dialPeer ++ answer 2 ++ .issues 7 ::
      attempt { globalSeq := 3 })).map (fun w ↦ (w.messenger.count, w.messenger.registered 0,
        (w.messenger.member 0).node.conn.replacing)) = some (2, true, 1) := by
    decide +kernel
  obtain ⟨w, hrun, hw⟩ := Option.map_eq_some_iff.mp hstate
  simp only [Prod.mk.injEq] at hw
  obtain ⟨hcount, hreg, hone⟩ := hw
  have hmeets : Run.Meets frameStep NotOvertaken init
      (dialPeer ++ answer 2 ++ .issues 7 :: attempt { globalSeq := 3 }) :=
    Run.Meets.of_check (fun _ _ ↦ notOvertaken_of_test) (by decide +kernel)
  exact ⟨w, hrun, hone, (sessions_not_older hmeets hrun).2.1 0 (by omega) hreg hone⟩

/-- The attempt with number 1 is handed over while the connection waits for its reply. The reply makes
the session with number 2, and the older attempt replaces it. -/
theorem session_replaced_by_older_attempt :
    (Run.exec frameStep init (dialPeer ++ attempt { globalSeq := 1 } ++ answer 2)).map
      (fun w ↦ ((w.messenger.member 0).node.conn.state,
        (w.messenger.member 0).node.conn.peerGlobalSeq,
        (w.messenger.member 0).node.conn.replacing,
        (w.messenger.member 0).node.conn.replacingConnect.globalSeq)) = some (.opened, 2, 1, 1) ∧
    (Run.exec frameStep init (dialPeer ++ attempt { globalSeq := 1 } ++ answer 2 ++
        [.acts (.replaceTimer 0), .acts (.handleReplace 0 {})])).map
      (fun w ↦ ((w.messenger.member 0).node.conn.state,
        (w.messenger.member 0).node.conn.sd)) =
      some (.acceptingWaitConnectMsg, some ⟨1, .acc⟩) := by
  decide +kernel

end Network

end AsyncMessenger
