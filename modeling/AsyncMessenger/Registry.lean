import AsyncMessenger.Lib.Run
import AsyncMessenger.Messenger

/-!
# The registry of connections

A step of the messenger concerns one connection, and through `handle_connect_msg` at most one other:
the one registered for the same peer. To prove something of every connection it should be enough to
look at one of them, with what others may do to it.

## Turns

`Turn` lists what a step can mean for a connection: a step of its own, with what it does to the
registry; that another connection hands its socket over, or has it send a keepalive; one of the two
halves of `handle_replace`; or nothing at all. `turn_step` says that there is nothing else. A
property of the single connections, and of whether they are registered, then holds in every state of
a messenger if it holds for new connections and every turn keeps it (`forall_of_turn`). The modules
behind this one use this rule, and do not look at the steps of a messenger again.

## The registry in order

The list rests on the registry being in order: an entry of `conns` leads to a connection with that
address, and a registered connection is not closed and has its address for good (`Registry`). This
is an induction of its own, and it comes after the list, since it uses it: the steps that change an
address are those of connections that are not registered yet.
-/

namespace AsyncMessenger

/-- The states of an accepted connection before it knows the address of its peer. -/
def State.young : List State := [.accepting, .acceptingWaitBannerAddr]

/-- The states of an accepted connection until its connect message has been answered. -/
def State.awaiting : List State :=
  [.accepting, .acceptingWaitBannerAddr, .acceptingWaitConnectMsg, .acceptingWaitConnectMsgAuth]

namespace Conn

variable {β : Type} {enc : Frame → List β} {K : Codec} {flags : CrcFlags}

/-! ## What a pass does to other connections

A pass acts on the messenger through its effect. Two effects matter here: it registers its own
connection, when nobody else is registered for the peer, or it hands its socket over to the one that
is. -/

/-- What a pass means for the messenger and its other connections. -/
inductive Reaches (c : Conn β) (inp : Input β) (o : Outcome β) : Prop
  | nobody (hregister : o.effect ≠ .register) (hreplace : ∀ e, o.effect ≠ .replace e)
  /-- It prepares the answer to a connect message and registers its connection. -/
  | registers (p : Policy) (hs : c.state = .acceptingWaitConnectMsgAuth) (hopening : c.opening = none)
      (hp : SamePolicy p inp.newPolicy) (hnone : inp.existing = none)
      (hv : Judges { c with policy := p } c.connectMsg inp.peerLess none .open)
      (heq : o = ({ c with policy := p } : Conn β).openSession c.connectMsg inp.authorizerReply
        inp.protoVersion inp.gseq)
  /-- It hands its socket over to the registered connection. -/
  | handsOver (p : Policy) (e : Conn β) (reset fromPeer : Bool)
      (hs : c.state = .acceptingWaitConnectMsgAuth) (hopening : c.opening = none)
      (hp : SamePolicy p inp.newPolicy) (he : inp.existing = some e)
      (hv : Judges { c with policy := p } c.connectMsg inp.peerLess (some e)
        (.replace reset fromPeer))
      (heffect : o.effect =
        .replace (e.markReplacing c.sd c.connectMsg inp.authorizerReply reset fromPeer))

theorem reaches_of_none {c : Conn β} {inp : Input β} {o : Outcome β} (h : o.effect = .none) :
    c.Reaches inp o := by
  refine .nobody ?_ fun e ↦ ?_ <;> rw [h] <;> simp

theorem reaches_of_keepalive {c : Conn β} {inp : Input β} {o : Outcome β}
    (h : o.effect = .none ∨ o.effect = .keepalive) : c.Reaches inp o := by
  rcases h with h | h
  · exact reaches_of_none h
  · refine .nobody ?_ fun e ↦ ?_ <;> rw [h] <;> simp

theorem Move.reaches {c : Conn β} {inp : Input β} {o : Outcome β} (h : Move enc c inp o) :
    c.Reaches inp o := by
  cases h with
  | handsOver p e reset fromPeer hs hopening hp he hv =>
    exact .handsOver p e reset fromPeer hs hopening hp he hv rfl
  | opens p hs hopening hp hv =>
    have hnone : inp.existing = none := by
      generalize inp.existing = existing at hv
      cases hv
      rfl
    rw [hnone] at hv
    exact .registers p hs hopening hp hnone hv rfl
  | refuses p tag reply auth effect r k evWrite hs hopening hp hdeny =>
    exact reaches_of_keepalive (by cases hdeny <;> simp)
  | failsReply p out effect replacing hs hopening hp heffect => exact reaches_of_keepalive heffect
  | dials fd hs hserver hsd => exact reaches_of_none (by simp [dial, hserver, hsd, goto])
  | failsDial hs hserver hsd => exact reaches_of_none (by simp [dial, hserver, hsd, failed])
  | connected hs hseq => exact reaches_of_none (by simp [connectDone, hseq])
  | _ => exact reaches_of_none rfl

/-- Every pass does one of these. -/
theorem reaches_pass (c : Conn β) (inp : Input β) : c.Reaches inp (c.pass K flags enc inp) := by
  rcases pass_cases K flags enc c inp with
    ⟨-, heq⟩ | heq | ⟨-, heq⟩ | ⟨o, hmove, -, -, heq | ⟨hfail, heq⟩⟩
  · rw [heq]
    have hharmless : Harmless (c.processOpen K flags inp) := harmless_processOpen c inp
    exact .nobody hharmless.2.2.1 hharmless.2.2.2.2
  · rw [heq]
    exact reaches_of_none rfl
  · rw [heq]
    exact reaches_of_none rfl
  · rw [heq]
    exact hmove.reaches
  · rw [heq]
    cases hmove.reaches with
    | nobody hregister hreplace => exact .nobody hregister hreplace
    | registers p hs hopening hp hnone hv ho =>
      rw [ho] at hfail
      exact absurd hfail (by simp [openSession])
    | handsOver p e reset fromPeer hs hopening hp he hv heffect =>
      exact .handsOver p e reset fromPeer hs hopening hp he hv heffect

/-! ## Before the address is known

An accepted connection learns the address of its peer from the banner. Its states until then are
entered only from each other, so a connection that has left them has its address for good. -/

theorem not_young_of_parted {c : Conn β} (h : c.state ∈ parted) : c.phase ∉ State.young := by
  simp only [parted, List.mem_cons, List.not_mem_nil, or_false] at h
  rcases h with hs | hs | hs | hs <;> rw [phase_of_state hs (by decide)] <;> decide

theorem not_young_of_state {c : Conn β} {s : State} (hs : c.state = s)
    (hnot : s ∉ State.waitSend :: State.young) : c.phase ∉ State.young := by
  rw [phase_of_state hs fun h ↦ hnot (h ▸ List.mem_cons_self)]
  exact fun h ↦ hnot (List.mem_cons_of_mem _ h)

theorem phase_eq_of_shell {c c' : Conn β} (h : c'.shell = c.shell) : c'.phase = c.phase := by
  have hphase : c'.shell.phase = c.shell.phase := congrArg phase h
  exact hphase

theorem Later.of_shell {c c' : Conn β} (h : c.Later) (hshell : c'.shell = c.shell) : c'.Later := by
  have hstore : c'.shell.store = c.shell.store := congrArg store hshell
  exact h.congr hstore

/-- A move enters one of the first states of an accepted connection only from one of them. -/
theorem Move.young {c : Conn β} {inp : Input β} {o : Outcome β} (h : Move enc c inp o)
    (hlater : c.Later) (hyoung : o.conn.phase ∈ State.young) : c.phase ∈ State.young := by
  have hnot {s : State} (hs : o.conn.state = s) (hmem : s ∉ State.waitSend :: State.young) :
      c.phase ∈ State.young := absurd hyoung (not_young_of_state hs hmem)
  cases h with
  | waits | aborts | fails => exact hyoung
  | flushes hs hout hafter =>
    have hphase : c.phase = c.stateAfterSend := by
      rw [phase, if_pos hs]
    rw [hphase]
    rcases hlater.afterSend with hnone | hmem
    · exact absurd hnone hafter
    · -- a state that is entered after a send is none of the first ones
      by_contra hno
      refine absurd hyoung (not_young_of_state (s := c.stateAfterSend) rfl fun h ↦ ?_)
      rcases List.mem_cons.mp h with hwait | hin
      · rw [hwait] at hmem
        exact absurd hmem (by decide)
      · exact hno hin
  | dials fd hs hserver hsd =>
    exact hnot (s := .connectingWaitBanner) (by simp [dial, hserver, hsd, goto]) (by decide)
  | failsDial hs hserver hsd =>
    exact hnot (s := .connecting) (by simp [dial, hserver, hsd, failed, hs]) (by decide)
  | sends d frames next k evWrite s a hprep hnext =>
    have hnext' : next ≠ .waitSend := by
      cases hprep with
      | reply frames next hs hsome =>
        rcases hlater.opening frames next hsome with rfl | rfl <;> decide
      | _ => decide
    rw [hnext.phase_eq hnext' rfl rfl] at hyoung
    cases hprep with
    | greeting hs =>
      rw [phase_of_state hs (by decide)]
      decide
    | reply frames next hs hsome =>
      rcases hlater.opening frames next hsome with rfl | rfl <;> exact absurd hyoung (by decide)
    | _ => exact absurd hyoung (by decide)
  | failsSend d frames next hprep =>
    cases hprep with
    | reply frames next hs hsome =>
      exact hnot (s := .acceptingWaitConnectMsgAuth) hs (by decide)
    | _ => exact hyoung
  | heeds d s g hs hheeds =>
    refine hnot (s := s) rfl ?_
    cases hheeds <;> decide
  | connected hs hseq =>
    exact hnot (s := .opened) (by simp [connectDone, hseq]) (by decide)
  | failsReply p out effect replacing hs =>
    exact hnot (s := .acceptingWaitConnectMsgAuth) hs (by decide)
  | handsOver p e reset fromPeer hs => exact hnot (state_stop _) (by decide)
  | opens p hs =>
    refine hnot (s := .acceptingWaitConnectMsgAuth) ?_ (by decide)
    simp only [openSession]
    split_ifs <;> exact hs
  | notifies hs => exact hnot (s := .acceptingWaitConnectMsgAuth) hs (by decide)
  | _ => exact hnot rfl (by simp [State.young])

theorem young_of_pass {c : Conn β} {inp : Input β} (hlater : c.Later)
    (hyoung : (c.pass K flags enc inp).conn.phase ∈ State.young) : c.phase ∈ State.young := by
  rcases pass_cases K flags enc c inp with
    ⟨hopen, heq⟩ | heq | ⟨-, heq⟩ | ⟨o, hmove, -, -, heq | ⟨-, heq⟩⟩
  · rw [heq] at hyoung
    have hopen' : (c.processOpen K flags inp).conn.state.isOpen = true :=
      (reads_processOpen hopen).2
    refine absurd hyoung (not_young_of_state rfl fun hmem ↦ ?_)
    simp only [State.young, List.mem_cons, List.not_mem_nil, or_false] at hmem
    rcases hmem with hs | hs | hs <;> rw [hs] at hopen' <;> exact absurd hopen' (by decide)
  · rw [heq] at hyoung
    exact hyoung
  · rw [heq] at hyoung
    exact absurd hyoung (not_young_of_state (s := .connectingSendConnectMsg) rfl (by decide))
  · rw [heq] at hyoung
    exact hmove.young hlater hyoung
  · rw [heq] at hyoung
    exact hmove.young hlater hyoung

end Conn

namespace Node

variable {β : Type} {enc : Frame → List β} {K : Codec} {flags : CrcFlags}

open Conn

theorem young_of_next {n n' : Node β} {e : Event β} (hlater : n.conn.Later)
    (hnext : n.next enc K flags e = some n') (hyoung : n'.conn.phase ∈ State.young) :
    n.conn.phase ∈ State.young := by
  have hstopped {c : Conn β} : c.stop.phase ∉ State.young := by
    apply not_young_of_parted
    rw [state_stop]
    decide
  cases change_next hnext with
  | quiet e n' he hshell hloc => exact phase_eq_of_shell hshell ▸ hyoung
  | connects m concurrent gather n' hs hserver hstopping hshell hloc =>
    rw [phase_eq_of_shell hshell] at hyoung
    exact absurd hyoung (not_young_of_parted (by simp [parted]))
  | setStopping => exact hyoung
  | markDisposable =>
    simp only [Conn.markDisposable] at hyoung
    split_ifs at hyoung
    · exact absurd hyoung hstopped
    · exact hyoung
  | cStop hidle hstopping => exact absurd hyoung hstopped
  | leave k n' hloc hshell hidle =>
    rw [phase_eq_of_shell hshell] at hyoung
    exact absurd hyoung hstopped
  | handOver sd m auth reset fromPeer hbusy => exact hyoung
  | handleReplaceLate r hidle hev hrepl => exact hyoung
  | handleReplace r hidle hev hrepl =>
    exact absurd hyoung (not_young_of_parted (doReplace_mem_parted enc _ r))
  | passes inp k n' hloc hflow hshell hloc' =>
    rw [phase_eq_of_shell hshell] at hyoung
    exact young_of_pass hlater hyoung
  | waits inp k close n' hloc hflow hshell hloc' =>
    rw [phase_eq_of_shell hshell] at hyoung
    exact young_of_pass hlater hyoung
  | givesUp e c close n' hup hafter =>
    have hc (h : c.phase ∈ State.young) : n.conn.phase ∈ State.young := by
      cases hup with
      | pass | passClose => exact young_of_pass hlater h
      | wake | write => exact h
    cases hafter with
    | replaced r hrepl hshell hloc =>
      rw [phase_eq_of_shell hshell] at hyoung
      exact absurd hyoung (not_young_of_parted (doReplace_mem_parted enc _ r))
    | parts k hrepl hwhy hshell hloc => exact hc (phase_eq_of_shell hshell ▸ hyoung)
    | faults hrepl hclose hclosed hstops hshell hloc =>
      rw [phase_eq_of_shell hshell] at hyoung
      exact absurd hyoung (not_young_of_parted c.faultRetry_mem_parted)
    | closed hrepl hclosed hshell hloc => exact hc (phase_eq_of_shell hshell ▸ hyoung)

theorem next_of_step {n : Node β} {e : Event β} {res : Result β}
    (h : n.step enc K flags e = some res) : n.next enc K flags e = some res.node := by
  rw [next, h, Option.map_some]

/-- A pass has its effect unless an assertion fails. -/
theorem effect_processPass (n : Node β) (k : Caller) (inp : Input β) :
    (processPass enc K flags n k inp).effect =
      if (n.conn.pass K flags enc inp).flow = .abort then .none
      else (n.conn.pass K flags enc inp).effect := by
  simp only [processPass]
  split <;> rename_i hflow <;> simp [hflow]

theorem effect_of_pass {n : Node β} {inp : Input β} {res : Result β}
    (h : n.step enc K flags (.pass inp) = some res)
    (hflow : (n.conn.pass K flags enc inp).flow ≠ .abort) :
    res.effect = (n.conn.pass K flags enc inp).effect := by
  cases (Step.of_step h).2 with
  | pass inp k hloc => rw [effect_processPass, if_neg hflow]

/-- Only passes have effects. -/
theorem effect_of_step {n : Node β} {e : Event β} {res : Result β}
    (h : n.step enc K flags e = some res) :
    res.effect = .none ∨ ∃ inp k, e = .pass inp ∧ n.loc = .process k ∧
      (n.conn.pass K flags enc inp).flow ≠ .abort ∧
      res.effect = (n.conn.pass K flags enc inp).effect := by
  -- the steps behind `fail` and behind an unlocked stretch have none
  have hfault (c : Conn β) (win : Option (Window β)) (k : Option Caller) :
      (fault c win k).effect = .none := by
    rw [fault]
    split_ifs <;> rfl
  have hfail (c : Conn β) (r : ReplaceInput) : (writeFail enc c r).effect = .none := by
    simp only [writeFail]
    split_ifs
    · rfl
    · exact hfault _ _ _
  have hreturn (c : Conn β) (owner : Owner) (loc : Loc) (left : Option ℕ) (gather : ℕ)
      (r : ReplaceInput) : (returnTrySend enc K flags c owner loc left gather r).effect = .none := by
    rw [returnTrySend.eq_def]
    split
    · rfl
    · rw [afterWrite.eq_def]
      split
      · exact hfail _ _
      all_goals rfl
    · rfl
  cases (Step.of_step h).2 with
  | pass inp k hloc =>
    by_cases habort : (n.conn.pass K flags enc inp).flow = .abort
    · exact Or.inl (by rw [effect_processPass, if_pos habort])
    · exact Or.inr ⟨inp, k, rfl, hloc, habort, effect_of_pass h habort⟩
  | relock gather r w hwin =>
    apply Or.inl
    rw [relock]
    split_ifs
    · exact hreturn _ _ _ _ _ _
    · split
      · rfl
      · split_ifs
        · rfl
        · exact hreturn _ _ _ _ _ _
  | handleReplace r hidle hev =>
    simp only [handleReplace]
    split_ifs <;> exact Or.inl rfl
  | wake r k close prev hloc hsending =>
    rw [afterWait]
    split_ifs
    · exact Or.inl rfl
    · exact Or.inl rfl
    · exact Or.inl (hfault _ _ _)
  | _ => exact Or.inl rfl

end Node

/-- The effect registers the connection. -/
def Effect.isRegister {β : Type} : Effect β → Bool
  | .register => true
  | _ => false

theorem Effect.isRegister_iff {β : Type} {effect : Effect β} :
    effect.isRegister = true ↔ effect = .register := by
  cases effect <;> simp [Effect.isRegister]

namespace Messenger

variable {α β : Type} {s : Messenger α β}

theorem registered_iff {i : ℕ} :
    s.registered i = true ↔ s.conns (s.member i).peerAddr = some i := by
  simp [registered]

theorem existing_eq_some_iff {i j : ℕ} :
    s.existing i = some j ↔ s.conns (s.member i).peerAddr = some j ∧ j ≠ i := by
  simp [existing, Option.filter_eq_some_iff]

theorem ne_of_existing {i j : ℕ} (h : s.existing i = some j) : j ≠ i := (existing_eq_some_iff.mp h).2

theorem isForeign_fill (i : ℕ) (e : Event β) : (s.fill i e).isForeign = e.isForeign := by
  cases e <;> rfl

@[simp] theorem member_put_self (i : ℕ) (m : Member α β) : (s.put i m).member i = m :=
  Function.update_self ..

theorem member_put_of_ne {i j : ℕ} (h : j ≠ i) (m : Member α β) :
    (s.put i m).member j = s.member j :=
  Function.update_of_ne h ..

@[simp] theorem peerAddr_putConn (i j : ℕ) (c : Conn β) :
    ((s.putConn i c).member j).peerAddr = (s.member j).peerAddr := by
  by_cases h : j = i
  · rw [h, putConn, member_put_self]
    rfl
  · rw [putConn, member_put_of_ne h]

/-! ## The registry in order -/

/-- What holds of a single connection; `reg` says whether it is registered. -/
structure Sane (reg : Bool) (m : Member α β) : Prop where
  later : m.node.conn.Later
  ended : m.node.conn.Ended
  live : reg = true → m.node.conn.state ≠ .closed
  grown : reg = true → m.node.conn.phase ∉ State.young

/-- The registry is in order. -/
structure Registry (s : Messenger α β) : Prop where
  sound : ∀ a i, s.conns a = some i → i < s.count ∧ (s.member i).peerAddr = a
  sane : ∀ i < s.count, Sane (s.registered i) (s.member i)

/-! ## Turns

The cases of `Turn` are the rows of a table: what the step was, and what it has left of the
connection and of its registration. -/

section Turn

variable (enc : Frame → List β) (K : Codec) (flags : CrcFlags)

/-- What a step can mean for connection `i`: whether it is registered afterwards, and what it looks
like. -/
inductive Turn (s : Messenger α β) (i : ℕ) : Action α β → Bool → Member α β → Prop
  /-- Nothing. -/
  | still (act : Action α β) (hact : act.subject ≠ some i) :
    Turn s i act (s.registered i) (s.member i)
  /-- A step of its own. -/
  | steps (a : α) (e : Event β) (res : Result β) (hforeign : e.isForeign = false)
      (hbegins : (s.member i).inReplace = true → e.begins = false)
      (hstep : (s.member i).node.step enc K flags (s.fill i e) = some res) :
    Turn s i (.run i a e)
      (!Node.closes (s.member i).node res.node && (s.registered i || res.effect.isRegister))
      ((s.member i).after a res.node)
  /-- Connection `j`, accepted for the same peer, hands its socket over. -/
  | handedOver (j k a inp p reset fromPeer) (hj : j < s.count) (hi : s.existing j = some i)
      (hloc : (s.member j).node.loc = .process k)
      (hs : (s.member j).node.conn.state = .acceptingWaitConnectMsgAuth)
      (hopening : (s.member j).node.conn.opening = none)
      (hv : Conn.Judges { (s.member j).node.conn with policy := p } (s.member j).node.conn.connectMsg
        inp.peerLess (some (s.member i).node.conn) (.replace reset fromPeer))
      (heffect : ∃ c, ((s.member j).node.conn.pass K flags enc (s.fillInput j inp)).effect =
        .replace c) :
    Turn s i (.run j a (.pass inp)) (s.registered i)
      ((s.member i).withConn ((s.member i).node.conn.markReplacing (s.member j).node.conn.sd
        (s.member j).node.conn.connectMsg inp.authorizerReply reset fromPeer))
  /-- Another connection has it send a keepalive. -/
  | woken (act : Action α β) (c : Conn β) (hact : act.subject ≠ some i)
      (hshell : c.shell = (s.member i).node.conn.shell) :
    Turn s i act (s.registered i) ((s.member i).withConn c)
  | timer (hidle : (s.member i).node.loc = .idle) (hev : (s.member i).node.conn.evReplace = true) :
    Turn s i (.replaceTimer i) (s.registered i)
      { (s.member i).withConn { (s.member i).node.conn with evReplace := false } with
        inReplace := true }
  | replaces (r : ReplaceInput) (hin : (s.member i).inReplace = true) :
    Turn s i (.handleReplace i r)
      (!Node.closes (s.member i).node ((s.member i).node.replace enc r) && s.registered i)
      { s.member i with node := (s.member i).node.replace enc r, inReplace := false }

end Turn

variable {enc : Frame → List β} {K : Codec} {flags : CrcFlags}

/-- The address of a connection changes only while it is not registered. -/
theorem registered_after (h : s.Registry) {i : ℕ} (hi : i < s.count) {a : α} {n : Node β} :
    s.conns ((s.member i).after a n).peerAddr = some i ↔ s.registered i = true := by
  rw [registered_iff, Member.after]
  split_ifs with hlearns
  · have hyoung : s.registered i ≠ true := by
      intro hreg
      simp only [Node.learns, Bool.and_eq_true, beq_iff_eq] at hlearns
      refine (h.sane i hi).grown hreg ?_
      rw [Conn.phase_of_state hlearns.1 (by decide)]
      decide
    refine ⟨fun hconns ↦ ?_, fun hconns ↦ absurd (registered_iff.mpr hconns) hyoung⟩
    exact (h.sound a i hconns).2.symm ▸ hconns
  · exact Iff.rfl

theorem existing_put_after {i : ℕ} {a : α} {n : Node β} {g : ℕ}
    (hlearns : Node.learns (s.member i).node n = false) :
    (({ s with gseq := g } : Messenger α β).put i ((s.member i).after a n)).existing i =
      s.existing i := by
  rw [existing, member_put_self, Member.after, hlearns]
  rfl

/-- A registering pass finds no other connection. -/
theorem existing_of_register {i : ℕ} {e : Event β} {res : Result β}
    (hstep : (s.member i).node.step enc K flags (s.fill i e) = some res)
    (hregister : res.effect = .register) :
    s.existing i = none ∧ (s.member i).node.conn.state = .acceptingWaitConnectMsgAuth := by
  rcases Node.effect_of_step hstep with hnone | ⟨inp, k, he, -, -, heffect⟩
  · exact absurd (hnone.symm.trans hregister) (by simp)
  · cases e with
    | pass inp' =>
      rw [hregister] at heffect
      rw [fill, Event.pass.injEq] at he
      cases Conn.reaches_pass (K := K) (s.member i).node.conn inp with
      | nobody hne => exact absurd heffect.symm hne
      | registers p hs hopening hp hnone hv heq =>
        rw [← he] at hnone
        exact ⟨Option.map_eq_none_iff.mp hnone, hs⟩
      | handsOver p c reset fromPeer hs hopening hp hc hv hne =>
        exact absurd (heffect.trans hne) (by simp)
    | _ => exact absurd he (by simp [fill])

/-- A pass of connection `j` hands its socket over to connection `i`. -/
theorem turn_of_replace {i j : ℕ} {a : α} {e : Event β} {res : Result β} {c : Conn β}
    (hj : j < s.count) (hstep : (s.member j).node.step enc K flags (s.fill j e) = some res)
    (hc : res.effect = .replace c)
    (hex : (({ s with gseq := res.gseq.getD s.gseq } : Messenger α β).put j
      ((s.member j).after a res.node)).existing j = some i) :
    Turn enc K flags s i (.run j a e) (s.registered i) ((s.member i).withConn c) := by
  rcases Node.effect_of_step hstep with hnone | ⟨inp, k, he, hloc, -, heffect⟩
  · exact absurd (hnone.symm.trans hc) (by simp)
  · cases e with
    | pass inp' =>
      rw [hc] at heffect
      rw [fill, Event.pass.injEq] at he
      cases Conn.reaches_pass (K := K) (s.member j).node.conn inp with
      | nobody _ hne => exact absurd heffect.symm (hne c)
      | registers p hs hopening hp hnone hv heq =>
        rw [heq] at heffect
        exact absurd heffect (by simp [Conn.openSession])
      | handsOver p e reset fromPeer hs hopening hp he' hv heq =>
        rw [existing_put_after (by simp [Node.learns, hs])] at hex
        rw [← he] at he' heq hv
        simp only [fillInput, hex, Option.map_some, Option.some_inj] at he'
        subst he'
        rw [← he] at heffect
        rw [Effect.replace.inj (heffect.trans heq)]
        exact .handedOver j k a inp' p reset fromPeer hj hex hloc hs hopening hv ⟨c, heffect.symm⟩
    | _ => exact absurd he (by simp [fill])

/-! ## The operations on the registry

Each of `_accept_conn`, `_unregister_conn` and the effects of `handle_connect_msg` is looked at
twice: at the connection it is about, and at any other. -/

variable [DecidableEq α]

theorem member_accept (i : ℕ) : (s.accept i).member = s.member := by
  rw [accept]
  split_ifs <;> rfl

theorem count_accept (i : ℕ) : (s.accept i).count = s.count := by
  rw [accept]
  split_ifs <;> rfl

/-- `_accept_conn` says nothing about the other connections. -/
theorem conns_accept {i j : ℕ} (hne : j ≠ i) (a : α) :
    (s.accept i).conns a = some j ↔ s.conns a = some j := by
  rw [accept]
  split_ifs with hsome
  · exact Iff.rfl
  · by_cases ha : a = (s.member i).peerAddr
    · have hold : s.conns a ≠ some j := by
        intro h
        refine hsome (Option.isSome_iff_exists.mpr ⟨j, existing_eq_some_iff.mpr ⟨?_, hne⟩⟩)
        exact ha ▸ h
      have hnew : Function.update s.conns (s.member i).peerAddr (some i) a = some i := by
        rw [ha, Function.update_self]
      refine ⟨fun h ↦ absurd (Option.some_inj.mp (hnew.symm.trans h)) hne.symm, fun h ↦ absurd h hold⟩
    · simp only [Function.update_of_ne ha]

/-- `_unregister_conn` says nothing about the other connections. -/
theorem conns_unregister {i j : ℕ} (hne : j ≠ i) (a : α) :
    (s.unregister i).conns a = some j ↔ s.conns a = some j := by
  simp only [unregister]
  split_ifs with hreg
  · by_cases ha : a = (s.member i).peerAddr
    · have hold : s.conns a = some i := ha ▸ registered_iff.mp hreg
      have hnew : Function.update s.conns (s.member i).peerAddr none a = none := by
        rw [ha, Function.update_self]
      rw [hnew, hold]
      simp [hne.symm]
    · rw [Function.update_of_ne ha]
  · exact Iff.rfl

theorem registered_unregister (i : ℕ) : (s.unregister i).registered i = false := by
  have hne : (s.unregister i).conns ((s.unregister i).member i).peerAddr ≠ some i := by
    simp only [unregister]
    split_ifs with hreg
    · rw [Function.update_self]
      simp
    · exact fun h ↦ hreg (registered_iff.mpr h)
  simpa [registered] using hne

theorem registered_accept {i : ℕ} (hnone : s.existing i = none) : (s.accept i).registered i = true := by
  rw [registered_iff, member_accept, accept, hnone, if_neg (by simp)]
  exact Function.update_self ..

/-- What a pass does to the connection that runs it is not an effect. -/
theorem member_affect_self (i : ℕ) (effect : Effect β) :
    (s.affect i effect).member i = s.member i := by
  cases effect with
  | register => rw [affect, member_accept]
  | replace c =>
    rw [affect]
    split
    · exact member_put_of_ne (ne_of_existing ‹_›).symm _
    · rfl
  | keepalive =>
    rw [affect]
    split
    · split_ifs
      · rfl
      · exact member_put_of_ne (ne_of_existing ‹_›).symm _
    · rfl
  | _ => rfl

theorem count_affect (i : ℕ) (effect : Effect β) : (s.affect i effect).count = s.count := by
  cases effect with
  | register => exact count_accept i
  | replace c =>
    rw [affect]
    split <;> rfl
  | keepalive =>
    rw [affect]
    split
    · split_ifs <;> rfl
    · rfl
  | _ => rfl

theorem peerAddr_affect (i j : ℕ) (effect : Effect β) :
    ((s.affect i effect).member j).peerAddr = (s.member j).peerAddr := by
  cases effect with
  | register => rw [affect, member_accept]
  | replace c =>
    rw [affect]
    split
    · exact peerAddr_putConn ..
    · rfl
  | keepalive =>
    rw [affect]
    split
    · split_ifs
      · rfl
      · exact peerAddr_putConn ..
    · rfl
  | _ => rfl

theorem conns_affect_of_ne {i j : ℕ} (hne : j ≠ i) (effect : Effect β) (a : α) :
    (s.affect i effect).conns a = some j ↔ s.conns a = some j := by
  cases effect with
  | register => exact conns_accept hne a
  | replace c =>
    rw [affect]
    split <;> exact Iff.rfl
  | keepalive =>
    rw [affect]
    split
    · split_ifs <;> exact Iff.rfl
    · exact Iff.rfl
  | _ => exact Iff.rfl

/-- The lists of connections change only where a connection is registered. -/
theorem lists_affect {effect : Effect β} (h : effect.isRegister = false) (i : ℕ) :
    (s.affect i effect).conns = s.conns ∧ (s.affect i effect).accepting = s.accepting := by
  cases effect with
  | register => exact absurd h (by simp [Effect.isRegister])
  | replace c =>
    rw [affect]
    split <;> exact ⟨rfl, rfl⟩
  | keepalive =>
    rw [affect]
    split
    · split_ifs <;> exact ⟨rfl, rfl⟩
    · exact ⟨rfl, rfl⟩
  | _ => exact ⟨rfl, rfl⟩

/-- What an effect does to the other connections. -/
theorem member_affect (i j : ℕ) (effect : Effect β) :
    (s.affect j effect).member i = s.member i ∨
    (∃ c, effect = .replace c ∧ s.existing j = some i ∧
      (s.affect j effect).member i = (s.member i).withConn c) ∨
    (s.affect j effect).member i = (s.member i).withConn
      ({ (s.member i).node.conn with keepalive := true } : Conn β).startWrite := by
  have hput {k : ℕ} {c : Conn β} : i = k ∧ (s.putConn k c).member i = (s.member i).withConn c ∨
      (s.putConn k c).member i = s.member i := by
    by_cases hik : i = k
    · exact Or.inl ⟨hik, by rw [hik, putConn, member_put_self]⟩
    · exact Or.inr (member_put_of_ne hik _)
  cases effect with
  | register => exact Or.inl (congrFun (member_accept j) i)
  | replace c =>
    rw [affect]
    split
    · rename_i k hk
      rcases @hput k c with ⟨rfl, h⟩ | h
      · exact Or.inr (Or.inl ⟨c, rfl, hk, h⟩)
      · exact Or.inl h
    · exact Or.inl rfl
  | keepalive =>
    rw [affect]
    split
    · rename_i k hk
      split_ifs
      · exact Or.inl rfl
      · rcases @hput k ({ (s.member k).node.conn with keepalive := true } : Conn β).startWrite with
          ⟨rfl, h⟩ | h
        · exact Or.inr (Or.inr h)
        · exact Or.inl h
    · exact Or.inl rfl
  | _ => exact Or.inl rfl

/-! ## The end of a step

A step ends by putting the connection back and carrying out what it does to others (`settle`). The
lemmas say what can be read off the messenger afterwards. -/

theorem count_settle (i : ℕ) (m : Member α β) (effect : Effect β) (g : ℕ) :
    (s.settle i m effect g).count = s.count := by
  rw [settle]
  split_ifs
  · exact count_affect i effect
  · exact count_affect i effect

theorem member_settle (i j : ℕ) (m : Member α β) (effect : Effect β) (g : ℕ) :
    (s.settle j m effect g).member i =
      ((({ s with gseq := g } : Messenger α β).put j m).affect j effect).member i := by
  rw [settle]
  split_ifs <;> rfl

theorem member_settle_self (i : ℕ) (m : Member α β) (effect : Effect β) (g : ℕ) :
    (s.settle i m effect g).member i = m := by
  rw [member_settle, member_affect_self, member_put_self]

theorem conns_settle_of_ne {i j : ℕ} (hne : i ≠ j) (m : Member α β) (effect : Effect β) (g : ℕ)
    (a : α) : (s.settle j m effect g).conns a = some i ↔ s.conns a = some i := by
  rw [settle]
  split_ifs
  · exact (conns_unregister hne a).trans (conns_affect_of_ne hne effect a)
  · exact conns_affect_of_ne hne effect a

theorem peerAddr_settle_of_ne {i j : ℕ} (hne : i ≠ j) (m : Member α β) (effect : Effect β) (g : ℕ) :
    ((s.settle j m effect g).member i).peerAddr = (s.member i).peerAddr := by
  rw [member_settle, peerAddr_affect, member_put_of_ne hne]

theorem registered_settle_of_ne {i j : ℕ} (hne : i ≠ j) (m : Member α β) (effect : Effect β)
    (g : ℕ) : (s.settle j m effect g).registered i = s.registered i := by
  rw [Bool.eq_iff_iff, registered_iff, registered_iff, peerAddr_settle_of_ne hne,
    conns_settle_of_ne hne]

theorem registered_settle_self {i : ℕ} {m : Member α β} {effect : Effect β} {g : ℕ}
    (hregister : effect = .register →
      (({ s with gseq := g } : Messenger α β).put i m).existing i = none) :
    (s.settle i m effect g).registered i =
      (!Node.closes (s.member i).node m.node &&
        (s.conns m.peerAddr == some i || effect.isRegister)) := by
  rw [settle]
  split_ifs with hcloses
  · rw [registered_unregister, hcloses]
    rfl
  · rw [Bool.not_eq_true] at hcloses
    rw [hcloses, Bool.not_false, Bool.true_and]
    cases heffect : effect.isRegister with
    | false =>
      rw [registered, (lists_affect heffect i).1, member_affect_self, member_put_self, Bool.or_false]
      rfl
    | true =>
      have heq : effect = .register := Effect.isRegister_iff.mp heffect
      rw [heq, affect, registered_accept (hregister heq), Bool.or_true]

/-! ## New connections -/

theorem member_createConnect_self (a : α) (policy : Policy) :
    (s.createConnect a policy).member s.count = { node := Node.outgoing policy, peerAddr := a } :=
  member_put_self ..

theorem member_createConnect {i : ℕ} (hi : i < s.count) (a : α) (policy : Policy) :
    (s.createConnect a policy).member i = s.member i :=
  member_put_of_ne hi.ne _

theorem conns_createConnect_self (a : α) (policy : Policy) :
    (s.createConnect a policy).conns a = some s.count :=
  Function.update_self ..

theorem conns_createConnect {a b : α} (hne : b ≠ a) (policy : Policy) :
    (s.createConnect a policy).conns b = s.conns b :=
  Function.update_of_ne hne ..

/-! ## The steps, one by one -/

section Acts

variable [Inhabited α] (enc : Frame → List β) (K : Codec) (flags : CrcFlags)

/-- The steps of a messenger, with what each of them needs. -/
inductive Acts (s : Messenger α β) : Action α β → Messenger α β → Prop
  | finds (a policy i) (hfound : s.conns a = some i) : Acts s (.getConnection a policy) s
  | creates (a policy) (hnone : s.conns a = none) :
    Acts s (.getConnection a policy) (s.createConnect a policy)
  | accepts (fd) : Acts s (.addAccept fd) (s.addAccept fd)
  | runs (j a e res) (hj : j < s.count) (hforeign : e.isForeign = false)
      (hbegins : (s.member j).inReplace = true → e.begins = false)
      (hstep : (s.member j).node.step enc K flags (s.fill j e) = some res) :
    Acts s (.run j a e)
      (s.settle j ((s.member j).after a res.node) res.effect (res.gseq.getD s.gseq))
  | timer (j) (hidle : (s.member j).node.loc = .idle)
      (hev : (s.member j).node.conn.evReplace = true) :
    Acts s (.replaceTimer j) (s.put j
      { (s.member j).withConn { (s.member j).node.conn with evReplace := false } with
        inReplace := true })
  | replaces (j r) (hj : j < s.count) (hin : (s.member j).inReplace = true) :
    Acts s (.handleReplace j r) (s.settle j
      { s.member j with node := (s.member j).node.replace enc r, inReplace := false } .none s.gseq)

end Acts

/-- Every step is one of these. -/
theorem acts_of_step [Inhabited α] {s' : Messenger α β} {act : Action α β}
    (hstep : s.step enc K flags act = some s') : Acts enc K flags s act s' := by
  cases act with
  | getConnection a policy =>
    rw [step, Option.some_inj, getConnection] at hstep
    split at hstep
    · exact hstep ▸ .finds a policy _ ‹_›
    · exact hstep ▸ .creates a policy ‹_›
  | addAccept fd =>
    rw [step, Option.some_inj] at hstep
    exact hstep ▸ .accepts fd
  | run j a e =>
    rw [step, run, Option.ite_none_left_eq_some, Option.map_eq_some_iff] at hstep
    obtain ⟨hcan, res, hres, rfl⟩ := hstep
    simp only [not_or, not_and, Nat.not_le, Bool.not_eq_true] at hcan
    exact .runs j a e res hcan.1 hcan.2.1 hcan.2.2 hres
  | replaceTimer j =>
    rw [step, replaceTimer, Option.ite_none_left_eq_some, Option.some_inj] at hstep
    obtain ⟨hcan, rfl⟩ := hstep
    simp only [not_or, Bool.not_eq_true, Bool.not_eq_false, ne_eq, Decidable.not_not] at hcan
    exact .timer j hcan.2.2.2.1 hcan.2.2.2.2
  | handleReplace j r =>
    rw [step, handleReplace, Option.ite_none_left_eq_some, Option.some_inj] at hstep
    obtain ⟨hcan, rfl⟩ := hstep
    simp only [not_or, Nat.not_le, Bool.not_eq_false] at hcan
    exact .replaces j r hcan.1 hcan.2

/-! ## What a step means for a connection -/

/-- Whether a connection is registered after a step of its own. -/
theorem registered_settle_run (h : s.Registry) {i : ℕ} {a : α} {e : Event β} {res : Result β}
    (hi : i < s.count) (hstep : (s.member i).node.step enc K flags (s.fill i e) = some res) :
    (s.settle i ((s.member i).after a res.node) res.effect (res.gseq.getD s.gseq)).registered i =
      (!Node.closes (s.member i).node res.node && (s.registered i || res.effect.isRegister)) := by
  have hregister (hr : res.effect = .register) :
      (({ s with gseq := res.gseq.getD s.gseq } : Messenger α β).put i
        ((s.member i).after a res.node)).existing i = none := by
    obtain ⟨hnone, hs⟩ := existing_of_register hstep hr
    rw [existing_put_after (by simp [Node.learns, hs])]
    exact hnone
  have hreg : (s.conns ((s.member i).after a res.node).peerAddr == some i) = s.registered i := by
    rw [Bool.eq_iff_iff, beq_iff_eq]
    exact registered_after h hi
  rw [registered_settle_self hregister, hreg]
  rfl

/-- A step of connection `j`, as connection `i` sees it. -/
theorem turn_settle (h : s.Registry) {i j : ℕ} {a : α} {e : Event β} {res : Result β}
    (hi : i < s.count) (hj : j < s.count) (hforeign : e.isForeign = false)
    (hbegins : (s.member j).inReplace = true → e.begins = false)
    (hstep : (s.member j).node.step enc K flags (s.fill j e) = some res) {s' : Messenger α β}
    (hs' : s.settle j ((s.member j).after a res.node) res.effect (res.gseq.getD s.gseq) = s') :
    Turn enc K flags s i (.run j a e) (s'.registered i) (s'.member i) := by
  subst hs'
  by_cases hij : i = j
  · subst hij
    rw [registered_settle_run h hi hstep, member_settle_self]
    exact .steps a e res hforeign hbegins hstep
  · rw [registered_settle_of_ne hij, member_settle]
    have hsubject : (Action.run j a e).subject ≠ some i := by simp [Action.subject, Ne.symm hij]
    have hother : ((({ s with gseq := res.gseq.getD s.gseq } : Messenger α β).put j
        ((s.member j).after a res.node)).member i) = s.member i := member_put_of_ne hij _
    rcases (({ s with gseq := res.gseq.getD s.gseq } : Messenger α β).put j
        ((s.member j).after a res.node)).member_affect i j res.effect with
      hsame | ⟨c, hc, hex, hrepl⟩ | hkeep
    · rw [hsame, hother]
      exact .still _ hsubject
    · rw [hrepl, hother]
      exact turn_of_replace hj hstep hc hex
    · rw [hkeep, hother]
      exact .woken _ _ hsubject (Conn.shell_startWrite _)

variable [Inhabited α]

/-- **What a step means for a connection.** -/
theorem turn_step (h : s.Registry) {s' : Messenger α β} {act : Action α β} {i : ℕ} (hi : i < s.count)
    (hstep : s.step enc K flags act = some s') :
    Turn enc K flags s i act (s'.registered i) (s'.member i) := by
  cases acts_of_step hstep with
  | finds a policy j hfound => exact .still _ (by simp [Action.subject])
  | creates a policy hnone =>
    have hmember := member_createConnect hi a policy
    have hreg : (s.createConnect a policy).registered i = s.registered i := by
      rw [Bool.eq_iff_iff, registered_iff, registered_iff, hmember]
      by_cases ha : (s.member i).peerAddr = a
      · rw [ha, hnone, conns_createConnect_self]
        simp [hi.ne']
      · rw [conns_createConnect ha]
    rw [hmember, hreg]
    exact .still _ (by simp [Action.subject])
  | accepts fd =>
    have hmember : (s.addAccept fd).member i = s.member i := member_put_of_ne hi.ne _
    rw [registered, hmember]
    exact .still _ (by simp [Action.subject])
  | runs j a e res hj hforeign hbegins hres => exact turn_settle h hi hj hforeign hbegins hres rfl
  | timer j hidle hev =>
    by_cases hij : i = j
    · subst hij
      rw [registered, member_put_self]
      exact .timer hidle hev
    · rw [registered, member_put_of_ne hij]
      exact .still _ (by simp [Action.subject, Ne.symm hij])
  | replaces j r hj hin =>
    by_cases hij : i = j
    · subst hij
      have hnone : (Effect.none : Effect β).isRegister = false := rfl
      rw [registered_settle_self (by simp), member_settle_self, hnone, Bool.or_false]
      exact .replaces r hin
    · have hmember : (s.settle j { s.member j with
          node := (s.member j).node.replace enc r, inReplace := false } .none s.gseq).member i =
            s.member i := by
        rw [member_settle]
        exact member_put_of_ne hij _
      rw [registered_settle_of_ne hij, hmember]
      exact .still _ (by simp [Action.subject, Ne.symm hij])

/-! ## The registry stays in order

The invariant is kept by every step, for which the turns are enough. At its end stands the rule that
the other modules use. -/

omit [DecidableEq α] [Inhabited α] in
theorem registered_of_existing (h : s.Registry) {i j : ℕ} (hex : s.existing j = some i) :
    s.registered i = true := by
  have hconns := (existing_eq_some_iff.mp hex).1
  rw [registered_iff, (h.sound _ i hconns).2]
  exact hconns

omit [DecidableEq α] [Inhabited α] in
/-- What other connections do to a connection changes neither its state nor its registration. -/
theorem Turn.of_other {act : Action α β} {i : ℕ} {reg : Bool} {m : Member α β}
    (hturn : Turn enc K flags s i act reg m) (hact : act.subject ≠ some i) :
    reg = s.registered i ∧ m.node.conn.state = (s.member i).node.conn.state := by
  cases hturn with
  | still | handedOver => exact ⟨rfl, rfl⟩
  | woken act c hother hshell => exact ⟨rfl, (congrArg Conn.state hshell :)⟩
  | steps | timer | replaces => exact absurd rfl hact

omit [DecidableEq α] [Inhabited α] in
theorem ne_closed_of_not_closes {n n' : Node β} (h : Node.closes n n' = false)
    (hs : n.conn.state ≠ .closed) : n'.conn.state ≠ .closed := by
  simpa [Node.closes, hs] using h

omit [DecidableEq α] [Inhabited α] in
theorem sane_turn (h : s.Registry) {act : Action α β} {i : ℕ} (hi : i < s.count) {reg : Bool}
    {m : Member α β} (hturn : Turn enc K flags s i act reg m) : Sane reg m := by
  have hold := h.sane i hi
  cases hturn with
  | still act hact => exact hold
  | steps a e res hforeign hbegins hstep =>
    have hnext := Node.next_of_step hstep
    -- registered now, it was registered before, or it has registered itself in this step
    have hbefore (hreg : (!Node.closes (s.member i).node res.node &&
        (s.registered i || res.effect.isRegister)) = true) :
        Node.closes (s.member i).node res.node = false ∧
          (s.member i).node.conn.state ≠ .closed ∧
          (s.member i).node.conn.phase ∉ State.young := by
      simp only [Bool.and_eq_true, Bool.not_eq_true', Bool.or_eq_true] at hreg
      refine ⟨hreg.1, ?_⟩
      rcases hreg.2 with hreg | hregister
      · exact ⟨hold.live hreg, hold.grown hreg⟩
      · have hs := (existing_of_register hstep (Effect.isRegister_iff.mp hregister)).2
        exact ⟨by simp [hs], Conn.not_young_of_state hs (by decide)⟩
    exact {
      later := Node.later_next hold.later hnext
      ended := Node.ended_next hold.later hold.ended hnext
      live := fun hreg ↦ ne_closed_of_not_closes (hbefore hreg).1 (hbefore hreg).2.1
      grown := fun hreg hyoung ↦ (hbefore hreg).2.2 (Node.young_of_next hold.later hnext hyoung) }
  | handedOver j k a inp p reset fromPeer hj hex hloc hs hopening hv heffect =>
    have hreg := registered_of_existing h hex
    exact ⟨hold.later.congr rfl, .of_ne (hold.live hreg), fun _ ↦ hold.live hreg,
      fun _ ↦ hold.grown hreg⟩
  | woken act c hact hshell =>
    exact ⟨hold.later.of_shell hshell, hold.ended.congr hshell,
      fun hreg hs ↦ hold.live hreg ((congrArg Conn.state hshell).symm.trans hs),
      fun hreg hyoung ↦ hold.grown hreg (Conn.phase_eq_of_shell hshell ▸ hyoung)⟩
  | timer hidle hev => exact ⟨hold.later.congr rfl, hold.ended, hold.live, hold.grown⟩
  | replaces r hin =>
    have hreplace : ((s.member i).node.replace enc r).conn.Later ∧
        ((s.member i).node.replace enc r).conn.Ended ∧
        (s.registered i = true → ((s.member i).node.replace enc r).conn.phase ∉ State.young) := by
      rw [Node.replace]
      split_ifs
      · exact ⟨hold.later.congr (Conn.doReplace_frame _ r).1, Conn.ended_doReplace _ r,
          fun _ ↦ Conn.not_young_of_parted (Conn.doReplace_mem_parted enc _ r)⟩
      · exact ⟨hold.later, hold.ended, hold.grown⟩
    refine ⟨hreplace.1, hreplace.2.1, fun hreg ↦ ?_, fun hreg ↦ ?_⟩
    · simp only [Bool.and_eq_true, Bool.not_eq_true'] at hreg
      exact ne_closed_of_not_closes hreg.1 (hold.live hreg.2)
    · simp only [Bool.and_eq_true, Bool.not_eq_true'] at hreg
      exact hreplace.2.2 hreg.2

/-- A connection as it is created. -/
inductive Fresh : Bool → Member α β → Prop
  | outgoing (a : α) (policy : Policy) : Fresh true { node := Node.outgoing policy, peerAddr := a }
  | accepted (fd : Fd) : Fresh false { node := Node.accepted fd, peerAddr := default }

omit [DecidableEq α] in
theorem sane_fresh {reg : Bool} {m : Member α β} (h : Fresh reg m) : Sane reg m := by
  cases h with
  | outgoing a policy =>
    obtain ⟨hlater, hended⟩ := Node.ended_initial (.outgoing (β := β) policy)
    refine ⟨hlater, hended, fun _ ↦ by simp [Node.outgoing, Conn.connect], fun _ ↦ ?_⟩
    exact Conn.not_young_of_state (s := .connecting) rfl (by decide)
  | accepted fd =>
    obtain ⟨hlater, hended⟩ := Node.ended_initial (.accepted (β := β) fd)
    exact ⟨hlater, hended, fun h ↦ absurd h (by simp), fun h ↦ absurd h (by simp)⟩

omit [Inhabited α] in
/-- An effect registers a connection under its own address only. -/
theorem conns_affect_self {i : ℕ} {effect : Effect β} {a : α}
    (h : (s.affect i effect).conns a = some i) : a = (s.member i).peerAddr ∨ s.conns a = some i := by
  cases heffect : effect.isRegister with
  | false =>
    rw [(lists_affect heffect i).1] at h
    exact Or.inr h
  | true =>
    rw [Effect.isRegister_iff.mp heffect, affect, accept] at h
    split_ifs at h
    · exact Or.inr h
    · by_cases ha : a = (s.member i).peerAddr
      · exact Or.inl ha
      · apply Or.inr
        rw [← h]
        exact (Function.update_of_ne ha ..).symm

omit [Inhabited α] in
theorem conns_of_unregister {i j : ℕ} {a : α} (h : (s.unregister i).conns a = some j) :
    s.conns a = some j := by
  simp only [unregister] at h
  split_ifs at h
  · by_cases ha : a = (s.member i).peerAddr
    · rw [ha, Function.update_self] at h
      exact absurd h (by simp)
    · rwa [Function.update_of_ne ha] at h
  · exact h

omit [Inhabited α] in
theorem sound_settle (h : s.Registry) {j : ℕ} (hj : j < s.count) {m : Member α β} {effect : Effect β}
    {g : ℕ} (hm : ∀ a, s.conns a = some j → m.peerAddr = a) {a : α} {i : ℕ}
    (hconns : (s.settle j m effect g).conns a = some i) :
    i < s.count ∧ ((s.settle j m effect g).member i).peerAddr = a := by
  by_cases hij : i = j
  · subst hij
    refine ⟨hj, ?_⟩
    rw [member_settle_self]
    have haffect : ((({ s with gseq := g } : Messenger α β).put i m).affect i effect).conns a =
        some i := by
      rw [settle] at hconns
      split_ifs at hconns
      · exact conns_of_unregister hconns
      · exact hconns
    rcases conns_affect_self haffect with ha | hold
    · rw [ha, member_put_self]
    · exact hm a hold
  · rw [conns_settle_of_ne hij] at hconns
    rw [peerAddr_settle_of_ne hij]
    exact h.sound a i hconns

theorem count_le_step {s' : Messenger α β} {act : Action α β}
    (hstep : s.step enc K flags act = some s') : s.count ≤ s'.count := by
  cases acts_of_step hstep with
  | finds | timer => exact le_rfl
  | creates | accepts => exact Nat.le_succ _
  | runs | replaces => exact (count_settle ..).ge

/-- What a step adds. -/
theorem fresh_step (h : s.Registry) {s' : Messenger α β} {act : Action α β} {i : ℕ}
    (hstep : s.step enc K flags act = some s') (hi : s.count ≤ i) (hi' : i < s'.count) :
    Fresh (s'.registered i) (s'.member i) := by
  cases acts_of_step hstep with
  | finds a policy j hfound => exact absurd hi' hi.not_gt
  | creates a policy hnone =>
    obtain rfl : i = s.count := Nat.le_antisymm (Nat.lt_succ_iff.mp hi') hi
    have hmember := s.member_createConnect_self a policy
    have hreg : (s.createConnect a policy).registered s.count = true := by
      rw [registered_iff, hmember, conns_createConnect_self]
    rw [hmember, hreg]
    exact .outgoing a policy
  | accepts fd =>
    obtain rfl : i = s.count := Nat.le_antisymm (Nat.lt_succ_iff.mp hi') hi
    have hmember : (s.addAccept fd).member s.count =
        { node := Node.accepted fd, peerAddr := default } := member_put_self _ _
    have hreg : (s.addAccept fd).registered s.count = false := by
      rw [← Bool.not_eq_true, registered_iff]
      exact fun hconns ↦ absurd (h.sound _ _ hconns).1 (lt_irrefl _)
    rw [hmember, hreg]
    exact .accepted fd
  | runs j a e res hj =>
    rw [count_settle] at hi'
    exact absurd hi' hi.not_gt
  | timer j => exact absurd hi' hi.not_gt
  | replaces j r hj =>
    rw [count_settle] at hi'
    exact absurd hi' hi.not_gt

/-- Every entry of `conns` still leads to a connection with its address. -/
theorem sound_step (h : s.Registry) {s' : Messenger α β} {act : Action α β}
    (hstep : s.step enc K flags act = some s') {a : α} {i : ℕ} (hconns : s'.conns a = some i) :
    i < s'.count ∧ (s'.member i).peerAddr = a := by
  cases acts_of_step hstep with
  | finds b policy j hfound => exact h.sound a i hconns
  | creates b policy hnone =>
    by_cases hab : a = b
    · subst hab
      rw [conns_createConnect_self, Option.some_inj] at hconns
      subst hconns
      exact ⟨Nat.lt_succ_self _, by rw [member_createConnect_self]⟩
    · rw [conns_createConnect hab] at hconns
      obtain ⟨hi, haddr⟩ := h.sound a i hconns
      exact ⟨Nat.lt_succ_of_lt hi, by rw [member_createConnect hi, haddr]⟩
  | accepts fd =>
    obtain ⟨hi, haddr⟩ := h.sound a i hconns
    have hmember : (s.addAccept fd).member i = s.member i := member_put_of_ne hi.ne _
    exact ⟨Nat.lt_succ_of_lt hi, hmember ▸ haddr⟩
  | runs j b e res hj =>
    rw [count_settle]
    refine sound_settle h hj (fun a hold ↦ ?_) hconns
    obtain ⟨-, haddr⟩ := h.sound a j hold
    have hreg : s.registered j = true := registered_iff.mpr (haddr.symm ▸ hold)
    have hnew := (registered_after h hj (a := b) (n := res.node)).mpr hreg
    exact (h.sound _ j hnew).2.symm.trans haddr
  | timer j =>
    obtain ⟨hi, haddr⟩ := h.sound a i hconns
    refine ⟨hi, ?_⟩
    by_cases hij : i = j
    · subst hij
      rw [member_put_self]
      exact haddr
    · rw [member_put_of_ne hij]
      exact haddr
  | replaces j r hj =>
    rw [count_settle]
    have haddr (a : α) (hold : s.conns a = some j) : ({ s.member j with
        node := (s.member j).node.replace enc r, inReplace := false } : Member α β).peerAddr = a :=
      (h.sound a j hold).2
    exact sound_settle h hj haddr hconns

theorem registry_step (h : s.Registry) {s' : Messenger α β} {act : Action α β}
    (hstep : s.step enc K flags act = some s') : s'.Registry := by
  refine ⟨fun a i hconns ↦ sound_step h hstep hconns, fun i hi' ↦ ?_⟩
  by_cases hi : i < s.count
  · exact sane_turn h hi (turn_step h hi hstep)
  · exact sane_fresh (fresh_step h hstep (Nat.not_lt.mp hi) hi')

omit [DecidableEq α] in
theorem registry_init : (init : Messenger α β).Registry :=
  ⟨fun _ _ h ↦ absurd h (by simp [init]), fun _ h ↦ absurd h (by simp [init])⟩

/-- **The rule of the single connection.** What holds of new connections, and is kept by every turn of
the steps that meet `C`, holds of all connections wherever a run that meets `C` throughout ends. -/
theorem forall_of_turn {C : Messenger α β → Action α β → Prop} {I : Bool → Member α β → Prop}
    (hfresh : ∀ reg m, Fresh reg m → I reg m)
    (hturn : ∀ (s : Messenger α β) act i reg m, s.Registry →
      (∀ j < s.count, I (s.registered j) (s.member j)) → C s act → i < s.count →
      Turn enc K flags s i act reg m → I reg m)
    {acts : List (Action α β)} (hmeets : Run.Meets (step enc K flags) C init acts)
    (hrun : Run.exec (step enc K flags) init acts = some s) :
    s.Registry ∧ ∀ i < s.count, I (s.registered i) (s.member i) := by
  refine Run.invariant_of_meets
    (I := fun s : Messenger α β ↦ s.Registry ∧ ∀ i < s.count, I (s.registered i) (s.member i))
    (fun s act s' h hC hstep ↦ ?_) ⟨registry_init, fun _ h ↦ absurd h (by simp [init])⟩ hmeets hrun
  refine ⟨registry_step h.1 hstep, fun i hi' ↦ ?_⟩
  by_cases hi : i < s.count
  · exact hturn s act i _ _ h.1 h.2 hC hi (turn_step h.1 hi hstep)
  · exact hfresh _ _ (fresh_step h.1 hstep (Nat.not_lt.mp hi) hi')

end Messenger

end AsyncMessenger
