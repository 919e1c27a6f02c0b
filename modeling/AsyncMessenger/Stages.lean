import AsyncMessenger.Registry

/-!
# The stages of a replacement

A connection that accepts a peer which already has a registered connection hands its socket over: it
stores it in the other connection's `replacing_sd` and sets `replacing` to 1. `do_replace` makes it the
socket of that connection and sets `replacing` to 2; the peer is asked to send its connect message
again, and the answer clears `replacing`. Here is what the passes of a connection do with this, and that
a registered connection which waits for a connect message is in the second stage.

The stages are a property of the connection and of the place of its event thread together
(`Staged`): a thread that has given up the socket is on its way to another one. `Keeps` is what a
pass has to do with the claim on its connection, which is little: only the answer to a connect
message clears it. The last section brings in the messenger, where another connection makes the
claim.
-/

namespace AsyncMessenger

/-- The states in which a connection reads a connect message. -/
def State.asking : List State := [.acceptingWaitConnectMsg, .acceptingWaitConnectMsgAuth]

namespace Conn

variable {β : Type} {enc : Frame → List β} {K : Codec} {flags : CrcFlags}

/-- What another connection has left here: the stage, the socket, and the timer. -/
def claim (c : Conn β) : ℕ × Option Fd × Bool := (c.replacing, c.replacingSd, c.evReplace)

/-- What a pass does with a claim, and with what claims depend on. -/
structure Keeps (c : Conn β) (o : Outcome β) : Prop where
  claim : o.conn.claim = c.claim ∨ c.state = .acceptingWaitConnectMsgAuth ∧
    (o.conn.claim = (0, none, false) ∨ o.conn.claim = (0, c.replacingSd, c.evReplace))
  opening : o.conn.opening ≠ none →
    c.opening ≠ none ∨ c.state = .acceptingWaitConnectMsgAuth ∧ c.opening = none
  asking : o.conn.state ∈ State.asking → o.conn.opening = none → o.flow ≠ .fail →
    c.state ∈ State.asking ∧ c.opening = none ∧ o.conn.replacing = c.replacing ∨
      c.state = .acceptingWaitBannerAddr
  sd : o.conn.phase ∈ State.awaiting → c.phase ∈ State.awaiting ∧ o.conn.sd = c.sd

/-- A move that leaves the claim alone, within the states of being accepted or out of them. -/
theorem Keeps.of_claim {c : Conn β} {o : Outcome β} (hclaim : o.conn.claim = c.claim)
    (hopening : o.conn.opening = c.opening)
    (hasking : o.conn.state ∈ State.asking → o.flow ≠ .fail →
      c.state ∈ State.asking ∨ c.state = .acceptingWaitBannerAddr)
    (hsd : o.conn.phase ∈ State.awaiting → c.phase ∈ State.awaiting ∧ o.conn.sd = c.sd) :
    c.Keeps o where
  claim := Or.inl hclaim
  opening h := Or.inl (hopening ▸ h)
  asking hmem hnone hflow := by
    rcases hasking hmem hflow with h | h
    · exact Or.inl ⟨h, hopening ▸ hnone, congrArg Prod.fst hclaim⟩
    · exact Or.inr h
  sd := hsd

/-- A move into a state in which no connect message is awaited. -/
theorem Keeps.of_state {c : Conn β} {o : Outcome β} {s : State} (hs : o.conn.state = s)
    (hnot : s ∉ State.waitSend :: State.awaiting) (hopening : o.conn.opening = c.opening)
    (hclaim : o.conn.claim = c.claim) : c.Keeps o := by
  refine .of_claim hclaim hopening (fun hmem ↦ ?_) fun hmem ↦ ?_
  · rw [hs] at hmem
    refine absurd (List.mem_cons_of_mem _ ?_) hnot
    revert hmem
    cases s <;> decide
  · rw [phase_of_state hs (by rintro rfl; exact hnot List.mem_cons_self)] at hmem
    exact absurd (List.mem_cons_of_mem _ hmem) hnot

/-- A move that stays in its state. -/
theorem Keeps.of_same {c : Conn β} {o : Outcome β} (hclaim : o.conn.claim = c.claim)
    (hopening : o.conn.opening = c.opening) (hs : o.conn.state = c.state)
    (hphase : o.conn.phase = c.phase) (hsd : o.conn.sd = c.sd) : c.Keeps o :=
  .of_claim hclaim hopening (fun hmem _ ↦ Or.inl (hs ▸ hmem)) fun hmem ↦ ⟨hphase ▸ hmem, hsd⟩

theorem claim_stop {c : Conn β} (hs : c.state ≠ .closed) : c.stop.claim = (0, none, false) := by
  rw [stop, if_neg hs]
  rfl

theorem opening_stop (c : Conn β) : c.stop.opening = c.opening := congrArg Prod.snd (store_stop c)

theorem phase_mem_awaiting {c : Conn β} {s : State} (hs : c.state = s) (hmem : s ∈ State.awaiting) :
    c.phase ∈ State.awaiting := by
  rw [phase_of_state hs (by rintro rfl; exact absurd hmem (by decide))]
  exact hmem

/-- A state that sends and goes on to `next`. -/
theorem Move.keeps_sends {c d : Conn β} {inp : Input β} {o : Outcome β} {frames : List Frame}
    {next : State} (hlater : c.Later) (hprep : Prepares c inp d frames next)
    (hphase : o.conn.phase = next) (hstate : o.conn.state = next ∨ o.conn.state = .waitSend)
    (hclaim : o.conn.claim = d.claim) (hopening : o.conn.opening = d.opening)
    (hsd : o.conn.sd = d.sd) : c.Keeps o := by
  have hasking (hnot : next ∉ State.asking) : o.conn.state ∉ State.asking := by
    rcases hstate with h | h <;> rw [h]
    · exact hnot
    · decide
  cases hprep with
  | banner hs | addr hs | connect _ _ hs | seq _ hs =>
    refine .of_claim hclaim hopening (fun hmem ↦ absurd hmem (hasking (by decide))) fun hmem ↦ ?_
    rw [hphase] at hmem
    exact absurd hmem (by decide)
  | greeting hs =>
    exact .of_claim hclaim hopening (fun hmem ↦ absurd hmem (hasking (by decide)))
      fun _ ↦ ⟨phase_mem_awaiting hs (by decide), hsd⟩
  | reply frames next hs hsome =>
    have hnext : next ∉ State.asking ∧ next ∉ State.awaiting := by
      rcases hlater.opening frames next hsome with rfl | rfl <;> decide
    exact {
      claim := Or.inr ⟨hs, Or.inr hclaim⟩
      opening := fun h ↦ absurd hopening h
      asking := fun hmem ↦ absurd hmem (hasking hnext.1)
      sd := fun hmem ↦ absurd (hphase ▸ hmem) hnext.2 }

theorem Move.keeps {c : Conn β} {inp : Input β} {o : Outcome β} (h : Move enc c inp o)
    (hlater : c.Later) : c.Keeps o := by
  cases h with
  | waits | aborts | fails => exact .of_same rfl rfl rfl rfl rfl
  | flushes hs hout hafter =>
    have hmem : c.stateAfterSend ∈ State.afterSend := hlater.afterSend.resolve_left hafter
    have hnot : ∀ s ∈ State.afterSend, s ∉ State.asking ∧ s ≠ .waitSend := by decide
    refine .of_claim rfl rfl (fun h ↦ absurd h (hnot _ hmem).1) fun h ↦ ⟨?_, rfl⟩
    rw [phase_of_state (s := c.stateAfterSend) rfl (hnot _ hmem).2] at h
    rw [phase, if_pos hs]
    exact h
  | dials fd hs hserver hsd =>
    have hdial : c.dial inp = { c with
        gotBadAuth := false, authorizer := none, connectMsg := {}, connectReply := {},
        globalSeq := getGlobalSeq inp.gseq 0, sd := inp.newSd, evRead := true,
        evWrite := false : Conn β }.goto .connectingWaitBanner (getGlobalSeq inp.gseq 0) := by
      simp [dial, hserver, hsd]
    rw [hdial]
    exact .of_state rfl (by simp [goto, State.awaiting]) rfl rfl
  | failsDial hs hserver hsd =>
    have hdial : c.dial inp = { c with
        gotBadAuth := false, authorizer := none, connectMsg := {}, connectReply := {},
        globalSeq := getGlobalSeq inp.gseq 0, sd := inp.newSd, evRead := false,
        evWrite := false : Conn β }.failed (getGlobalSeq inp.gseq 0) := by
      simp [dial, hserver, hsd]
    rw [hdial]
    exact .of_state (s := .connecting) hs (by decide) rfl rfl
  | sends d frames next k evWrite s a hprep hnext =>
    have hne : next ≠ .waitSend := by
      cases hprep with
      | reply frames next hs hsome =>
        rcases hlater.opening frames next hsome with rfl | rfl <;> decide
      | _ => decide
    refine Move.keeps_sends hlater hprep (hnext.phase_eq hne rfl rfl) ?_ rfl rfl rfl
    cases hnext with
    | now => exact Or.inl rfl
    | later => exact Or.inr rfl
  | failsSend d frames next hprep =>
    cases hprep with
    | reply frames next hs hsome =>
      exact {
        claim := Or.inr ⟨hs, Or.inr rfl⟩
        opening := fun h ↦ absurd rfl h
        asking := fun _ _ h ↦ absurd rfl h
        sd := fun _ ↦ ⟨phase_mem_awaiting hs (by decide), rfl⟩ }
    | _ => exact .of_same rfl rfl rfl rfl rfl
  | hears => exact .of_state rfl (by simp [State.awaiting]) rfl rfl
  | heeds d s g hs hheeds =>
    cases hheeds with
    | _ => exact .of_state rfl (by simp [State.awaiting]) rfl rfl
  | connected hs hseq =>
    have hdone : (c.connectDone inp.gseq).conn = { c with
        peerGlobalSeq := c.connectReply.globalSeq
        policy := { c.policy with lossy := decide (c.connectReply.flags &&& connectLossy ≠ 0) }
        state := .opened
        connectSeq := inc32 c.connectSeq
        features := c.connectReply.features &&& c.connectMsg.features
        queueReset := true } := by
      simp [connectDone, hseq]
    exact .of_state (s := .opened) (congrArg Conn.state hdone) (by decide)
      (congrArg Conn.opening hdone :) (congrArg claim hdone :)
  | identified hs =>
    exact .of_claim rfl rfl (fun _ _ ↦ Or.inr hs)
      fun _ ↦ ⟨phase_mem_awaiting hs (by decide), rfl⟩
  | asked m hs =>
    exact .of_claim rfl rfl (fun _ _ ↦ Or.inl (by rw [hs]; decide))
      fun _ ↦ ⟨phase_mem_awaiting hs (by decide), rfl⟩
  | refuses p tag reply auth effect r k evWrite hs =>
    exact .of_claim rfl rfl (fun _ _ ↦ Or.inl (by rw [hs]; decide))
      fun _ ↦ ⟨phase_mem_awaiting hs (by decide), rfl⟩
  | failsReply p out effect replacing hs hopening hp heffect hrepl =>
    exact {
      claim := by
        rcases hrepl with rfl | rfl
        · exact Or.inl rfl
        · exact Or.inr ⟨hs, Or.inr rfl⟩
      opening := fun h ↦ Or.inl h
      asking := fun _ _ h ↦ absurd rfl h
      sd := fun _ ↦ ⟨phase_mem_awaiting hs (by decide), rfl⟩ }
  | handsOver p e reset fromPeer hs hopening =>
    have hclaim := claim_stop (c := { c with policy := p, sd := none }) (by simp [hs])
    exact {
      claim := Or.inr ⟨hs, Or.inl hclaim⟩
      opening := fun h ↦ Or.inl (by rwa [opening_stop] at h)
      asking := fun hmem ↦ absurd hmem (by rw [state_stop]; decide)
      sd := fun hmem ↦ absurd hmem (by rw [phase_of_state (state_stop _) (by decide)]; decide) }
  | opens p hs hopening =>
    have hopen : ∃ d : Conn β, (({ c with policy := p } : Conn β).openSession c.connectMsg
        inp.authorizerReply inp.protoVersion inp.gseq).conn = d ∧ d.claim = c.claim ∧
        d.opening ≠ none ∧ d.sd = c.sd := by
      simp only [openSession]
      split_ifs <;> exact ⟨_, rfl, rfl, by simp, rfl⟩
    obtain ⟨d, hd, hclaim, hsome, hsd⟩ := hopen
    exact {
      claim := Or.inl (hd ▸ hclaim)
      opening := fun _ ↦ Or.inr ⟨hs, hopening⟩
      asking := fun _ hnone ↦ absurd (hd ▸ hnone) hsome
      sd := fun _ ↦ ⟨phase_mem_awaiting hs (by decide), hd ▸ hsd⟩ }
  | notifies => exact .of_same rfl rfl rfl rfl rfl
  | gotSeq | accepted => exact .of_state rfl (by simp [State.awaiting]) rfl rfl

theorem keeps_pass {c : Conn β} {inp : Input β} (hlater : c.Later) :
    c.Keeps (c.pass K flags enc inp) := by
  rcases pass_cases K flags enc c inp with
    ⟨hopen, heq⟩ | heq | ⟨-, heq⟩ | ⟨o, hmove, -, -, heq | ⟨-, heq⟩⟩
  · rw [heq]
    obtain ⟨hrest, hopen'⟩ : c.Reads (c.processOpen K flags inp).conn := reads_processOpen hopen
    have hnot : ∀ s ∈ State.waitSend :: State.awaiting, s.isOpen = false := by decide
    refine .of_state rfl (fun hmem ↦ ?_) (congrArg Conn.opening hrest :) (congrArg claim hrest :)
    rw [hnot _ hmem] at hopen'
    exact absurd hopen' (by decide)
  · rw [heq]
    exact .of_same rfl rfl rfl rfl rfl
  · rw [heq]
    exact .of_state (s := .connectingSendConnectMsg) rfl (by decide) rfl rfl
  · rw [heq]
    exact hmove.keeps hlater
  · rw [heq]
    have hkeeps := hmove.keeps hlater
    exact ⟨hkeeps.claim, hkeeps.opening, hkeeps.asking, hkeeps.sd⟩

theorem replacing_pass {c : Conn β} {inp : Input β} (hlater : c.Later) (hrepl : c.replacing = 0) :
    (c.pass K flags enc inp).conn.replacing = 0 := by
  have hkeeps : c.Keeps (c.pass K flags enc inp) := keeps_pass hlater
  rcases hkeeps.claim with heq | ⟨-, heq | heq⟩ <;> simp only [claim, Prod.mk.injEq] at heq
  · exact heq.1.trans hrepl
  · exact heq.1
  · exact heq.1

/-- The pass that registers a connection goes on in the window. -/
theorem opening_of_register {c : Conn β} {inp : Input β}
    (h : (c.pass K flags enc inp).effect = .register) :
    (c.pass K flags enc inp).conn.opening ≠ none ∧ (c.pass K flags enc inp).flow = .next := by
  cases reaches_pass (K := K) c inp with
  | nobody hne => exact absurd h hne
  | handsOver p e reset fromPeer hs hopening hp he hv hne => exact absurd (hne.symm.trans h) (by simp)
  | registers p hs hopening hp hnone hv heq =>
    rw [heq]
    refine ⟨?_, rfl⟩
    simp only [openSession]
    split_ifs <;> simp

/-- A socket is handed over only to a connection nobody has a claim on. -/
theorem Judges.replacing_eq_zero {c e : Conn β} {m : MsgConnect} {peerLess reset fromPeer : Bool}
    (h : Judges c m peerLess (some e) (.replace reset fromPeer)) : e.replacing = 0 := by
  cases h with
  | replace e reset fromPeer hglobal hclaim hbusy =>
    simp only [Conn.busy, Bool.or_eq_false_iff, bne_eq_false_iff_eq] at hbusy
    exact hbusy.1.1.1

theorem not_asking_of_phase {c : Conn β} (h : c.phase ∉ State.awaiting) : c.state ∉ State.asking := by
  intro hmem
  refine h (phase_mem_awaiting rfl ?_)
  simp only [State.asking, List.mem_cons, List.not_mem_nil, or_false] at hmem
  rcases hmem with hs | hs <;> rw [hs] <;> decide

/-! ## Taking the socket over -/

theorem not_awaiting_faultRetry (c : Conn β) : c.faultRetry.phase ∉ State.awaiting := by
  simp only [faultRetry]
  split_ifs
  · rw [phase_of_state (s := .standby) rfl (by decide)]
    decide
  · rw [phase_of_state (s := .standby) rfl (by decide)]
    decide
  · rw [phase_of_state (s := .connecting) rfl (by decide)]
    decide
  · rw [phase_of_state (s := .connecting) rfl (by decide)]
    decide

theorem claim_faultRetry (c : Conn β) : c.faultRetry.claim = (0, c.replacingSd, c.evReplace) := by
  simp only [faultRetry]
  split_ifs <;> rfl

theorem takeOver_claim (c : Conn β) (random : ℕ) :
    (c.takeOver random).replacing = 2 ∧ (c.takeOver random).replacingSd = none ∧
      (c.takeOver random).sd = c.replacingSd := by
  rw [takeOver]
  split_ifs <;> exact ⟨rfl, rfl, rfl⟩

variable (enc) in
/-- `do_replace` takes the socket over, and closes it again if its reply cannot be sent. -/
theorem doReplace_claim (c : Conn β) (r : ReplaceInput) :
    (c.doReplace enc r).conn.replacingSd = none ∧
      ((c.doReplace enc r).conn.replacing = 2 ∧ (c.doReplace enc r).conn.sd = c.replacingSd ∧
          (c.doReplace enc r).conn.state = .acceptingWaitConnectMsg ∨
        (c.doReplace enc r).conn.replacing = 0 ∧ (c.doReplace enc r).conn.sd = none ∧
          (c.doReplace enc r).conn.phase ∉ State.awaiting) := by
  obtain ⟨hrepl, hsock, hsd⟩ := c.takeOver_claim r.random
  have hstate := (c.takeOver_frame r.random).2.2
  obtain ⟨reply, -, -, ⟨out, h⟩ | ⟨k, b, h⟩⟩ := c.doReplace_cases enc r
  · rw [h]
    generalize hd : ({ c.takeOver r.random with outcomingBl := out, replacing := 0 } : Conn β) = d
    have hsock' : d.replacingSd = none := by
      rw [← hd]
      exact hsock
    have hs : d.state ≠ .closed := by
      rw [← hd]
      exact fun hs ↦ absurd (hstate.symm.trans hs) (by decide)
    have hfault : d.fault.replacingSd = none ∧ d.fault.replacing = 0 ∧ d.fault.sd = none ∧
        d.fault.phase ∉ State.awaiting := by
      rw [fault, if_neg hs]
      split_ifs
      · rw [stop, if_neg hs]
        refine ⟨rfl, rfl, rfl, ?_⟩
        rw [phase_of_state (s := .closed) rfl (by decide)]
        decide
      · have hclaim := d.claim_faultRetry
        simp only [claim, Prod.mk.injEq] at hclaim
        refine ⟨hclaim.2.1.trans hsock', hclaim.1, ?_, d.not_awaiting_faultRetry⟩
        simp only [faultRetry]
        split_ifs <;> rfl
    exact ⟨hfault.1, Or.inr hfault.2⟩
  · rw [h]
    exact ⟨hsock, Or.inl ⟨hrepl, hsd, rfl⟩⟩

end Conn

namespace Node

variable {β : Type} {enc : Frame → List β} {K : Codec} {flags : CrcFlags}

open Conn

/-! ## The stages and the threads of a connection

A step of any thread, with the event thread wherever it is. -/

/-- The stage a connection is in between the steps. Nobody replaces a connection that is not registered,
and a registered connection that waits for a connect message is in the second stage. -/
structure Staged (reg : Bool) (n : Node β) : Prop where
  unknown : reg = false → n.conn.replacing = 0
  second : reg = true → n.conn.state ∈ State.asking → n.conn.opening = none →
    n.loc.isParting = false → n.conn.replacing = 2

/-- Only other connections make a claim. -/
theorem replacing_next {n n' : Node β} {e : Event β} (hlater : n.conn.Later)
    (hrepl : n.conn.replacing = 0) (hforeign : e.isForeign = false)
    (hnext : n.next enc K flags e = some n') : n'.conn.replacing = 0 := by
  have hof {c c' : Conn β} (hc : c.replacing = 0) (hshell : c'.shell = c.shell) :
      c'.replacing = 0 := (congrArg Conn.replacing hshell).trans hc
  have hstop {c : Conn β} (hc : c.replacing = 0) : c.stop.replacing = 0 := by
    rw [stop]
    split_ifs
    · exact hc
    · rfl
  cases change_next hnext with
  | quiet e n' he hshell hloc => exact hof hrepl hshell
  | connects m concurrent gather n' hs hserver hstopping hshell hloc =>
    exact hof (c := { n.conn with state := .connecting }) hrepl hshell
  | setStopping => exact hrepl
  | markDisposable =>
    simp only [Conn.markDisposable]
    split_ifs
    · exact hstop (c := { n.conn with policy := { n.conn.policy with lossy := true } }) hrepl
    · exact hrepl
  | cStop hidle hstopping => exact hstop hrepl
  | leave k n' hloc hshell hidle => exact hof (hstop hrepl) hshell
  | handOver | handleReplaceLate | handleReplace => exact absurd hforeign (by simp [Event.isForeign])
  | passes inp k n' hloc hflow hshell hloc' => exact hof (replacing_pass hlater hrepl) hshell
  | waits inp k close n' hloc hflow hshell hloc' => exact hof (replacing_pass hlater hrepl) hshell
  | givesUp e c close n' hup hafter =>
    have hc : c.replacing = 0 := by
      cases hup with
      | pass | passClose => exact replacing_pass hlater hrepl
      | wake | write => exact hrepl
    cases hafter with
    | replaced r hone => exact absurd (hc.symm.trans hone) (by decide)
    | parts k hrepl hwhy hshell hloc => exact hof hc hshell
    | faults hrepl hclose hclosed hstops hshell hloc =>
      exact hof (congrArg Prod.fst c.claim_faultRetry) hshell
    | closed hrepl hclosed hshell hloc => exact hof hc hshell

/-- The step that registers a connection goes on in the window. -/
theorem opening_of_registers {n : Node β} {e : Event β} {res : Result β}
    (hstep : n.step enc K flags e = some res) (hregister : res.effect = .register) :
    res.node.conn.opening ≠ none := by
  rcases effect_of_step hstep with hnone | ⟨inp, k, rfl, -, -, heffect⟩
  · exact absurd (hnone.symm.trans hregister) (by simp)
  · obtain ⟨hopening, hflow⟩ := opening_of_register (heffect.symm.trans hregister)
    cases (Step.of_step hstep).2 with
    | pass inp k hloc =>
      simp only [processPass, hflow]
      exact fun hnone ↦ hopening
        ((congrArg Conn.opening (shell_again _ n.win n.conn.state k)).symm.trans hnone)

/-- A registered connection that waits for a connect message has its socket from `do_replace`. -/
theorem second_next {n n' : Node β} {e : Event β} (hlater : n.conn.Later)
    (h : n.Staged true) (hgrown : n.conn.phase ∉ State.young) (hforeign : e.isForeign = false)
    (hnext : n.next enc K flags e = some n') (hasking : n'.conn.state ∈ State.asking)
    (hopening : n'.conn.opening = none) (hparting : n'.loc.isParting = false) :
    n'.conn.replacing = 2 := by
  have hstate {c c' : Conn β} (h : c'.shell = c.shell) : c'.state = c.state :=
    (congrArg Conn.state h :)
  have hnone {c c' : Conn β} (h : c'.shell = c.shell) : c'.opening = c.opening :=
    (congrArg Conn.opening h :)
  have hsame {c c' : Conn β} (h : c'.shell = c.shell) : c'.replacing = c.replacing :=
    (congrArg Conn.replacing h :)
  have hend {c : Conn β} {t : State} (hs : c.state = t) (hmem : c.state ∈ State.asking)
      (hnot : t ∉ State.asking) : c.replacing = 2 := absurd (hs ▸ hmem) hnot
  cases change_next hnext with
  | quiet e n' he hshell hloc =>
    rw [hsame hshell]
    exact h.second rfl (hstate hshell ▸ hasking) (hnone hshell ▸ hopening) (hloc.not_parting hparting)
  | connects m concurrent gather n' hs hserver hstopping hshell hloc =>
    exact hend (t := .connecting) (hstate hshell) hasking (by decide)
  | setStopping => exact h.second rfl hasking hopening hparting
  | markDisposable =>
    by_cases hs : n.conn.state = .standby
    · have hclosed : n.conn.markDisposable.state = .closed := by
        rw [Conn.markDisposable, if_pos hs, state_stop]
      exact hend hclosed hasking (by decide)
    · rw [Conn.markDisposable, if_neg hs] at hasking hopening ⊢
      exact h.second rfl hasking hopening hparting
  | cStop hidle hstopping => exact hend (state_stop _) hasking (by decide)
  | leave k n' hloc hshell hidle =>
    exact hend ((hstate hshell).trans (state_stop _)) hasking (by decide)
  | handOver | handleReplaceLate | handleReplace => exact absurd hforeign (by simp [Event.isForeign])
  | passes inp k n' hloc hflow hshell hloc' =>
    have hkeeps : n.conn.Keeps (n.conn.pass K flags enc inp) := keeps_pass hlater
    rw [hsame hshell]
    -- the pass leaves the request as it was, or the connection was in one of its first states
    rcases hkeeps.asking (hstate hshell ▸ hasking) (hnone hshell ▸ hopening)
        (by rcases hflow with hflow | hflow <;> rw [hflow] <;> decide) with
      ⟨hmem, hopen, hrepl⟩ | hyoung
    · rw [hrepl]
      exact h.second rfl hmem hopen (by rw [hloc]; rfl)
    · refine absurd ?_ hgrown
      rw [phase_of_state hyoung (by decide)]
      decide
  | waits inp k close n' hloc hflow hshell hloc' =>
    rw [hloc'] at hparting
    exact absurd hparting (by simp [Loc.isParting])
  | givesUp e c close n' hup hafter =>
    cases hafter with
    | replaced r hrepl hshell hloc =>
      rw [hsame hshell]
      obtain ⟨-, ⟨htwo, -⟩ | ⟨-, -, hphase⟩⟩ := doReplace_claim enc c r
      · exact htwo
      · exact absurd (hstate hshell ▸ hasking) (not_asking_of_phase hphase)
    | parts k hrepl hwhy hshell hloc =>
      rw [hloc] at hparting
      exact absurd hparting (by simp [Loc.isParting])
    | faults hrepl hclose hclosed hstops hshell hloc =>
      exact absurd (hstate hshell ▸ hasking) (not_asking_of_phase c.not_awaiting_faultRetry)
    | closed hrepl hclosed hshell hloc =>
      exact hend ((hstate hshell).trans hclosed) hasking (by decide)

/-- The pass that answers a connect message finds nobody's claim on its connection. -/
theorem Staged.ask {n : Node β} {reg : Bool} {k : Caller} (h : n.Staged reg)
    (hloc : n.loc = .process k) (hs : n.conn.state = .acceptingWaitConnectMsgAuth)
    (hopening : n.conn.opening = none) : n.conn.replacing ≠ 1 := by
  cases reg with
  | false =>
    rw [h.unknown rfl]
    decide
  | true =>
    rw [h.second rfl (by rw [hs]; decide) hopening (by rw [hloc]; rfl)]
    decide

end Node

namespace Messenger

variable {α β : Type} {s : Messenger α β} {enc : Frame → List β} {K : Codec} {flags : CrcFlags}

/-! ## The stages and the messenger

By the rule of the single connection. The socket is handed over only to a connection that is not
being replaced. -/

theorem staged_steps (h : s.Registry) {i : ℕ} (hi : i < s.count)
    (hstaged : (s.member i).node.Staged (s.registered i)) {e : Event β} {res : Result β}
    (hforeign : e.isForeign = false)
    (hstep : (s.member i).node.step enc K flags (s.fill i e) = some res) :
    res.node.Staged
      (!Node.closes (s.member i).node res.node && (s.registered i || res.effect.isRegister)) := by
  have hsane := h.sane i hi
  have hnext := Node.next_of_step hstep
  have hforeign' : (s.fill i e).isForeign = false := (isForeign_fill i e).trans hforeign
  constructor
  · intro hreg
    rw [Bool.and_eq_false_iff, Bool.not_eq_false', Bool.or_eq_false_iff] at hreg
    rcases hreg with hcloses | ⟨hreg, -⟩
    · simp only [Node.closes, Bool.and_eq_true, beq_iff_eq] at hcloses
      exact (Node.ended_next hsane.later hsane.ended hnext hcloses.2).1
    · exact Node.replacing_next hsane.later (hstaged.unknown hreg) hforeign' hnext
  · intro hreg hasking hopening
    simp only [Bool.and_eq_true, Bool.or_eq_true] at hreg
    rcases hreg.2 with hreg | hregister
    · rw [hreg] at hstaged
      exact Node.second_next hsane.later hstaged (hsane.grown hreg) hforeign' hnext hasking hopening
    · exact absurd hopening
        (Node.opening_of_registers hstep (Effect.isRegister_iff.mp hregister))

theorem staged_replaces {i : ℕ}
    (hstaged : (s.member i).node.Staged (s.registered i)) (r : ReplaceInput) :
    ((s.member i).node.replace enc r).Staged
      (!Node.closes (s.member i).node ((s.member i).node.replace enc r) && s.registered i) := by
  by_cases hrepl : (s.member i).node.conn.replacing = 1
  · rw [Node.replace, if_pos hrepl]
    constructor
    · intro hreg
      rw [Bool.and_eq_false_iff, Bool.not_eq_false'] at hreg
      rcases hreg with hcloses | hreg
      · simp only [Node.closes, Bool.and_eq_true, beq_iff_eq] at hcloses
        exact (Conn.ended_doReplace _ r hcloses.2).1
      · exact absurd ((hstaged.unknown hreg).symm.trans hrepl) (by decide)
    · intro _ hasking _ _
      obtain ⟨-, ⟨htwo, -⟩ | ⟨-, -, hphase⟩⟩ :=
        Conn.doReplace_claim enc (s.member i).node.conn r
      · exact htwo
      · exact absurd hasking (Conn.not_asking_of_phase hphase)
  · have hcloses : Node.closes (s.member i).node (s.member i).node = false := by
      simp [Node.closes]
    rw [Node.replace, if_neg hrepl, hcloses]
    exact hstaged

/-- What every step means for the stage of a connection. -/
theorem staged_turn {act : Action α β} {i : ℕ} {reg : Bool} {m : Member α β} (h : s.Registry)
    (hi : i < s.count) (hstaged : (s.member i).node.Staged (s.registered i))
    (hturn : Turn enc K flags s i act reg m) : m.node.Staged reg := by
  cases hturn with
  | still => exact hstaged
  | timer => exact ⟨hstaged.unknown, hstaged.second⟩
  | steps a e res hforeign hbegins hstep => exact staged_steps h hi hstaged hforeign hstep
  | handedOver j k a inp p reset fromPeer hj hex hloc hs hopening hv heffect =>
    have hreg := registered_of_existing h hex
    refine ⟨fun hno ↦ absurd (hreg.symm.trans hno) (by decide), fun _ hasking hnone hparting ↦ ?_⟩
    -- A connection in the second stage is busy.
    have htwo : (s.member i).node.conn.replacing = 2 := hstaged.second hreg hasking hnone hparting
    exact absurd (hv.replacing_eq_zero.symm.trans htwo) (by decide)
  | woken act c hact hshell =>
    exact ⟨fun hreg ↦ (congrArg Conn.replacing hshell).trans (hstaged.unknown hreg),
      fun hreg hasking hnone hparting ↦ (congrArg Conn.replacing hshell).trans
        (hstaged.second hreg ((congrArg Conn.state hshell) ▸ hasking)
          ((congrArg Conn.opening hshell).symm.trans hnone) hparting)⟩
  | replaces r hin => exact staged_replaces hstaged r

theorem staged_fresh [Inhabited α] {reg : Bool} {m : Member α β} (h : Fresh reg m) :
    m.node.Staged reg := by
  cases h with
  | outgoing a policy =>
    exact ⟨fun _ ↦ rfl,
      fun _ hasking ↦ absurd hasking (by simp [Node.outgoing, Conn.connect, State.asking])⟩
  | accepted fd => exact ⟨fun _ ↦ rfl, fun hno ↦ absurd hno (by decide)⟩

end Messenger

end AsyncMessenger
