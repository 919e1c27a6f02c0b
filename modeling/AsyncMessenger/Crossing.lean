import AsyncMessenger.ClientAsserts
import AsyncMessenger.Moves

/-!
# Crossing connection attempts

Two messengers dial each other. Each finds its own attempt registered when the connect message of the
other one comes in, and if both carry the same `connect_seq`, the addresses decide: the attempt of the
messenger with the smaller address goes through, the other one is replaced.

Each side decides alone. It compares the address of its peer, as the peer has announced it, with its own
address, as it knows it at that moment. A messenger that does not know its IP address yet learns it from
the first peer it dials, before it announces its own; so the other side never decides with an address
that is not final, but this one may.

A messenger also dials others, and its attempt may fail and dial again, be answered and change its
state in any way; all that is left open here.
-/

namespace AsyncMessenger

namespace EntityAddr

/-- The object in memory, which is what the comparison operators of `entity_addr_t` look at. -/
def mem (a : EntityAddr) : Bytes :=
  LittleEndian.encode 4 a.type ++ LittleEndian.encode 4 a.nonce ++ LittleEndian.encode 2 a.family ++
    a.rest

/-- `operator<`: `memcmp` is negative. -/
def less (a b : EntityAddr) : Bool := decide (a.mem < b.mem)

/-- The address an accepted connection takes its peer to have: if the peer does not know its IP address,
the one of the socket stands in for it. `none` is the assertion of `set_port`. -/
def orSocket (a socketAddr : EntityAddr) : Option EntityAddr :=
  if a.isBlankIp then
    ({ a with family := socketAddr.family, rest := socketAddr.rest } : EntityAddr).setPort a.getPort
  else some a

theorem less_asymm {a b : EntityAddr} (h : a.less b = true) (h' : b.less a = true) : False :=
  Std.Asymm.asymm _ _ (of_decide_eq_true h) (of_decide_eq_true h')

theorem mem_eq_of_not_less {a b : EntityAddr} (h : a.less b = false) (h' : b.less a = false) :
    a.mem = b.mem :=
  Std.Trichotomous.trichotomous (r := fun l l' : Bytes ↦ l < l') _ _ (of_decide_eq_false h)
    (of_decide_eq_false h')

end EntityAddr

namespace MyInst

/-- The messenger knows its address for good. -/
def settled (i : MyInst) : Bool := !i.needAddr && !i.addr.isBlankIp

theorem learnedAddr_of_not_needAddr {i : MyInst} (h : i.needAddr = false) (forMe : EntityAddr) :
    i.learnedAddr forMe = some i := by
  rw [learnedAddr, h]
  rfl

/-- Who has been told an address needs none. -/
theorem needAddr_of_learnedAddr {i i' : MyInst} {forMe : EntityAddr}
    (h : i.learnedAddr forMe = some i') : i'.needAddr = false := by
  rw [learnedAddr] at h
  split_ifs at h with hneed
  · obtain ⟨t, -, rfl⟩ := Option.map_eq_some_iff.mp h
    rfl
  · rw [← Option.some.inj h]
    simpa using hneed

end MyInst

/-- One of two messengers that dial each other. -/
structure Side where
  inst : MyInst
  /-- The address it dials: that of its peer, and the key of its own attempt in `conns`. -/
  peerAddr : EntityAddr
  /-- The connection registered for the peer. -/
  attempt : Conn Frame
  /-- The address it has announced on the socket it has dialled. -/
  announced : Option EntityAddr := none
  /-- The connect messages the peer has not decided on yet, each with the address that was announced on
  its socket. -/
  pending : List (EntityAddr × MsgConnect) := []
  /-- An attempt of this side has been answered WAIT. -/
  waited : Bool := false
  /-- An attempt of this side has been replaced by one of the peer with the same `connect_seq`. -/
  replaced : Bool := false

/-- What may happen on one side. -/
inductive SideEvent
  /-- Another connection of the messenger calls `learned_addr`. -/
  | learned (forMe : EntityAddr)
  /-- The attempt dials again. -/
  | dials
  /-- `STATE_CONNECTING_WAIT_IDENTIFY_PEER`: the attempt calls `learned_addr` and announces the address
  of its messenger. -/
  | identified (forMe : EntityAddr)
  /-- `STATE_CONNECTING_SEND_CONNECT_MSG`. -/
  | asks (hostType protoVersion : ℕ)
  /-- `handle_connect_msg` on one of the peer's connect messages, by the accepted connection `acc`. -/
  | decides (k : ℕ) (acc : Conn Frame) (socketAddr : EntityAddr)
  /-- Anything else that happens to the attempt. -/
  | evolves (c : Conn Frame)

/-- Two messengers that dial each other. -/
abbrev Crossing := Bool → Side

namespace Side

/-- The registered connection is an attempt with the `connect_seq` of the connect message. -/
def races (me : Side) (m : MsgConnect) : Bool :=
  m.connectSeq == me.attempt.connectSeq && me.attempt.state != .opened && me.attempt.state != .standby

/-- The decision on the connect message `m` of a peer that has announced the address `a`. -/
def decide (me : Side) (acc : Conn Frame) (socketAddr a : EntityAddr) (m : MsgConnect) :
    Option Verdict :=
  (a.orSocket socketAddr).bind fun peerAddr ↦
    let v := acc.judge (if peerAddr = me.peerAddr then some me.attempt else none) m
      (peerAddr.less me.inst.addr)
    -- assert(peer_addr > async_msgr->get_myaddr())
    if v = .wait ∧ me.inst.addr.less peerAddr = false then none else some v

/-- A step that concerns one side only. -/
def step (me : Side) : SideEvent → Option Side
  | .learned forMe => (me.inst.learnedAddr forMe).map fun inst ↦ { me with inst }
  | .dials => some { me with announced := none }
  | .identified forMe => (me.inst.learnedAddr forMe).map fun inst ↦
      { me with inst, announced := some inst.addr }
  | .asks hostType protoVersion => me.announced.map fun a ↦
      { me with pending := me.pending ++ [(a, me.attempt.buildConnectMsg hostType protoVersion)] }
  | .evolves attempt => some { me with attempt }
  | .decides .. => none

/-- The decision `v` on the connect message `m` of the peer, on the side that has decided. -/
def decided (me : Side) (m : MsgConnect) : Verdict → Side
  | .replace .. => { me with replaced := me.replaced || me.races m }
  | _ => me

/-- The decision on the connect message number `k`, on the side that has sent it. -/
def answered (me : Side) (k : ℕ) (v : Verdict) : Side :=
  { me with pending := me.pending.eraseIdx k, waited := me.waited || v == .wait }

end Side

namespace Crossing

/-- One step of one of the two sides. -/
def step (s : Crossing) : Bool × SideEvent → Option Crossing
  | (b, .decides k acc socketAddr) =>
    (s !b).pending[k]?.bind fun (a, m) ↦ ((s b).decide acc socketAddr a m).map fun v ↦
      Function.update (Function.update s b ((s b).decided m v)) (!b) ((s !b).answered k v)
  | (b, e) => ((s b).step e).map (Function.update s b)

/-- Neither side has dialled yet. -/
structure Starts (s : Crossing) : Prop where
  announced : ∀ b, (s b).announced = none
  pending : ∀ b, (s b).pending = []
  waited : ∀ b, (s b).waited = false
  replaced : ∀ b, (s b).replaced = false

/-- Both attempts have been answered WAIT. -/
def BothWait (s : Crossing) : Prop := ∀ b, (s b).waited = true

/-- Both attempts have been replaced. -/
def BothReplaced (s : Crossing) : Prop := ∀ b, (s b).replaced = true

/-- The decisions are about attempts of lossless peers, and a messenger that decides before it has
learned its address decides as it would with the address its peer has dialled. -/
def Foresees (s : Crossing) : Bool × SideEvent → Prop
  | (b, .decides ..) =>
    (s b).attempt.policy.lossy = false ∧ (s b).attempt.policy.server = false ∧
    ((s b).inst.settled = false →
      (s b).peerAddr.less (s b).inst.addr = (s b).peerAddr.less (s !b).peerAddr)
  | _ => True

end Crossing

namespace Side

/-- What never changes on a side, and what does not change once the address is known. -/
structure Keeps (me me' : Side) : Prop where
  peerAddr : me'.peerAddr = me.peerAddr
  inst : me.inst.needAddr = false → me'.inst = me.inst
  announced : ∀ a, me'.announced = some a → me.announced = some a ∨
    me'.inst.needAddr = false ∧ a = me'.inst.addr
  pending : ∀ a m, (a, m) ∈ me'.pending → (a, m) ∈ me.pending ∨ me.announced = some a

theorem Keeps.refl (me : Side) : me.Keeps me :=
  ⟨rfl, fun _ ↦ rfl, fun _ ha ↦ Or.inl ha, fun _ _ ha ↦ Or.inl ha⟩

theorem keeps_of_step {me me' : Side} {e : SideEvent} (h : me.step e = some me') :
    me.Keeps me' ∧ me'.waited = me.waited ∧ me'.replaced = me.replaced := by
  have hknown {i i' : MyInst} {forMe : EntityAddr} (hi : i.learnedAddr forMe = some i')
      (hneed : i.needAddr = false) : i' = i := by
    rw [MyInst.learnedAddr_of_not_needAddr hneed] at hi
    exact (Option.some.inj hi).symm
  cases e with
  | learned forMe =>
    obtain ⟨i, hi, rfl⟩ := Option.map_eq_some_iff.mp h
    exact ⟨⟨rfl, hknown hi, fun a ha ↦ Or.inl ha, fun a m ha ↦ Or.inl ha⟩, rfl, rfl⟩
  | dials =>
    cases h
    refine ⟨⟨rfl, fun _ ↦ rfl, fun a ha ↦ ?_, fun a m ha ↦ Or.inl ha⟩, rfl, rfl⟩
    cases ha
  | identified forMe =>
    obtain ⟨i, hi, rfl⟩ := Option.map_eq_some_iff.mp h
    refine ⟨⟨rfl, hknown hi, fun a ha ↦ Or.inr ⟨?_, ?_⟩, fun a m ha ↦ Or.inl ha⟩, rfl, rfl⟩
    · exact MyInst.needAddr_of_learnedAddr hi
    · exact (Option.some.inj ha).symm
  | asks hostType protoVersion =>
    obtain ⟨a, ha, rfl⟩ := Option.map_eq_some_iff.mp h
    refine ⟨⟨rfl, fun _ ↦ rfl, fun a ha ↦ Or.inl ha, fun a' m hmem ↦ ?_⟩, rfl, rfl⟩
    rcases List.mem_append.mp hmem with hmem | hmem
    · exact Or.inl hmem
    · rw [List.mem_singleton, Prod.mk.injEq] at hmem
      exact Or.inr (hmem.1 ▸ ha)
  | evolves c =>
    cases h
    exact ⟨⟨rfl, fun _ ↦ rfl, fun a ha ↦ Or.inl ha, fun a m ha ↦ Or.inl ha⟩, rfl, rfl⟩
  | decides => cases h

theorem keeps_decided (me : Side) (m : MsgConnect) (v : Verdict) :
    me.Keeps (me.decided m v) ∧ (me.decided m v).waited = me.waited := by
  cases v <;> exact ⟨⟨rfl, fun _ ↦ rfl, fun a ha ↦ Or.inl ha, fun a m ha ↦ Or.inl ha⟩, rfl⟩

theorem keeps_answered (me : Side) (k : ℕ) (v : Verdict) : me.Keeps (me.answered k v) :=
  ⟨rfl, fun _ ↦ rfl, fun _ ha ↦ Or.inl ha, fun _ _ ha ↦ Or.inl (List.mem_of_mem_eraseIdx ha)⟩

/-- A decision that finds the own attempt compares the address it is registered for. -/
theorem orSocket_of_decide {me : Side} {acc : Conn Frame} {socketAddr a : EntityAddr} {m : MsgConnect}
    {v : Verdict} (h : me.decide acc socketAddr a m = some v) :
    ∃ peerAddr, a.orSocket socketAddr = some peerAddr ∧
      Conn.Judges acc m (peerAddr.less me.inst.addr)
        (if peerAddr = me.peerAddr then some me.attempt else none) v := by
  obtain ⟨peerAddr, hpeer, hv⟩ := Option.bind_eq_some_iff.mp h
  refine ⟨peerAddr, hpeer, ?_⟩
  obtain ⟨-, hv⟩ := Option.ite_none_left_eq_some.mp hv
  rw [← Option.some.inj hv]
  exact Conn.judges_judge _ _ _ _

/-- WAIT is the answer of a messenger whose own address is not the larger one. -/
theorem less_of_wait {me : Side} {acc : Conn Frame} {socketAddr a : EntityAddr} {m : MsgConnect}
    (h : me.decide acc socketAddr a m = some .wait) :
    a.orSocket socketAddr = some me.peerAddr ∧ me.peerAddr.less me.inst.addr = false := by
  obtain ⟨peerAddr, hpeer, hj⟩ := orSocket_of_decide h
  split_ifs at hj with heq
  · subst heq
    cases hj with
    | race _ _ _ _ _ hless =>
      refine ⟨hpeer, ?_⟩
      simpa using fun h ↦ hless (Or.inl h)
  · cases hj

/-- A race between lossless peers is lost by a messenger whose own address is the larger one. -/
theorem less_of_replace {me : Side} {acc : Conn Frame} {socketAddr a : EntityAddr} {m : MsgConnect}
    {reset fromPeer : Bool} (h : me.decide acc socketAddr a m = some (.replace reset fromPeer))
    (hrace : me.races m = true) (hlossy : me.attempt.policy.lossy = false)
    (hserver : me.attempt.policy.server = false) :
    a.orSocket socketAddr = some me.peerAddr ∧ me.peerAddr.less me.inst.addr = true := by
  simp only [races, Bool.and_eq_true, beq_iff_eq, bne_iff_ne] at hrace
  obtain ⟨⟨hseq, hopened⟩, hstandby⟩ := hrace
  obtain ⟨peerAddr, hpeer, hj⟩ := orSocket_of_decide h
  split_ifs at hj with heq
  · subst heq
    cases hj with
    | replace _ _ _ _ hclaim =>
      cases hclaim with
      | lossy hlossy' => exact absurd (hlossy.symm.trans hlossy') (by decide)
      | reset _ hzero hpos => exact absurd (hseq ▸ hzero) (Nat.ne_of_gt hpos)
      | idle _ _ hs => exact absurd hs (not_or.mpr ⟨hopened, hstandby⟩)
      | wins _ _ _ hless =>
        refine ⟨hpeer, hless.resolve_right fun h ↦ ?_⟩
        exact absurd (hserver.symm.trans h) (by decide)
      | ahead _ hlt => exact absurd hseq (Nat.ne_of_gt hlt)
  · cases hj

end Side

namespace Crossing

variable {s s' : Crossing}

/-! ## What is known about a decision

A decision is remembered together with the two addresses that were compared. When both sides have
decided, each has been told the address of the other by then, and the two comparisons are of the
same two addresses. -/

/-- The peer has decided on a connect message of this side. -/
structure Heard (s : Crossing) (b : Bool) : Prop where
  needAddr : (s b).inst.needAddr = false
  addr : (s b).inst.addr.isBlankIp = false → (s b).inst.addr = (s !b).peerAddr

/-- The side has compared its peer's address with its own: with the one its peer has dialled, or with
one that it keeps. -/
def Compared (s : Crossing) (b r : Bool) : Prop :=
  (s b).peerAddr.less (s !b).peerAddr = r ∨
    (s b).inst.settled = true ∧ (s b).peerAddr.less (s b).inst.addr = r

/-- Once the peer has decided as well, it was the address the peer has dialled in any case. -/
theorem Compared.less_eq {b r : Bool} (h : Compared s b r) (hheard : Heard s b) :
    (s b).peerAddr.less (s !b).peerAddr = r := by
  rcases h with h | ⟨hsettled, h⟩
  · exact h
  · have hknown : (s b).inst.addr.isBlankIp = false := by
      simp only [MyInst.settled, Bool.and_eq_true, Bool.not_eq_true'] at hsettled
      exact hsettled.2
    rw [← hheard.addr hknown]
    exact h

structure Inv (s : Crossing) : Prop where
  distinct : (s true).peerAddr.mem ≠ (s false).peerAddr.mem
  announced : ∀ b a, (s b).announced = some a →
    (s b).inst.needAddr = false ∧ a = (s b).inst.addr
  pending : ∀ b a m, (a, m) ∈ (s b).pending → (s b).inst.needAddr = false ∧ a = (s b).inst.addr
  waited : ∀ b, (s b).waited = true → Heard s b ∧ Compared s (!b) false
  replaced : ∀ b, (s b).replaced = true → Heard s (!b) ∧ Compared s b true

section Keeps

variable (h : ∀ b, (s b).Keeps (s' b))

include h

theorem Heard.of_keeps {b : Bool} (hheard : Heard s b) : Heard s' b := by
  have hinst := (h b).inst hheard.needAddr
  constructor
  · rw [hinst]
    exact hheard.needAddr
  · intro hblank
    rw [hinst] at hblank ⊢
    rw [(h !b).peerAddr]
    exact hheard.addr hblank

theorem Compared.of_keeps {b r : Bool} (hcmp : Compared s b r) : Compared s' b r := by
  rcases hcmp with hcmp | ⟨hsettled, hcmp⟩
  · left
    rw [(h b).peerAddr, (h !b).peerAddr]
    exact hcmp
  · right
    have hneed : (s b).inst.needAddr = false := by
      simp only [MyInst.settled, Bool.and_eq_true, Bool.not_eq_true'] at hsettled
      exact hsettled.1
    rw [(h b).peerAddr, (h b).inst hneed]
    exact ⟨hsettled, hcmp⟩

/-- The invariant is kept if every new WAIT and every new replacement is accounted for. -/
theorem Inv.of_keeps (hinv : Inv s)
    (hwaited : ∀ b, (s' b).waited = true → (s b).waited = true ∨ Heard s b ∧ Compared s (!b) false)
    (hreplaced : ∀ b, (s' b).replaced = true →
      (s b).replaced = true ∨ Heard s (!b) ∧ Compared s b true) : Inv s' := by
  have hknown {b : Bool} {a : EntityAddr}
      (ha : (s b).inst.needAddr = false ∧ a = (s b).inst.addr) :
      (s' b).inst.needAddr = false ∧ a = (s' b).inst.addr := by
    rw [(h b).inst ha.1]
    exact ha
  refine ⟨?_, fun b a ha ↦ ?_, fun b a m ha ↦ ?_, fun b hb ↦ ?_, fun b hb ↦ ?_⟩
  · rw [(h true).peerAddr, (h false).peerAddr]
    exact hinv.distinct
  · rcases (h b).announced a ha with ha | ha
    · exact hknown (hinv.announced b a ha)
    · exact ha
  · rcases (h b).pending a m ha with ha | ha
    · exact hknown (hinv.pending b a m ha)
    · exact hknown (hinv.announced b a ha)
  · obtain ⟨hheard, hcmp⟩ := (hwaited b hb).elim (hinv.waited b) id
    exact ⟨hheard.of_keeps h, hcmp.of_keeps h⟩
  · obtain ⟨hheard, hcmp⟩ := (hreplaced b hb).elim (hinv.replaced b) id
    exact ⟨hheard.of_keeps h, hcmp.of_keeps h⟩

end Keeps

/-- A step of one side alone. -/
theorem inv_update {b : Bool} {me : Side} {e : SideEvent} (hinv : Inv s)
    (hstep : (s b).step e = some me) : Inv (Function.update s b me) := by
  obtain ⟨hkeeps, hwaited, hreplaced⟩ := Side.keeps_of_step hstep
  refine hinv.of_keeps (fun c ↦ ?_) (fun c hc ↦ Or.inl ?_) fun c hc ↦ Or.inl ?_
  · by_cases hcb : c = b
    · subst hcb
      rw [Function.update_self]
      exact hkeeps
    · rw [Function.update_of_ne hcb]
      exact .refl _
  · by_cases hcb : c = b
    · subst hcb
      rw [Function.update_self] at hc
      exact hwaited.symm.trans hc
    · rwa [Function.update_of_ne hcb] at hc
  · by_cases hcb : c = b
    · subst hcb
      rw [Function.update_self] at hc
      exact hreplaced.symm.trans hc
    · rwa [Function.update_of_ne hcb] at hc

/-- What the decision of side `b` says about the two addresses. -/
theorem compared_of_less {b r : Bool} (hforesees : (s b).inst.settled = false →
      (s b).peerAddr.less (s b).inst.addr = (s b).peerAddr.less (s !b).peerAddr)
    (hless : (s b).peerAddr.less (s b).inst.addr = r) : Compared s b r := by
  cases hsettled : (s b).inst.settled with
  | false => exact Or.inl ((hforesees hsettled).symm.trans hless)
  | true => exact Or.inr ⟨hsettled, hless⟩

/-- The side whose connect message has been decided on has announced the address that the decision
was made with. -/
theorem heard_of_pending {b : Bool} {a socketAddr : EntityAddr} {m : MsgConnect} (hinv : Inv s)
    (hmem : (a, m) ∈ (s b).pending) (hpeer : a.orSocket socketAddr = some (s !b).peerAddr) :
    Heard s b := by
  obtain ⟨hneed, rfl⟩ := hinv.pending b a m hmem
  refine ⟨hneed, fun hblank ↦ ?_⟩
  rw [EntityAddr.orSocket, hblank] at hpeer
  exact Option.some.inj hpeer

theorem inv_decides {b : Bool} {k : ℕ} {acc : Conn Frame} {socketAddr a : EntityAddr}
    {m : MsgConnect} {v : Verdict} (hinv : Inv s)
    (hforesees : Foresees s (b, .decides k acc socketAddr)) (hk : (s !b).pending[k]? = some (a, m))
    (hv : (s b).decide acc socketAddr a m = some v) :
    Inv (Function.update (Function.update s b ((s b).decided m v)) (!b) ((s !b).answered k v)) := by
  have hmem : (a, m) ∈ (s !b).pending := List.mem_of_getElem? hk
  obtain ⟨hlossy, hserver, hless⟩ := hforesees
  have hheard (hpeer : a.orSocket socketAddr = some (s b).peerAddr) : Heard s !b :=
    heard_of_pending hinv hmem (by rwa [Bool.not_not])
  have hself : Function.update (Function.update s b ((s b).decided m v)) (!b)
      ((s !b).answered k v) b = (s b).decided m v := by
    rw [Function.update_of_ne (by simp), Function.update_self]
  have hother : Function.update (Function.update s b ((s b).decided m v)) (!b)
      ((s !b).answered k v) (!b) = (s !b).answered k v := Function.update_self ..
  -- the step is one of both sides: one decides, the other is answered
  have hside (c : Bool) : c = b ∨ c = !b := by
    cases b <;> cases c <;> simp
  refine hinv.of_keeps (fun c ↦ ?_) (fun c hc ↦ ?_) fun c hc ↦ ?_
  · rcases hside c with rfl | rfl
    · rw [hself]
      exact (Side.keeps_decided _ m v).1
    · rw [hother]
      exact Side.keeps_answered _ k v
  · rcases hside c with rfl | rfl
    · rw [hself, (Side.keeps_decided _ m v).2] at hc
      exact Or.inl hc
    · rw [hother, Side.answered, Bool.or_eq_true, beq_iff_eq] at hc
      refine hc.imp id fun hwait ↦ ?_
      subst hwait
      obtain ⟨hpeer, hcmp⟩ := Side.less_of_wait hv
      rw [Bool.not_not]
      exact ⟨hheard hpeer, compared_of_less hless hcmp⟩
  · rcases hside c with rfl | rfl
    · rw [hself] at hc
      cases v with
      | replace reset fromPeer =>
        rw [Side.decided, Bool.or_eq_true] at hc
        refine hc.imp id fun hrace ↦ ?_
        obtain ⟨hpeer, hcmp⟩ := Side.less_of_replace hv hrace hlossy hserver
        exact ⟨hheard hpeer, compared_of_less hless hcmp⟩
      | _ => exact Or.inl hc
    · rw [hother] at hc
      exact Or.inl hc

theorem inv_step {act : Bool × SideEvent} (hinv : Inv s) (hforesees : Foresees s act)
    (hstep : s.step act = some s') : Inv s' := by
  obtain ⟨b, e⟩ := act
  have hlocal {e : SideEvent} (h : ((s b).step e).map (Function.update s b) = some s') : Inv s' := by
    obtain ⟨me, hme, rfl⟩ := Option.map_eq_some_iff.mp h
    exact inv_update hinv hme
  cases e with
  | decides k acc socketAddr =>
    obtain ⟨⟨a, m⟩, hk, hrest⟩ := Option.bind_eq_some_iff.mp hstep
    obtain ⟨v, hv, rfl⟩ := Option.map_eq_some_iff.mp hrest
    exact inv_decides hinv hforesees hk hv
  | learned | identified | asks => exact hlocal hstep
  | dials => exact hlocal (e := .dials) hstep
  | evolves c => exact hlocal (e := .evolves c) hstep

theorem inv_of_starts (h : Starts s) (hne : (s true).peerAddr.mem ≠ (s false).peerAddr.mem) :
    Inv s := by
  refine ⟨hne, fun b a ha ↦ ?_, fun b a m ha ↦ ?_, fun b hb ↦ ?_, fun b hb ↦ ?_⟩
  · rw [h.announced] at ha
    cases ha
  · rw [h.pending] at ha
    cases ha
  · rw [h.waited] at hb
    cases hb
  · rw [h.replaced] at hb
    cases hb

/-- Crossing attempts of lossless peers with different addresses have one winner: in whatever order the
two sides learn their addresses, dial, and decide, it does not happen that both attempts are answered
WAIT, nor that both are replaced, as long as nobody is misled by an address it has not learned yet. -/
theorem crossing_one_winner {es : List (Bool × SideEvent)} (hstarts : Starts s)
    (hne : (s true).peerAddr.mem ≠ (s false).peerAddr.mem)
    (hforesees : Run.Meets step Foresees s es) (hrun : Run.exec step s es = some s') :
    ¬ BothWait s' ∧ ¬ BothReplaced s' := by
  have hinv : Inv s' := Run.invariant_of_meets (fun _ _ _ ↦ inv_step) (inv_of_starts hstarts hne)
    hforesees hrun
  constructor
  · intro hwait
    obtain ⟨htrue, hcmp⟩ := hinv.waited true (hwait true)
    obtain ⟨hfalse, hcmp'⟩ := hinv.waited false (hwait false)
    exact hinv.distinct (EntityAddr.mem_eq_of_not_less (hcmp'.less_eq htrue) (hcmp.less_eq hfalse))
  · intro hreplaced
    obtain ⟨hfalse, hcmp⟩ := hinv.replaced true (hreplaced true)
    obtain ⟨htrue, hcmp'⟩ := hinv.replaced false (hreplaced false)
    exact EntityAddr.less_asymm (hcmp.less_eq htrue) (hcmp'.less_eq hfalse)

/-! ## Runs -/

/-- An IPv4 address with nonce 0 and port 6800. -/
def host (ip : Bytes) : EntityAddr :=
  { family := afInet, rest := [26, 144] ++ ip ++ List.replicate 120 0 }

/-- Two messengers at 10.0.0.2 and 10.0.0.1 whose attempts have the given policy. The second knows its
address; the first may be bound to 0.0.0.0 and have to learn it. -/
def pair (policy : Policy) (known : Bool) : Crossing := fun b ↦
  { inst :=
      if b then { needAddr := !known, addr := host (if known then [10, 0, 0, 2] else [0, 0, 0, 0]) }
      else { needAddr := false, addr := host [10, 0, 0, 1] }
    peerAddr := if b then host [10, 0, 0, 1] else host [10, 0, 0, 2]
    attempt := { policy, state := .connectingSendConnectMsg } }

theorem starts_pair (policy : Policy) (known : Bool) : Starts (pair policy known) :=
  ⟨fun _ ↦ rfl, fun _ ↦ rfl, fun _ ↦ rfl, fun _ ↦ rfl⟩

theorem distinct_pair (policy : Policy) (known : Bool) :
    (pair policy known true).peerAddr.mem ≠ (pair policy known false).peerAddr.mem := by
  rw [show (pair policy known true).peerAddr = host [10, 0, 0, 1] from rfl,
    show (pair policy known false).peerAddr = host [10, 0, 0, 2] from rfl]
  decide +kernel

/-- A messenger announces its address and sends its connect message. -/
def dialling (b : Bool) : List (Bool × SideEvent) :=
  [(b, .identified (host (if b then [10, 0, 0, 2] else [10, 0, 0, 1]))), (b, .asks 0 0)]

/-- A messenger decides on the connect message of the other one. -/
def deciding (b : Bool) : Bool × SideEvent :=
  (b, .decides 0 {} (host (if b then [10, 0, 0, 1] else [10, 0, 0, 2])))

/-- Both connect messages are under way before either side decides. -/
def meeting : List (Bool × SideEvent) :=
  dialling false ++ dialling true ++ [deciding true, deciding false]

/-- The first messenger decides before its own attempt has got that far. -/
def earlyMeeting : List (Bool × SideEvent) :=
  dialling false ++ [deciding true] ++ dialling true ++ [deciding false]

/-- What a run comes to: who has been answered WAIT, and who has been replaced. -/
def outcome (s : Crossing) : List Bool :=
  [(s true).waited, (s false).waited, (s true).replaced, (s false).replaced]

/-- `Foresees`, as a test. -/
def foreseesTest (s : Crossing) : Bool × SideEvent → Bool
  | (b, .decides ..) =>
    !(s b).attempt.policy.lossy && !(s b).attempt.policy.server &&
      ((s b).inst.settled ||
        (s b).peerAddr.less (s b).inst.addr == (s b).peerAddr.less (s !b).peerAddr)
  | _ => true

theorem foresees_of_test {act : Bool × SideEvent} (h : s.foreseesTest act = true) :
    Foresees s act := by
  obtain ⟨b, e⟩ := act
  cases e with
  | decides k acc socketAddr =>
    simp only [foreseesTest, Bool.and_eq_true, Bool.not_eq_true', Bool.or_eq_true, beq_iff_eq] at h
    obtain ⟨⟨hlossy, hserver⟩, hless⟩ := h
    refine ⟨hlossy, hserver, fun hsettled ↦ hless.resolve_left fun h ↦ ?_⟩
    exact absurd (hsettled.symm.trans h) (by decide)
  | _ => trivial

/-- Two lossless peers that know their addresses: the attempt of the first is answered WAIT and is
replaced by that of the second. -/
theorem crossing_one_winner_of_known :
    ∃ s', Run.exec step (pair (Policy.losslessPeer 0 0) true) meeting = some s' ∧
      outcome s' = [true, false, true, false] ∧ ¬ BothWait s' ∧ ¬ BothReplaced s' := by
  have hout : (Run.exec step (pair (Policy.losslessPeer 0 0) true) meeting).map outcome =
      some [true, false, true, false] := by
    decide +kernel
  obtain ⟨s', hrun, hs⟩ := Option.map_eq_some_iff.mp hout
  refine ⟨s', hrun, hs, crossing_one_winner (starts_pair _ _) (distinct_pair _ _) ?_ hrun⟩
  exact Run.Meets.of_check (fun _ _ ↦ foresees_of_test) (by decide +kernel)

/-- Two lossy peers that know their addresses replace each other's attempt without a look at the
addresses. -/
theorem lossy_peers_both_replaced :
    Starts (pair (Policy.lossyClient 0 0) true) ∧
    (∀ b, (pair (Policy.lossyClient 0 0) true b).attempt.policy.server = false ∧
      (pair (Policy.lossyClient 0 0) true b).inst.settled = true) ∧
    (pair (Policy.lossyClient 0 0) true true).peerAddr.mem ≠
      (pair (Policy.lossyClient 0 0) true false).peerAddr.mem ∧
    ∃ s', Run.exec step (pair (Policy.lossyClient 0 0) true) meeting = some s' ∧ BothReplaced s' := by
  have hout : (Run.exec step (pair (Policy.lossyClient 0 0) true) meeting).map outcome =
      some [false, false, true, true] := by
    decide +kernel
  obtain ⟨s', hrun, hs⟩ := Option.map_eq_some_iff.mp hout
  simp only [outcome, List.cons.injEq] at hs
  refine ⟨starts_pair _ _, ?_, distinct_pair _ _, s', hrun, ?_⟩
  · decide +kernel
  · rintro (_ | _)
    · exact hs.2.2.2.1
    · exact hs.2.2.1

/-- The condition on the own address is needed: a messenger bound to 0.0.0.0 takes its address for the
smaller one and answers WAIT; when it has learned the address, its own attempt is answered WAIT too. -/
theorem unknown_address_both_wait :
    ∃ s', Run.exec step (pair (Policy.losslessPeer 0 0) false) earlyMeeting = some s' ∧
      BothWait s' := by
  have hout : (Run.exec step (pair (Policy.losslessPeer 0 0) false) earlyMeeting).map outcome =
      some [true, true, false, false] := by
    decide +kernel
  obtain ⟨s', hrun, hs⟩ := Option.map_eq_some_iff.mp hout
  simp only [outcome, List.cons.injEq] at hs
  refine ⟨s', hrun, ?_⟩
  rintro (_ | _)
  · exact hs.2.1
  · exact hs.1

end Crossing

end AsyncMessenger
