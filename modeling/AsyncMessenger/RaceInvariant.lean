import AsyncMessenger.Acceptors

/-!
# What holds throughout a race

The messenger with the smaller address dials once and keeps its socket. The other one may be
answered WAIT and dial again, until its attempt is replaced; from then on it has no dialling end any
more, and only then does the `connect_seq` of the other attempt grow. If the smaller one has not
dialled at all when the attempt of the larger one arrives, it accepts the session, and never dials.

So an attempt that meets a registered connection with a larger `connect_seq` has been given up by
the messenger that has sent it.

## The shape of a socket

`Shape` says, of the sockets that are alive, who has which end. A socket has a dialling end, of an
attempt or of a session, and may have an accepting end, of a connection that nobody has registered
or of the registered one. `Conveys` is what its two directions carry then. The marks that a
connection bears while it is to be replaced are those of an attempt that is still alive (`Marked`).
The invariant is the conjunction, and most steps change nothing about it but what one socket carries
(`SameShape`).
-/

namespace AsyncMessenger

namespace Encounter

/-- The registered connection of the accepting messenger has socket `k`. -/
def taken (s : Encounter) (k : ℕ) : Bool :=
  match (s.line k).reception with
  | .taken => true
  | _ => false

/-- The messenger with the smaller address has an attempt of its own. -/
def Dialled (s : Encounter) : Prop :=
  (s.reg !s.larger).isSome = true ∧ ∀ k, s.sd (!s.larger) ≠ some ⟨k, .acc⟩

/-- The attempts of messenger `b` may be answered WAIT. -/
def Waits (s : Encounter) (b : Bool) : Prop := b = s.larger ∧ s.Dialled

/-- Who has which end of which socket. -/
structure Shape (s : Encounter) : Prop where
  con : ∀ b k, s.sd b = some ⟨k, .con⟩ →
    k < s.count ∧ (s.line k).dialler = b ∧ (s.line k).reception ≠ .closed
  acc : ∀ b k, s.sd b = some ⟨k, .acc⟩ →
    k < s.count ∧ (s.line k).dialler = !b ∧ s.taken k = true ∧ s.sd (!b) = some ⟨k, .con⟩
  taken : ∀ k < s.count, s.taken k = true → s.sd (s.acceptor k) = some ⟨k, .acc⟩
  small : ∀ k < s.count, (s.line k).dialler = !s.larger → s.sd (!s.larger) = some ⟨k, .con⟩
  large : ¬ s.Dialled → ∀ k < s.count, (s.line k).dialler = s.larger →
    s.sd s.larger = some ⟨k, .con⟩

/-- What the registered connection `c` of messenger `b` is. -/
def Plays (s : Encounter) (b : Bool) (c : Conn Chunk) : Prop :=
  match c.sd with
  | none => c.Attempt (s.Waits b)
  | some ⟨k, .con⟩ => if s.taken k = true then c.Caller else c.Attempt (s.Waits b)
  | some ⟨_, .acc⟩ => c.Callee

/-- What is under way on a socket. -/
structure Conveys (l : Line) (settled : Bool) (w : Prop) : Prop where
  quiet : settled = false → Carries (fun m ↦ m.connectSeq = 0) (fun _ ↦ True) l.toAcceptor ∧
    Carries (fun _ ↦ True) (Mild w) l.toClient
  settled : settled = true → Carries (fun m ↦ m.connectSeq ≤ 1) (fun _ ↦ True) l.toAcceptor ∧
    Carries (fun _ ↦ True) Settling l.toClient

/-- Messenger `b` has been handed a socket that the other one has dialled. -/
structure Marked (s : Encounter) (b : Bool) (c : Conn Chunk) : Prop where
  larger : b = s.larger
  resetSession : c.replacingResetSession = false
  connect : c.replacingConnect.connectSeq = 0
  sd : ∃ k < s.count, c.replacingSd = some ⟨k, .acc⟩ ∧ (s.line k).dialler = !s.larger ∧
    (s.line k).reception = .handed

/-- The invariant. -/
structure Inv (s : Encounter) : Prop where
  policy : ∀ b, (s.policy b).lossy = false ∧ (s.policy b).server = false
  shape : s.Shape
  plays : ∀ b c, s.reg b = some c → s.Plays b c
  marked : ∀ b c, s.reg b = some c → c.replacing = 1 → s.Marked b c
  conveys : ∀ k < s.count, Conveys (s.line k) (s.taken k) (s.Waits (s.line k).dialler)
  serving : ∀ k < s.count, ∀ a, (s.line k).reception = .serving a →
    a.Vetting (s.Waits (s.line k).dialler) ∧ a.sd = some ⟨k, .acc⟩
  fresh : ∀ k, s.count ≤ k → (s.line k).reception = .closed
  unmistaken : s.mistaken = false ∧ s.reset = false ∧ s.discarded = []

/-- A connection keeps its role while its socket stays what it is. -/
theorem Plays.carry {s s' : Encounter} {b : Bool} {c : Conn Chunk} (h : s.Plays b c)
    (hw : s.Waits b → s'.Waits b) (htaken : ∀ k, c.sd = some ⟨k, .con⟩ → s'.taken k = s.taken k) :
    s'.Plays b c := by
  rw [Plays] at h ⊢
  split at h <;> rename_i hsd
  · exact h.imp hw
  · rw [htaken _ hsd]
    split_ifs at h ⊢
    · exact h
    · exact h.imp hw
  · exact h

/-! ## Steps that change nothing about who has what -/

/-- The connections have the sockets that they had. -/
structure SameShape (s s' : Encounter) : Prop where
  larger : s'.larger = s.larger
  policy : s'.policy = s.policy
  count : s'.count = s.count
  known : ∀ b, (s.reg b).isSome = true → (s'.reg b).isSome = true
  sd : ∀ b, s'.sd b = s.sd b
  dialler : ∀ k, (s'.line k).dialler = (s.line k).dialler
  taken : ∀ k, s'.taken k = s.taken k
  handed : ∀ k, (s.line k).reception = .handed → (s'.line k).reception = .handed
  closed : ∀ k, s.holds k = true → (s'.line k).reception = .closed → (s.line k).reception = .closed
  gone : ∀ k, (s.line k).reception = .closed → (s'.line k).reception = .closed

namespace SameShape

variable {s s' : Encounter}

theorem dialled (h : SameShape s s') (hd : s.Dialled) : s'.Dialled := by
  obtain ⟨hknown, hsd⟩ := hd
  rw [Dialled, h.larger, h.sd]
  exact ⟨h.known _ hknown, hsd⟩

theorem waits (h : SameShape s s') {b : Bool} (hw : s.Waits b) : s'.Waits b :=
  ⟨hw.1.trans h.larger.symm, h.dialled hw.2⟩

theorem shape (h : SameShape s s') (hs : s.Shape) : s'.Shape := by
  refine ⟨fun b k hsd ↦ ?_, fun b k hsd ↦ ?_, fun k hk htaken ↦ ?_, fun k hk hd ↦ ?_,
    fun hno k hk hd ↦ ?_⟩
  · rw [h.sd] at hsd
    obtain ⟨hk, hd, hopen⟩ := hs.con b k hsd
    rw [h.count, h.dialler]
    refine ⟨hk, hd, fun hclosed ↦ hopen (h.closed k ?_ hclosed)⟩
    rw [holds, hd, hsd]
    exact beq_self_eq_true _
  · rw [h.sd] at hsd ⊢
    rw [h.count, h.dialler, h.taken]
    exact hs.acc b k hsd
  · rw [h.count] at hk
    rw [h.taken] at htaken
    rw [h.sd, acceptor, h.dialler]
    exact hs.taken k hk htaken
  · rw [h.count] at hk
    rw [h.dialler, h.larger] at hd
    rw [h.sd, h.larger]
    exact hs.small k hk hd
  · rw [h.count] at hk
    rw [h.dialler, h.larger] at hd
    rw [h.sd, h.larger]
    exact hs.large (fun hdialled ↦ hno (h.dialled hdialled)) k hk hd

theorem plays (h : SameShape s s') {b : Bool} {c : Conn Chunk} (hc : s.Plays b c) : s'.Plays b c :=
  hc.carry h.waits fun k _ ↦ h.taken k

theorem marked (h : SameShape s s') {b : Bool} {c c' : Conn Chunk} (hc : s.Marked b c)
    (hcharge : c'.charge = c.charge) : s'.Marked b c' := by
  simp only [Conn.charge, Prod.mk.injEq] at hcharge
  obtain ⟨-, hsd, hconnect, hreset⟩ := hcharge
  obtain ⟨k, hk, hreplacing, hd, hhanded⟩ := hc.sd
  refine ⟨hc.larger.trans h.larger.symm, hreset.trans hc.resetSession, ?_, k, ?_, hsd.trans hreplacing,
    ?_, h.handed k hhanded⟩
  · rw [hconnect]
    exact hc.connect
  · rw [h.count]
    exact hk
  · rw [h.dialler, h.larger]
    exact hd

end SameShape

variable {s s' : Encounter}

theorem Inv.of_same (h : s.Inv) (hsame : SameShape s s')
    (hplays : ∀ b c, s'.reg b = some c → s.Plays b c ∧ (c.replacing = 1 → s'.Marked b c))
    (hconveys : ∀ k < s.count, Conveys (s'.line k) (s.taken k) (s.Waits (s.line k).dialler))
    (hserving : ∀ k < s.count, ∀ a, (s'.line k).reception = .serving a →
      a.Vetting (s.Waits (s.line k).dialler) ∧ a.sd = some ⟨k, .acc⟩)
    (hhistory : s'.mistaken = false ∧ s'.reset = false ∧ s'.discarded = []) : s'.Inv where
  policy b := by
    rw [hsame.policy]
    exact h.policy b
  shape := hsame.shape h.shape
  plays b c hc := hsame.plays (hplays b c hc).1
  marked b c hc := (hplays b c hc).2
  conveys k hk := by
    rw [hsame.count] at hk
    rw [hsame.taken, hsame.dialler]
    obtain ⟨hquiet, hsettled⟩ := hconveys k hk
    refine ⟨fun ht ↦ ?_, hsettled⟩
    obtain ⟨hup, hdown⟩ := hquiet ht
    exact ⟨hup, hdown.imp (fun _ hm ↦ hm) fun _ hr ↦ hr.imp hsame.waits⟩
  serving k hk a ha := by
    rw [hsame.count] at hk
    rw [hsame.dialler]
    obtain ⟨hvetting, hsd⟩ := hserving k hk a ha
    exact ⟨hvetting.imp hsame.waits, hsd⟩
  fresh k hk := by
    rw [hsame.count] at hk
    exact hsame.gone k (h.fresh k hk)
  unmistaken := hhistory

theorem reg_putReg_self (s : Encounter) (b : Bool) (c : Conn Chunk) :
    (s.putReg b c).reg b = some c := Function.update_self ..

theorem sd_putReg_self (s : Encounter) (b : Bool) (c : Conn Chunk) : (s.putReg b c).sd b = c.sd := by
  rw [sd, reg_putReg_self, Option.bind_some]

theorem reg_putReg_of_ne (s : Encounter) {b d : Bool} (hne : d ≠ b) (c : Conn Chunk) :
    (s.putReg b c).reg d = s.reg d := Function.update_of_ne hne _ _

theorem sd_putReg_of_ne (s : Encounter) {b d : Bool} (hne : d ≠ b) (c : Conn Chunk) :
    (s.putReg b c).sd d = s.sd d := by
  rw [sd, reg_putReg_of_ne s hne, sd]

theorem sd_of_reg {b : Bool} {c : Conn Chunk} (hc : s.reg b = some c) : s.sd b = c.sd := by
  rw [sd, hc, Option.bind_some]

/-- A registered connection keeps its socket. -/
theorem sameShape_putReg {b : Bool} {c c' : Conn Chunk} (hc : s.reg b = some c) (hsd : c'.sd = c.sd) :
    SameShape s (s.putReg b c') := by
  refine ⟨rfl, rfl, rfl, fun d ↦ ?_, fun d ↦ ?_, fun _ ↦ rfl, fun _ ↦ rfl, fun _ h ↦ h, fun _ _ h ↦ h,
    fun _ h ↦ h⟩
  · by_cases hd : d = b
    · subst hd
      rw [reg_putReg_self]
      exact fun _ ↦ rfl
    · rw [reg_putReg_of_ne s hd]
      exact id
  · by_cases hd : d = b
    · subst hd
      rw [sd_putReg_self, sd_of_reg hc, hsd]
    · exact sd_putReg_of_ne s hd c'

theorem Inv.putReg {b : Bool} {c c' : Conn Chunk} (h : s.Inv) (hc : s.reg b = some c)
    (hsd : c'.sd = c.sd) (hplays : s.Plays b c') (hmarked : c'.replacing = 1 → s.Marked b c') :
    (s.putReg b c').Inv := by
  have hsame := sameShape_putReg hc hsd
  refine h.of_same hsame (fun d e he ↦ ?_) h.conveys h.serving h.unmistaken
  by_cases hd : d = b
  · subst hd
    rw [reg_putReg_self, Option.some_inj] at he
    subst he
    exact ⟨hplays, fun hone ↦ hsame.marked (hmarked hone) rfl⟩
  · rw [reg_putReg_of_ne s hd] at he
    exact ⟨h.plays d e he, fun hone ↦ hsame.marked (h.marked d e he hone) rfl⟩

theorem line_putLine_self (s : Encounter) (k : ℕ) (l : Line) : (s.putLine k l).line k = l :=
  Function.update_self ..

theorem line_putLine_of_ne (s : Encounter) {j k : ℕ} (hne : j ≠ k) (l : Line) :
    (s.putLine k l).line j = s.line j := Function.update_of_ne hne _ _

/-- A socket changes, but not its ends. -/
theorem sameShape_putLine {k : ℕ} {l : Line} (hd : l.dialler = (s.line k).dialler)
    (htaken : (s.putLine k l).taken k = s.taken k)
    (hhanded : (s.line k).reception = .handed → l.reception = .handed)
    (hclosed : s.holds k = true → l.reception = .closed → (s.line k).reception = .closed)
    (hgone : (s.line k).reception = .closed → l.reception = .closed) :
    SameShape s (s.putLine k l) := by
  refine ⟨rfl, rfl, rfl, fun _ h ↦ h, fun _ ↦ rfl, fun j ↦ ?_, fun j ↦ ?_, fun j hj' ↦ ?_,
    fun j hholds hj' ↦ ?_, fun j hj' ↦ ?_⟩ <;> by_cases hj : j = k
  · rw [hj, line_putLine_self, hd]
  · rw [line_putLine_of_ne s hj]
  · rw [hj, htaken]
  · rw [Encounter.taken, Encounter.taken, line_putLine_of_ne s hj]
  · subst hj
    rw [line_putLine_self]
    exact hhanded hj'
  · rw [line_putLine_of_ne s hj]
    exact hj'
  · subst hj
    rw [line_putLine_self] at hj'
    exact hclosed hholds hj'
  · rw [line_putLine_of_ne s hj] at hj'
    exact hj'
  · subst hj
    rw [line_putLine_self]
    exact hgone hj'
  · rw [line_putLine_of_ne s hj]
    exact hj'

/-- What is under way on a socket changes, or who serves it. -/
theorem Inv.putLine {k : ℕ} {l : Line} (h : s.Inv) (hsame : SameShape s (s.putLine k l))
    (hconveys : k < s.count → Conveys l (s.taken k) (s.Waits (s.line k).dialler))
    (hserving : k < s.count → ∀ a, l.reception = .serving a →
      a.Vetting (s.Waits (s.line k).dialler) ∧ a.sd = some ⟨k, .acc⟩) :
    (s.putLine k l).Inv := by
  refine h.of_same hsame (fun d e he ↦ ?_) (fun j hj ↦ ?_) (fun j hj a ha ↦ ?_) h.unmistaken
  · exact ⟨h.plays d e he, fun hone ↦ hsame.marked (h.marked d e he hone) rfl⟩
  · by_cases hjk : j = k
    · subst hjk
      rw [line_putLine_self]
      exact hconveys hj
    · rw [line_putLine_of_ne s hjk]
      exact h.conveys j hj
  · by_cases hjk : j = k
    · subst hjk
      rw [line_putLine_self] at ha
      exact hserving hj a ha
    · rw [line_putLine_of_ne s hjk] at ha
      exact h.serving j hj a ha

theorem Inv.withGseq (h : s.Inv) (g : Bool → ℕ) : ({ s with gseq := g } : Encounter).Inv := by
  have hsame : SameShape s { s with gseq := g } :=
    ⟨rfl, rfl, rfl, fun _ h ↦ h, fun _ ↦ rfl, fun _ ↦ rfl, fun _ ↦ rfl, fun _ h ↦ h, fun _ _ h ↦ h,
    fun _ h ↦ h⟩
  exact h.of_same hsame (fun d e he ↦ ⟨h.plays d e he, fun hone ↦
    hsame.marked (h.marked d e he hone) rfl⟩) h.conveys h.serving h.unmistaken

/-! ## The roles of a registered connection

What a registered connection can be, depending on the shape of its socket. -/

section Roles

variable {b : Bool} {c c' : Conn Chunk} {k : ℕ}

theorem Plays.attempt_of_free (h : s.Plays b c) (hsd : c.sd = none) : c.Attempt (s.Waits b) := by
  rwa [Plays, hsd] at h

theorem Plays.attempt (h : s.Plays b c) (hsd : c.sd = some ⟨k, .con⟩) (htaken : s.taken k = false) :
    c.Attempt (s.Waits b) := by
  rw [Plays, hsd] at h
  dsimp only at h
  rwa [if_neg (by rw [htaken]; decide)] at h

theorem Plays.caller (h : s.Plays b c) (hsd : c.sd = some ⟨k, .con⟩) (htaken : s.taken k = true) :
    c.Caller := by
  rw [Plays, hsd] at h
  dsimp only at h
  rwa [if_pos htaken] at h

theorem Plays.callee (h : s.Plays b c) (hsd : c.sd = some ⟨k, .acc⟩) : c.Callee := by
  rwa [Plays, hsd] at h

/-- What keeps the three roles keeps the role of a connection. -/
theorem Plays.imp (h : s.Plays b c) (hsd : c'.sd = c.sd)
    (hattempt : c.Attempt (s.Waits b) → c'.Attempt (s.Waits b)) (hcaller : c.Caller → c'.Caller)
    (hcallee : c.Callee → c'.Callee) : s.Plays b c' := by
  rw [Plays] at h ⊢
  rw [hsd]
  split at h
  · exact hattempt h
  · split_ifs at h ⊢
    · exact hcaller h
    · exact hattempt h
  · exact hcallee h

/-- The connection has not heard RESETSESSION. -/
theorem Plays.hearsReset_eq_false (h : s.Plays b c) (c' : Conn Chunk) :
    c.hearsReset c' = false := by
  have hne {c : Conn Chunk} (hne : c.state = .connectingWaitConnectReplyAuth →
      c.connectReply.tag ≠ Tag.resetSession) : c.hearsReset c' = false := by
    rw [Conn.hearsReset, Bool.and_eq_false_imp]
    intro hboth
    rw [Bool.and_eq_true, beq_iff_eq, beq_iff_eq] at hboth
    exact absurd hboth.2 (hne hboth.1)
  have hattempt {w : Prop} (ha : c.Attempt w) : c.hearsReset c' = false := by
    refine hne fun hs htag ↦ ?_
    have hmild := (ha.heard (Conn.phase_of_state hs (by decide))).tag
    rw [htag] at hmild
    exact absurd hmild (by decide)
  rw [Plays] at h
  split at h
  · exact hattempt h
  · split_ifs at h
    · refine hne fun hs htag ↦ ?_
      have hsettling := (h.heard (Conn.phase_of_state hs (by decide))).tag
      rw [htag] at hsettling
      exact absurd hsettling (by decide)
    · exact hattempt h
  · exact hne fun hs ↦ (h.not_state hs (by decide)).elim

end Roles

/-! ## Calls from outside -/

theorem SameShape.refl (s : Encounter) : SameShape s s :=
  ⟨rfl, rfl, rfl, fun _ h ↦ h, fun _ ↦ rfl, fun _ ↦ rfl, fun _ ↦ rfl, fun _ h ↦ h, fun _ _ h ↦ h,
    fun _ h ↦ h⟩

theorem Inv.marked_of_charge {b : Bool} {c c' : Conn Chunk} (h : s.Inv) (hc : s.reg b = some c)
    (hcharge : c'.charge = c.charge) (hone : c'.replacing = 1) : s.Marked b c' := by
  have hreplacing : c'.replacing = c.replacing := congrArg Prod.fst hcharge
  exact (SameShape.refl s).marked (h.marked b c hc (hreplacing.symm.trans hone)) hcharge

/-- A call that leaves output to be written. -/
theorem Inv.adds {b : Bool} {c c' : Conn Chunk} (h : s.Inv) (hc : s.reg b = some c)
    (hadds : c.Adds c') : (s.putReg b c').Inv := by
  have hsd : c'.sd = c.sd := Conn.eq_of_outsideWriting Conn.sd (fun _ ↦ rfl) hadds.1
  have hcharge : c'.charge = c.charge := Conn.eq_of_outsideWriting Conn.charge (fun _ ↦ rfl) hadds.1
  exact h.putReg hc hsd ((h.plays b c hc).imp hsd (fun ha ↦ Conn.Attempt.part.adds ha hadds)
    (fun ha ↦ Conn.Caller.part.adds ha hadds) fun ha ↦ Conn.Callee.part.adds ha hadds) (h.marked_of_charge hc hcharge)

theorem Inv.enqueue {b : Bool} {c : Conn Chunk} (h : s.Inv) (hc : s.reg b = some c) (m : Message) :
    (s.putReg b (c.enqueue m)).Inv := by
  rcases c.enqueue_cases m with hadds | ⟨hs, -, q, heq⟩
  · exact h.adds hc hadds
  · have hcharge : (c.enqueue m).charge = c.charge := by rw [heq]; rfl
    have hsd : (c.enqueue m).sd = c.sd := by rw [heq]
    -- only an attempt stands by
    exact h.putReg hc hsd ((h.plays b c hc).imp hsd (fun ha ↦ (ha.enqueue m).1)
      (fun ha ↦ (ha.not_state hs (by decide)).elim) fun ha ↦ (ha.not_state hs (by decide)).elim)
      (h.marked_of_charge hc hcharge)

end Encounter

end AsyncMessenger
