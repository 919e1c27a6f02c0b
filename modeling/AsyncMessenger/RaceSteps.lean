import AsyncMessenger.RaceInvariant

/-!
# The passes of a race

The steps in which every end of a socket stays where it is: a registered connection goes on with its
handshake or its session, or writes, and an accepted connection answers. A registered connection
never finds its socket closed by the other side; an accepted one may, if the attempt it looks at has
been given up.

A step of this kind changes one connection and what is on the way on one socket. What is on the way
is of the kind that the socket conveys before and after (`Fits`), and the connection goes on playing
the role it has played, a dialler that asks or an end of a session (`Keeps`); nothing else of the
invariant looks at either.
-/

namespace AsyncMessenger

namespace Encounter

variable {s s' : Encounter} {K : Codec} {flags : CrcFlags}

/-! ## Reading and writing on a socket

What the two ends of a socket have in common with the others is who has which end; a read or a write
changes none of that (`SameShape`). -/

/-- The dialling end reads and writes. -/
theorem Conveys.atClient {l : Line} {settled : Bool} {w : Prop} {rest wrote : List Chunk}
    (h : Conveys l settled w)
    (hrest : ∀ P R, Carries P R l.toClient → Carries P R rest)
    (hquiet : settled = false → Carries (fun m ↦ m.connectSeq = 0) (fun _ ↦ True) wrote)
    (hsettled : settled = true → Carries (fun m ↦ m.connectSeq ≤ 1) (fun _ ↦ True) wrote) :
    Conveys { l with toClient := rest, toAcceptor := l.toAcceptor ++ wrote } settled w := by
  constructor
  · intro hno
    obtain ⟨hup, hdown⟩ := h.quiet hno
    exact ⟨Carries.append_iff.mpr ⟨hup, hquiet hno⟩, hrest _ _ hdown⟩
  · intro hyes
    obtain ⟨hup, hdown⟩ := h.settled hyes
    exact ⟨Carries.append_iff.mpr ⟨hup, hsettled hyes⟩, hrest _ _ hdown⟩

/-- The accepting end reads and writes. -/
theorem Conveys.atAcceptor {l : Line} {settled : Bool} {w : Prop} {rest wrote : List Chunk}
    (h : Conveys l settled w)
    (hrest : ∀ P R, Carries P R l.toAcceptor → Carries P R rest)
    (hquiet : settled = false → Carries (fun _ ↦ True) (Mild w) wrote)
    (hsettled : settled = true → Carries (fun _ ↦ True) Settling wrote) :
    Conveys { l with toAcceptor := rest, toClient := l.toClient ++ wrote } settled w := by
  constructor
  · intro hno
    obtain ⟨hup, hdown⟩ := h.quiet hno
    exact ⟨hrest _ _ hup, Carries.append_iff.mpr ⟨hdown, hquiet hno⟩⟩
  · intro hyes
    obtain ⟨hup, hdown⟩ := h.settled hyes
    exact ⟨hrest _ _ hup, Carries.append_iff.mpr ⟨hdown, hsettled hyes⟩⟩

/-- What is under way does not matter for who has what. -/
theorem sameShape_transfer (s : Encounter) (fd : Option Fd) (rest wrote : List Chunk) :
    SameShape s (s.transfer fd rest wrote) := by
  have htaken (k : ℕ) (l : Line) (hl : l.reception = (s.line k).reception) :
      (s.putLine k l).taken k = s.taken k := by
    rw [Encounter.taken, Encounter.taken, line_putLine_self, hl]
  rcases fd with - | ⟨k, side⟩
  · exact .refl s
  · cases side with
    | con => exact sameShape_putLine rfl (htaken k _ rfl) id (fun _ h ↦ h) id
    | acc => exact sameShape_putLine rfl (htaken k _ rfl) id (fun _ h ↦ h) id

theorem reg_transfer (s : Encounter) (fd : Option Fd) (rest wrote : List Chunk) :
    (s.transfer fd rest wrote).reg = s.reg := by
  rw [transfer.eq_def]
  split <;> rfl

/-- What a read of the given end leaves, and what has been written there, is of the kind that the
socket conveys. -/
structure Fits (s : Encounter) (fd : Option Fd) (wrote : List Chunk) : Prop where
  con : ∀ k, fd = some ⟨k, .con⟩ →
    (s.taken k = false → Carries (fun m ↦ m.connectSeq = 0) (fun _ ↦ True) wrote) ∧
    (s.taken k = true → Carries (fun m ↦ m.connectSeq ≤ 1) (fun _ ↦ True) wrote)
  acc : ∀ k, fd = some ⟨k, .acc⟩ →
    (s.taken k = false → Carries (fun _ ↦ True) (Mild (s.Waits (s.line k).dialler)) wrote) ∧
    (s.taken k = true → Carries (fun _ ↦ True) Settling wrote)

theorem Inv.transfer {fd : Option Fd} {rest wrote : List Chunk} (h : s.Inv)
    (hrest : ∀ P R, Carries P R (s.arrived fd) → Carries P R rest) (hfits : s.Fits fd wrote) :
    (s.transfer fd rest wrote).Inv := by
  have hsame := sameShape_transfer s fd rest wrote
  match fd, hsame with
  | none, _ => exact h
  | some ⟨k, .con⟩, hsame =>
    obtain ⟨hquiet, hsettled⟩ := hfits.con k rfl
    exact h.putLine hsame (fun hk ↦ (h.conveys k hk).atClient hrest hquiet hsettled)
      fun hk a ha ↦ h.serving k hk a ha
  | some ⟨k, .acc⟩, hsame =>
    obtain ⟨hquiet, hsettled⟩ := hfits.acc k rfl
    exact h.putLine hsame (fun hk ↦ (h.conveys k hk).atAcceptor hrest hquiet hsettled)
      fun hk a ha ↦ h.serving k hk a ha

/-! ## A registered connection

A connection that is registered has dialled, is one end of the session, or waits. Each of these
roles is kept by a pass and by `handle_write`, and in none of them the other side is gone. -/

/-- What a step of a registered connection leaves behind. -/
structure Keeps (s : Encounter) (b : Bool) (c c' : Conn Chunk) (wrote : List Chunk) : Prop where
  plays : s.Plays b c'
  sd : c'.sd = c.sd
  charge : c'.charge = c.charge ∨ c'.replacing ≠ 1
  fits : s.Fits c.sd wrote

/-- A registered connection has read and written on its socket. -/
theorem Inv.moves {b : Bool} {c c' : Conn Chunk} {rest wrote : List Chunk} (h : s.Inv)
    (hc : s.reg b = some c) (hrest : ∀ P R, Carries P R (s.arrived c.sd) → Carries P R rest)
    (hkeeps : s.Keeps b c c' wrote) : ((s.transfer c.sd rest wrote).putReg b c').Inv := by
  have hsame := sameShape_transfer s c.sd rest wrote
  refine (h.transfer hrest hkeeps.fits).putReg ?_ hkeeps.sd (hsame.plays hkeeps.plays) fun hone ↦ ?_
  · rw [reg_transfer]
    exact hc
  · have hcharge := hkeeps.charge.resolve_right fun hne ↦ hne hone
    exact hsame.marked (h.marked_of_charge hc hcharge hone) rfl

section Roles

variable {b : Bool} {c c' : Conn Chunk} {wrote : List Chunk}

theorem Plays.of_attempt (hfree : c.sd = none ∨ ∃ k, c.sd = some ⟨k, .con⟩ ∧ s.taken k = false)
    (hc' : c'.Attempt (s.Waits b)) (hsd : c'.sd = c.sd) : s.Plays b c' := by
  rcases hfree with hnone | ⟨k, hk, htaken⟩
  · rw [Plays, hsd, hnone]
    exact hc'
  · rw [Plays, hsd, hk]
    dsimp only
    rwa [if_neg (by rw [htaken]; decide)]

/-- An attempt that stays one. -/
theorem Keeps.of_attempt (hfree : c.sd = none ∨ ∃ k, c.sd = some ⟨k, .con⟩ ∧ s.taken k = false)
    (hc' : c'.Attempt (s.Waits b)) (hsd : c'.sd = c.sd) (hcharge : c'.charge = c.charge)
    (hwrote : Carries (fun m ↦ m.connectSeq = 0) (fun _ ↦ True) wrote) : s.Keeps b c c' wrote := by
  refine ⟨.of_attempt hfree hc' hsd, hsd, Or.inl hcharge, fun j hj ↦ ?_, fun j hj ↦ ?_⟩ <;>
    rcases hfree with hnone | ⟨k, hk, htaken⟩
  · rw [hnone] at hj
    cases hj
  · rw [hk, Option.some_inj, Fd.mk.injEq] at hj
    obtain ⟨rfl, -⟩ := hj
    exact ⟨fun _ ↦ hwrote, fun hyes ↦ absurd (htaken.symm.trans hyes) (by decide)⟩
  · rw [hnone] at hj
    cases hj
  · rw [hk, Option.some_inj, Fd.mk.injEq] at hj
    exact absurd hj.2 (by decide)

/-- The dialling end of a session stays one. -/
theorem Keeps.of_caller {k : ℕ} (hk : c.sd = some ⟨k, .con⟩) (htaken : s.taken k = true)
    (hc' : c'.Caller) (hsd : c'.sd = c.sd)
    (hwrote : Carries (fun m ↦ m.connectSeq ≤ 1) (fun _ ↦ True) wrote) : s.Keeps b c c' wrote := by
  refine ⟨?_, hsd, Or.inr ?_, fun j hj ↦ ?_, fun j hj ↦ ?_⟩
  · rw [Plays, hsd, hk]
    dsimp only
    rwa [if_pos htaken]
  · rw [hc'.unclaimed]
    exact Nat.zero_ne_one
  · rw [hk, Option.some_inj, Fd.mk.injEq] at hj
    obtain ⟨rfl, -⟩ := hj
    exact ⟨fun hno ↦ absurd (htaken.symm.trans hno) (by decide), fun _ ↦ hwrote⟩
  · rw [hk, Option.some_inj, Fd.mk.injEq] at hj
    exact absurd hj.2 (by decide)

/-- The accepting end of a session stays one. -/
theorem Keeps.of_callee {k : ℕ} (hk : c.sd = some ⟨k, .acc⟩) (htaken : s.taken k = true)
    (hc' : c'.Callee) (hsd : c'.sd = c.sd) (hwrote : Carries (fun _ ↦ True) Settling wrote) :
    s.Keeps b c c' wrote := by
  refine ⟨?_, hsd, Or.inr hc'.claimed, fun j hj ↦ ?_, fun j hj ↦ ?_⟩
  · rw [Plays, hsd, hk]
    exact hc'
  · rw [hk, Option.some_inj, Fd.mk.injEq] at hj
    exact absurd hj.2 (by decide)
  · rw [hk, Option.some_inj, Fd.mk.injEq] at hj
    obtain ⟨rfl, -⟩ := hj
    exact ⟨fun hno ↦ absurd (htaken.symm.trans hno) (by decide), fun _ ↦ hwrote⟩

/-- The roles of a registered connection. -/
theorem Inv.role_cases (h : s.Inv) (hc : s.reg b = some c) :
    (c.Attempt (s.Waits b) ∧ (c.sd = none ∨ ∃ k, c.sd = some ⟨k, .con⟩ ∧ s.taken k = false)) ∨
    (∃ k, c.Caller ∧ c.sd = some ⟨k, .con⟩ ∧ s.taken k = true) ∨
    ∃ k, c.Callee ∧ c.sd = some ⟨k, .acc⟩ ∧ s.taken k = true := by
  have hplays := h.plays b c hc
  match hsd : c.sd with
  | none => exact Or.inl ⟨hplays.attempt_of_free hsd, Or.inl rfl⟩
  | some ⟨k, .con⟩ =>
    cases htaken : s.taken k with
    | false => exact Or.inl ⟨hplays.attempt hsd htaken, Or.inr ⟨k, rfl, htaken⟩⟩
    | true => exact Or.inr (Or.inl ⟨k, hplays.caller hsd htaken, rfl, htaken⟩)
  | some ⟨k, .acc⟩ =>
    obtain ⟨-, -, htaken, -⟩ := h.shape.acc b k ((sd_of_reg hc).trans hsd)
    exact Or.inr (Or.inr ⟨k, hplays.callee hsd, rfl, htaken⟩)

/-- A registered connection does not find its socket closed. -/
theorem Inv.peerGone_eq_false (h : s.Inv) (hc : s.reg b = some c) : s.peerGone c.sd = false := by
  have hsd := sd_of_reg hc
  match hfd : c.sd with
  | none => rfl
  | some ⟨k, .con⟩ =>
    rw [hfd] at hsd
    obtain ⟨-, -, hopen⟩ := h.shape.con b k hsd
    rw [peerGone]
    generalize (s.line k).reception = r at hopen
    cases r with
    | closed => exact absurd rfl hopen
    | _ => rfl
  | some ⟨k, .acc⟩ =>
    rw [hfd] at hsd
    obtain ⟨-, hd, -, hcon⟩ := h.shape.acc b k hsd
    rw [peerGone, holds, hd, hcon, Bool.not_eq_false']
    exact beq_self_eq_true _

/-- A pass of a registered connection that does not dial. -/
theorem Inv.keeps_pass {arrival : Arrival} {inp : Input Chunk} (h : s.Inv) (hc : s.reg b = some c)
    (hconnecting : c.state ≠ .connecting) (hread : inp.read = (c.fetch (s.arrived c.sd) arrival).1)
    (hexisting : inp.existing = none) (hfail : (c.pass K flags Frame.chunks inp).flow ≠ .fail)
    (habort : (c.pass K flags Frame.chunks inp).flow ≠ .abort) :
    s.Keeps b c (c.pass K flags Frame.chunks inp).conn (c.pass K flags Frame.chunks inp).wrote := by
  have hgives {P : MsgConnect → Prop} {R : MsgConnectReply → Prop}
      (hall : Carries P R (s.arrived c.sd)) : inp.read.Gives P R := by
    rw [Read.Gives, hread]
    exact (hall.fetch c arrival).1
  rcases h.role_cases hc with ⟨hattempt, hfree⟩ | ⟨k, hcaller, hk, htaken⟩ | ⟨k, hcallee, hk, htaken⟩
  · have hall : Carries (fun _ ↦ True) (Mild (s.Waits b)) (s.arrived c.sd) := by
      rcases hfree with hnone | ⟨k, hk, htaken⟩
      · rw [hnone]
        exact .nil
      · obtain ⟨hlt, hd, -⟩ := h.shape.con b k ((sd_of_reg hc).trans hk)
        rw [hk]
        exact hd ▸ ((h.conveys k hlt).quiet htaken).2
    have hkept := hattempt.kept_of_pass hconnecting (hgives hall) hfail habort
    exact .of_attempt hfree hkept.attempt hkept.sd hkept.charge hkept.wrote
  · obtain ⟨hlt, -, -⟩ := h.shape.con b k ((sd_of_reg hc).trans hk)
    have hall : Carries (fun _ ↦ True) Settling (s.arrived c.sd) := by
      rw [hk]
      exact ((h.conveys k hlt).settled htaken).2
    have hkept := hcaller.kept_of_pass (hgives hall) hfail habort
    exact .of_caller hk htaken hkept.caller hkept.sd hkept.wrote
  · obtain ⟨hlt, -⟩ := h.shape.acc b k ((sd_of_reg hc).trans hk)
    have hall : Carries (fun m ↦ m.connectSeq ≤ 1) (fun _ ↦ True) (s.arrived c.sd) := by
      rw [hk]
      exact ((h.conveys k hlt).settled htaken).1
    have hkept := hcallee.kept_of_pass hexisting (hgives hall) hfail habort
    exact .of_callee hk htaken hkept.callee hkept.sd hkept.wrote

/-- `handle_write` of a registered connection. -/
theorem Inv.keeps_writeOut {n : ℕ} {kernel : Option ℕ} (h : s.Inv) (hc : s.reg b = some c)
    (hleft : (c.writeOut K flags n kernel).left ≠ none) :
    s.Keeps b c (c.writeOut K flags n kernel).conn (c.writeOut K flags n kernel).wrote := by
  rcases h.role_cases hc with ⟨hattempt, hfree⟩ | ⟨k, hcaller, hk, htaken⟩ | ⟨k, hcallee, hk, htaken⟩
  · obtain ⟨hc', hview, hwrote⟩ := Conn.Attempt.part.kept_of_writeOut hattempt hleft
    exact .of_attempt hfree hc' (Conn.eq_of_outsideWriting Conn.sd (fun _ ↦ rfl) hview)
      (Conn.eq_of_outsideWriting Conn.charge (fun _ ↦ rfl) hview) hwrote
  · obtain ⟨hc', hview, hwrote⟩ := Conn.Caller.part.kept_of_writeOut hcaller hleft
    exact .of_caller hk htaken hc' (Conn.eq_of_outsideWriting Conn.sd (fun _ ↦ rfl) hview) hwrote
  · obtain ⟨hc', hview, hwrote⟩ := Conn.Callee.part.kept_of_writeOut hcallee hleft
    exact .of_callee hk htaken hc' (Conn.eq_of_outsideWriting Conn.sd (fun _ ↦ rfl) hview) hwrote

end Roles

theorem inv_write {b : Bool} {c : Conn Chunk} {n : ℕ} {kernel : Option ℕ} {r : ReplaceInput}
    (h : s.Inv) (hc : s.reg b = some c) (hs' : s.write K flags b c n kernel r = some s') : s'.Inv := by
  rw [write] at hs'
  split at hs' <;> rename_i hleft
  · rw [h.peerGone_eq_false hc] at hs'
    cases hs'
  · rw [Option.some_inj] at hs'
    subst hs'
    exact h.moves hc (fun _ _ hall ↦ hall) (h.keeps_writeOut hc (by rw [hleft]; simp))

end Encounter

end AsyncMessenger
