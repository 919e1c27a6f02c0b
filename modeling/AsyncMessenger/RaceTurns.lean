import AsyncMessenger.RaceSteps

/-!
# The turns of a race

The steps in which a socket gets an end or loses one: a connection dials, or gives up an attempt
that has been answered WAIT, and an accepting end comes into the hands of the registered connection.

In all of them one messenger's registered connection changes, and one socket. What has to be shown
then is little: the shape of that socket afterwards, and that no other socket has an end in the same
hands (`Inv.of_turn`). Which of the shapes it is depends on whether the messenger has the smaller
address or the larger one: the attempt of the first goes through, and the attempt of the second is
given up in favour of the socket that its connection is handed.
-/

namespace AsyncMessenger

namespace Encounter

variable {s s' : Encounter} {K : Codec} {flags : CrcFlags} {b : Bool} {c c' : Conn Chunk}

/-! ## One connection and one socket change

The frame: what a turn leaves alone, and the rule for the invariant. -/

/-- In `t` messenger `b` has the registered connection `c`, and of the sockets only `k` differs. -/
structure Turn (s t : Encounter) (b : Bool) (c : Conn Chunk) (k : ℕ) : Prop where
  larger : t.larger = s.larger
  policy : t.policy = s.policy
  history : t.mistaken = s.mistaken ∧ t.reset = s.reset ∧ t.discarded = s.discarded
  reg : t.reg b = some c
  other : ∀ d ≠ b, t.reg d = s.reg d
  count : s.count ≤ t.count ∧ ∀ j < t.count, j ≠ k → j < s.count
  line : ∀ j ≠ k, t.line j = s.line j

namespace Turn

variable {t : Encounter} {k : ℕ}

theorem sd_self (ht : Turn s t b c k) : t.sd b = c.sd := sd_of_reg ht.reg

theorem sd_of_ne (ht : Turn s t b c k) {d : Bool} (hd : d ≠ b) : t.sd d = s.sd d := by
  rw [sd, ht.other d hd, sd]

theorem taken_of_ne (ht : Turn s t b c k) {j : ℕ} (hj : j ≠ k) : t.taken j = s.taken j := by
  rw [Encounter.taken, Encounter.taken, ht.line j hj]

theorem dialled (ht : Turn s t b c k)
    (hb : b = s.larger ∨ s.reg b = none ∨ ∀ j, c.sd ≠ some ⟨j, .acc⟩) (hd : s.Dialled) :
    t.Dialled := by
  rw [Dialled, ht.larger]
  by_cases heq : (!s.larger) = b
  · rcases hb with rfl | hnone | hacc
    · exact absurd heq (Bool.not_ne_self _)
    · rw [Dialled, heq, hnone] at hd
      exact absurd hd.1 (by decide)
    · rw [heq, ht.reg, ht.sd_self]
      exact ⟨rfl, hacc⟩
  · rw [ht.other _ heq, ht.sd_of_ne heq]
    exact hd

theorem waits (ht : Turn s t b c k) (hdialled : s.Dialled → t.Dialled) {d : Bool} (hw : s.Waits d) :
    t.Waits d := ⟨hw.1.trans ht.larger.symm, hdialled hw.2⟩

theorem marked (ht : Turn s t b c k) {d : Bool} {e : Conn Chunk} (hm : s.Marked d e)
    (hk : k < s.count → (s.line k).reception ≠ .handed) : t.Marked d e := by
  obtain ⟨j, hj, hsd, hdialler, hhanded⟩ := hm.sd
  have hjk : j ≠ k := by
    rintro rfl
    exact hk hj hhanded
  refine ⟨hm.larger.trans ht.larger.symm, hm.resetSession, hm.connect, j,
    Nat.lt_of_lt_of_le hj ht.count.1, hsd, ?_, ?_⟩
  · rw [ht.line j hjk, ht.larger]
    exact hdialler
  · rw [ht.line j hjk]
    exact hhanded

end Turn

/-- What has to be shown about the connection and the socket that change. -/
theorem Inv.of_turn {t : Encounter} {k : ℕ} (h : s.Inv) (ht : Turn s t b c k)
    (hdialled : s.Dialled → t.Dialled) (hshape : t.Shape) (hplays : t.Plays b c)
    (hother : ∀ e, s.reg (!b) = some e → t.Plays (!b) e ∧ (e.replacing = 1 → t.Marked (!b) e))
    (hmarked : c.replacing = 1 → t.Marked b c)
    (hconveys : k < t.count → Conveys (t.line k) (t.taken k) (t.Waits (t.line k).dialler))
    (hserving : k < t.count → ∀ a, (t.line k).reception = .serving a →
      a.Vetting (t.Waits (t.line k).dialler) ∧ a.sd = some ⟨k, .acc⟩)
    (hfresh : t.count ≤ k → (t.line k).reception = .closed) : t.Inv where
  policy d := by
    rw [ht.policy]
    exact h.policy d
  shape := hshape
  plays d e he := by
    by_cases hd : d = b
    · subst hd
      rw [ht.reg, Option.some_inj] at he
      exact he ▸ hplays
    · rw [ht.other d hd, Bool.eq_not.mpr hd] at he
      rw [Bool.eq_not.mpr hd]
      exact (hother e he).1
  marked d e he hone := by
    by_cases hd : d = b
    · subst hd
      rw [ht.reg, Option.some_inj] at he
      subst he
      exact hmarked hone
    · rw [ht.other d hd, Bool.eq_not.mpr hd] at he
      rw [Bool.eq_not.mpr hd]
      exact (hother e he).2 hone
  conveys j hj := by
    by_cases hjk : j = k
    · subst hjk
      exact hconveys hj
    · rw [ht.line j hjk, ht.taken_of_ne hjk]
      -- another socket is as it was, but what its dialler waits for may have come true
      obtain ⟨hquiet, hsettled⟩ := h.conveys j (ht.count.2 j hj hjk)
      refine ⟨fun hno ↦ ?_, hsettled⟩
      obtain ⟨hup, hdown⟩ := hquiet hno
      exact ⟨hup, hdown.imp (fun _ hm ↦ hm) fun _ hr ↦ hr.imp (ht.waits hdialled)⟩
  serving j hj a ha := by
    by_cases hjk : j = k
    · subst hjk
      exact hserving hj a ha
    · rw [ht.line j hjk] at ha ⊢
      obtain ⟨hvetting, hsd⟩ := h.serving j (ht.count.2 j hj hjk) a ha
      exact ⟨hvetting.imp (ht.waits hdialled), hsd⟩
  fresh j hj := by
    by_cases hjk : j = k
    · subst hjk
      exact hfresh hj
    · rw [ht.line j hjk]
      exact h.fresh j (ht.count.1.trans hj)
  unmistaken := by
    rw [ht.history.1, ht.history.2.1, ht.history.2.2]
    exact h.unmistaken

/-! ## A connection is registered, and dials -/

/-- `get_connection` makes an attempt. -/
theorem Inv.getConnection (h : s.Inv) (hnone : s.reg b = none) :
    (s.putReg b ({ policy := s.policy b } : Conn Chunk).connect).Inv := by
  have hfree : s.sd b = none := by rw [sd, hnone, Option.bind_none]
  have hsame : SameShape s (s.putReg b ({ policy := s.policy b } : Conn Chunk).connect) := by
    refine ⟨rfl, rfl, rfl, fun d hd ↦ ?_, fun d ↦ ?_, fun _ ↦ rfl, fun _ ↦ rfl, fun _ h ↦ h,
      fun _ _ h ↦ h, fun _ h ↦ h⟩
    · by_cases hdb : d = b
      · subst hdb
        rw [reg_putReg_self]
        rfl
      · rwa [reg_putReg_of_ne s hdb]
    · by_cases hdb : d = b
      · subst hdb
        rw [sd_putReg_self, hfree]
        rfl
      · exact sd_putReg_of_ne s hdb _
  refine h.of_same hsame (fun d e he ↦ ?_) h.conveys h.serving h.unmistaken
  by_cases hdb : d = b
  · subst hdb
    rw [reg_putReg_self, Option.some_inj] at he
    subst he
    have hphase : ({ policy := s.policy d } : Conn Chunk).connect.phase = .connecting :=
      Conn.phase_of_state rfl (by decide)
    refine ⟨⟨h.policy d, ⟨rfl, rfl⟩, rfl, Nat.zero_le 1, Or.inl ?_, fun hne ↦ absurd rfl hne,
      fun hp ↦ ?_, .nil⟩, fun hone ↦ ?_⟩
    · rw [hphase]
      decide
    · rw [hphase] at hp
      exact absurd hp (by decide)
    · exact absurd hone Nat.zero_ne_one
  · rw [reg_putReg_of_ne s hdb] at he
    exact ⟨h.plays d e he, fun hone ↦ hsame.marked (h.marked d e he hone) rfl⟩

/-- An accepted connection has heard nothing yet. -/
theorem vetting_accepted (fd : Fd) (w : Prop) : (Node.accepted fd : Node Chunk).conn.Vetting w := by
  have hmem : State.accepting ∈ Conn.vettingStates := by decide
  exact ⟨Or.inl hmem, ⟨rfl, rfl⟩, fun hs ↦ (by cases hs), .nil, rfl⟩

/-- While a registered connection has no socket, none has been accepted. -/
theorem Shape.not_acc_of_free (h : s.Shape) (hfree : s.sd b = none) (d : Bool) (k : ℕ) :
    s.sd d ≠ some ⟨k, .acc⟩ := by
  intro hacc
  obtain ⟨-, -, -, hcon⟩ := h.acc d k hacc
  by_cases hd : d = b
  · rw [hd, hfree] at hacc
    cases hacc
  · rw [Bool.not_eq.mpr hd, hfree] at hcon
    cases hcon

theorem Turn.shape_of_dial {t : Encounter} (ht : Turn s t b c' s.count) (h : s.Shape)
    (hfree : s.sd b = none) (hsd : c'.sd = some ⟨s.count, .con⟩) (hcount : t.count = s.count + 1)
    (hline : (t.line s.count).dialler = b ∧ (t.line s.count).reception ≠ .closed)
    (htaken : t.taken s.count = false) (hdialled : s.Dialled → t.Dialled) : t.Shape := by
  have hno := h.not_acc_of_free hfree
  have hself : t.sd b = some ⟨s.count, .con⟩ := ht.sd_self.trans hsd
  -- the sockets that were dialled before are where they were
  have hcon {d : Bool} {k : ℕ} (hk : s.sd d = some ⟨k, .con⟩) : t.sd d = some ⟨k, .con⟩ := by
    by_cases hd : d = b
    · rw [hd, hfree] at hk
      cases hk
    · exact (ht.sd_of_ne hd).trans hk
  refine ⟨fun d k hk ↦ ?_, fun d k hk ↦ ?_, fun k hk hyes ↦ ?_, fun k hk hd ↦ ?_,
    fun hdial k hk hd ↦ ?_⟩
  · by_cases hd : d = b
    · rw [hd, hself, Option.some_inj, Fd.mk.injEq] at hk
      obtain ⟨rfl, -⟩ := hk
      rw [hcount, hd]
      exact ⟨Nat.lt_succ_self _, hline⟩
    · rw [ht.sd_of_ne hd] at hk
      obtain ⟨hlt, hrest⟩ := h.con d k hk
      rw [ht.line k (Nat.ne_of_lt hlt), hcount]
      exact ⟨Nat.lt_succ_of_lt hlt, hrest⟩
  · by_cases hd : d = b
    · rw [hd, hself] at hk
      cases hk
    · rw [ht.sd_of_ne hd] at hk
      exact (hno d k hk).elim
  · by_cases hkn : k = s.count
    · rw [hkn, htaken] at hyes
      cases hyes
    · rw [ht.taken_of_ne hkn] at hyes
      exact (hno _ k (h.taken k (ht.count.2 k hk hkn) hyes)).elim
  · rw [ht.larger] at hd ⊢
    by_cases hkn : k = s.count
    · rw [hkn, hline.1] at hd
      rw [hkn, ← hd]
      exact hself
    · rw [ht.line k hkn] at hd
      exact hcon (h.small k (ht.count.2 k hk hkn) hd)
  · rw [ht.larger] at hd ⊢
    by_cases hkn : k = s.count
    · rw [hkn, hline.1] at hd
      rw [hkn, ← hd]
      exact hself
    · rw [ht.line k hkn] at hd
      exact hcon (h.large (fun hyes ↦ hdial (hdialled hyes)) k (ht.count.2 k hk hkn) hd)

/-- A registered connection without a socket dials. -/
theorem Inv.dial (h : s.Inv) (hc : s.reg b = some c) (hfree : c.sd = none)
    (hattempt : c'.Attempt (s.Waits b)) (hsd : c'.sd = some ⟨s.count, .con⟩)
    (hcharge : c'.charge = c.charge) : ((s.dial b).putReg b c').Inv := by
  have hnone : s.sd b = none := (sd_of_reg hc).trans hfree
  have hno := h.shape.not_acc_of_free hnone
  have ht : Turn s ((s.dial b).putReg b c') b c' s.count := by
    refine ⟨rfl, rfl, ⟨rfl, rfl, rfl⟩, reg_putReg_self .., fun d hd ↦ reg_putReg_of_ne _ hd _,
      ⟨Nat.le_succ _, fun j hj hne ↦ ?_⟩, fun j hj ↦ line_putLine_of_ne s hj _⟩
    exact Nat.lt_of_le_of_ne (Nat.le_of_lt_succ hj) hne
  have hline : ((s.dial b).putReg b c').line s.count =
      { dialler := b, reception := .serving (Node.accepted ⟨s.count, .acc⟩).conn } :=
    line_putLine_self s _ _
  have hcount : ((s.dial b).putReg b c').count = s.count + 1 := rfl
  revert ht hline hcount
  generalize (s.dial b).putReg b c' = t
  intro ht hline hcount
  have htaken : t.taken s.count = false := by rw [Encounter.taken, hline]
  have hdialled : s.Dialled → t.Dialled := by
    refine ht.dialled (Or.inr (Or.inr fun j hj ↦ ?_))
    rw [hsd] at hj
    cases hj
  have hhanded : s.count < s.count → (s.line s.count).reception ≠ .handed :=
    fun hlt ↦ absurd hlt (Nat.lt_irrefl _)
  have hshape : t.Shape := by
    refine ht.shape_of_dial h.shape hnone hsd hcount ?_ htaken hdialled
    rw [hline]
    exact ⟨rfl, by simp⟩
  refine h.of_turn ht hdialled hshape ?_ (fun e he ↦ ⟨?_, fun hone ↦ ?_⟩) (fun hone ↦ ?_) (fun _ ↦ ?_)
    (fun _ a ha ↦ ?_) fun hle ↦ ?_
  · rw [Plays, hsd]
    dsimp only
    rw [if_neg (by rw [htaken]; decide)]
    exact hattempt.imp (ht.waits hdialled)
  · refine (h.plays _ e he).carry (ht.waits hdialled) fun k hk ↦ ht.taken_of_ne (Nat.ne_of_lt ?_)
    exact (h.shape.con _ k ((sd_of_reg he).trans hk)).1
  · exact ht.marked (h.marked _ e he hone) hhanded
  · exact ht.marked (h.marked_of_charge hc hcharge hone) hhanded
  · rw [hline]
    exact ⟨fun _ ↦ ⟨.nil, .nil⟩, fun _ ↦ ⟨.nil, .nil⟩⟩
  · rw [hline] at ha
    obtain rfl := Reception.serving.inj ha
    exact ⟨vetting_accepted _ _, rfl⟩
  · rw [hcount] at hle
    exact absurd hle (Nat.not_succ_le_self _)

/-! ## An attempt is given up

`fault` after a WAIT. The connection stands by or dials again, and its old socket is closed. -/

/-- As long as the socket of a connection has not been taken over, nobody has an accepting end: it would be
one of this connection, or the other end of its socket. -/
theorem Inv.no_acceptor (h : s.Inv) (hc : s.reg b = some c)
    (hfree : c.sd = none ∨ ∃ k, c.sd = some ⟨k, .con⟩ ∧ s.taken k = false) (d : Bool) (k : ℕ) :
    s.sd d ≠ some ⟨k, .acc⟩ := by
  intro hacc
  obtain ⟨-, -, htaken, hcon⟩ := h.shape.acc d k hacc
  have hself := sd_of_reg hc
  by_cases hd : d = b
  · rw [hd, hself] at hacc
    rcases hfree with hnone | ⟨j, hj, -⟩
    · rw [hnone] at hacc
      cases hacc
    · rw [hj] at hacc
      cases hacc
  · rw [Bool.not_eq.mpr hd, hself] at hcon
    rcases hfree with hnone | ⟨j, hj, huntaken⟩
    · rw [hnone] at hcon
      cases hcon
    · rw [hj, Option.some_inj, Fd.mk.injEq] at hcon
      obtain ⟨rfl, -⟩ := hcon
      rw [huntaken] at htaken
      cases htaken

/-- The attempt of the messenger with the larger address has been answered WAIT: its socket is
closed. -/
theorem Inv.fault (h : s.Inv) (hc : s.reg b = some c) (hw : s.Waits b)
    (hfree : c.sd = none ∨ ∃ k, c.sd = some ⟨k, .con⟩ ∧ s.taken k = false)
    (hattempt : c'.Attempt (s.Waits b)) (hsd : c'.sd = none) (hrepl : c'.replacing = 0) :
    (s.putReg b c').Inv := by
  have ht : Turn s (s.putReg b c') b c' s.count :=
    ⟨rfl, rfl, ⟨rfl, rfl, rfl⟩, reg_putReg_self .., fun d hd ↦ reg_putReg_of_ne _ hd _,
      ⟨Nat.le_refl _, fun j hj _ ↦ hj⟩, fun j _ ↦ rfl⟩
  have hno := h.no_acceptor hc hfree
  have huntaken {k : ℕ} (hk : k < s.count) : s.taken k = false := by
    rw [← Bool.not_eq_true]
    exact fun htaken ↦ hno _ k (h.shape.taken k hk htaken)
  have hcount : (s.putReg b c').count = s.count := rfl
  have hline (k : ℕ) : (s.putReg b c').line k = s.line k := rfl
  -- only what the turn says of the new state is used from here on
  revert ht hcount hline
  generalize s.putReg b c' = t
  intro ht hcount hline
  have hdialled : s.Dialled → t.Dialled := ht.dialled (Or.inl hw.1)
  have hshape : t.Shape := by
    have hsmall : t.sd (!s.larger) = s.sd (!s.larger) := by
      apply ht.sd_of_ne
      rw [hw.1]
      exact Bool.not_ne_self _
    refine ⟨fun d k hk ↦ ?_, fun d k hk ↦ ?_, fun k hk hyes ↦ ?_, fun k hk hd ↦ ?_,
      fun hdial ↦ absurd (hdialled hw.2) hdial⟩
    · by_cases hd : d = b
      · rw [hd, ht.sd_self, hsd] at hk
        cases hk
      · rw [ht.sd_of_ne hd] at hk
        rw [hcount, hline]
        exact h.shape.con d k hk
    · by_cases hd : d = b
      · rw [hd, ht.sd_self, hsd] at hk
        cases hk
      · rw [ht.sd_of_ne hd] at hk
        exact (hno d k hk).elim
    · rw [hcount] at hk
      rw [Encounter.taken, hline] at hyes
      exact absurd ((huntaken hk).symm.trans hyes) (by decide)
    · rw [hcount] at hk
      rw [hline, ht.larger] at hd
      rw [ht.larger, hsmall]
      exact h.shape.small k hk hd
  have hlt {P : Prop} (hk : s.count < t.count) : P := by
    rw [hcount] at hk
    exact absurd hk (Nat.lt_irrefl _)
  refine h.of_turn ht hdialled hshape ?_ (fun e he ↦ ⟨?_, fun hone ↦ ?_⟩) (fun hone ↦ ?_)
    (fun hk ↦ hlt hk) (fun hk ↦ hlt hk) fun _ ↦ ?_
  · rw [Plays, hsd]
    exact hattempt.imp (ht.waits hdialled)
  · refine (h.plays _ e he).carry (ht.waits hdialled) fun k _ ↦ ?_
    rw [Encounter.taken, Encounter.taken, hline]
  · exact ht.marked (h.marked _ e he hone) fun hk ↦ absurd hk (Nat.lt_irrefl _)
  · rw [hrepl] at hone
    cases hone
  · rw [hline]
    exact h.fresh _ (Nat.le_refl _)

/-! ## An accepting end is taken over

Either by acceptance, when nobody is registered, or by `do_replace`, in which the attempt of the
connection comes to its end. -/

/-- The accepting end of a socket changes hands, and has been read and written. -/
theorem receive_transfer (s : Encounter) (k : ℕ) (r : Reception) (rest wrote : List Chunk) :
    (s.receive k r).transfer (some ⟨k, .acc⟩) rest wrote =
      s.putLine k { s.line k with
        reception := r, toAcceptor := rest, toClient := (s.line k).toClient ++ wrote } := by
  simp [receive, transfer, putLine]

theorem transfer_receive (s : Encounter) (k : ℕ) (r : Reception) (rest wrote : List Chunk) :
    (s.transfer (some ⟨k, .acc⟩) rest wrote).receive k r =
      s.putLine k { s.line k with
        reception := r, toAcceptor := rest, toClient := (s.line k).toClient ++ wrote } := by
  simp [receive, transfer, putLine]

theorem Turn.shape_of_take {t : Encounter} {k : ℕ} (ht : Turn s t b c' k) (h : s.Shape)
    (hk : k < s.count) (hcount : t.count = s.count)
    (hd : (s.line k).dialler = !b ∧ (t.line k).dialler = !b)
    (hline : (t.line k).reception = .taken) (hno : ∀ d j, s.sd d ≠ some ⟨j, .acc⟩)
    (hother : s.sd (!b) = some ⟨k, .con⟩) (hsd : c'.sd = some ⟨k, .acc⟩)
    (hb : b = s.larger ∨ s.reg b = none) (hdialled : s.Dialled → t.Dialled) : t.Shape := by
  have htaken : t.taken k = true := by rw [Encounter.taken, hline]
  have hself : t.sd b = some ⟨k, .acc⟩ := ht.sd_self.trans hsd
  have hpeer : t.sd (!b) = some ⟨k, .con⟩ := (ht.sd_of_ne (Bool.not_ne_self b)).trans hother
  -- who has dialled a socket does not change when it is taken over
  have hdialler (j : ℕ) : (t.line j).dialler = (s.line j).dialler := by
    by_cases hj : j = k
    · rw [hj, hd.1, hd.2]
    · rw [ht.line j hj]
  refine ⟨fun d j hj ↦ ?_, fun d j hj ↦ ?_, fun j hj hyes ↦ ?_, fun j hj hj' ↦ ?_,
    fun hdial j hj hj' ↦ ?_⟩
  · by_cases hdb : d = b
    · rw [hdb, hself] at hj
      cases hj
    · rw [Bool.eq_not.mpr hdb] at hj ⊢
      rw [hpeer, Option.some_inj, Fd.mk.injEq] at hj
      obtain ⟨rfl, -⟩ := hj
      rw [hcount, hline]
      exact ⟨hk, hd.2, by simp⟩
  · by_cases hdb : d = b
    · rw [hdb] at hj ⊢
      rw [hself, Option.some_inj, Fd.mk.injEq] at hj
      obtain ⟨rfl, -⟩ := hj
      rw [hcount]
      exact ⟨hk, hd.2, htaken, hpeer⟩
    · rw [ht.sd_of_ne hdb] at hj
      exact (hno d j hj).elim
  · by_cases hjk : j = k
    · rw [hjk, acceptor, hd.2, Bool.not_not]
      exact hself
    · rw [hcount] at hj
      rw [ht.taken_of_ne hjk] at hyes
      exact (hno _ j (h.taken j hj hyes)).elim
  · rw [hcount] at hj
    rw [hdialler, ht.larger] at hj'
    have hcon := h.small j hj hj'
    rw [ht.larger]
    by_cases hsmall : (!s.larger) = b
    · rcases hb with rfl | hnone
      · exact absurd hsmall (Bool.not_ne_self _)
      · rw [hsmall, sd, hnone, Option.bind_none] at hcon
        cases hcon
    · rwa [ht.sd_of_ne hsmall]
  · rw [hcount] at hj
    rw [hdialler, ht.larger] at hj'
    rw [ht.larger]
    by_cases hlarger : s.larger = b
    · refine absurd ?_ hdial
      rw [Dialled, ht.larger, hlarger, hpeer]
      refine ⟨?_, fun j hj ↦ by cases hj⟩
      cases hreg : t.reg (!b) with
      | none =>
        rw [sd, hreg] at hpeer
        cases hpeer
      | some e => rfl
    · rw [ht.sd_of_ne hlarger]
      exact h.large (fun hyes ↦ hdial (hdialled hyes)) j hj hj'

/-- A registered connection gets the accepting end of a socket, and with it the session. -/
theorem Inv.take {k : ℕ} {l : Line} (h : s.Inv) (hk : k < s.count)
    (hd : (s.line k).dialler = !b ∧ l.dialler = !b) (hl : l.reception = .taken)
    (hno : ∀ d j, s.sd d ≠ some ⟨j, .acc⟩) (hother : s.sd (!b) = some ⟨k, .con⟩)
    (hb : b = s.larger ∨ s.reg b = none) (hcallee : c'.Callee) (hsd : c'.sd = some ⟨k, .acc⟩)
    (hconveys : Carries (fun m ↦ m.connectSeq ≤ 1) (fun _ ↦ True) l.toAcceptor ∧
      Carries (fun _ ↦ True) Settling l.toClient) :
    ((s.putLine k l).putReg b c').Inv := by
  have huntaken : s.taken k = false := by
    rw [← Bool.not_eq_true]
    exact fun htaken ↦ hno _ k (h.shape.taken k hk htaken)
  have ht : Turn s ((s.putLine k l).putReg b c') b c' k :=
    ⟨rfl, rfl, ⟨rfl, rfl, rfl⟩, reg_putReg_self .., fun d hd ↦ reg_putReg_of_ne _ hd _,
      ⟨Nat.le_refl _, fun j hj _ ↦ hj⟩, fun j hj ↦ line_putLine_of_ne s hj _⟩
  have hcount : ((s.putLine k l).putReg b c').count = s.count := rfl
  have hline : ((s.putLine k l).putReg b c').line k = l := line_putLine_self s k l
  revert ht hcount hline
  generalize (s.putLine k l).putReg b c' = t
  intro ht hcount hline
  have htaken : t.taken k = true := by rw [Encounter.taken, hline, hl]
  have hdialled : s.Dialled → t.Dialled := ht.dialled (hb.imp_right Or.inl)
  have hshape : t.Shape :=
    ht.shape_of_take h.shape hk hcount ⟨hd.1, hline ▸ hd.2⟩ (hline ▸ hl) hno hother hsd hb hdialled
  -- the other messenger has no larger address, or this one has not dialled
  have hfree (hlarger : (!b) = s.larger) : s.reg b = none := by
    apply hb.resolve_left
    rintro rfl
    exact Bool.not_ne_self _ hlarger
  have hwaits : ¬ s.Waits (!b) := by
    rintro ⟨hlarger, hknown, -⟩
    rw [← hlarger, Bool.not_not, hfree hlarger] at hknown
    cases hknown
  have hunmarked {e : Conn Chunk} : ¬ s.Marked (!b) e := by
    intro hm
    obtain ⟨j, hj, -, hdialler, -⟩ := hm.sd
    have hcon := h.shape.small j hj hdialler
    rw [← hm.larger, Bool.not_not, sd, hfree hm.larger] at hcon
    cases hcon
  refine h.of_turn ht hdialled hshape ?_ (fun e he ↦ ⟨?_, fun hone ↦ ?_⟩) (fun hone ↦ ?_) (fun _ ↦ ?_)
    (fun _ a ha ↦ ?_) fun hle ↦ ?_
  · rw [Plays, hsd]
    exact hcallee
  · have hcon : e.sd = some ⟨k, .con⟩ := (sd_of_reg he).symm.trans hother
    have hattempt := (h.plays _ e he).attempt hcon huntaken
    have hrepl : e.replacing = 0 := by
      by_contra hne
      have hclaimed := hattempt.claimed
      exact hunmarked (h.marked _ e he (by omega))
    rw [Plays, hcon]
    dsimp only
    rw [if_pos htaken]
    refine (hattempt.imp hwaits).caller ?_ hrepl
    rw [hcon]
    exact Option.some_ne_none _
  · exact (hunmarked (h.marked _ e he hone)).elim
  · exact absurd hone hcallee.claimed
  · rw [hline, htaken]
    exact ⟨fun hno ↦ absurd hno (by decide), fun _ ↦ hconveys⟩
  · rw [hline, hl] at ha
    cases ha
  · rw [hcount] at hle
    exact absurd hk (Nat.not_lt.mpr hle)

/-- **`do_replace`**: the attempt of the messenger with the larger address ends, and its connection
takes over the socket of the other attempt. -/
theorem Inv.doReplace {r : ReplaceInput} (h : s.Inv) (hsd : s.sd b = c.sd)
    (hattempt : c.Attempt (s.Waits b)) (hm : s.Marked b c)
    (hs' : s.doReplace b c r = some s') : s'.Inv := by
  obtain ⟨k, hk, hreplacing, hd, hhanded⟩ := hm.sd
  have hother : s.sd (!b) = some ⟨k, .con⟩ := by
    rw [hm.larger]
    exact h.shape.small k hk hd
  have hno (d : Bool) (j : ℕ) : s.sd d ≠ some ⟨j, .acc⟩ := by
    intro hacc
    obtain ⟨-, -, htaken, hcon⟩ := h.shape.acc d j hacc
    by_cases hdb : d = b
    · rw [hdb, hother, Option.some_inj, Fd.mk.injEq] at hcon
      rw [← hcon.1, Encounter.taken, hhanded] at htaken
      cases htaken
    · rw [Bool.eq_not.mpr hdb, hother] at hacc
      cases hacc
  have hhang : s.hangUp c.sd = s := by
    rw [hangUp.eq_def]
    split <;> rename_i hfd
    · exact (hno b _ (hsd.trans hfd)).elim
    · rfl
  have hholds : s.peerGone (some ⟨k, .acc⟩) = false := by
    rw [peerGone, holds, hd, ← hm.larger, hother, Bool.not_eq_false']
    exact beq_self_eq_true _
  rw [Encounter.doReplace, hreplacing] at hs'
  dsimp only at hs'
  rw [hm.resetSession, forget, if_neg Bool.false_ne_true, hhang, hholds] at hs'
  split at hs' <;> rename_i hleft
  · rw [if_neg Bool.false_ne_true] at hs'
    cases hs'
  · rw [Option.some_inj, receive_transfer] at hs'
    subst hs'
    obtain ⟨hcallee, hnew, hwrote⟩ := hattempt.callee_of_doReplace hm.connect (r := r) (by
      rw [hleft]
      exact Option.some_ne_none _)
    have huntaken : s.taken k = false := by rw [Encounter.taken, hhanded]
    obtain ⟨hup, hdown⟩ := (h.conveys k hk).quiet huntaken
    have hwaits : ¬ s.Waits (s.line k).dialler := by
      rw [hd]
      exact fun hw ↦ Bool.not_ne_self _ hw.1
    rw [← hm.larger] at hd
    refine h.take hk ⟨hd, hd⟩ rfl hno hother (Or.inl hm.larger) hcallee (hnew.trans hreplacing) ⟨?_, ?_⟩
    · exact hup.imp (fun m hzero ↦ hzero.trans_le (Nat.zero_le 1)) fun _ hr ↦ hr
    · exact Carries.append_iff.mpr
        ⟨hdown.imp (fun _ hm ↦ hm) fun _ hr ↦ hr.settling hwaits, hwrote⟩

/-- `STATE_WAIT` fails: the connection takes over the socket it has been handed, or gives its
attempt up. -/
theorem Inv.fail {r : ReplaceInput} (h : s.Inv) (hs' : s.fail b c' r = some s')
    (hc : s.reg b = some c) (hs : c.state = .wait) (hview : c'.attemptView = c.attemptView)
    (hcharge : c'.charge = c.charge) (hstate : c'.state = .connectingSendConnectMsg)
    (hout : c'.outcomingBl = c.outcomingBl) : s'.Inv := by
  have hsd : c'.sd = c.sd := congrArg Prod.fst hview
  rcases h.role_cases hc with ⟨hattempt, hfree⟩ | ⟨k, hcaller, -⟩ | ⟨k, hcallee, -⟩
  · have hphase : c.phase = .wait := Conn.phase_of_state hs (by decide)
    have hw : s.Waits b := by
      have hplace := hattempt.place
      rw [hphase] at hplace
      exact (hplace.resolve_left (by decide)).1
    have hnext : c'.Attempt (s.Waits b) :=
      hattempt.reach hview (Conn.phase_of_state hstate (by decide)) (Or.inl (by decide))
        (fun hp ↦ absurd hp (by decide)) (hout ▸ hattempt.output)
    rw [Encounter.fail] at hs'
    by_cases hone : c'.replacing = 1
    · rw [if_pos hone] at hs'
      exact h.doReplace ((sd_of_reg hc).trans hsd.symm) hnext (h.marked_of_charge hc hcharge hone) hs'
    · rw [if_neg hone, Option.some_inj] at hs'
      obtain ⟨hfault, hnone, hrepl⟩ := hnext.fault hw hstate
      have hhang : s.hangUp c'.sd = s := by
        rcases hfree with hfree | ⟨k, hk, -⟩
        · rw [hsd, hfree]
          rfl
        · rw [hsd, hk]
          rfl
      rw [← hs', hhang]
      exact h.fault hc hw hfree hfault hnone hrepl
  · exact (hcaller.not_state hs (by decide)).elim
  · exact (hcallee.not_state hs (by decide)).elim

/-- A pass in `STATE_WAIT`. -/
theorem Inv.failed_pass {i : Input Chunk} {r : ReplaceInput} (h : s.Inv) (hc : s.reg b = some c)
    (hs : c.state = .wait) (hflow : (c.pass K flags Frame.chunks i).flow = .fail)
    (hs' : s.fail b (c.pass K flags Frame.chunks i).conn r = some s') : s'.Inv := by
  rcases Conn.pass_cases K flags Frame.chunks c i with ⟨hopen, -⟩ | heq | ⟨-, heq⟩ | ⟨o, -, -, hne, -⟩
  · rw [hs] at hopen
    exact absurd hopen (by decide)
  · rw [heq] at hflow
    cases hflow
  · rw [heq] at hs'
    exact h.fail hs' hc hs rfl rfl rfl rfl
  · exact absurd hs hne

/-- A pass that goes on. -/
theorem Inv.passed {arrival : Arrival} {i : Input Chunk} (h : s.Inv) (hc : s.reg b = some c)
    (hread : i.read = (c.fetch (s.arrived c.sd) arrival).1) (hexisting : i.existing = none)
    (hnew : ∀ fd, i.newSd = some fd → fd = ⟨s.count, .con⟩)
    (hfail : (c.pass K flags Frame.chunks i).flow ≠ .fail)
    (habort : (c.pass K flags Frame.chunks i).flow ≠ .abort) :
    (if c.state = .connecting then (s.dial b).putReg b (c.pass K flags Frame.chunks i).conn
      else (s.transfer c.sd (c.fetch (s.arrived c.sd) arrival).2
        (c.pass K flags Frame.chunks i).wrote).putReg b (c.pass K flags Frame.chunks i).conn).Inv := by
  by_cases hs : c.state = .connecting
  · rw [if_pos hs]
    have hphase : c.phase = .connecting := Conn.phase_of_state hs (by decide)
    rcases h.role_cases hc with ⟨hattempt, -⟩ | ⟨k, hcaller, -⟩ | ⟨k, hcallee, -⟩
    · have hfree : c.sd = none := by
        by_contra hne
        exact (hattempt.idle hne).1 hphase
      obtain ⟨fd, hfd, hnext, hsd, hcharge⟩ := hattempt.kept_of_dial hs hfail
      exact h.dial hc hfree hnext (hsd.trans (congrArg some (hnew fd hfd))) hcharge
    · exact (hcaller.not_state hs (by decide)).elim
    · exact (hcallee.not_state hs (by decide)).elim
  · rw [if_neg hs]
    exact h.moves hc (fun _ _ hall ↦ (hall.fetch c arrival).2)
      (h.keeps_pass hc hs hread hexisting hfail habort)

/-- **One pass of a registered connection.** -/
theorem inv_pass {arrival : Arrival} {inp : Input Chunk} (h : s.Inv) (hc : s.reg b = some c)
    (hs' : s.pass K flags b c arrival inp = some s') : s'.Inv := by
  rw [Encounter.pass] at hs'
  dsimp only at hs'
  rw [(h.plays b c hc).hearsReset_eq_false, forget, if_neg Bool.false_ne_true] at hs'
  generalize hi : ({ inp with
    read := (c.fetch (s.arrived c.sd) arrival).1
    newSd := inp.newSd.map fun _ ↦ ⟨s.count, .con⟩
    existing := none
    newPolicy := s.policy b
    gseq := s.gseq b } : Input Chunk) = i at hs'
  have hread : i.read = (c.fetch (s.arrived c.sd) arrival).1 := by rw [← hi]
  have hexisting : i.existing = none := by rw [← hi]
  have hnew : ∀ fd, i.newSd = some fd → fd = ⟨s.count, .con⟩ := by
    intro fd hfd
    rw [← hi, Option.map_eq_some_iff] at hfd
    obtain ⟨-, -, rfl⟩ := hfd
    rfl
  clear hi
  generalize Function.update s.gseq b _ = g at hs'
  have hinv : ({ s with gseq := g } : Encounter).Inv := h.withGseq g
  split at hs' <;> rename_i hflow
  · cases hs'
  · cases hs'
  · rw [hinv.peerGone_eq_false hc] at hs'
    by_cases hwait : c.state = .wait
    · rw [if_pos (Or.inl hwait)] at hs'
      exact hinv.failed_pass hc hwait hflow hs'
    · rw [if_neg (by simp [hwait])] at hs'
      cases hs'
  · rename_i habort hclose
    have hpassed := hinv.passed hc hread hexisting hnew hflow habort
    split_ifs at hs' hpassed <;> rw [Option.some_inj] at hs' <;> exact hs' ▸ hpassed

end Encounter

end AsyncMessenger
