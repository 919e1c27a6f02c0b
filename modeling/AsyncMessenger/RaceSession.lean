import AsyncMessenger.RaceReset

/-!
# The session after a race

However the attempts of the two messengers cross, a race ends in one session: as soon as the
connection of one messenger is open, the connection of the other one has the other end of the same
socket. It is the socket that the messenger with the smaller address has dialled, if it has dialled
at all.

Both follow from the invariant of the race. The end that accepts a socket is registered before the
dialler can read READY, so an open connection has someone at its other end (`Inv.joined`); and the
messenger with the smaller address never gives up a socket that it has dialled (`shape.small`).
-/

namespace AsyncMessenger

namespace Encounter

variable {s s' : Encounter} {K : Codec} {flags : CrcFlags} {b : Bool} {c : Conn Chunk}

/-- The two registered connections have the two ends of socket `k`. -/
def Joined (s : Encounter) (b : Bool) (k : ℕ) : Prop :=
  s.sd b = some ⟨k, .con⟩ ∧ s.sd (!b) = some ⟨k, .acc⟩ ∨
    s.sd b = some ⟨k, .acc⟩ ∧ s.sd (!b) = some ⟨k, .con⟩

theorem Joined.sock_eq {k j : ℕ} (h : s.Joined b k) {d : Bool} {side : End}
    (hd : s.sd d = some ⟨j, side⟩) : j = k := by
  have hone {fd fd' : Fd} (h : s.sd d = some fd) (h' : s.sd d = some fd') : fd = fd' :=
    Option.some_inj.mp (h.symm.trans h')
  by_cases hdb : d = b
  · subst hdb
    rcases h with ⟨hself, -⟩ | ⟨hself, -⟩ <;> exact congrArg Fd.sock (hone hd hself)
  · rw [Bool.eq_not.mpr hdb] at hd hone
    rcases h with ⟨-, hother⟩ | ⟨-, hother⟩ <;> exact congrArg Fd.sock (hone hd hother)

/-- An open connection and its peer have the two ends of a socket. -/
theorem Inv.joined (h : s.Inv) (hc : s.reg b = some c) (hopen : c.state.isOpen = true) :
    ∃ k < s.count, s.Joined b k := by
  rcases h.role_cases hc with ⟨hattempt, -⟩ | ⟨k, -, hk, htaken⟩ | ⟨k, -, hk, -⟩
  · rw [hattempt.not_isOpen] at hopen
    exact absurd hopen (by decide)
  · have hself : s.sd b = some ⟨k, .con⟩ := (sd_of_reg hc).trans hk
    obtain ⟨hlt, hd, -⟩ := h.shape.con b k hself
    have hacc := h.shape.taken k hlt htaken
    rw [acceptor, hd] at hacc
    exact ⟨k, hlt, Or.inl ⟨hself, hacc⟩⟩
  · have hself : s.sd b = some ⟨k, .acc⟩ := (sd_of_reg hc).trans hk
    obtain ⟨hlt, -, -, hcon⟩ := h.shape.acc b k hself
    exact ⟨k, hlt, Or.inr ⟨hself, hcon⟩⟩

/-- **A race ends in one session**: once a connection is open, the other messenger's connection has
the other end of its socket, and any socket dialled by the messenger with the smaller address is
that one. -/
theorem race_one_session {es : List Act} (hstarts : s.Starts)
    (hord : Run.Meets (step K flags) Orderly s es) (hrun : Run.exec (step K flags) s es = some s')
    (hc : s'.reg b = some c) (hopen : c.state.isOpen = true) :
    ∃ k < s'.count, s'.Joined b k ∧ ∀ j < s'.count, (s'.line j).dialler = !s'.larger → j = k := by
  have hinv : s'.Inv :=
    Run.invariant_of_meets (fun _ _ _ ↦ inv_step) (inv_of_starts hstarts) hord hrun
  obtain ⟨k, hk, hjoined⟩ := hinv.joined hc hopen
  exact ⟨k, hk, hjoined, fun j hj hd ↦ hjoined.sock_eq (hinv.shape.small j hj hd)⟩

/-- The attempt on socket 1 becomes a session. -/
def openRun : List Act :=
  fairRun ++ [.pass false .nothing { kernel := some 1 }, .pass true .next {}, .pass true .nothing {},
    .pass true .nothing {}, .pass true .nothing { kernel := some 2 }, .pass false .next {},
    .pass false .nothing {}, .pass false .next { kernel := some 1 }, .pass false .nothing {},
    .pass true .next {}, .pass true .nothing {}]

theorem race_one_session_of_wait :
    ∃ s' c, Run.exec (step Codec.trivial ⟨true, true⟩) (peers (Policy.losslessPeerReuse 0 0)) openRun =
        some s' ∧
      s'.reg true = some c ∧ c.state.isOpen = true ∧
      ∃ k < s'.count, s'.Joined true k ∧ ∀ j < s'.count, (s'.line j).dialler = !s'.larger → j = k := by
  have hopen : (Run.exec (step Codec.trivial ⟨true, true⟩) (peers (Policy.losslessPeerReuse 0 0))
      openRun).any (fun s ↦ (s.reg true).any fun c ↦ c.state.isOpen) = true := by
    decide +kernel
  obtain ⟨s', hrun, hs⟩ := (Option.any_eq_true _ _).mp hopen
  obtain ⟨c, hc, hopen⟩ := (Option.any_eq_true _ _).mp hs
  refine ⟨s', c, hrun, hc, hopen, race_one_session (starts_peers ⟨rfl, rfl⟩) ?_ hrun hc hopen⟩
  exact Run.Meets.of_check (fun _ _ ↦ orderly_of_test) (by decide +kernel)

end Encounter

end AsyncMessenger
