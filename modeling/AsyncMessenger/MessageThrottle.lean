import AsyncMessenger.ByteThrottle

/-!
# The message throttle

Every connection of a messenger whose policies set `throttler_messages`, the messages it has received
and the throttle they share. One unit is taken before a message is read. The message object takes it
over, and its destructor gives it back; a connection that faults, stops or is replaced while it reads
gives it back itself, with the state it was in as its only guide. Unlike the size of a message, the unit
is not forgotten on the way to the dispatcher.

Because of this the count is right in every run, without a condition on the dispatcher. The tally
has the connections, the throttle and the messages alive. The unit of a message that is being read
is counted by the state of its connection, and at `STATE_OPEN_MESSAGE_DISPATCH` it changes hands.
-/

namespace AsyncMessenger

variable {β : Type} {enc : Frame → List β} {K : Codec} {flags : CrcFlags}

namespace Conn

/-- One for a connection past `STATE_OPEN_MESSAGE_THROTTLE_MESSAGE`, up to
`STATE_OPEN_MESSAGE_DISPATCH`. -/
def readUnit (c : Conn β) : ℕ := if c.state.reading then 1 else 0

/-- The policy has a message throttle, or no session can open before it is replaced by one that has. -/
abbrev Counted (c : Conn β) : Prop := c.Sets fun t ↦ t.1 = true

theorem throttlerMessages_of_reading {c : Conn β} (h : c.Counted) (hs : c.state.reading = true) :
    c.policy.throttlerMessages = true := by
  refine h.resolve_right fun hfresh ↦ ?_
  have hmem := hfresh.state
  revert hmem hs
  cases c.state <;> decide

/-- What `release_throttle` would give back is what the connection has taken. -/
theorem releaseThrottle_eq_readUnit {c : Conn β} (h : c.Counted) : c.releaseThrottle.1 = c.readUnit := by
  rw [readUnit]
  by_cases hs : c.state.reading = true
  · have hset := throttlerMessages_of_reading h hs
    rw [if_pos hs]
    simp only [State.reading, Bool.and_eq_true, decide_eq_true_eq] at hs
    simp only [releaseThrottle, hs.1, hs.2, hset, true_and, if_true]
  · rw [releaseThrottle_of_not_reading (by simpa using hs), if_neg hs]

end Conn

/-- A received message object that is still alive. -/
structure Counter where
  /-- Its `msg_throttler` is set. -/
  throttled : Bool
  /-- It waits in the dispatch queue. -/
  queued : Bool
  deriving DecidableEq, Repr

/-- The connections of a messenger, its message throttle and the messages it has received. -/
structure Tally (β : Type) where
  nodes : List (Node β) := []
  throttle : Throttle
  alive : List Counter := []
  /-- An assertion of `Throttle::put` has failed. -/
  aborted : Bool := false

/-- What happens to a messenger. -/
inductive TallyEvent (β : Type)
  | connect (policy : Policy)
  | accept (fd : Fd)
  /-- A step of one connection; `fast` says that a message it delivers goes to `fast_dispatch`. -/
  | node (i : ℕ) (e : Event β) (fast : Bool)
  /-- The dispatch thread takes a message from its queue. -/
  | dispatch (j : ℕ)
  /-- The last reference to a message goes away, queued or not. -/
  | destroy (j : ℕ)
  /-- The throttle gets another maximum. -/
  | resetMax (max : ℕ)

namespace Tally

open Node

/-- `Throttle::put`, and whether its assertion has failed. -/
def put (t : Throttle) (c : ℕ) : Throttle × Bool :=
  match t.put c with
  | some t' => (t', false)
  | none => (t, true)

/-- The message throttle in `Message::~Message`. -/
def destructor (t : Throttle) (r : Counter) : Throttle × Bool :=
  if r.throttled then put t 1 else (t, false)

/-- What a step of a connection does to the throttle and to the messages; `none` while it waits for the
throttle. -/
def settle (L : Tally β) (c : Conn β) (fast : Bool) : Effect β → Option (Tally β)
  | .throttleMessage => (L.throttle.get 1).map fun t ↦ { L with throttle := t }
  | .discard _ =>
    let x := destructor L.throttle { throttled := c.policy.throttlerMessages, queued := false }
    some { L with throttle := x.1, aborted := L.aborted || x.2 }
  | .deliver _ =>
    some { L with alive := { throttled := c.policy.throttlerMessages, queued := !fast } :: L.alive }
  | _ => some L

/-- What a step of a connection gives back itself. -/
def release (L : Tally β) (n : ℕ) : Tally β :=
  if n = 0 then L
  else
    let x := put L.throttle n
    { L with throttle := x.1, aborted := L.aborted || x.2 }

/-- One step of the messenger. -/
def step (enc : Frame → List β) (K : Codec) (flags : CrcFlags) (L : Tally β) :
    TallyEvent β → Option (Tally β)
  | .connect policy => some { L with nodes := outgoing policy :: L.nodes }
  | .accept fd => some { L with nodes := accepted fd :: L.nodes }
  | .node i e fast =>
    L.nodes[i]?.bind fun n ↦
      (n.step enc K flags e).bind fun res ↦
        (settle L n.conn fast res.effect).map fun M ↦
          { M.release res.released.1 with nodes := L.nodes.set i res.node }
  | .dispatch j =>
    L.alive[j]?.bind fun r ↦
      if r.queued then some { L with alive := L.alive.set j { r with queued := false } } else none
  | .destroy j =>
    L.alive[j]?.map fun r ↦
      let x := destructor L.throttle r
      { L with throttle := x.1, alive := L.alive.eraseIdx j, aborted := L.aborted || x.2 }
  | .resetMax max => some { L with throttle := { L.throttle with max } }

/-- The connections that hold a unit for the message they read. -/
def pending (L : Tally β) : ℕ := (L.nodes.map fun n ↦ n.conn.readUnit).sum

/-- Every policy of the messenger sets `throttler_messages`, and the maximum stays positive. -/
def Admissible (_ : Tally β) : TallyEvent β → Prop
  | .connect policy => policy.throttlerMessages = true
  | .node _ e _ => ∀ inp, e = .pass inp → inp.newPolicy.throttlerMessages = true
  | .resetMax max => 0 < max
  | _ => True

/-- A messenger without connections, whose message throttle has a positive maximum. -/
def Initial (L : Tally β) : Prop :=
  L.nodes = [] ∧ L.alive = [] ∧ L.throttle.count = 0 ∧ 0 < L.throttle.max ∧ L.aborted = false

/-! ## The books -/

/-- The books of a messenger, with so many units at the connections. -/
structure Books (held : ℕ) (L : Tally β) : Prop where
  max : 0 < L.throttle.max
  alive : ∀ r ∈ L.alive, r.throttled = true
  aborted : L.aborted = false
  count : L.throttle.count = L.alive.length + held

theorem put_spec {t : Throttle} {n : ℕ} (hmax : 0 < t.max) (hle : n ≤ t.count) :
    put t n = ({ t with count := t.count - n }, false) := by
  rw [put, Throttle.put, if_neg (by omega), if_neg (by omega)]

/-- `release_throttle` and a destructor: a unit that is held is given back. -/
theorem Books.give {L : Tally β} {held n : ℕ} (h : L.Books (held + n)) :
    Books held { L with throttle := (put L.throttle n).1, aborted := L.aborted || (put L.throttle n).2 } := by
  have hcount := h.count
  rw [put_spec h.max (by omega)]
  refine ⟨h.max, h.alive, by rw [h.aborted]; rfl, ?_⟩
  dsimp only
  omega

theorem Books.release {L : Tally β} {held n : ℕ} (h : L.Books (held + n)) : (L.release n).Books held := by
  rw [Tally.release]
  split_ifs with hzero
  · rwa [hzero, Nat.add_zero] at h
  · exact h.give

/-- The unit of a message that has been read passes from the connection to the message. -/
theorem unit_of_message {c : Conn β} {effect : Effect β} {m : Message} (hcounted : c.Counted)
    (hcompletes : c.Completes effect) (hm : effect = .deliver m ∨ effect = .discard m) :
    c.policy.throttlerMessages = true ∧ c.readUnit = 1 ∧ (c.handed effect).1 = 1 ∧
      effect.taken.1 = 0 := by
  have hreading : c.state.reading = true := by
    rw [(hcompletes m hm).1]
    rfl
  have hone : c.readUnit = 1 := if_pos hreading
  have hrelease := (Conn.releaseThrottle_eq_readUnit hcounted).trans hone
  refine ⟨Conn.throttlerMessages_of_reading hcounted hreading, hone, ?_, ?_⟩
  · rcases hm with rfl | rfl <;> exact hrelease
  · rcases hm with rfl | rfl <;> rfl

/-- The effect of a step, in the books: what the message object takes over or the throttle hands out. -/
theorem Books.settle {L M : Tally β} {c : Conn β} {effect : Effect β} {fast : Bool} {others : ℕ}
    (h : L.Books (others + c.readUnit)) (hcounted : c.Counted) (hcompletes : c.Completes effect)
    (hsettle : settle L c fast effect = some M) :
    M.nodes = L.nodes ∧ ∃ now, M.Books (others + now) ∧
      now + (c.handed effect).1 = c.readUnit + effect.taken.1 := by
  -- an effect that moves no unit
  have hsame (heq : some L = some M) (htaken : effect.taken.1 = 0) (hhanded : (c.handed effect).1 = 0) :
      M.nodes = L.nodes ∧ ∃ now, M.Books (others + now) ∧
        now + (c.handed effect).1 = c.readUnit + effect.taken.1 := by
    rw [← Option.some_inj.mp heq]
    exact ⟨rfl, c.readUnit, h, by omega⟩
  cases effect with
  | throttleMessage =>
    rw [Tally.settle, Option.map_eq_some_iff] at hsettle
    obtain ⟨t, hget, rfl⟩ := hsettle
    have hcount := h.count
    rw [Throttle.get_eq_some h.max hget]
    refine ⟨rfl, c.readUnit + 1, ⟨h.max, h.alive, h.aborted, ?_⟩, rfl⟩
    dsimp only
    omega
  | discard m =>
    obtain ⟨hset, hone, hhanded, htaken⟩ := unit_of_message hcounted hcompletes (Or.inr rfl)
    rw [Tally.settle, Option.some_inj] at hsettle
    subst hsettle
    refine ⟨rfl, 0, ?_, by omega⟩
    rw [hone] at h
    simp only [destructor, hset, if_true]
    exact h.give
  | deliver m =>
    obtain ⟨hset, hone, hhanded, htaken⟩ := unit_of_message hcounted hcompletes (Or.inl rfl)
    rw [Tally.settle, Option.some_inj] at hsettle
    subst hsettle
    refine ⟨rfl, 0, ⟨h.max, fun r hr ↦ ?_, h.aborted, ?_⟩, by omega⟩
    · rcases List.mem_cons.mp hr with rfl | hr
      · exact hset
      · exact h.alive r hr
    · have hcount := h.count
      rw [List.length_cons]
      dsimp only
      omega
  | none => exact hsame hsettle rfl rfl
  | register => exact hsame hsettle rfl rfl
  | replace existing => exact hsame hsettle rfl rfl
  | keepalive => exact hsame hsettle rfl rfl
  | throttleBytes n => exact hsame hsettle rfl rfl

/-- The invariant of the messenger. -/
structure Balanced (L : Tally β) : Prop where
  nodes : ∀ n ∈ L.nodes, n.conn.Later ∧ n.conn.Counted
  books : L.Books L.pending

/-- The invariants of a connection survive a step. -/
theorem node_counted {e : Event β} {n : Node β} {res : Result β}
    (hadm : ∀ inp, e = .pass inp → inp.newPolicy.throttlerMessages = true)
    (h : n.conn.Later ∧ n.conn.Counted) (hstep : n.step enc K flags e = some res) :
    res.node.conn.Later ∧ res.node.conn.Counted := by
  have hnext : n.next enc K flags e = some res.node := by
    rw [next, hstep]
    rfl
  refine ⟨later_next h.1 hnext, next_core Conn.sets_rule h.2 (fun inp _ hpass _ ↦ ?_) hnext⟩
  exact Conn.sets_pass h.1 h.2 (hadm inp hpass)

/-- A new connection is not reading a message. -/
theorem Balanced.add {L : Tally β} {n : Node β} (h : L.Balanced) (hn : n.conn.Later ∧ n.conn.Counted)
    (hnone : n.conn.readUnit = 0) : Balanced { L with nodes := n :: L.nodes } := by
  constructor
  · intro n' hn'
    rcases List.mem_cons.mp hn' with rfl | hn'
    · exact hn
    · exact h.nodes n' hn'
  · rw [pending, List.map_cons, List.sum_cons, hnone, Nat.zero_add]
    exact ⟨h.books.max, h.books.alive, h.books.aborted, h.books.count⟩

theorem Balanced.node {L L' : Tally β} {i : ℕ} {e : Event β} {fast : Bool} (h : L.Balanced)
    (hadm : L.Admissible (.node i e fast)) (hstep : L.step enc K flags (.node i e fast) = some L') :
    L'.Balanced := by
  rw [Tally.step, Option.bind_eq_some_iff] at hstep
  obtain ⟨n, hn, hstep⟩ := hstep
  rw [Option.bind_eq_some_iff] at hstep
  obtain ⟨res, hres, hstep⟩ := hstep
  rw [Option.map_eq_some_iff] at hstep
  obtain ⟨M, hsettle, rfl⟩ := hstep
  have hinv := h.nodes n (List.mem_of_getElem? hn)
  have hinv' := node_counted hadm hinv hres
  have hacc := accounts_step hinv.1 hres
  -- the units of the other connections
  have hset := sum_map_set hn (fun n ↦ n.conn.readUnit) res.node
  obtain ⟨others, hothers⟩ : ∃ others, L.pending = others + n.conn.readUnit :=
    ⟨_, (sum_map_eraseIdx hn fun n ↦ n.conn.readUnit).symm⟩
  obtain ⟨hnodes, now, hbooks, hnow⟩ := Books.settle (hothers ▸ h.books) hinv.2 hacc.completes hsettle
  have hsum : res.node.conn.readUnit + res.released.1 + (n.conn.handed res.effect).1 =
      n.conn.readUnit + res.effect.taken.1 := by
    rw [← Conn.releaseThrottle_eq_readUnit hinv.2, ← Conn.releaseThrottle_eq_readUnit hinv'.2]
    exact congrArg Prod.fst hacc.sum
  have hpending : ((L.nodes.set i res.node).map fun n ↦ n.conn.readUnit).sum =
      others + res.node.conn.readUnit := by
    rw [pending] at hothers
    omega
  have hrest : now = res.node.conn.readUnit + res.released.1 := by omega
  rw [hrest, ← Nat.add_assoc] at hbooks
  have hbooks' := hbooks.release
  constructor
  · intro n' hn'
    rcases List.mem_or_eq_of_mem_set hn' with hmem | rfl
    · exact h.nodes n' hmem
    · exact hinv'
  · rw [pending, hpending]
    exact ⟨hbooks'.max, hbooks'.alive, hbooks'.aborted, hbooks'.count⟩

/-- A message that is destroyed gives its unit back. -/
theorem Balanced.destroy {L L' : Tally β} {j : ℕ} (h : L.Balanced)
    (hstep : L.step enc K flags (.destroy j) = some L') : L'.Balanced := by
  rw [Tally.step, Option.map_eq_some_iff] at hstep
  obtain ⟨r, hr, rfl⟩ := hstep
  have hset := h.books.alive r (List.mem_of_getElem? hr)
  obtain ⟨hj, -⟩ := List.getElem?_eq_some_iff.mp hr
  have hbooks : Books (L.pending + 1) { L with alive := L.alive.eraseIdx j } := by
    refine ⟨h.books.max, fun r' hr' ↦ h.books.alive r' (List.mem_of_mem_eraseIdx hr'),
      h.books.aborted, ?_⟩
    have hcount := h.books.count
    rw [List.length_eraseIdx_of_lt hj]
    dsimp only
    omega
  refine ⟨h.nodes, ?_⟩
  simp only [destructor, hset, if_true]
  exact hbooks.give

theorem Balanced.step {L L' : Tally β} {e : TallyEvent β} (h : L.Balanced) (hadm : L.Admissible e)
    (hstep : L.step enc K flags e = some L') : L'.Balanced := by
  cases e with
  | connect policy =>
    rw [Tally.step, Option.some_inj] at hstep
    subst hstep
    exact h.add ⟨later_outgoing _, Or.inl hadm⟩ rfl
  | accept fd =>
    rw [Tally.step, Option.some_inj] at hstep
    subst hstep
    exact h.add ⟨later_accepted _, Or.inr ⟨rfl, rfl, Or.inl rfl, by simp [accepted]⟩⟩ rfl
  | node i e fast => exact h.node hadm hstep
  | dispatch j =>
    rw [Tally.step, Option.bind_eq_some_iff] at hstep
    obtain ⟨r, hr, hstep⟩ := hstep
    rw [Option.ite_none_right_eq_some, Option.some_inj] at hstep
    obtain ⟨-, rfl⟩ := hstep
    refine ⟨h.nodes, h.books.max, fun r' hr' ↦ ?_, h.books.aborted, ?_⟩
    · rcases List.mem_or_eq_of_mem_set hr' with hmem | rfl
      · exact h.books.alive r' hmem
      · exact h.books.alive r (List.mem_of_getElem? hr)
    · rw [List.length_set]
      exact h.books.count
  | destroy j => exact h.destroy hstep
  | resetMax max =>
    rw [Tally.step, Option.some_inj] at hstep
    subst hstep
    exact ⟨h.nodes, hadm, h.books.alive, h.books.aborted, h.books.count⟩

/-- **Message-throttle conservation.** In every state that a run of a messenger whose policies set
`throttler_messages` reaches, the count is the number of received messages alive plus the number of
connections that are reading one, and no assertion of `Throttle::put` has failed. -/
theorem message_throttle_conserved {L L' : Tally β} {es : List (TallyEvent β)} (hinit : L.Initial)
    (hadm : Run.Meets (step enc K flags) Admissible L es)
    (hrun : Run.exec (step enc K flags) L es = some L') :
    L'.throttle.count = L'.alive.length + L'.pending ∧ L'.aborted = false := by
  obtain ⟨hnodes, halive, hcount, hmax, haborted⟩ := hinit
  have hstart : L.Balanced := by
    refine ⟨fun n hn ↦ ?_, hmax, fun r hr ↦ ?_, haborted, ?_⟩
    · rw [hnodes] at hn
      exact absurd hn List.not_mem_nil
    · rw [halive] at hr
      exact absurd hr List.not_mem_nil
    · rw [hcount, pending, hnodes, halive]
      rfl
  have hend := Run.invariant_of_meets (fun _ _ _ ↦ Balanced.step) hstart hadm hrun
  exact ⟨hend.books.count, hend.books.aborted⟩

/-- A peer connects, a message of it arrives and is queued, and a second one is being read. -/
def oneAndAHalf : List (TallyEvent Frame) :=
  let policy : Policy := { Policy.statefulServer 0 0 with throttlerMessages := true }
  let pass (inp : Input Frame) : TallyEvent Frame := .node 0 (.pass { inp with newPolicy := policy }) false
  let read (chunk : Chunk) : TallyEvent Frame := pass { read := .done chunk }
  [.accept ⟨0, .acc⟩, .node 0 (.process true) false, pass { kernel := some 2 },
    read (.bannerAddr AsyncMessenger.banner), read (.connect {}), pass {}, pass {},
    pass { kernel := some 1 }, pass {}, read (.tag 7), read (.header { seq := 1 }), pass {}, pass {}, pass {}, pass {}, pass {},
    pass {}, read (.footer { flags := MsgFooter.complete }), pass {}, pass {}, read (.tag 7),
    read (.header { seq := 2 }), pass {}]

/-- One unit for the message in the queue, one for the message being read. -/
theorem message_throttle_conserved_two :
    ∃ L, Run.exec (step (fun f ↦ [f]) Codec.trivial ⟨true, true⟩) { throttle := { max := 2 } }
        oneAndAHalf = some L ∧
      L.throttle.count = L.alive.length + L.pending ∧ L.aborted = false ∧
      L.alive.length = 1 ∧ L.pending = 1 := by
  have hend : (Run.exec (step (fun f ↦ [f]) Codec.trivial ⟨true, true⟩) { throttle := { max := 2 } }
      oneAndAHalf).map (fun L ↦ (L.alive.length, L.pending)) = some (1, 1) := by
    decide +kernel
  obtain ⟨L, hL, hvalues⟩ := Option.map_eq_some_iff.mp hend
  rw [Prod.mk.injEq] at hvalues
  have hadm : Run.Meets (step (fun f ↦ [f]) Codec.trivial ⟨true, true⟩) Admissible
      { throttle := { max := 2 } } oneAndAHalf := by
    have hpass {inp : Input Frame} (hset : inp.newPolicy.throttlerMessages = true) (M : Tally Frame) :
        M.Admissible (.node 0 (.pass inp) false) := by
      intro inp' heq
      rw [Event.pass.injEq] at heq
      exact heq ▸ hset
    refine Run.Meets.of_forall (fun e he M ↦ ?_) _
    simp only [oneAndAHalf, List.mem_cons, List.not_mem_nil, or_false] at he
    rcases he with rfl | rfl | he
    · trivial
    · exact fun inp heq ↦ absurd heq (by simp)
    · rcases he with rfl | rfl | rfl | rfl | rfl | rfl | rfl | rfl | rfl | rfl | rfl | rfl | rfl | rfl | rfl |
        rfl | rfl | rfl | rfl | rfl | rfl <;> exact hpass rfl M
  have hmain := message_throttle_conserved ⟨rfl, rfl, rfl, by decide, rfl⟩ hadm hL
  exact ⟨L, hL, hmain.1, hmain.2, hvalues⟩

end Tally

end AsyncMessenger
