import AsyncMessenger.ByteThrottle

/-!
# The size of a message

The byte throttle is charged for a message with the sum of the three lengths in its header. The sum
is formed where the size is reserved, where the message is handed on, and where a reservation is
given back because the message does not arrive. It is a sum of 32-bit numbers each time: the three
agree, but not with the number of bytes if that is `2^32` or more. The destructor of the message
gives back what the message remembers, and `pre_dispatch` makes it forget.

`ChargedTruly` says of a header that each of these places has the true size. What is in the buffers
meanwhile is never more than the header has announced: `ReadsMessage` follows a connection from the
header on, and `ReadsMessage.sections` is its invariant, with `sections_processOpen` as the step.
-/

namespace AsyncMessenger

variable {β : Type} {K : Codec} {flags : CrcFlags} {h : MsgHeader}

namespace Conn

/-- The connection is reading the message of an accepted header, whatever bytes arrive. -/
inductive ReadsMessage (K : Codec) (flags : CrcFlags) (h : MsgHeader) : Conn β → Prop
  | accept {c : Conn β} {inp : Input β} (hs : c.state = .openMessageHeader)
      (hread : inp.read = .done (.header h))
      (hcrc : flags.header = true → Message.headerCrc K h = h.crc) :
      ReadsMessage K flags h (c.processOpen K flags inp).conn
  | pass {c : Conn β} {inp : Input β} (hc : ReadsMessage K flags h c) (hs : c.state.sectioned = true)
      (hstream : ∀ chunk, inp.read = .done chunk → ∃ arrived, (c.readBytes arrived).1 = .done chunk) :
      ReadsMessage K flags h (c.processOpen K flags inp).conn

theorem currentHeader_onRead {c : Conn β} {inp : Input β} {k : Chunk → Outcome β}
    (hk : ∀ chunk, (k chunk).conn.currentHeader = c.currentHeader) :
    (c.onRead inp k).conn.currentHeader = c.currentHeader := by
  rw [onRead]
  split
  · rfl
  · rfl
  · exact hk _

/-- The header of a message stays until the message is complete. -/
theorem currentHeader_processOpen {c : Conn β} (hs : c.state.sectioned = true) (inp : Input β) :
    (c.processOpen K flags inp).conn.currentHeader = c.currentHeader := by
  rw [processOpen]
  split <;> rename_i hstate <;> first | (rw [hstate] at hs; exact absurd hs (by decide)) | skip
  · rfl
  · rfl
  · split_ifs
    · rfl
    · exact currentHeader_onRead fun chunk ↦ by cases chunk <;> rfl
  · split_ifs
    · rfl
    · exact currentHeader_onRead fun chunk ↦ by cases chunk <;> rfl
  · rfl
  · split_ifs
    · rfl
    · exact currentHeader_onRead fun chunk ↦ by cases chunk <;> rfl
  · refine currentHeader_onRead fun chunk ↦ ?_
    cases chunk with
    | footer f =>
      dsimp only [gotFooter]
      split_ifs <;> rfl
    | _ => rfl
  · rfl
  · rcases dispatchMessage_cases (K := K) c inp with ⟨-, h⟩ | ⟨m, -, -, h⟩ | ⟨m, b, p, flow, -, -, -, h⟩
    · rw [h]
      rfl
    · rw [h]
    · rw [h]
  · rfl

/-- The sections of a message that is being read are those of its header. -/
theorem ReadsMessage.sections {c : Conn β} (hc : c.ReadsMessage K flags h) (hlt : h.payloadSize < 2 ^ 32) :
    c.Sections ∧ (c.state.sectioned = true → c.currentHeader = h) := by
  induction hc with
  | @accept c inp hs hread hcrc =>
    have hnot : ¬ (flags.header = true ∧ Message.headerCrc K h ≠ h.crc) :=
      fun hand ↦ hand.2 (hcrc hand.1)
    obtain ⟨k, hpass, hheader⟩ : ∃ k, c.processOpen K flags inp = c.onRead inp k ∧
        k (.header h) = c.gotHeader K flags h inp.gseq := by
      rw [processOpen, hs]
      exact ⟨_, rfl, rfl⟩
    have hgot : c.gotHeader K flags h inp.gseq =
        ({ c with front := [], middle := [], data := [], currentHeader := h } : Conn β).goto
          .openMessageThrottleMessage inp.gseq := if_neg hnot
    rw [hpass, onRead]
    simp only [hread, hheader, hgot]
    exact ⟨⟨hlt, rfl, rfl, rfl⟩, fun _ ↦ rfl⟩
  | @pass c inp hc hs hstream ih =>
    have hheader : c.state ≠ .openMessageHeader := by
      intro heq
      rw [heq] at hs
      exact absurd hs (by decide)
    refine ⟨sections_processOpen ih.1 ⟨hstream, fun heq ↦ absurd heq hheader⟩, fun _ ↦ ?_⟩
    rw [currentHeader_processOpen hs]
    exact ih.2 hs

/-- Less than announced is in the buffers. -/
theorem Sections.buffered_le {c : Conn β} (hsec : c.Sections) (hs : c.state.sectioned = true) :
    c.front.length + c.middle.length + c.data.length ≤ c.currentHeader.payloadSize := by
  rw [MsgHeader.payloadSize]
  revert hsec hs
  rw [Sections]
  cases c.state <;> intro hsec hs <;> first
    | exact absurd hs (by decide)
    | (obtain ⟨-, hfront, hmiddle, hdata⟩ := hsec
       simp only [hfront, hmiddle, hdata, List.length_nil]
       omega)

end Conn

open Ledger in
/-- The throttle is charged with the size of the message and with nothing else; `dispatched` says whether
`pre_dispatch` has seen the message when it is destroyed. -/
structure MsgHeader.ChargedTruly (β : Type) (K : Codec) (flags : CrcFlags) (h : MsgHeader)
    (dispatched : Bool) : Prop where
  reserved : ∀ (c : Conn β) inp, c.currentHeader = h → c.policy.throttlerBytes = true →
    c.state = .openMessageThrottleBytes → (c.processOpen K flags inp).effect.taken.2 = h.payloadSize
  noted : ∀ (c : Conn β) m, c.currentHeader = h → c.state = .openMessageDispatch →
    (receivedFrom c m).size = h.payloadSize
  released : ∀ c : Conn β, c.currentHeader = h → c.policy.throttlerBytes = true →
    c.state.sized = true → c.releaseThrottle.2 = h.payloadSize
  destroyed : ∀ (c : Conn β) m t, c.currentHeader = h → c.policy.throttlerBytes = true →
    c.state = .openMessageDispatch →
    destructor t (if dispatched then (receivedFrom c m).preDispatch else receivedFrom c m) =
      t.put h.payloadSize
  buffered : ∀ c : Conn β, c.ReadsMessage K flags h → c.policy.throttlerBytes = true →
    c.state.sized = true →
    c.front.length + c.middle.length + c.data.length ≤ c.releaseThrottle.2

namespace MsgHeader

open Ledger

theorem messageSize_of_lt (hlt : h.payloadSize < 2 ^ 32) : h.messageSize = h.payloadSize :=
  Nat.mod_eq_of_lt hlt

/-- What `STATE_OPEN_MESSAGE_THROTTLE_BYTES` reserves. -/
theorem taken_throttleBytes {c : Conn β} {inp : Input β} (hpolicy : c.policy.throttlerBytes = true)
    (hs : c.state = .openMessageThrottleBytes) :
    (c.processOpen K flags inp).effect.taken.2 = c.currentHeader.messageSize := by
  rw [Conn.processOpen, hs]
  by_cases hzero : c.currentHeader.messageSize = 0
  · simp [hzero, Effect.taken]
  · simp [hzero, hpolicy, Effect.taken]

/-- **The throttled size is the true size** exactly if the three lengths add up to less than `2^32`, and
if nothing is left to give back for a message that has been dispatched. -/
theorem chargedTruly_iff (h : MsgHeader) (dispatched : Bool) :
    h.ChargedTruly β K flags dispatched ↔
      h.payloadSize < 2 ^ 32 ∧ (dispatched = true → h.payloadSize = 0) := by
  have hmod : h.messageSize < 2 ^ 32 := Nat.mod_lt _ (by decide)
  constructor
  · intro hcharged
    have hsize : h.messageSize = h.payloadSize :=
      hcharged.noted { currentHeader := h, state := .openMessageDispatch } {} rfl rfl
    refine ⟨hsize ▸ hmod, fun hdispatched ↦ ?_⟩
    -- A throttle that holds exactly this message.
    have hput := hcharged.destroyed
      { currentHeader := h, state := .openMessageDispatch, policy := { throttlerBytes := true } } {}
      { count := h.payloadSize, max := 1 } rfl rfl rfl
    rw [if_pos hdispatched] at hput
    simp only [destructor, Received.preDispatch, receivedFrom, Throttle.put, one_ne_zero, if_false,
      if_true, Nat.not_lt_zero, lt_irrefl, Option.some.injEq, Throttle.mk.injEq] at hput
    omega
  · rintro ⟨hlt, hzero⟩
    have hsize := messageSize_of_lt hlt
    refine ⟨fun c inp hc hpolicy hs ↦ ?_, fun c m hc hs ↦ ?_, fun c hc hpolicy hs ↦ ?_,
      fun c m t hc hpolicy hs ↦ ?_, fun c hc hpolicy hs ↦ ?_⟩
    · rw [taken_throttleBytes hpolicy hs, hc, hsize]
    · rw [receivedFrom, hc, hsize]
    · rw [Conn.releaseThrottle_of_sized hs, if_pos hpolicy, hc, hsize]
    · rw [destructor]
      by_cases hdispatched : dispatched = true
      · rw [if_pos hdispatched, Received.preDispatch, receivedFrom, if_pos hpolicy, hzero hdispatched]
      · rw [if_neg hdispatched, receivedFrom, if_pos hpolicy, hc, hsize]
    · obtain ⟨hsec, hheader⟩ := hc.sections hlt
      have hsectioned : c.state.sectioned = true := by
        revert hs
        cases c.state <;> decide
      rw [Conn.releaseThrottle_of_sized hs, if_pos hpolicy, hheader hsectioned, hsize,
        ← hheader hsectioned]
      exact hsec.buffered_le hsectioned

/-- A header that announces three sections of `2^31` bytes is charged with half of them. -/
theorem huge_message_is_undercharged :
    ¬∀ (h : MsgHeader) (dispatched : Bool), h.frontLen < 2 ^ 32 → h.middleLen < 2 ^ 32 →
      h.dataLen < 2 ^ 32 → h.ChargedTruly Frame Codec.trivial ⟨true, true⟩ dispatched := by
  intro hall
  have hcharged := hall { frontLen := 2 ^ 31, middleLen := 2 ^ 31, dataLen := 5 } false (by decide)
    (by decide) (by decide)
  have hsize := hcharged.noted
    { currentHeader := { frontLen := 2 ^ 31, middleLen := 2 ^ 31, dataLen := 5 },
      state := .openMessageDispatch } {} rfl rfl
  exact absurd hsize (by decide)

end MsgHeader

end AsyncMessenger
