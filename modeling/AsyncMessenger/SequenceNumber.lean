import AsyncMessenger.Process

/-!
# The width of a sequence number

`out_seq`, `in_seq` and the header field on the wire are 64 bits wide, but a number passes through
`Message::set_seq` when it is assigned and through `Message::get_seq` when it is compared, and both
are `unsigned`. This file follows one number from `_send` through the bytes of the header into
`STATE_OPEN_MESSAGE_DISPATCH` and shows how far that reaches: exactly up to `2 ^ 32 - 1`.

The bytes themselves carry 64 bits (`ofBytes_bytes_seq`), and so do both counters. It is the two
accessors that cut the number down, and message number `2 ^ 32` arrives with number 0, below
everything that has been received; the receiver takes it for an old one and drops it.
-/

namespace AsyncMessenger

variable {β : Type} (K : Codec) (flags : CrcFlags)

namespace Conn

/-- What `_send` puts on the wire for `m`: the message numbered and encoded. -/
def sentMessage (x : Conn β) (m : Message) : Message :=
  (x.q.number x.policy.lossy m).1.encode K flags x.features

/-- The receiver about to run `STATE_OPEN_MESSAGE_DISPATCH`, having read the frame of `e`: the header
and the footer were decoded from their bytes. -/
def received (y : Conn β) (e : Message) : Conn β :=
  { y with
    state := .openMessageDispatch
    currentHeader := MsgHeader.ofBytes e.header.bytes
    currentFooter := MsgFooter.ofBytes e.footer.bytes
    front := e.payload
    middle := e.middle
    data := e.data }

/-- The receiver takes the next message of the sender: the number it compares and stores is one
above its `in_seq`, the message is delivered and not dropped as an old one. -/
def TakesNext (x y : Conn β) (m : Message) (inp : Input β) : Prop :=
  ∃ r : Message,
    ((y.received (x.sentMessage K flags m)).dispatchMessage K flags inp).effect = .deliver r ∧
    r.getSeq = y.inSeq + 1 ∧ y.inSeq < r.getSeq ∧
    ((y.received (x.sentMessage K flags m)).dispatchMessage K flags inp).conn.inSeq = y.inSeq + 1

/-- The number a message arrives with: that of the sender's counter, cut down to 32 bits. -/
theorem seq_received (x y : Conn β) (m : Message) :
    (y.received (x.sentMessage K flags m)).currentHeader.seq = (x.q.outSeq + 1) % 2 ^ 32 := by
  have hsent : (x.sentMessage K flags m).header.seq = (x.q.outSeq + 1) % 2 ^ 32 :=
    Message.encode_seq K flags x.features _
  have hlt : (x.q.outSeq + 1) % 2 ^ 32 < 2 ^ 64 :=
    Nat.lt_trans (Nat.mod_lt _ (by decide)) (by decide)
  rw [received, MsgHeader.ofBytes_bytes_seq, hsent, Nat.mod_eq_of_lt hlt]

/-- The two ways out of the number test, for a message that decodes. -/
theorem dispatchMessage_of_decodes {y : Conn β} {inp : Input β} {r : Message}
    (hdec : Message.decodeMessage K flags inp.newId y.currentHeader y.currentFooter y.front y.middle
      y.data = some r) :
    (r.getSeq ≤ y.inSeq ∧ (y.dispatchMessage K flags inp).effect = .discard r ∧
      (y.dispatchMessage K flags inp).conn.inSeq = y.inSeq) ∨
    (y.inSeq < r.getSeq ∧ (y.dispatchMessage K flags inp).effect = .deliver r ∧
      (y.dispatchMessage K flags inp).conn.inSeq = r.getSeq) := by
  rcases Nat.lt_or_ge y.inSeq r.getSeq with hnew | hold
  · refine Or.inr ⟨hnew, ?_⟩
    have hseq (c : Conn β) : c.startWrite.inSeq = c.inSeq := by rw [startWrite]; split_ifs <;> rfl
    simp only [dispatchMessage, hdec, if_neg (Nat.not_le.mpr hnew)]
    by_cases hspent : inp.budgetSpent
    · simp only [hspent, if_true, true_and]
      split_ifs <;> first | rfl | exact hseq _
    · simp only [hspent, Bool.false_eq_true, if_false, true_and]
      split_ifs <;> first | rfl | exact hseq _
  · refine Or.inl ⟨hold, ?_⟩
    simp only [dispatchMessage, hdec, if_pos hold, true_and]

end Conn

open Conn

/-- **Sequence numbers are 32-bit end to end.** In a session whose sender has `out_seq = n` and whose
receiver has `in_seq = n`, the next message that decodes at all is taken in order exactly when its
number still fits an `unsigned`. -/
theorem takesNext_iff_fits_unsigned (x y : Conn β) (m : Message) (inp : Input β) (n : ℕ)
    (hout : x.q.outSeq = n) (hin : y.inSeq = n)
    (hdec : (Message.decodeMessage K flags inp.newId
      (MsgHeader.ofBytes (x.sentMessage K flags m).header.bytes)
      (MsgFooter.ofBytes (x.sentMessage K flags m).footer.bytes)
      (x.sentMessage K flags m).payload (x.sentMessage K flags m).middle
      (x.sentMessage K flags m).data).isSome) :
    TakesNext K flags x y m inp ↔ n + 1 < 2 ^ 32 := by
  obtain ⟨r, hr⟩ := Option.isSome_iff_exists.mp hdec
  have hheader := (Message.header_of_decodeMessage K flags hr).1
  have hseq : r.getSeq = (n + 1) % 2 ^ 32 := by
    have h := seq_received K flags x y m
    rw [received] at h
    rw [Message.getSeq, hheader, h, hout, Nat.mod_mod]
  have hcases := dispatchMessage_of_decodes K flags (y := y.received (x.sentMessage K flags m)) hr
  have hinSeq : (y.received (x.sentMessage K flags m)).inSeq = n := hin
  rw [hinSeq, hseq] at hcases
  constructor
  · rintro ⟨r', heffect, hr', -, -⟩
    rcases hcases with ⟨-, hdiscard, -⟩ | ⟨-, hdeliver, -⟩
    · rw [hdiscard] at heffect
      exact absurd heffect (by simp)
    · rw [hdeliver, Effect.deliver.injEq] at heffect
      rw [← heffect, hseq, hin] at hr'
      rw [← hr']
      exact Nat.mod_lt _ (by decide)
  · intro hfits
    rw [Nat.mod_eq_of_lt hfits] at hcases hseq
    rcases hcases with ⟨hold, -, -⟩ | ⟨hnew, hdeliver, hstore⟩
    · exact absurd hold (by omega)
    · exact ⟨r, hdeliver, by rw [hseq, hin], by rw [hseq, hin]; omega, by rw [hstore, hin]⟩

/-- The first message of a session is taken. -/
theorem takesNext_first :
    TakesNext Codec.trivial ⟨true, true⟩ ({ policy := .losslessPeer 0 0 } : Conn UInt8) {} {} {} ↔
      0 + 1 < 2 ^ 32 :=
  takesNext_iff_fits_unsigned Codec.trivial ⟨true, true⟩ _ _ _ _ 0 rfl rfl (by decide)

/-- The message after number `2 ^ 32 - 1` decodes, but it arrives with number 0 and is dropped as an
old one. -/
theorem not_takesNext_after_two_pow_32 :
    ((({ inSeq := 2 ^ 32 - 1 } : Conn UInt8).received
      (({ policy := .losslessPeer 0 0, q := { outSeq := 2 ^ 32 - 1 } } :
        Conn UInt8).sentMessage Codec.trivial ⟨true, true⟩ {})).dispatchMessage
        Codec.trivial ⟨true, true⟩ {}).effect = .discard {} ∧
    ¬ TakesNext Codec.trivial ⟨true, true⟩
      ({ policy := .losslessPeer 0 0, q := { outSeq := 2 ^ 32 - 1 } } : Conn UInt8)
      { inSeq := 2 ^ 32 - 1 } {} {} := by
  have hdiscard : ((({ inSeq := 2 ^ 32 - 1 } : Conn UInt8).received
      (({ policy := .losslessPeer 0 0, q := { outSeq := 2 ^ 32 - 1 } } :
        Conn UInt8).sentMessage Codec.trivial ⟨true, true⟩ {})).dispatchMessage
        Codec.trivial ⟨true, true⟩ {}).effect = .discard {} := rfl
  refine ⟨hdiscard, ?_⟩
  rintro ⟨r, heffect, -, -, -⟩
  rw [hdiscard] at heffect
  exact absurd heffect (by simp)

end AsyncMessenger
