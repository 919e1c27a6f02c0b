import Mathlib.Data.List.Basic
import Mathlib.Data.List.Infix
import Mathlib.Tactic.Common

/-!
# Decoders that read a text exactly

A decoder works with a cursor on a medium. `Returns M m bs a` says that `m` reads the text `bs` as the
value `a` wherever it stands. `Reads M m bs a` adds that `m` ends in `eof` if the medium breaks off
inside of `bs`.

Two things can go wrong on a medium that holds all of `bs`. A read of nothing at the very end of the
medium may fail, depending on where that end is: `hollow` says that `bs` ends with such a read, and
`firm` where it succeeds. And a text may be too large to be read in one piece: `Chokes M m bs` says
that `m` ends in `eof` whenever the medium is in one piece up to the end of `bs`.
-/

namespace Reading

/-- What decoders read from. -/
structure Medium (S σ ε β : Type) where
  /-- The text on the medium. -/
  content : S → List β
  /-- The cursor stands at the offset. -/
  At : S → σ → ℕ → Prop
  /-- The offsets a cursor can have. -/
  limit : ℕ
  /-- Where the medium may end for a read of nothing. -/
  firm : ℕ → Prop
  /-- The medium is in one piece up to the offset. -/
  solid : S → ℕ → Prop
  solid_of_le : ∀ {s i j}, i ≤ j → solid s j → solid s i
  /-- The error of a read past the end. -/
  eof : ε

/-- A decoder: it sees the medium, and moves the cursor. -/
abbrev Decoder (S σ ε α : Type) := ReaderT S (StateT σ (Except ε)) α

/-- Apply a step so many times. -/
def repeatM {m : Type → Type} [Monad m] {τ : Type} (f : τ → m τ) : ℕ → τ → m τ
  | 0, t => pure t
  | n + 1, t => f t >>= repeatM f n

variable {S σ ε β α γ τ : Type} {M : Medium S σ ε β}

section Steps

variable {m : Decoder S σ ε α} {f : α → Decoder S σ ε γ} {s : S} {c c' : σ}

theorem bind_of_ok {a : α} (h : m s c = .ok (a, c')) : (m >>= f) s c = f a s c' := by
  change (m s c >>= fun x ↦ f x.1 s x.2) = f a s c'
  rw [h]
  rfl

theorem bind_of_error {e : ε} (h : m s c = .error e) : (m >>= f) s c = .error e := by
  change (m s c >>= fun x ↦ f x.1 s x.2) = .error e
  rw [h]
  rfl

end Steps

/-- The decoder returns the value on a medium that holds the text. -/
structure Returns (M : Medium S σ ε β) (m : Decoder S σ ε α) (bs : List β) (a : α) (hollow : Prop) :
    Prop where
  whole : ∀ {s c o rest}, M.At s c o → (M.content s).drop o = bs ++ rest → o + bs.length < M.limit →
    (rest = [] → hollow → M.firm (o + bs.length)) →
    ∃ c', m s c = .ok (a, c') ∧ M.At s c' (o + bs.length)
  stuck : ∀ {s c o}, M.At s c o → (M.content s).drop o = bs → o + bs.length < M.limit → hollow →
    ¬M.firm (o + bs.length) → m s c = .error M.eof

/-- The decoder reads the text as the value, and notices if it breaks off. -/
structure Reads (M : Medium S σ ε β) (m : Decoder S σ ε α) (bs : List β) (a : α) (hollow : Prop) : Prop
    extends Returns M m bs a hollow where
  short : ∀ {s c o}, M.At s c o → (M.content s).drop o <+: bs → (M.content s).drop o ≠ bs →
    o + bs.length < M.limit → m s c = .error M.eof

/-- The decoder fails on the text if the medium is in one piece up to its end. -/
def Chokes (M : Medium S σ ε β) (m : Decoder S σ ε α) (bs : List β) : Prop :=
  ∀ ⦃s c o rest⦄, M.At s c o → (M.content s).drop o = bs ++ rest → o + bs.length < M.limit →
    M.solid s (o + bs.length) → m s c = .error M.eof

theorem Returns.of_iff {m : Decoder S σ ε α} {bs : List β} {a : α} {h h' : Prop}
    (hm : Returns M m bs a h) (hiff : h ↔ h') : Returns M m bs a h' :=
  propext hiff ▸ hm

theorem Reads.of_iff {m : Decoder S σ ε α} {bs : List β} {a : α} {h h' : Prop}
    (hm : Reads M m bs a h) (hiff : h ↔ h') : Reads M m bs a h' :=
  propext hiff ▸ hm

/-- On a medium that holds the whole text, the decoder returns its value, or it ends in `eof`. -/
theorem Returns.total {m : Decoder S σ ε α} {bs : List β} {a : α} {h : Prop} (hm : Returns M m bs a h)
    {s : S} {c : σ} {o : ℕ} {rest : List β} (hat : M.At s c o)
    (hcontent : (M.content s).drop o = bs ++ rest) (hlt : o + bs.length < M.limit) :
    (∃ c', m s c = .ok (a, c') ∧ M.At s c' (o + bs.length)) ∨ m s c = .error M.eof := by
  by_cases hfirm : rest = [] → h → M.firm (o + bs.length)
  · exact .inl (hm.whole hat hcontent hlt hfirm)
  · obtain ⟨rfl, hfirm'⟩ := Classical.not_imp.mp hfirm
    obtain ⟨hh, hfirm⟩ := Classical.not_imp.mp hfirm'
    exact .inr (hm.stuck hat (hcontent.trans (List.append_nil _)) hlt hh hfirm)

/-- The medium, if it is one of those in `P`. -/
def Medium.restrict (M : Medium S σ ε β) (P : S → Prop) : Medium S σ ε β :=
  { M with At := fun s c o ↦ M.At s c o ∧ P s }

theorem Returns.restrict {m : Decoder S σ ε α} {bs : List β} {a : α} {h : Prop}
    (hm : Returns M m bs a h) (P : S → Prop) : Returns (M.restrict P) m bs a h where
  whole hat hcontent hlt hfirm :=
    have ⟨c', hok, hat'⟩ := hm.whole hat.1 hcontent hlt hfirm
    ⟨c', hok, hat', hat.2⟩
  stuck hat := hm.stuck hat.1

theorem Chokes.restrict {m : Decoder S σ ε α} {bs : List β} (hm : Chokes M m bs) (P : S → Prop) :
    Chokes (M.restrict P) m bs := fun _ _ _ _ hat ↦ hm hat.1

/-! ## One decoder after the other

The text of two decoders in a row is the two texts in a row. If the medium breaks off inside the
first text, the first decoder ends in `eof`, and otherwise the second one does. -/

theorem Returns.pure (a : α) : Returns M (pure a) ([] : List β) a False where
  whole {_ c _ _} hat _ _ _ := ⟨c, rfl, hat⟩
  stuck _ _ _ h := h.elim

theorem Reads.pure (a : α) : Reads M (pure a) ([] : List β) a False where
  toReturns := .pure a
  short _ hinit hne _ := absurd (List.prefix_nil.mp hinit) hne

theorem drop_after {s : S} {o : ℕ} {bs rest : List β} (h : (M.content s).drop o = bs ++ rest) :
    (M.content s).drop (o + bs.length) = rest := by
  rw [← List.drop_drop, h, List.drop_left]

/-- The decoders of two texts in a row return on the two in a row. -/
theorem Returns.bind {m : Decoder S σ ε α} {f : α → Decoder S σ ε γ} {bs bs' : List β} {a : α} {b : γ}
    {h h' : Prop} (hm : Returns M m bs a h) (hf : Returns M (f a) bs' b h') :
    Returns M (m >>= f) (bs ++ bs') b (h' ∨ bs' = [] ∧ h) where
  whole {s c o rest} hat hcontent hlt hfirm := by
    rw [List.length_append, ← Nat.add_assoc] at hlt hfirm ⊢
    rw [List.append_assoc] at hcontent
    obtain ⟨c', hok, hat'⟩ := hm.whole hat hcontent (by omega) fun hrest hh ↦ by
      obtain ⟨rfl, rfl⟩ := List.append_eq_nil_iff.mp hrest
      exact hfirm rfl (.inr ⟨rfl, hh⟩)
    rw [bind_of_ok hok]
    exact hf.whole hat' (drop_after hcontent) hlt fun hrest hh ↦ hfirm hrest (.inl hh)
  stuck {s c o} hat hcontent hlt hhollow hfirm := by
    rw [List.length_append, ← Nat.add_assoc] at hlt hfirm
    -- The read of nothing at the end is the last of `m` or the last of `f a`.
    by_cases hlast : bs' = [] ∧ h
    · obtain ⟨rfl, hh⟩ := hlast
      rw [List.append_nil] at hcontent
      exact bind_of_error (hm.stuck hat hcontent hlt hh hfirm)
    · obtain ⟨c', hok, hat'⟩ := hm.whole hat hcontent (by omega) fun hrest hh ↦
        absurd ⟨hrest, hh⟩ hlast
      rw [bind_of_ok hok]
      exact hf.stuck hat' (drop_after hcontent) hlt (hhollow.resolve_right hlast) hfirm

/-- The decoders of two texts in a row read the two in a row. -/
theorem Reads.bind {m : Decoder S σ ε α} {f : α → Decoder S σ ε γ} {bs bs' : List β} {a : α} {b : γ}
    {h h' : Prop} (hm : Reads M m bs a h) (hf : Reads M (f a) bs' b h') :
    Reads M (m >>= f) (bs ++ bs') b (h' ∨ bs' = [] ∧ h) where
  toReturns := hm.toReturns.bind hf.toReturns
  short {s c o} hat hinit hne hlt := by
    rw [List.length_append, ← Nat.add_assoc] at hlt
    by_cases hlen : ((M.content s).drop o).length < bs.length
    · have hshort : (M.content s).drop o <+: bs :=
        List.prefix_of_prefix_length_le hinit (List.prefix_append _ _) hlen.le
      exact bind_of_error (hm.short hat hshort (fun heq ↦ by rw [heq] at hlen; omega) (by omega))
    · -- The first text is there, and the second breaks off.
      obtain ⟨rest, hrest⟩ :=
        List.prefix_of_prefix_length_le (List.prefix_append _ _) hinit (Nat.not_lt.mp hlen)
      have hshort : rest <+: bs' := (List.prefix_append_right_inj bs).mp (hrest ▸ hinit)
      rcases hm.toReturns.total hat hrest.symm (by omega) with ⟨c', hok, hat'⟩ | herror
      · rw [bind_of_ok hok]
        have hdrop := drop_after hrest.symm
        exact hf.short hat' (hdrop ▸ hshort) (fun heq ↦ hne (by rw [← hrest, ← hdrop, heq])) hlt
      · exact bind_of_error herror

/-- The value that has been returned goes through a function. -/
theorem Returns.bind_pure {m : Decoder S σ ε α} {f : α → Decoder S σ ε γ} {bs : List β} {a : α} {b : γ}
    {h : Prop} (hm : Returns M m bs a h) (hf : f a = Pure.pure b) : Returns M (m >>= f) bs b h := by
  have hbind := hm.bind (hf ▸ Returns.pure b : Returns M (f a) [] b False)
  rw [List.append_nil] at hbind
  exact hbind.of_iff (by simp)

/-- The second text is not empty. -/
theorem Reads.bind_of_ne_nil {m : Decoder S σ ε α} {f : α → Decoder S σ ε γ} {bs bs' : List β}
    {a : α} {b : γ} {h h' : Prop} (hm : Reads M m bs a h) (hf : Reads M (f a) bs' b h')
    (hne : bs' ≠ []) : Reads M (m >>= f) (bs ++ bs') b h' :=
  (hm.bind hf).of_iff (or_iff_left fun hand ↦ hne hand.1)

/-- The value that has been read goes through a function. -/
theorem Reads.bind_pure {m : Decoder S σ ε α} {f : α → Decoder S σ ε γ} {bs : List β} {a : α} {b : γ}
    {h : Prop} (hm : Reads M m bs a h) (hf : f a = Pure.pure b) : Reads M (m >>= f) bs b h := by
  have hbind := hm.bind (hf ▸ Reads.pure b : Reads M (f a) [] b False)
  rw [List.append_nil] at hbind
  exact hbind.of_iff (by simp)

theorem Chokes.bind_left {m : Decoder S σ ε α} {f : α → Decoder S σ ε γ} {bs bs' : List β}
    (hm : Chokes M m bs) : Chokes M (m >>= f) (bs ++ bs') := by
  intro s c o rest hat hcontent hlt hsolid
  rw [List.length_append, ← Nat.add_assoc] at hlt hsolid
  rw [List.append_assoc] at hcontent
  exact bind_of_error (hm hat hcontent (by omega) (M.solid_of_le (by omega) hsolid))

/-- The value that has been read goes through a function. -/
theorem Chokes.bind_pure {m : Decoder S σ ε α} {f : α → Decoder S σ ε γ} {bs : List β}
    (hm : Chokes M m bs) : Chokes M (m >>= f) bs := by
  have hbind : Chokes M (m >>= f) (bs ++ []) := Chokes.bind_left hm
  rwa [List.append_nil] at hbind

theorem Chokes.bind_right {m : Decoder S σ ε α} {f : α → Decoder S σ ε γ} {bs bs' : List β} {a : α}
    {h : Prop} (hm : Returns M m bs a h) (hf : Chokes M (f a) bs') :
    Chokes M (m >>= f) (bs ++ bs') := by
  intro s c o rest hat hcontent hlt hsolid
  rw [List.length_append, ← Nat.add_assoc] at hlt hsolid
  rw [List.append_assoc] at hcontent
  rcases hm.total hat hcontent (by omega) with ⟨c', hok, hat'⟩ | herror
  · rw [bind_of_ok hok]
    exact hf hat' (drop_after hcontent) hlt hsolid
  · exact bind_of_error herror

/-! ## A decoder for each element

A loop that decodes so many elements into an accumulator, which the value of a step may depend on. -/

variable {δ : Type}

/-- What is known of each step when `xs` are to be read, and `st` is what has been made of the elements
before. -/
def Each (P : τ → δ → τ → Prop) (st : List δ → τ) (xs : List δ) : Prop :=
  ∀ pre x post, xs = pre ++ x :: post → P (st pre) x (st (pre ++ [x]))

/-- The elements are read one after the other, each by one step. -/
theorem Reads.repeatM (f : τ → Decoder S σ ε τ) (enc : δ → List β) (st : List δ → τ)
    (hollow : δ → Prop) {xs : List δ} (hne : ∀ x ∈ xs, enc x ≠ [])
    (heach : Each (fun t x t' ↦ Reads M (f t) (enc x) t' (hollow x)) st xs) :
    Reads M (repeatM f xs.length (st [])) (xs.flatMap enc) (st xs)
      (∃ x ∈ xs.getLast?, hollow x) := by
  suffices hsuffix : ∀ ys pre, xs = pre ++ ys →
      Reads M (Reading.repeatM f ys.length (st pre)) (ys.flatMap enc) (st xs)
        (∃ x ∈ ys.getLast?, hollow x) from hsuffix xs [] rfl
  intro ys
  induction ys with
  | nil =>
    intro pre hxs
    rw [List.append_nil] at hxs
    rw [hxs]
    exact (Reads.pure (st pre)).of_iff (by simp)
  | cons y ys ih =>
    intro pre hxs
    have hrest := ih (pre ++ [y]) (by rw [hxs, List.append_assoc, List.singleton_append])
    refine ((heach pre y ys hxs).bind hrest).of_iff ?_
    rcases List.eq_nil_or_concat ys with rfl | ⟨zs, z, rfl⟩
    · simp
    · have hz : enc z ≠ [] := hne z (by simp [hxs])
      simp [hz, List.getLast?_cons]

/-- One of the elements is not light enough. -/
theorem Chokes.repeatM (f : τ → Decoder S σ ε τ) (enc : δ → List β) (st : List δ → τ)
    (hollow : δ → Prop) {xs : List δ} {light : δ → Prop} (hlight : ¬∀ x ∈ xs, light x)
    (hreads : Each (fun t x t' ↦ light x → Reads M (f t) (enc x) t' (hollow x)) st xs)
    (hchokes : Each (fun t x _ ↦ ¬light x → Chokes M (f t) (enc x)) st xs) :
    Chokes M (repeatM f xs.length (st [])) (xs.flatMap enc) := by
  suffices hsuffix : ∀ ys pre, xs = pre ++ ys → (¬∀ x ∈ ys, light x) →
      Chokes M (Reading.repeatM f ys.length (st pre)) (ys.flatMap enc) from hsuffix xs [] rfl hlight
  intro ys
  induction ys with
  | nil => exact fun pre _ hlight ↦ absurd (fun x hx ↦ absurd hx List.not_mem_nil) hlight
  | cons y ys ih =>
    intro pre hxs hlight
    by_cases hy : light y
    · have hrest := ih (pre ++ [y]) (by rw [hxs, List.append_assoc, List.singleton_append])
        fun hall ↦ hlight (List.forall_mem_cons.mpr ⟨hy, hall⟩)
      exact Chokes.bind_right (hreads pre y ys hxs hy).toReturns hrest
    · exact Chokes.bind_left (hchokes pre y ys hxs hy)

end Reading
