import AsyncMessenger.Strtoll

/-!
# Names of entities

`operator<<` writes the name of an entity as its type, a dot and its number, and
`entity_name_t::parse` reads such a text. For each type that it knows, `parse` skips a prefix whose
length is written out, and for `osd.` that length is one too large: the first digit of the number is
lost.

A printed number is read back by `strtoll` (`Strtoll`), and a number without its first digit is
smaller than it was; the two clauses of the result come from these two facts. `parseString_spec`
says what any text is parsed to, printed or not.
-/

namespace AsyncMessenger

/-- `entity_name_t`. -/
structure EntityName where
  type : UInt8 := 0
  num : ℤ := 0
  deriving DecidableEq, Repr

namespace EntityName

def typeMon : UInt8 := 0x01
def typeMds : UInt8 := 0x02
def typeOsd : UInt8 := 0x04
def typeClient : UInt8 := 0x08
def typeAuth : UInt8 := 0x20

/-- `msgr_entity_type_name`. -/
def typeStr (type : UInt8) : List Char :=
  if type = typeMds then ['m', 'd', 's']
  else if type = typeOsd then ['o', 's', 'd']
  else if type = typeMon then ['m', 'o', 'n']
  else if type = typeClient then ['c', 'l', 'i', 'e', 'n', 't']
  else if type = typeAuth then ['a', 'u', 't', 'h']
  else ['u', 'n', 'k', 'n', 'o', 'w', 'n']

/-- `operator<<`. -/
def print (e : EntityName) : List Char :=
  if e.num < 0 then typeStr e.type ++ ['.', '?']
  else typeStr e.type ++ '.' :: Nat.toDigits 10 e.num.toNat

/-- The end of `parse`, where `start` is behind the prefix: the name, and the text from `end` on if
the parse has succeeded. Behind `osd.` alone `start` is outside the text; whatever is read there,
`end` is not where the text ends. -/
def parseNum (e : EntityName) (start : List Char) : EntityName × Option (List Char) :=
  if start.head?.any isspace then (e, none)
  else
    let (num, stop) := strtoll start
    if stop = start then ({ e with num }, none) else ({ e with num }, some stop)

/-- `parse(start, &end)`. -/
def parse (e : EntityName) (start : List Char) : EntityName × Option (List Char) :=
  if ['m', 'o', 'n', '.'].isPrefixOf start then parseNum { e with type := typeMon } (start.drop 4)
  else if ['o', 's', 'd', '.'].isPrefixOf start then parseNum { e with type := typeOsd } (start.drop 5)
  else if ['c', 'l', 'i', 'e', 'n', 't', '.'].isPrefixOf start then
    parseNum { e with type := typeClient } (start.drop 7)
  else (e, none)

/-- `parse(s)`: the name, and whether all of `s` has been parsed. What is parsed ends with a NUL. -/
def parseString (e : EntityName) (s : List Char) : EntityName × Bool :=
  let (e, stop) := parse e (s ++ ['\x00'])
  (e, stop.any fun stop ↦ stop.length = 1)

/-! ## Reading a number

What `strtoll` makes of the digits behind a prefix. -/

variable {e e₀ : EntityName} {n : ℕ} {d : Char} {ds start stop : List Char}

theorem head_toDigits {text : List Char} : (Nat.toDigits 10 n ++ text).head?.any isspace = false := by
  obtain ⟨d, ds, hcons⟩ := List.exists_cons_of_ne_nil (Nat.toDigits_ne_nil (n := n) (b := 10))
  have hd : d.isDigit := Nat.isDigit_of_mem_toDigits (n := n) (by decide) (by decide)
    (hcons ▸ List.mem_cons_self)
  rw [hcons]
  exact not_isspace_of_isDigit hd

theorem nul_not_digit : ∀ c ∈ ['\x00'].head?, c.isDigit = false := by
  rintro c ⟨⟩
  rfl

theorem parseNum_toDigits (e : EntityName) (hn : n < 2 ^ 63) :
    parseNum e (Nat.toDigits 10 n ++ ['\x00']) = ({ e with num := n }, some ['\x00']) := by
  have hne : ['\x00'] ≠ Nat.toDigits 10 n ++ ['\x00'] := by
    intro h
    have hlen := congrArg List.length h
    have hpos := Nat.length_toDigits_pos (n := n) (b := 10)
    rw [List.length_append] at hlen
    omega
  rw [parseNum, head_toDigits, if_neg Bool.false_ne_true, strtoll_toDigits hn nul_not_digit]
  dsimp only
  rw [if_neg hne]

/-- A parsed number fits into 64 bits. -/
theorem parseNum_bounds (h : parseNum e₀ start = (e, some stop)) :
    e.type = e₀.type ∧ e.num < 2 ^ 63 := by
  have hbounds := (strtoll_bounds start).2
  rw [parseNum] at h
  by_cases hspace : start.head?.any isspace = true
  · rw [if_pos hspace] at h
    exact absurd (Prod.mk.inj h).2 (Option.some_ne_none _).symm
  rw [if_neg hspace] at h
  dsimp only at h
  by_cases hstop : (strtoll start).2 = start
  · rw [if_pos hstop] at h
    exact absurd (Prod.mk.inj h).2 (Option.some_ne_none _).symm
  rw [if_neg hstop] at h
  have he := (Prod.mk.inj h).1
  subst he
  exact ⟨rfl, hbounds⟩

/-- Without its first digit a number is not read back. -/
theorem parseNum_tail (hn : n < 2 ^ 63) (hcons : Nat.toDigits 10 n = d :: ds) (stop : List Char) :
    parseNum e₀ (ds ++ ['\x00']) ≠ ({ e₀ with num := n }, some stop) := by
  intro h
  rw [parseNum] at h
  by_cases hnil : ds = []
  · subst hnil
    exact absurd (Prod.mk.inj h).2 (Option.some_ne_none _).symm
  have hlt := strtoll_tail_lt hn hcons hnil nul_not_digit
  by_cases hspace : (ds ++ ['\x00']).head?.any isspace = true
  · rw [if_pos hspace] at h
    exact absurd (Prod.mk.inj h).2 (Option.some_ne_none _).symm
  rw [if_neg hspace] at h
  dsimp only at h
  by_cases hstop : (strtoll (ds ++ ['\x00'])).2 = ds ++ ['\x00']
  · rw [if_pos hstop] at h
    exact absurd (Prod.mk.inj h).2 (Option.some_ne_none _).symm
  rw [if_neg hstop] at h
  have hnum : (strtoll (ds ++ ['\x00'])).1 = n := congrArg EntityName.num (Prod.mk.inj h).1
  omega

/-! ## The prefixes

Which prefix a text has decides what it is parsed to. The types that `parse` does not know are
printed as well, and are not read. -/

theorem print_of_nonneg (type : UInt8) (n : ℕ) :
    print { type, num := n } = typeStr type ++ '.' :: Nat.toDigits 10 n :=
  if_neg (Int.not_lt.mpr (Int.natCast_nonneg n))

theorem parse_of_parseString {s : List Char} (h : parseString e₀ s = (e, true)) :
    ∃ stop, parse e₀ (s ++ ['\x00']) = (e, some stop) := by
  rw [parseString] at h
  generalize parse e₀ (s ++ ['\x00']) = r at h ⊢
  obtain ⟨e', _ | stop⟩ := r
  · exact absurd (Prod.mk.inj h).2 Bool.false_ne_true
  · exact ⟨stop, congrArg (·, some stop) (Prod.mk.inj h).1⟩

/-- **Printed names are read back**, but those of an OSD. -/
theorem parseString_print (e₀ : EntityName) {type : UInt8} (hn : n < 2 ^ 63)
    (htype : type = typeMon ∨ type = typeOsd ∨ type = typeClient) :
    parseString e₀ (print { type, num := n }) = ({ type, num := n }, true) ↔ type ≠ typeOsd := by
  rw [print_of_nonneg]
  obtain rfl | rfl | rfl := htype
  · refine iff_of_true ?_ (by decide)
    have hparse : parse e₀ (typeStr typeMon ++ '.' :: Nat.toDigits 10 n ++ ['\x00'])
        = parseNum { e₀ with type := typeMon } (Nat.toDigits 10 n ++ ['\x00']) := rfl
    rw [parseString, hparse, parseNum_toDigits _ hn]
    rfl
  · refine iff_of_false ?_ fun h ↦ h rfl
    obtain ⟨d, ds, hcons⟩ := List.exists_cons_of_ne_nil (Nat.toDigits_ne_nil (n := n) (b := 10))
    have hparse : parse e₀ (typeStr typeOsd ++ '.' :: Nat.toDigits 10 n ++ ['\x00'])
        = parseNum { e₀ with type := typeOsd } (ds ++ ['\x00']) := by
      rw [hcons]
      rfl
    intro h
    obtain ⟨stop, hstop⟩ := parse_of_parseString h
    rw [hparse] at hstop
    exact parseNum_tail hn hcons stop hstop
  · refine iff_of_true ?_ (by decide)
    have hparse : parse e₀ (typeStr typeClient ++ '.' :: Nat.toDigits 10 n ++ ['\x00'])
        = parseNum { e₀ with type := typeClient } (Nat.toDigits 10 n ++ ['\x00']) := rfl
    rw [parseString, hparse, parseNum_toDigits _ hn]
    rfl

/-- The text that is parsed begins like the name of an OSD. -/
def OsdText (s : List Char) : Prop := ['o', 's', 'd', '.'] <+: s

instance (s : List Char) : Decidable (OsdText s) := inferInstanceAs (Decidable (_ <+: _))

/-- What a text is parsed to. -/
theorem parseString_spec {s : List Char} (h : parseString e₀ s = (e, true)) :
    e.num < 2 ^ 63 ∧ (e.type = typeMon ∨ e.type = typeOsd ∨ e.type = typeClient)
      ∧ (e.type = typeOsd ↔ OsdText s) := by
  obtain ⟨stop, hstop⟩ := parse_of_parseString h
  rw [parse] at hstop
  have hosd : OsdText s ↔ ['o', 's', 'd', '.'].isPrefixOf (s ++ ['\x00']) := by
    rw [List.isPrefixOf_iff_prefix, OsdText, List.prefix_concat_iff]
    exact (or_iff_right fun h ↦ absurd (congrArg List.getLast? h) (by simp)).symm
  by_cases hmon : ['m', 'o', 'n', '.'].isPrefixOf (s ++ ['\x00']) = true
  · rw [if_pos hmon] at hstop
    obtain ⟨htype, hlt⟩ := parseNum_bounds hstop
    have hne : e.type ≠ typeOsd := htype.trans_ne (by decide : typeMon ≠ typeOsd)
    refine ⟨hlt, .inl htype, iff_of_false hne fun h ↦ ?_⟩
    obtain ⟨t, ht⟩ := List.isPrefixOf_iff_prefix.mp hmon
    obtain ⟨t', ht'⟩ := List.isPrefixOf_iff_prefix.mp (hosd.mp h)
    exact absurd (List.cons.inj (ht.trans ht'.symm)).1 (by decide)
  rw [if_neg hmon] at hstop
  by_cases hprefix : ['o', 's', 'd', '.'].isPrefixOf (s ++ ['\x00']) = true
  · rw [if_pos hprefix] at hstop
    obtain ⟨htype, hlt⟩ := parseNum_bounds hstop
    exact ⟨hlt, .inr (.inl htype), iff_of_true htype (hosd.mpr hprefix)⟩
  rw [if_neg hprefix] at hstop
  by_cases hclient : ['c', 'l', 'i', 'e', 'n', 't', '.'].isPrefixOf (s ++ ['\x00']) = true
  · rw [if_pos hclient] at hstop
    obtain ⟨htype, hlt⟩ := parseNum_bounds hstop
    have hne : e.type ≠ typeOsd := htype.trans_ne (by decide : typeClient ≠ typeOsd)
    exact ⟨hlt, .inr (.inr htype), iff_of_false hne fun h ↦ hprefix (hosd.mp h)⟩
  rw [if_neg hclient] at hstop
  exact absurd (Prod.mk.inj hstop).2 (Option.some_ne_none _).symm

/-- **Parse undoes print** exactly for the names that are not of an OSD. -/
theorem parseString_print_iff (e₀ : EntityName) :
    (∀ e : EntityName, e.type = typeMon ∨ e.type = typeOsd ∨ e.type = typeClient → 0 ≤ e.num →
      e.num < 2 ^ 63 → (parseString e₀ (print e) = (e, true) ↔ e.type ≠ typeOsd))
    ∧ ∀ s e₁ e, parseString e₁ s = (e, true) → 0 ≤ e.num →
      (parseString e₀ (print e) = (e, true) ↔ ¬OsdText s) := by
  have hprint : ∀ e : EntityName, e.type = typeMon ∨ e.type = typeOsd ∨ e.type = typeClient →
      0 ≤ e.num → e.num < 2 ^ 63 → (parseString e₀ (print e) = (e, true) ↔ e.type ≠ typeOsd) := by
    rintro ⟨type, num⟩ htype hnonneg hlt
    obtain ⟨n, rfl⟩ := Int.eq_ofNat_of_zero_le hnonneg
    have hn : (n : ℤ) < 2 ^ 63 := hlt
    exact parseString_print e₀ (by omega) htype
  refine ⟨hprint, fun s e₁ e hparse hnonneg ↦ ?_⟩
  obtain ⟨hlt, htype, hosd⟩ := parseString_spec hparse
  rw [hprint e htype hnonneg hlt, ← hosd]

/-- The name of a monitor and that of a client. -/
theorem mon_client_parsed :
    parseString {} (print { type := typeMon, num := 40 }) = ({ type := typeMon, num := 40 }, true)
      ∧ parseString {} (print { type := typeClient, num := 7 })
        = ({ type := typeClient, num := 7 }, true) :=
  ⟨(((parseString_print_iff {}).1 _ (.inl rfl) (by decide) (by decide)).mpr (by decide)),
    (((parseString_print_iff {}).1 _ (.inr (.inr rfl)) (by decide) (by decide)).mpr (by decide))⟩

/-- `osd.123` is read as `osd.23`, and `osd.5` is not read at all. -/
theorem osd_misread :
    print { type := typeOsd, num := 123 } = ['o', 's', 'd', '.', '1', '2', '3']
      ∧ parseString {} (print { type := typeOsd, num := 123 }) = ({ type := typeOsd, num := 23 }, true)
      ∧ (parseString {} (print { type := typeOsd, num := 5 })).2 = false
      ∧ (parseString {} (print { type := typeOsd, num := 23 })).1 ≠ { type := typeOsd, num := 23 } := by
  refine ⟨by decide, by decide, by decide, by decide⟩

end EntityName

end AsyncMessenger
