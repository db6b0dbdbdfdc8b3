import MetadataBlock.Data.Json

/-!
# JSON strings are read one way

A JSON string ends at its first quote that is not escaped, and its inside can be cut
into the spellings of single units in one way only. So a string tells its text and where
it ends, whatever follows it.

- `hex4_injective`: four hexadecimal digits tell the unit;
- `SpellsUnit`, `SpellsText`: the spellings of a unit and of a text inside a string;
- `spellsText_escape`: `escape` spells its text;
- `spellsUnit_unique`, `spellsText_unique`: a spelling in front of more text is known
  from the whole;
- `string_append_inj`: a string in front of more text.
-/

namespace MetadataBlock.Text

theorem hexDigit_injective :
    ∀ m, m < 16 → ∀ n, n < 16 → hexDigit m = hexDigit n → m = n := by decide +kernel

/-- Four hexadecimal digits stand for one unit, each for four of its sixteen bits. -/
theorem hex4_injective {u v : UInt16} (h : hex4 u = hex4 v) : u = v := by
  have hu := u.toNat_lt
  have hv := v.toNat_lt
  simp only [hex4, List.cons.injEq, and_true] at h
  obtain ⟨h₁, h₂, h₃, h₄⟩ := h
  have h₁ := hexDigit_injective _ (by omega) _ (by omega) h₁
  have h₂ := hexDigit_injective _ (by omega) _ (by omega) h₂
  have h₃ := hexDigit_injective _ (by omega) _ (by omega) h₃
  have h₄ := hexDigit_injective _ (by omega) _ (by omega) h₄
  exact UInt16.toNat_inj.mp (by omega)

end MetadataBlock.Text

namespace MetadataBlock.Json

open Text (unit doubleQuote backslash)

/-! ## Short escapes -/

/-- The unit that is meant by a unit after a backslash. -/
def ofShortEscape? (v : UInt16) : Option UInt16 :=
  if v == doubleQuote then some doubleQuote
  else if v == backslash then some backslash
  else if v == unit 'b' then some 0x08
  else if v == unit 't' then some 0x09
  else if v == unit 'n' then some 0x0A
  else if v == unit 'f' then some 0x0C
  else if v == unit 'r' then some 0x0D
  else none

/-- A short escape is a backslash and one unit, which tells what is escaped. The table of
escapes is read in the other direction, entry by entry. -/
theorem exists_of_shortEscape? {u : UInt16} {e : Text} (h : shortEscape? u = some e) :
    ∃ v, e = [backslash, v] ∧ ofShortEscape? v = some u := by
  unfold shortEscape? at h
  repeat' split at h
  all_goals cases h
  all_goals
    rename_i hu
    obtain rfl := eq_of_beq hu
    exact ⟨_, rfl, by decide⟩

/-- The quote and the backslash have short escapes. -/
theorem ne_of_shortEscape?_eq_none {u : UInt16} (h : shortEscape? u = none) :
    u ≠ doubleQuote ∧ u ≠ backslash :=
  ⟨by rintro rfl; exact absurd h (by decide), by rintro rfl; exact absurd h (by decide)⟩

/-! ## Spellings -/

/-- The spellings of one unit inside a string. -/
inductive SpellsUnit : UInt16 → Text → Prop where
  /-- The unit itself, unless it is a control character. -/
  | plain {u : UInt16} (hquote : u ≠ doubleQuote) (hslash : u ≠ backslash) (hcontrol : ¬ u < 0x20) :
    SpellsUnit u [u]
  /-- A backslash and one unit. -/
  | short {u v : UInt16} (h : ofShortEscape? v = some u) : SpellsUnit u [backslash, v]
  /-- A backslash and the number of the unit. -/
  | numeric (u : UInt16) : SpellsUnit u (unicodeEscape u)

/-- The spellings of a text, unit by unit. -/
inductive SpellsText : Text → Text → Prop where
  | nil : SpellsText [] []
  | cons {u : UInt16} {t piece s : Text} (hunit : SpellsUnit u piece) (hrest : SpellsText t s) :
      SpellsText (u :: t) (piece ++ s)

theorem spellsUnit_escapeUnit (u : UInt16) : SpellsUnit u (escapeUnit u) := by
  rw [escapeUnit]
  split
  · next hshort =>
    obtain ⟨v, rfl, hv⟩ := exists_of_shortEscape? hshort
    exact .short hv
  · next hnone =>
    obtain ⟨hquote, hslash⟩ := ne_of_shortEscape?_eq_none hnone
    split
    · exact .numeric u
    · next hplain =>
      refine .plain hquote hslash fun hcontrol => hplain ?_
      rw [decide_eq_true hcontrol, Bool.true_or, Bool.true_or]

/-- Surrogates are neither quotes nor backslashes nor control characters. -/
theorem spellsUnit_of_surrogate {u : UInt16}
    (h : (Text.isHighSurrogate u || Text.isLowSurrogate u) = true) : SpellsUnit u [u] := by
  refine .plain ?_ ?_ ?_
  · rintro rfl
    exact absurd h (by decide)
  · rintro rfl
    exact absurd h (by decide)
  · intro hcontrol
    simp only [Text.isHighSurrogate, Text.isLowSurrogate, Bool.or_eq_true, Bool.and_eq_true,
      decide_eq_true_eq, UInt16.le_iff_toNat_le, UInt16.lt_iff_toNat_lt] at h hcontrol
    simp only [UInt16.reduceToNat] at h hcontrol
    omega

/-- The inside of a string spells the text. Two surrogates that belong together are taken in
one step, and each of them spells itself. -/
theorem spellsText_escape (t : Text) : SpellsText t (escape t) := by
  fun_induction escape t with
  | case1 => exact .nil
  | case2 u =>
    rw [← List.append_nil (escapeUnit u)]
    exact .cons (spellsUnit_escapeUnit u) .nil
  | case3 u v rest hpair ih =>
    rw [Bool.and_eq_true] at hpair
    exact .cons (spellsUnit_of_surrogate (by rw [hpair.1, Bool.true_or]))
      (.cons (spellsUnit_of_surrogate (by rw [hpair.2, Bool.or_true])) ih)
  | case4 u v rest _ ih => exact .cons (spellsUnit_escapeUnit u) ih

/-! ## Reading a spelling -/

/-- A spelling begins with no quote. -/
theorem spellsUnit_ne_quote {u : UInt16} {piece s rest : Text} (h : SpellsUnit u piece) :
    piece ++ s ≠ doubleQuote :: rest := by
  cases h with
  | plain hquote _ _ => exact fun e => hquote (List.cons.inj e).1
  | short _ => exact fun e => absurd (List.cons.inj e).1 (by decide)
  | numeric => exact fun e => absurd (List.cons.inj e).1 (by decide)

/-- The spelling of the first unit is known from the whole text. The first two units of the
whole tell which of the three spellings it is, and so where it ends. -/
theorem spellsUnit_unique {u u' : UInt16} {piece piece' s s' : Text} (h : SpellsUnit u piece)
    (h' : SpellsUnit u' piece') (heq : piece ++ s = piece' ++ s') : u = u' ∧ s = s' := by
  have hescape : ofShortEscape? (unit 'u') = none := by decide
  cases h with
  | plain _ hslash _ =>
    cases h' with
    | plain => exact List.cons.inj heq
    | short => exact absurd (List.cons.inj heq).1 hslash
    | numeric => exact absurd (List.cons.inj heq).1 hslash
  | short hv =>
    cases h' with
    | plain _ hslash _ => exact absurd (List.cons.inj heq).1.symm hslash
    | short hv' =>
      obtain ⟨rfl, htail⟩ := List.cons.inj (List.cons.inj heq).2
      exact ⟨Option.some.inj (hv.symm.trans hv'), htail⟩
    | numeric =>
      -- no short escape has the unit of the numeric ones
      rw [(List.cons.inj (List.cons.inj heq).2).1, hescape] at hv
      cases hv
  | numeric =>
    cases h' with
    | plain _ hslash _ => exact absurd (List.cons.inj heq).1.symm hslash
    | short hv' =>
      rw [← (List.cons.inj (List.cons.inj heq).2).1, hescape] at hv'
      cases hv'
    | numeric =>
      obtain ⟨hdigits, htail⟩ := List.append_inj (List.cons.inj (List.cons.inj heq).2).2 rfl
      exact ⟨Text.hex4_injective hdigits, htail⟩

/-- A text that is spelled in front of a quote is known from the whole, and so is what follows
the quote. A spelled unit never begins with a quote, so both texts end at the same place. -/
theorem spellsText_unique {t t' s s' rest rest' : Text} (h : SpellsText t s)
    (h' : SpellsText t' s') (heq : s ++ doubleQuote :: rest = s' ++ doubleQuote :: rest') :
    t = t' ∧ rest = rest' := by
  induction h generalizing t' s' with
  | nil =>
    cases h' with
    | nil => exact ⟨rfl, (List.cons.inj heq).2⟩
    | cons hunit' _ =>
      rw [List.append_assoc] at heq
      exact absurd heq.symm (spellsUnit_ne_quote hunit')
  | cons hunit _ ih =>
    rw [List.append_assoc] at heq
    cases h' with
    | nil => exact absurd heq (spellsUnit_ne_quote hunit)
    | cons hunit' hrest' =>
      rw [List.append_assoc] at heq
      obtain ⟨rfl, htail⟩ := spellsUnit_unique hunit hunit' heq
      obtain ⟨rfl, hend⟩ := ih hrest' htail
      exact ⟨rfl, hend⟩

/-- A string is known from the text that it begins, and so is what follows it. -/
theorem string_append_inj {t t' rest rest' : Text}
    (heq : string t ++ rest = string t' ++ rest') : t = t' ∧ rest = rest' := by
  simp only [string, List.cons_append, List.append_assoc, List.nil_append, List.cons.injEq,
    true_and] at heq
  exact spellsText_unique (spellsText_escape t) (spellsText_escape t') heq

end MetadataBlock.Json
