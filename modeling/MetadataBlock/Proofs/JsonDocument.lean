import MetadataBlock.Proofs.JsonText

/-!
# What is laid out is a JSON document

`Data.jsonPretty` gives a JSON document of its data. The grammar here says what that is
without the layout: blanks may stand between any two tokens, a field that is absent is left
out, and the fields of an object may come in any order.

- `Blank`, `Separated`: white space, and parts between brackets with commas between them;
- `Spells`: the JSON documents of data;
- `exists_separated_layOutLines`: a layout over several lines separates its parts;
- `spells_jsonLines`, `spells_jsonPretty`: the layout spells its data.
-/

namespace MetadataBlock.Json

open Text (doubleQuote)

/-! ## The grammar -/

/-- White space between tokens. -/
def Blank (t : Text) : Prop :=
  ∀ u ∈ t, u = 0x20 ∨ u = 0x09 ∨ u = 0x0A ∨ u = 0x0D

/-- Parts with commas between them, and with white space around each. -/
inductive Separated : List Text → Text → Prop
  | none {s : Text} (hblank : Blank s) : Separated [] s
  | last {part before after : Text} (hbefore : Blank before) (hafter : Blank after) :
    Separated [part] (before ++ part ++ after)
  | more {part before after s : Text} {parts : List Text} (hbefore : Blank before)
    (hafter : Blank after) (hparts : parts ≠ []) (hrest : Separated parts s) :
    Separated (part :: parts) (before ++ part ++ after ++ "," ++ s)

/-- The JSON strings of a text. -/
def SpellsString (t s : Text) : Prop :=
  ∃ inside, SpellsText t inside ∧ s = doubleQuote :: inside ++ [doubleQuote]

mutual

/-- The JSON documents of data. A number that no other integer rounds to is its numeral; what
has no notation is written as null, or as an object without fields. -/
inductive Spells : Data → Text → Prop
  | absent : Spells .absent "null"
  | null : Spells .null "null"
  | yes : Spells (.bool true) "true"
  | no : Spells (.bool false) "false"
  | whole {n : Int} (hsafe : n.natAbs ≤ Number.maxSafe) : Spells (.number (.whole n)) (Text.ofInt n)
  | number {x : Number} (hother : ∀ n, x = .whole n → Number.maxSafe < n.natAbs) :
    Spells (.number x) (number x)
  | integer {n : Int} : Spells (.integer n) (Text.ofInt n)
  | date {ms : Number} {m : Moment} {s : Text} (hmoment : Moment.ofNumber? ms = some m)
    (hstring : SpellsString m.isoText s) : Spells (.date ms) s
  | noDate {ms : Number} (hmoment : Moment.ofNumber? ms = none) : Spells (.date ms) "null"
  | text {t s : Text} (hstring : SpellsString t s) : Spells (.text t) s
  | list {items : List Data} {parts : List Text} {s : Text} (hitems : SpellsItems items parts)
    (hlayout : Separated parts s) : Spells (.list items) ("[" ++ s ++ "]")
  | object {fields : List (Text × Data)} {parts ordered : List Text} {s : Text}
    (hfields : SpellsFields fields parts) (horder : ordered.Perm parts)
    (hlayout : Separated ordered s) : Spells (.object fields) ("\x7b" ++ s ++ "\x7d")
  | set {members : List Data} : Spells (.set members) "\x7b\x7d"

inductive SpellsItems : List Data → List Text → Prop
  | nil : SpellsItems [] []
  | cons {item : Data} {items : List Data} {part : Text} {parts : List Text}
    (hitem : Spells item part) (hrest : SpellsItems items parts) :
    SpellsItems (item :: items) (part :: parts)

/-- The parts of an object: the name and the value of each field that is present. -/
inductive SpellsFields : List (Text × Data) → List Text → Prop
  | nil : SpellsFields [] []
  | absent {name : Text} {fields : List (Text × Data)} {parts : List Text}
    (hrest : SpellsFields fields parts) : SpellsFields ((name, .absent) :: fields) parts
  | cons {name spelled before after part : Text} {value : Data} {fields : List (Text × Data)}
    {parts : List Text} (hpresent : value.isPresent = true) (hname : SpellsString name spelled)
    (hbefore : Blank before) (hafter : Blank after) (hvalue : Spells value part)
    (hrest : SpellsFields fields parts) :
    SpellsFields ((name, value) :: fields) ((spelled ++ before ++ ":" ++ after ++ part) :: parts)

end

theorem spellsString_string (t : Text) : SpellsString t (string t) :=
  ⟨escape t, spellsText_escape t, rfl⟩

/-! ## Layouts -/

theorem blank_nil : Blank [] := List.forall_mem_nil _

theorem blank_lineBreak (level : Nat) : Blank (Data.lineBreak level) := by
  refine List.forall_mem_cons.mpr ⟨.inr (.inr (.inl rfl)), fun u hu => .inl ?_⟩
  exact List.eq_of_mem_replicate hu

/-- Parts on lines of their own. The induction is on the parts; what separates two of them is a
comma and the beginning of the next line. -/
theorem separated_joinWith {first last : Text} (hfirst : Blank first) (hlast : Blank last)
    {parts : List Text} (hparts : parts ≠ []) :
    Separated parts (first ++ Text.joinWith ("," ++ first) parts ++ last) := by
  induction parts with
  | nil => exact absurd rfl hparts
  | cons part parts ih =>
    cases parts with
    | nil =>
      have hlines : Separated [part] (first ++ part ++ last) := .last hfirst hlast
      simpa [Text.joinWith] using hlines
    | cons next parts =>
      have hne := List.cons_ne_nil next parts
      have hlines : Separated (part :: next :: parts) _ := .more hfirst blank_nil hne (ih hne)
      simpa [Text.joinWith, List.intercalate] using hlines

/-- What stands between the brackets of a layout. Without parts there is nothing between them,
and no line is broken. -/
theorem exists_separated_layOutLines (opening closing : Text) (level : Nat) (parts : List Text) :
    ∃ s, Data.layOutLines opening closing level parts = opening ++ s ++ closing
      ∧ Separated parts s := by
  rw [Data.layOutLines]
  cases parts with
  | nil => exact ⟨[], by simp, .none blank_nil⟩
  | cons part parts =>
    refine ⟨_, ?_, separated_joinWith (blank_lineBreak (level + 1)) (blank_lineBreak level)
      (List.cons_ne_nil part parts)⟩
    simp

/-! ## Data -/

/-- The text of a field in a layout. -/
def fieldText (field : Text × Text) : Text :=
  string field.1 ++ ": " ++ field.2

/-- A number is written as its numeral. That of a safe integer is spelled out; for the others
the numeral is the one that `number` gives. -/
theorem spells_number (x : Number) : Spells (.number x) (number x) := by
  by_cases hsafe : ∃ n, x = .whole n ∧ n.natAbs ≤ Number.maxSafe
  · obtain ⟨n, rfl, hn⟩ := hsafe
    have htext : number (.whole n) = Text.ofInt n := by
      rw [number, Number.text, if_pos hn]
      all_goals nofun
    rw [htext]
    exact .whole hn
  · refine .number fun n hx => ?_
    exact Nat.lt_of_not_le fun hle => hsafe ⟨n, hx, hle⟩

/-- A date is written as the text of its moment, and as null if there is none. -/
theorem spells_date (ms : Number) : Spells (.date ms) (Data.json (.date ms)) := by
  rw [Data.json]
  cases hmoment : Moment.ofNumber? ms with
  | none => exact .noDate hmoment
  | some m => exact .date hmoment (spellsString_string m.isoText)

/-- A field that is present stands in front of the others. -/
theorem jsonLinesFields_cons {level : Nat} {name : Text} {value : Data}
    (h : value.isPresent = true) (rest : List (Text × Data)) :
    Data.jsonLinesFields level ((name, value) :: rest)
      = (name, value.jsonLines level) :: Data.jsonLinesFields level rest := by
  rw [Data.jsonLinesFields]
  rintro rfl
  cases h

mutual

/-- The text of data over several lines is one of its documents, at every indentation. The
induction goes along the data as the layout does; a list or an object is laid out around the
documents of its parts. -/
theorem spells_jsonLines (level : Nat) : ∀ d : Data, Spells d (d.jsonLines level)
  | .absent => .absent
  | .null => .null
  | .bool true => .yes
  | .bool false => .no
  | .number x => spells_number x
  | .integer _ => .integer
  | .date ms => spells_date ms
  | .text t => .text (spellsString_string t)
  | .list items => by
    obtain ⟨s, hlines, hlayout⟩ :=
      exists_separated_layOutLines "[" "]" level (Data.jsonLinesItems (level + 1) items)
    rw [Data.jsonLines, hlines]
    exact .list (spellsItems_jsonLinesItems (level + 1) items) hlayout
  | .object fields => by
    obtain ⟨s, hlines, hlayout⟩ := exists_separated_layOutLines "\x7b" "\x7d" level
      ((orderFields (Data.jsonLinesFields (level + 1) fields)).map fieldText)
    have horder := (perm_orderFields (Data.jsonLinesFields (level + 1) fields)).map fieldText
    have htext : Data.jsonLines level (.object fields) = "\x7b" ++ s ++ "\x7d" := by
      rw [← hlines, Data.jsonLines]
      rfl
    rw [htext]
    exact .object (spellsFields_jsonLinesFields (level + 1) fields) horder hlayout
  | .set _ => .set

theorem spellsItems_jsonLinesItems (level : Nat) :
    ∀ items : List Data, SpellsItems items (Data.jsonLinesItems level items)
  | [] => .nil
  | item :: rest => .cons (spells_jsonLines level item) (spellsItems_jsonLinesItems level rest)

/-- The fields of an object in their own order, without those that are absent. -/
theorem spellsFields_jsonLinesFields (level : Nat) : ∀ fields : List (Text × Data),
    SpellsFields fields ((Data.jsonLinesFields level fields).map fieldText)
  | [] => .nil
  | (name, value) :: rest => by
    have hrest := spellsFields_jsonLinesFields level rest
    have hvalue := spells_jsonLines level value
    cases hpresent : value.isPresent with
    | false =>
      have habsent : value = .absent := by
        cases value <;> first | rfl | cases hpresent
      rw [habsent]
      exact .absent hrest
    | true =>
      rw [jsonLinesFields_cons hpresent, List.map_cons]
      have hblank : Blank [Text.space] := List.forall_mem_singleton.mpr (.inl rfl)
      have hfield := SpellsFields.cons hpresent (spellsString_string name) blank_nil hblank hvalue hrest
      rwa [List.append_nil, List.append_assoc (string name)] at hfield

end

/-- The text of data with one item per line is one of its documents. -/
theorem spells_jsonPretty (d : Data) : Spells d d.jsonPretty :=
  spells_jsonLines 0 d

end MetadataBlock.Json
