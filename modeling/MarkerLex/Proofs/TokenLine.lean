import MarkerLex.Proofs.Json.Values
import MarkerLex.Proofs.Quoting
import MarkerLex.Report.TokenLine

/-!
# What a token line tells

The line of a token gives away its categories, its text and the line and column of its place,
whatever a string is named: the bare quote that opens the text is found first, and the numbers
stand directly before it. A name is the only part that can bring a line end into a token line,
and only where it is written as it is.
-/

namespace MarkerLex

set_option autoImplicit false

namespace Text

theorem mem_joined {c : Char} {separator : Text} {items : List Text}
    (h : c ∈ Text.joined separator items) : c ∈ separator ∨ ∃ item ∈ items, c ∈ item := by
  induction items with
  | nil => cases h
  | cons first rest ih =>
    cases rest with
    | nil => exact .inr ⟨first, List.mem_cons_self .., h⟩
    | cons second rest =>
      rw [Text.joined_cons_cons, List.mem_append, List.mem_append] at h
      obtain (h | h) | h := h
      · exact .inr ⟨first, List.mem_cons_self .., h⟩
      · exact .inl h
      · obtain h | ⟨item, hItem, h⟩ := ih h
        · exact .inl h
        · exact .inr ⟨item, List.mem_cons_of_mem _ hItem, h⟩

end Text

namespace Json

theorem newline_notMem_writtenChar (c : Char) : '\n' ∉ writtenChar c := by
  obtain ⟨d, hWritten, hShort⟩ | ⟨-, hWritten⟩ | ⟨-, -, hPlain, hWritten⟩ := writtenChar_cases c
  · rw [hWritten, List.mem_cons, List.mem_singleton]
    rintro (h | rfl)
    · cases h
    · cases hShort
  · have hDigits := Text.notMem_hexNumeral (c := '\n') (by decide) c.toNat
    rw [hWritten]
    simp [controlDigits, Text.padLeft, hDigits]
  · rw [hWritten, List.mem_singleton]
    rintro rfl
    exact hPlain (by decide)

theorem newline_notMem_string (t : Text) : '\n' ∉ string t :=
  Text.newline_notMem_between newline_notMem_writtenChar t

theorem newline_of_mem_list {items : List Text} (h : '\n' ∈ Compact.list items) :
    ∃ item ∈ items, '\n' ∈ item := by
  rw [Compact.list, List.mem_cons, List.mem_append, List.mem_singleton] at h
  obtain h | h | h := h
  · cases h
  · obtain h | h := Text.mem_joined h
    · cases List.mem_singleton.mp h
    · exact h
  · cases h

theorem newline_of_mem_map {members : List (Text × Text)} (h : '\n' ∈ Compact.map members) :
    ∃ key value, (key, value) ∈ members ∧ '\n' ∈ value := by
  rw [Compact.map, List.mem_cons, List.mem_append, List.mem_singleton] at h
  obtain h | h | h := h
  · cases h
  · obtain h | ⟨item, hItem, h⟩ := Text.mem_joined h
    · cases List.mem_singleton.mp h
    · obtain ⟨⟨key, value⟩, hMember, rfl⟩ := List.mem_map.mp hItem
      rw [List.mem_append, List.mem_cons] at h
      obtain h | h | h := h
      · exact absurd h (newline_notMem_string key)
      · cases h
      · exact ⟨key, value, hMember, h⟩
  · cases h

end Json

namespace Token

variable {t u : Token}

/-- A label holds a bar exactly when a name stands behind it. -/
theorem label_cases (t : Token) :
    ((∀ name, t.kind ≠ .string (some name)) ∧ t.categories.map Category.name = [t.label] ∧
      '|' ∉ t.label ∧ '\n' ∉ t.label) ∨
    ∃ name, t.kind = .string (some name) ∧
      t.categories.map Category.name = [Category.string.name, name] ∧
      t.label = Category.string.name ++ '|' :: name := by
  obtain ⟨kind, text, start⟩ := t
  cases kind with
  | term =>
    have hLabel : label ⟨.term, text, start⟩ = Category.term.name := rfl
    exact .inl ⟨nofun, rfl, hLabel ▸ by decide, hLabel ▸ by decide⟩
  | comment =>
    have hLabel : label ⟨.comment, text, start⟩ = Category.comment.name := rfl
    exact .inl ⟨nofun, rfl, hLabel ▸ by decide, hLabel ▸ by decide⟩
  | string name =>
    cases name with
    | none =>
      have hLabel : label ⟨.string none, text, start⟩ = Category.string.name := rfl
      exact .inl ⟨nofun, rfl, hLabel ▸ by decide, hLabel ▸ by decide⟩
    | some name => exact .inr ⟨name, rfl, rfl, rfl⟩

theorem names_of_label (h : t.label = u.label) :
    t.categories.map Category.name = u.categories.map Category.name := by
  obtain ⟨-, ht, htBar, -⟩ | ⟨name, -, ht, htLabel⟩ := label_cases t
  · obtain ⟨-, hu, -⟩ | ⟨name, -, -, huLabel⟩ := label_cases u
    · rw [ht, hu, h]
    · exact absurd (List.mem_append_right _ (List.mem_cons_self ..)) (huLabel ▸ h ▸ htBar)
  · obtain ⟨-, -, huBar, -⟩ | ⟨name', -, hu, huLabel⟩ := label_cases u
    · exact absurd (List.mem_append_right _ (List.mem_cons_self ..)) (htLabel ▸ h.symm ▸ huBar)
    · rw [htLabel, huLabel] at h
      have hName := List.tail_eq_of_cons_eq (List.append_cancel_left h)
      rw [ht, hu, hName]

theorem newline_mem_label (t : Token) :
    '\n' ∈ t.label ↔ ∃ name, t.kind = .string (some name) ∧ '\n' ∈ name := by
  obtain ⟨hKind, -, -, hNone⟩ | ⟨name, hKind, -, hLabel⟩ := label_cases t
  · constructor
    · intro h
      exact absurd h hNone
    · rintro ⟨name, h, -⟩
      exact absurd h (hKind name)
  · rw [hLabel, List.mem_append, List.mem_cons]
    constructor
    · rintro (h | h | h)
      · exact absurd h (by decide)
      · cases h
      · exact ⟨name, hKind, h⟩
    · rintro ⟨name', h, hMem⟩
      cases hKind.symm.trans h
      exact .inr (.inr hMem)

end Token

namespace Report

variable {t u : Token}

/-- What stands in a token line before the quoted text. -/
def placed (t : Token) : Text :=
  t.label ++ [' '] ++ ' ' :: Text.numeral t.start.line ++ ':' :: Text.numeral t.start.column ++
    [' ', ' ']

theorem textLine_eq (t : Token) :
    textLine t = placed t ++ '"' :: t.text.flatMap (Text.quotedChar '"') ++ ['"'] := by
  simp [textLine, placed, Text.quoted]

theorem getLast?_placed (t : Token) : (placed t).getLast? = some ' ' := by
  rw [placed, List.getLast?_append]
  rfl

theorem placed_inj (h : placed t = placed u) :
    t.label = u.label ∧ t.start.line = u.start.line ∧ t.start.column = u.start.column := by
  have hColon := Text.notMem_numeral (c := ':') (by decide)
  have hBlank := Text.notMem_numeral (c := ' ') (by decide)
  -- The numbers hold neither blanks nor colons, so they are cut off from the end.
  obtain ⟨hLine, hColumn⟩ := Text.parted_last (hColon _) (hColon _) (List.append_cancel_right h)
  obtain ⟨hLabel, hLine⟩ := Text.parted_last (hBlank _) (hBlank _) hLine
  exact ⟨List.append_cancel_right hLabel, Text.numeral_inj hLine, Text.numeral_inj hColumn⟩

/-- Two tokens have the same line exactly when they agree in their categories, in their text and in
the place that is shown. -/
theorem textLine_eq_iff (t u : Token) : textLine t = textLine u ↔
    t.categories.map Category.name = u.categories.map Category.name ∧ t.text = u.text ∧
      t.start.line = u.start.line ∧ t.start.column = u.start.column := by
  constructor
  · intro h
    rw [textLine_eq, textLine_eq] at h
    have hBare (v : Token) : (placed v).getLast? ≠ some '\\' := by
      rw [getLast?_placed]
      decide
    obtain ⟨hPlaced, hBody⟩ := Text.QuotesEscaped.parted_bare (.body t.text) (.body u.text)
      (hBare t) (hBare u) (List.append_cancel_right h)
    obtain ⟨hLabel, hLine, hColumn⟩ := placed_inj hPlaced
    exact ⟨Token.names_of_label hLabel, Text.quotedBody_inj hBody, hLine, hColumn⟩
  · rintro ⟨hNames, hText, hLine, hColumn⟩
    rw [textLine, textLine, Token.label, Token.label, hNames, hText, hLine, hColumn]

/-! Line ends in token lines. -/

theorem newline_mem_textLine (t : Token) :
    '\n' ∈ textLine t ↔ ∃ name, t.kind = .string (some name) ∧ '\n' ∈ name := by
  have hNumeral := Text.notMem_numeral (c := '\n') (by decide)
  have hQuoted := Text.newline_notMem_quoted t.text
  rw [← Token.newline_mem_label]
  simp [textLine, hNumeral, hQuoted]

theorem newline_notMem_jsonLine (t : Token) : '\n' ∉ jsonLine t := by
  intro h
  obtain ⟨key, value, hMember, h⟩ := Json.newline_of_mem_map h
  simp only [List.mem_cons, Prod.mk.injEq, List.not_mem_nil, or_false] at hMember
  have hNumeral := Text.notMem_numeral (c := '\n') (by decide)
  obtain ⟨-, rfl⟩ | ⟨-, rfl⟩ | ⟨-, rfl⟩ | ⟨-, rfl⟩ | ⟨-, rfl⟩ := hMember
  · obtain ⟨item, hItem, h⟩ := Json.newline_of_mem_list h
    obtain ⟨category, -, rfl⟩ := List.mem_map.mp hItem
    exact Json.newline_notMem_string _ h
  · exact Json.newline_notMem_string _ h
  · exact hNumeral _ h
  · exact hNumeral _ h
  · exact hNumeral _ h

end Report

end MarkerLex
