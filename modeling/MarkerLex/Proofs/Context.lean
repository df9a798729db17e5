import Mathlib.Data.List.Basic
import Mathlib.Data.List.GetD
import MarkerLex.Report.Context

/-!
# The layout of a context

A context shows the lines from the third before a place to the third after it, as far as there
are such lines. All its rows have their bar below one another, wherever numbers get a digit
more, and the caret stands below the column of the place.
-/

namespace MarkerLex.Report

set_option autoImplicit false

/-- A row with a text behind its number and a bar. -/
structure NumberedRow (width number : Nat) (content row : Text) : Prop where
  written : ∃ blanks, (∀ c ∈ blanks, c = ' ') ∧
    row = blanks ++ Text.numeral number ++ [' ', '|', ' '] ++ content
  bar : row[width + 1]? = some '|'
  content : row.drop (width + 3) = content

/-- A row with one caret, so many characters behind the place where texts begin. -/
structure CaretRow (width offset : Nat) (row : Text) : Prop where
  bar : row[width + 1]? = some '|'
  caret : ∀ i, row[i]? = some '^' ↔ i = width + 3 + offset

def numberWidth (last : Nat) : Nat := (Text.numeral last).length

/-- Between separators the rows of the lines from `first` to `last`, each once and in order, and
the caret directly below that of `line`. The number of the last one takes up the whole width. -/
structure Layout (lines : List Text) (line column first last : Nat) (rows : List Text) : Prop where
  arranged : ∃ (row : Nat → Text) (caret : Text),
    rows = separatorRow (numberWidth last) ::
      ((List.range' first (line - first)).map row ++
        row line :: caret :: (List.range' (line + 1) (last - line)).map row) ++
      [separatorRow (numberWidth last)] ∧
    (∀ number, first ≤ number → number ≤ last → ∃ content, lines[number - 1]? = some content ∧
      NumberedRow (numberWidth last) number content (row number)) ∧
    CaretRow (numberWidth last) (column - 1) caret
  aligned : ∀ row ∈ rows, row[numberWidth last + 1]? = some '|'

section Rows

variable {width number : Nat} {c : Char} {front : Text}

theorem length_numeral_le {last : Nat} (h : number ≤ last) :
    (Text.numeral number).length ≤ numberWidth last := by
  have hSome : 0 < (Text.numeral last).length := Nat.length_toDigits_pos
  have hLast := (Nat.length_toDigits_le_iff (by decide) hSome).mp (Nat.le_refl _)
  exact (Nat.length_toDigits_le_iff (by decide) hSome).mpr (Nat.lt_of_le_of_lt h hLast)

theorem length_padLeft {t : Text} (h : t.length ≤ width) (fill : Char) :
    (Text.padLeft width fill t).length = width := by
  rw [Text.padLeft, List.length_append, List.length_replicate]
  exact Nat.sub_add_cancel h

theorem getElem?_behind (c : Char) (rest : Text) {i : Nat} (hi : front.length = i) :
    (front ++ c :: rest)[i]? = some c := by
  rw [List.getElem?_append_right (Nat.le_of_eq hi), hi, Nat.sub_self]
  rfl

theorem getElem?_concat_iff (hc : c ∉ front) (i : Nat) :
    (front ++ [c])[i]? = some c ↔ i = front.length := by
  constructor
  · intro hi
    by_contra hOther
    have hShort : i < (front ++ [c]).length := (List.getElem?_eq_some_iff.mp hi).1
    rw [List.length_append, List.length_singleton] at hShort
    rw [List.getElem?_append_left (by omega)] at hi
    exact hc (List.mem_of_getElem? hi)
  · rintro rfl
    exact getElem?_behind c [] rfl

theorem bar_separatorRow (width : Nat) : (separatorRow width)[width + 1]? = some '|' :=
  getElem?_behind _ _ (List.length_replicate ..)

theorem numberedRow_lineRow (h : (Text.numeral number).length ≤ width) (content : Text) :
    NumberedRow width number content (lineRow width number content) := by
  have hLength := length_padLeft h ' '
  constructor
  case written => exact ⟨_, fun c hc => List.eq_of_mem_replicate hc, rfl⟩
  case bar =>
    rw [lineRow, List.append_assoc]
    change (Text.padLeft width ' ' (Text.numeral number) ++ ' ' :: '|' :: ' ' :: content)[_]? = _
    rw [List.append_cons]
    apply getElem?_behind
    rw [List.length_append, hLength]
    rfl
  case content =>
    apply List.drop_left'
    rw [List.length_append, hLength]
    rfl

theorem caretRow_caretRow (width column : Nat) :
    CaretRow width (column - 1) (caretRow width column) := by
  constructor
  case bar =>
    rw [caretRow, List.append_assoc, List.append_assoc]
    change (List.replicate width ' ' ++ ' ' :: '|' :: ' ' :: _)[_]? = _
    rw [List.append_cons]
    apply getElem?_behind
    rw [List.length_append, List.length_replicate]
    rfl
  case caret =>
    intro i
    rw [caretRow, getElem?_concat_iff (by simp), List.length_append, List.length_append,
      List.length_replicate, List.length_replicate]
    rfl

end Rows

section Window

variable {lines : List Text} {line first last total : Nat}

theorem filter_outside {start count : Nat} (h : start + count ≤ first ∨ last < start) :
    (List.range' start count).filter (fun number => first ≤ number && number ≤ last) = [] := by
  rw [List.filter_eq_nil_iff]
  intro number hNumber
  have hBounds := List.mem_range'_1.mp hNumber
  simp only [Bool.and_eq_true, decide_eq_true_eq]
  omega

theorem filter_inside : (List.range' first (last + 1 - first)).filter
    (fun number => first ≤ number && number ≤ last) = List.range' first (last + 1 - first) := by
  rw [List.filter_eq_self]
  intro number hNumber
  have hBounds := List.mem_range'_1.mp hNumber
  simp only [Bool.and_eq_true, decide_eq_true_eq]
  omega

theorem range'_window (hFirst : 1 ≤ first) (hSpan : first ≤ last + 1) (hLast : last ≤ total) :
    List.range' 1 total = List.range' 1 (first - 1) ++
      (List.range' first (last + 1 - first) ++ List.range' (last + 1) (total - last)) := by
  have hUpper : first + (last + 1 - first) = last + 1 := by omega
  have hLower : 1 + (first - 1) = first := by omega
  have hTotal : first - 1 + (last + 1 - first + (total - last)) = total := by omega
  have hInner := List.range'_append_1 (s := first) (m := last + 1 - first) (n := total - last)
  have hOuter := List.range'_append_1 (s := 1) (m := first - 1)
    (n := last + 1 - first + (total - last))
  rw [hUpper] at hInner
  rw [hLower, hTotal] at hOuter
  rw [hInner, hOuter]

theorem zipIdx_eq_map (lines : List Text) : lines.zipIdx 1 =
    (List.range' 1 lines.length).map fun number => (lines.getD (number - 1) [], number) := by
  apply List.ext_getElem
  · simp
  · intro i hi hi'
    have hLine : i < lines.length := by simpa using hi
    simp [Nat.add_comm 1 i, hLine]

theorem filter_zipIdx (hFirst : 1 ≤ first) (hSpan : first ≤ last + 1)
    (hLast : last ≤ lines.length) :
    (lines.zipIdx 1).filter (fun (_, number) => first ≤ number && number ≤ last) =
      (List.range' first (last + 1 - first)).map
        fun number => (lines.getD (number - 1) [], number) := by
  rw [zipIdx_eq_map, List.filter_map]
  change ((List.range' 1 lines.length).filter
    fun number => first ≤ number && number ≤ last).map _ = _
  rw [range'_window hFirst hSpan hLast, List.filter_append, List.filter_append, filter_inside,
    filter_outside (.inl (by omega)), filter_outside (.inr (by omega)), List.append_nil,
    List.nil_append]

/-- Only the row of `line` has a caret below it. -/
theorem flatMap_rows {numbers : List Nat} (row : Nat → Text) (caret : Text)
    (h : line ∉ numbers) :
    (numbers.flatMap fun number => row number :: (if number = line then [caret] else [])) =
      numbers.map row := by
  induction numbers with
  | nil => rfl
  | cons number numbers ih =>
    obtain ⟨hOther, hRest⟩ := not_or.mp (mt List.mem_cons.mpr h)
    rw [List.flatMap_cons, ih hRest, if_neg (Ne.symm hOther)]
    rfl

theorem range'_around (hFirst : first ≤ line) (hLast : line ≤ last) :
    List.range' first (last + 1 - first) =
      List.range' first (line - first) ++ line :: List.range' (line + 1) (last - line) := by
  have hCount : line - first + (last - line + 1) = last + 1 - first := by omega
  have hSplit := List.range'_append_1 (s := first) (m := line - first) (n := last - line + 1)
  rw [hCount, Nat.add_sub_cancel' hFirst] at hSplit
  rw [← hSplit, List.range'_succ]

theorem context_eq {source : Text} (column : Nat) (hFirst : 1 ≤ line)
    (hLine : line ≤ (Text.lines source).length)
    (hLast : last = min (Text.lines source).length (line + 3)) :
    let row number :=
      lineRow (numberWidth last) number ((Text.lines source).getD (number - 1) [])
    context source line column = separatorRow (numberWidth last) ::
      ((List.range' (max 1 (line - 3)) (line - max 1 (line - 3))).map row ++
        row line :: caretRow (numberWidth last) column ::
          (List.range' (line + 1) (last - line)).map row) ++
      [separatorRow (numberWidth last)] := by
  subst hLast
  intro row
  let last := min (Text.lines source).length (line + 3)
  let caret := caretRow (numberWidth last) column
  have hInside : ¬ (line = 0 ∨ (Text.lines source).length < line) := by omega
  have hAbove : line ∉ List.range' (max 1 (line - 3)) (line - max 1 (line - 3)) := by
    rw [List.mem_range'_1]
    omega
  have hBelow : line ∉ List.range' (line + 1) (last - line) := by
    rw [List.mem_range'_1]
    omega
  have hNumbers :=
    range'_around (by omega : max 1 (line - 3) ≤ line) (by omega : line ≤ last)
  have hRows : context source line column = separatorRow (numberWidth last) ::
      (((Text.lines source).zipIdx 1).filter fun (_, number) =>
        max 1 (line - 3) ≤ number && number ≤ last).flatMap (fun (content, number) =>
          lineRow (numberWidth last) number content :: (if number = line then [caret] else [])) ++
      [separatorRow (numberWidth last)] := by
    rw [context, if_neg hInside]
    rfl
  have hHere : (row line :: (if line = line then [caret] else [])) = [row line, caret] := by
    rw [if_pos rfl]
  rw [hRows, filter_zipIdx (by omega) (by omega) (by omega), List.flatMap_map, hNumbers,
    List.flatMap_append, List.flatMap_cons, flatMap_rows row caret hAbove,
    flatMap_rows row caret hBelow]
  exact congrArg (fun middle => _ :: (_ ++ (middle ++ _)) ++ _) hHere

end Window

theorem layout_context {source : Text} {line : Nat} (column : Nat) (hFirst : 1 ≤ line)
    (hLine : line ≤ (Text.lines source).length) :
    Layout (Text.lines source) line column (max 1 (line - 3))
      (min (Text.lines source).length (line + 3)) (context source line column) := by
  let last := min (Text.lines source).length (line + 3)
  let row number := lineRow (numberWidth last) number ((Text.lines source).getD (number - 1) [])
  have hRows := context_eq column hFirst hLine (rfl : last = _)
  have hNumbered (number : Nat) (hSome : 1 ≤ number) (hLast : number ≤ last) :
      ∃ content, (Text.lines source)[number - 1]? = some content ∧
        NumberedRow (numberWidth last) number content (row number) := by
    have hThere : number - 1 < (Text.lines source).length := by omega
    refine ⟨_, List.getElem?_eq_getElem hThere, ?_⟩
    rw [← List.getD_eq_getElem _ [] hThere]
    exact numberedRow_lineRow (length_numeral_le hLast) _
  have hCaret := caretRow_caretRow (numberWidth last) column
  constructor
  case arranged =>
    exact ⟨row, _, hRows, fun number hSome => hNumbered number (by omega), hCaret⟩
  case aligned =>
    have hBar (number : Nat) (hSome : 1 ≤ number) (hLast : number ≤ last) :
        (row number)[numberWidth last + 1]? = some '|' := by
      obtain ⟨content, -, hRow⟩ := hNumbered number hSome hLast
      exact hRow.bar
    have hSeparator := bar_separatorRow (numberWidth last)
    rw [hRows, List.cons_append, List.forall_mem_cons, List.forall_mem_append,
      List.forall_mem_append, List.forall_mem_cons, List.forall_mem_cons, List.forall_mem_map,
      List.forall_mem_map, List.forall_mem_singleton]
    refine ⟨hSeparator, ⟨?_, hBar line hFirst (by omega), hCaret.bar, ?_⟩, hSeparator⟩
    all_goals
      intro number hNumber
      have hBounds := List.mem_range'_1.mp hNumber
      exact hBar number (by omega) (by omega)

theorem Layout.around {lines rows : List Text} {line column first last : Nat}
    (h : Layout lines line column first last rows) (hFirst : first ≤ line) (hLast : line ≤ last) :
    ∃ upper row caret lower content, rows = upper ++ row :: caret :: lower ∧
      lines[line - 1]? = some content ∧ NumberedRow (numberWidth last) line content row ∧
      CaretRow (numberWidth last) (column - 1) caret := by
  obtain ⟨row, caret, hRows, hNumbered, hCaret⟩ := h.arranged
  obtain ⟨content, hContent, hRow⟩ := hNumbered line hFirst hLast
  rw [← List.cons_append, List.append_assoc] at hRows
  exact ⟨_, _, _, _, content, hRows, hContent, hRow, hCaret⟩

/-- A context is empty where there is no line of that number. Else it shows the line between its
neighbours, and the caret below the column. -/
theorem context_layout (source : Text) (line column : Nat) :
    (context source line column = [] ↔ line = 0 ∨ (Text.lines source).length < line) ∧
    (1 ≤ line → line ≤ (Text.lines source).length →
      Layout (Text.lines source) line column (max 1 (line - 3))
        (min (Text.lines source).length (line + 3)) (context source line column)) := by
  refine ⟨?_, layout_context column⟩
  constructor
  · intro hNone
    by_contra hInside
    have hRows := context_eq column (by omega) (by omega : line ≤ (Text.lines source).length) rfl
    cases hNone.symm.trans hRows
  · intro hOutside
    rw [context]
    exact if_pos hOutside

/-- Ten lines, of which the last ones are shown with a number of two digits. -/
theorem context_layout_sample :
    1 ≤ 8 ∧ 8 ≤ (Text.lines (List.replicate 10 ['x', '\n']).flatten).length ∧
      Layout (Text.lines (List.replicate 10 ['x', '\n']).flatten) 8 1 5 10
        (context (List.replicate 10 ['x', '\n']).flatten 8 1) := by
  have hLine : 8 ≤ (Text.lines (List.replicate 10 ['x', '\n']).flatten).length := by decide
  exact ⟨by decide, hLine, (context_layout _ 8 1).2 (by decide) hLine⟩

end MarkerLex.Report
