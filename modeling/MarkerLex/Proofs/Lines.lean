import Mathlib.Data.List.Induction
import MarkerLex.Proofs.Slice
import MarkerLex.Text.Lines

/-!
# Lines and places

A line stands behind the front of a text or behind a newline, and its end belongs to it. The
lines of a text are found where they stand, and a place that is reached by reading has the number
of the line that holds it. Its column leads to the character there, unless that is part of the end.
-/

namespace MarkerLex

set_option autoImplicit false

namespace Text

/-- What stands behind the characters of a line: its end, and then `rest`. -/
inductive LineEnd (line : Text) : (ending rest : Text) → Prop
  | newline {rest : Text} (hPlain : ¬ ['\r'] <:+ line) : LineEnd line ['\n'] rest
  | pair {rest : Text} : LineEnd line ['\r', '\n'] rest
  | last (hSome : line ≠ []) : LineEnd line [] []

/-- Whether a line begins behind a text. -/
def BeforeLine (front : Text) : Prop := front = [] ∨ ['\n'] <:+ front

structure HasLine (t front line ending rest : Text) : Prop where
  text_eq : t = front ++ (line ++ (ending ++ rest))
  begins : BeforeLine front
  whole : '\n' ∉ line
  ends : LineEnd line ending rest

/-- The byte at an offset belongs to a line or to its end. -/
def LineHolds (t : Text) (offset : Nat) (line : Text) : Prop :=
  ∃ front ending rest, HasLine t front line ending rest ∧ front.byteLength ≤ offset ∧
    offset < (front ++ (line ++ ending)).byteLength

variable {t front line ending rest : Text} {c : Char}

theorem BeforeLine.tail (h : BeforeLine (c :: front)) : BeforeLine front := by
  rcases h with h | h
  · cases h
  · rcases List.suffix_cons_iff.mp h with hWhole | hLater
    · cases hWhole
      exact .inl rfl
    · exact .inr hLater

theorem BeforeLine.ne_nil (h : BeforeLine (c :: front)) (hBreak : c ≠ '\n') : front ≠ [] := by
  rintro rfl
  rcases h with h | h
  · cases h
  · rcases List.suffix_cons_iff.mp h with hWhole | hLater
    · cases hWhole
      exact hBreak rfl
    · cases List.suffix_nil.mp hLater

/-- A character that ends no line belongs to the line that goes on behind it. -/
theorem lines_cons (hBreak : c ≠ '\n') (hPair : c = '\r' → rest.head? ≠ some '\n') :
    lines (c :: rest) = match lines rest with
      | [] => [[c]]
      | line :: more => (c :: line) :: more := by
  rw [lines.eq_def]
  split
  case h_1 h => cases h
  case h_2 h => exact absurd (List.cons.inj h).1 hBreak
  case h_3 h =>
    cases h
    exact absurd rfl (hPair rfl)
  case h_4 h =>
    cases h
    rfl

theorem lines_ne_nil (hSome : t ≠ []) : lines t ≠ [] := by
  fun_cases lines t
  case case1 => exact absurd rfl hSome
  all_goals exact List.cons_ne_nil _ _

theorem lines_front_append (h : BeforeLine front) (rest : Text) :
    lines (front ++ rest) = lines front ++ lines rest := by
  fun_induction lines front with
  | case1 => rfl
  | case2 front ih => rw [List.cons_append, lines, ih h.tail, List.cons_append]
  | case3 front ih =>
    rw [List.cons_append, List.cons_append, lines, ih h.tail.tail, List.cons_append]
  | case4 c front hBreak hPair hNone =>
    exact absurd hNone (lines_ne_nil (h.ne_nil hBreak))
  | case5 c front hBreak hPair line more hLines ih =>
    obtain ⟨d, front, rfl⟩ := List.exists_cons_of_ne_nil (h.ne_nil hBreak)
    rw [List.cons_append, lines_cons hBreak, ih h.tail, hLines]
    · rfl
    · rintro rfl hd
      cases hd
      exact hPair _ rfl rfl

theorem length_lines_front (h : BeforeLine front) : (lines front).length = front.count '\n' := by
  fun_induction lines front with
  | case1 => rfl
  | case2 front ih => rw [List.length_cons, ih h.tail, List.count_cons_self]
  | case3 front ih =>
    rw [List.length_cons, ih h.tail.tail, List.count_cons_of_ne (by decide), List.count_cons_self]
  | case4 c front hBreak hPair hNone =>
    exact absurd hNone (lines_ne_nil (h.ne_nil hBreak))
  | case5 c front hBreak hPair line more hLines ih =>
    rw [List.count_cons_of_ne hBreak, ← ih h.tail, hLines]
    rfl

theorem LineEnd.of_cons (h : LineEnd (c :: line) ending rest) (hSome : line ≠ [] ∨ ending ≠ []) :
    LineEnd line ending rest := by
  cases h with
  | newline hPlain => exact .newline fun h => hPlain (h.trans (List.suffix_cons c line))
  | pair => exact .pair
  | last => exact .last (hSome.resolve_right fun hNone => hNone rfl)

theorem LineEnd.newline_mem (h : LineEnd line ending rest) (hMore : rest ≠ []) :
    '\n' ∈ ending := by
  cases h with
  | newline | pair => decide
  | last => exact absurd rfl hMore

theorem LineEnd.of_mem (h : LineEnd line ending rest) (hc : c ∈ ending) : c = '\r' ∨ c = '\n' := by
  cases h with
  | newline => exact .inr (List.mem_singleton.mp hc)
  | pair => simpa using hc
  | last => cases hc

/-- A line does not end before a character that no newline parts from its beginning. -/
theorem LineEnd.reaches {head after : Text} (h : LineEnd line ending rest) (hHead : '\n' ∉ head)
    (hText : head ++ c :: after = line ++ (ending ++ rest)) :
    ∃ more, line ++ ending = head ++ c :: more := by
  rw [← List.append_assoc] at hText
  obtain ⟨more, hMore, hAfter⟩ | ⟨late, hLate, hRest⟩ := List.append_eq_append_iff.mp hText
  · cases more with
    | cons d more =>
      cases hAfter
      exact ⟨more, hMore⟩
    | nil =>
      have hBreak := h.newline_mem (by rw [← List.nil_append rest, ← hAfter]; simp)
      rw [List.append_nil] at hMore
      exact absurd (hMore ▸ List.mem_append_right line hBreak) hHead
  · have hBreak := h.newline_mem (by simp [hRest])
    rw [hLate] at hHead
    exact absurd (List.mem_append_left late (List.mem_append_right line hBreak)) hHead

theorem LineEnd.getElem?_content {content : Text} (h : LineEnd content ending rest) {i : Nat}
    (hc : (content ++ ending)[i]? = some c) (hReturn : c ≠ '\r') (hBreak : c ≠ '\n') :
    content[i]? = some c := by
  by_cases hInside : i < content.length
  · rwa [List.getElem?_append_left hInside] at hc
  · rw [List.getElem?_append_right (Nat.le_of_not_lt hInside)] at hc
    obtain rfl | rfl := h.of_mem (List.mem_of_getElem? hc)
    · exact absurd rfl hReturn
    · exact absurd rfl hBreak

theorem lines_line_append (hWhole : '\n' ∉ line) (h : LineEnd line ending rest) :
    lines (line ++ (ending ++ rest)) = line :: lines rest := by
  induction line with
  | nil =>
    cases h with
    | newline | pair => rfl
    | last hSome => exact absurd rfl hSome
  | cons c line ih =>
    obtain ⟨hBreak, hWhole⟩ := not_or.mp (mt List.mem_cons.mpr hWhole)
    -- a carriage return is not the first half of an end, for then the line were shorter
    have hPair : c = '\r' → (line ++ (ending ++ rest)).head? ≠ some '\n' := by
      rintro rfl hNext
      cases line with
      | cons d line =>
        cases hNext
        exact hWhole (List.mem_cons_of_mem _ List.mem_cons_self)
      | nil =>
        cases h with
        | newline hPlain => exact hPlain List.suffix_rfl
        | pair | last => cases hNext
    rw [List.cons_append, lines_cons (Ne.symm hBreak) hPair]
    by_cases hSome : line ≠ [] ∨ ending ≠ []
    · rw [ih hWhole (h.of_cons hSome)]
    · obtain ⟨hLine, hEnding⟩ := not_or.mp hSome
      obtain rfl := not_not.mp hLine
      obtain rfl := not_not.mp hEnding
      cases h
      rfl

/-- A line comes after as many lines as there are newlines in front of it. -/
theorem HasLine.getElem? (h : HasLine t front line ending rest) :
    (lines t)[front.count '\n']? = some line := by
  rw [h.text_eq, lines_front_append h.begins, lines_line_append h.whole h.ends,
    ← length_lines_front h.begins, List.getElem?_append_right (Nat.le_refl _), Nat.sub_self]
  rfl

theorem exists_line (hSome : t ≠ []) : ∃ line ending rest, t = line ++ (ending ++ rest) ∧
    '\n' ∉ line ∧ LineEnd line ending rest := by
  fun_induction lines t with
  | case1 => exact absurd rfl hSome
  | case2 rest => exact ⟨[], ['\n'], rest, rfl, List.not_mem_nil, .newline (by simp)⟩
  | case3 rest => exact ⟨[], ['\r', '\n'], rest, rfl, List.not_mem_nil, .pair⟩
  | case4 c rest hBreak hPair hNone =>
    obtain rfl : rest = [] := by
      by_contra hMore
      exact lines_ne_nil hMore hNone
    exact ⟨[c], [], [], rfl, by simpa using Ne.symm hBreak, .last (List.cons_ne_nil _ _)⟩
  | case5 c rest hBreak hPair _ more hLines ih =>
    have hMore : rest ≠ [] := by
      rintro rfl
      cases hLines
    obtain ⟨line, ending, rest, rfl, hWhole, hEnd⟩ := ih hMore
    refine ⟨c :: line, ending, rest, rfl, by simpa [hWhole] using Ne.symm hBreak, ?_⟩
    cases hEnd with
    | pair => exact .pair
    | last => exact .last (List.cons_ne_nil _ _)
    | newline hPlain =>
      refine .newline fun hReturn => ?_
      rcases List.suffix_cons_iff.mp hReturn with hHere | hLater
      · cases hHere
        exact hPair _ rfl rfl
      · exact hPlain hLater

theorem exists_front (t : Text) :
    ∃ front head, t = front ++ head ∧ BeforeLine front ∧ '\n' ∉ head := by
  induction t using List.reverseRecOn with
  | nil => exact ⟨[], [], rfl, .inl rfl, List.not_mem_nil⟩
  | append_singleton t c ih =>
    by_cases hBreak : c = '\n'
    · subst hBreak
      exact ⟨t ++ ['\n'], [], (List.append_nil _).symm, .inr (List.suffix_append _ _),
        List.not_mem_nil⟩
    · obtain ⟨front, head, rfl, hFront, hHead⟩ := ih
      exact ⟨front, head ++ [c], List.append_assoc .., hFront,
        by simpa [hHead] using Ne.symm hBreak⟩

end Text

namespace Position

theorem line_advancedBy (p : Position) (t : Text) :
    (p.advancedBy t).line = p.line + t.count '\n' := by
  induction t generalizing p with
  | nil => rfl
  | cons c t ih =>
    rw [advancedBy_cons, ih, advance]
    split
    case isTrue hBreak =>
      rw [hBreak, List.count_cons_self]
      exact Nat.add_right_comm ..
    case isFalse hBreak => rw [List.count_cons_of_ne hBreak]

theorem column_advancedBy (p : Position) {t : Text} (hWhole : '\n' ∉ t) :
    (p.advancedBy t).column = p.column + t.length := by
  induction t generalizing p with
  | nil => rfl
  | cons c t ih =>
    obtain ⟨hBreak, hWhole⟩ := not_or.mp (mt List.mem_cons.mpr hWhole)
    rw [advancedBy_cons, ih _ hWhole, advance, if_neg (Ne.symm hBreak), List.length_cons]
    exact Nat.add_right_comm ..

theorem column_start_advancedBy {front : Text} (h : Text.BeforeLine front) :
    (start.advancedBy front).column = 1 := by
  rcases h with rfl | ⟨before, rfl⟩
  · rfl
  · rw [advancedBy_append]
    rfl

/-- The place behind a text counts what ends there: its lines, and the characters of the last. -/
theorem counts_start_advancedBy {front head : Text} (hFront : Text.BeforeLine front)
    (hHead : '\n' ∉ head) :
    let place := start.advancedBy (front ++ head)
    place.line - 1 = front.count '\n' ∧ place.column - 1 = head.length := by
  constructor
  · rw [line_advancedBy, List.count_append, List.count_eq_zero_of_not_mem hHead]
    exact Nat.add_sub_cancel_left ..
  · rw [advancedBy_append, column_advancedBy _ hHead, column_start_advancedBy hFront]
    exact Nat.add_sub_cancel_left ..

end Position

namespace Text

/-- Reading the text before a character leads to the line that holds it. -/
theorem exists_line_at (before after : Text) (c : Char) :
    let place := Position.start.advancedBy before
    ∃ content, (lines (before ++ c :: after))[place.line - 1]? = some content ∧
      LineHolds (before ++ c :: after) place.byteOffset content ∧
      (c ≠ '\r' → c ≠ '\n' → content[place.column - 1]? = some c) := by
  intro place
  obtain ⟨front, head, rfl, hFront, hHead⟩ := exists_front before
  obtain ⟨line, ending, rest, hText, hWhole, hEnd⟩ :=
    exists_line (t := head ++ c :: after) (by simp)
  have hLine : HasLine (front ++ head ++ c :: after) front line ending rest :=
    ⟨by rw [List.append_assoc, hText], hFront, hWhole, hEnd⟩
  obtain ⟨more, hMore⟩ := hEnd.reaches hHead hText
  obtain ⟨hNumber, hColumn⟩ := Position.counts_start_advancedBy hFront hHead
  have hOffset : place.byteOffset = front.byteLength + head.byteLength := by
    rw [Position.byteOffset_start_advancedBy, byteLength_append]
  refine ⟨line, ?_, ⟨front, ending, rest, hLine, ?_, ?_⟩, ?_⟩
  · rw [hNumber]
    exact hLine.getElem?
  · omega
  · have hSize := c.utf8Size_pos
    rw [hOffset, byteLength_append, hMore, byteLength_append, byteLength]
    omega
  · rw [hColumn]
    apply hEnd.getElem?_content
    rw [hMore, List.getElem?_append_right (Nat.le_refl _), Nat.sub_self]
    rfl

end Text

end MarkerLex
