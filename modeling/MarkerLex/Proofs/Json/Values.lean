import MarkerLex.Json.Printer
import MarkerLex.Json.Schema

/-!
# Written values are read back

A reader gives a value for its written form wherever that form stands, behind any blanks, and
leaves the cursor behind it. Strings are given back whatever characters they hold.
-/

namespace MarkerLex.Json

set_option autoImplicit false

/-- Behind blanks the reader takes exactly `written` and gives `a` for it. -/
def Gives {α : Type} (read : Cursor → Reading α) (written : Text) (a : α) : Prop :=
  ∀ (cur : Cursor) (blanks rest : Text), (∀ c ∈ blanks, Cursor.isBlank c = true) →
    cur.rest = blanks ++ (written ++ rest) → ∃ next, read cur = .ok (a, next) ∧ next.rest = rest

theorem Gives.map {α β : Type} {read : Cursor → Reading α} {written : Text} {a : α}
    (h : Gives read written a) (f : α → β) :
    Gives (fun cur => (read cur).map fun (a, cur) => (f a, cur)) written (f a) := by
  intro cur blanks rest hBlanks hRest
  obtain ⟨next, hRead, hNext⟩ := h cur blanks rest hBlanks hRest
  exact ⟨next, congrArg (Except.map _) hRead, hNext⟩

theorem document_of_gives {α : Type} {read : Cursor → Reading α} {t : Text} {a : α}
    (h : Gives read t a) : document read t = .ok a := by
  obtain ⟨next, hRead, hNext⟩ := h (.ofText t) [] [] (by simp) (by simp [Cursor.ofText])
  have hEnd : next.skipBlanks.rest = [] := by
    rw [Cursor.skipBlanks]
    split
    · exact hNext
    · simp_all
  simp [document, hRead, hEnd, bind, Except.bind, pure, Except.pure]

namespace Cursor

variable {cur : Cursor} {blanks rest : Text} {c : Char}

theorem skipBlanks_rest (hBlanks : ∀ c ∈ blanks, isBlank c = true)
    (hRest : cur.rest = blanks ++ c :: rest) (hSolid : isBlank c = false) :
    cur.skipBlanks.rest = c :: rest := by
  induction blanks generalizing cur with
  | nil =>
    rw [List.nil_append] at hRest
    rw [skipBlanks]
    split
    · simp_all
    · simp_all
  | cons b blanks ih =>
    obtain ⟨hBlank, hBlanks⟩ := List.forall_mem_cons.mp hBlanks
    rw [skipBlanks]
    split
    case h_1 hEmpty => simp_all
    case h_2 d more hFront =>
      rw [hRest, List.cons_append, List.cons.injEq] at hFront
      obtain ⟨rfl, -⟩ := hFront
      rw [if_pos hBlank]
      apply ih hBlanks
      rw [advance_rest, hRest]
      rfl

theorem valueStart_eq (hBlanks : ∀ c ∈ blanks, isBlank c = true)
    (hRest : cur.rest = blanks ++ c :: rest) (hSolid : isBlank c = false) :
    ∃ start, cur.valueStart = .ok (c, start) ∧ start.rest = c :: rest := by
  have hStart := skipBlanks_rest hBlanks hRest hSolid
  refine ⟨cur.skipBlanks, ?_, hStart⟩
  rw [valueStart]
  simp only [hStart]

theorem word_eq (letters : Text) (hRest : cur.rest = letters ++ rest) :
    ∃ next, word letters cur = .ok next ∧ next.rest = rest := by
  induction letters generalizing cur with
  | nil => exact ⟨cur, rfl, hRest⟩
  | cons letter letters ih =>
    rw [List.cons_append] at hRest
    rw [word, hRest]
    simp only [if_true]
    apply ih
    rw [advance_rest, hRest]
    rfl

/-- The word that a value begins with is read on behind its first letter. -/
theorem word_behind (letters : Text) (hRest : cur.rest = c :: (letters ++ rest)) :
    ∃ next, word letters cur.advance = .ok next ∧ next.rest = rest := by
  apply word_eq
  rw [advance_rest, hRest]
  rfl

end Cursor

/-! The three ways in which a character of a string is written. -/

theorem writtenChar_cases (c : Char) :
    (∃ d, writtenChar c = ['\\', d] ∧ shortEscape? d = some c) ∨
    (c.toNat < 0x20 ∧ writtenChar c = ['\\', 'u', '0', '0'] ++ controlDigits c) ∨
    (c ≠ '"' ∧ c ≠ '\\' ∧ ¬ c.toNat < 0x20 ∧ writtenChar c = [c]) := by
  rw [writtenChar]
  split
  · exact .inl ⟨'"', rfl, by subst c; rfl⟩
  split
  · exact .inl ⟨'\\', rfl, by subst c; rfl⟩
  split
  · exact .inl ⟨'b', rfl, by subst c; rfl⟩
  split
  · exact .inl ⟨'f', rfl, by subst c; rfl⟩
  split
  · exact .inl ⟨'n', rfl, by subst c; rfl⟩
  split
  · exact .inl ⟨'r', rfl, by subst c; rfl⟩
  split
  · exact .inl ⟨'t', rfl, by subst c; rfl⟩
  split
  · exact .inr (.inl ⟨‹_›, rfl⟩)
  · exact .inr (.inr ⟨‹_›, ‹_›, ‹_›, rfl⟩)

/-- A control character is written with two hexadecimal digits, and these give it back. -/
theorem hexQuad?_control : ∀ n < 0x20,
    Text.padLeft 2 '0' (Text.hexNumeral n) = [Nat.digitChar (n / 16), Nat.digitChar (n % 16)] ∧
      (Nat.digitChar (n / 16)).utf8Size = 1 ∧ (Nat.digitChar (n % 16)).utf8Size = 1 ∧
      hexQuad? '0' '0' (Nat.digitChar (n / 16)) (Nat.digitChar (n % 16)) = some n := by
  decide

namespace Cursor

variable {cur : Cursor} {rest : Text}

theorem escape_short {c d : Char} (hRest : cur.rest = d :: rest) (hShort : shortEscape? d = some c) :
    cur.escape = .ok (c, cur.advance) := by
  rw [escape]
  simp only [hRest, hShort]

theorem hexQuad_eq {a b c d : Char} {n : Nat} (hRest : cur.rest = a :: b :: c :: d :: rest)
    (hWide : 4 ≤ Text.byteLength [a, b, c, d]) (hQuad : hexQuad? a b c d = some n) :
    ∃ next, cur.hexQuad = .ok (n, next) ∧ next.rest = rest := by
  refine ⟨⟨rest, cur.line, cur.column + 4⟩, ?_, rfl⟩
  have hFront : cur.rest.take 4 = [a, b, c, d] := by rw [hRest]; rfl
  rw [hexQuad, if_neg (by rw [hFront]; omega)]
  simp only [hRest, hQuad]

theorem escape_control {c : Char} (hControl : c.toNat < 0x20)
    (hRest : cur.rest = ['u', '0', '0'] ++ controlDigits c ++ rest) :
    ∃ next, cur.escape = .ok (c, next) ∧ next.rest = rest := by
  obtain ⟨hDigits, ha, hb, hQuad⟩ := hexQuad?_control c.toNat hControl
  generalize Nat.digitChar (c.toNat / 16) = a, Nat.digitChar (c.toNat % 16) = b at *
  have hDigits : controlDigits c = [a, b] := hDigits
  have hRest : cur.rest = 'u' :: '0' :: '0' :: a :: b :: rest := by rw [hRest, hDigits]; rfl
  have hAdvanced : cur.advance.rest = '0' :: '0' :: a :: b :: rest := by
    rw [advance_rest, hRest, List.tail_cons]
  have hWide : 4 ≤ Text.byteLength ['0', '0', a, b] := by
    simp only [Text.byteLength, ha, hb]
    decide
  obtain ⟨next, hRead, hNext⟩ := hexQuad_eq hAdvanced hWide hQuad
  refine ⟨next, ?_, hNext⟩
  have hNone : shortEscape? 'u' = none := by decide
  rw [escape]
  simp only [hRest, hNone, if_true]
  rw [numberEscape, hRead]
  simp only
  rw [if_neg (by omega), if_pos (by omega), Char.ofNat_toNat]

theorem stringBody_plain {c : Char} (hRest : cur.rest = c :: rest) (hQuote : c ≠ '"')
    (hSlash : c ≠ '\\') (hShown : ¬ c.toNat < 0x20) :
    cur.stringBody = cur.advance.stringBody.map fun (t, cur) => (c :: t, cur) := by
  rw [stringBody]
  split
  case h_1 hEmpty => cases hRest.symm.trans hEmpty
  case h_2 d more hFront =>
    cases hRest.symm.trans hFront
    rw [if_neg hQuote, if_neg hSlash, if_neg hShown]

theorem stringBody_escape {c : Char} {next : Cursor} (hRest : cur.rest = '\\' :: rest)
    (hEscape : cur.advance.escape = .ok (c, next)) :
    cur.stringBody = next.stringBody.map fun (t, cur) => (c :: t, cur) := by
  rw [stringBody]
  split
  case h_1 hEmpty => cases hRest.symm.trans hEmpty
  case h_2 d more hFront =>
    cases hRest.symm.trans hFront
    rw [if_neg (by decide), if_pos rfl]
    split
    case h_1 f hFault => cases hEscape.symm.trans hFault
    case h_2 plain last hRead =>
      cases hEscape.symm.trans hRead
      rfl

theorem stringBody_quote (hRest : cur.rest = '"' :: rest) :
    cur.stringBody = .ok ([], cur.advance) := by
  rw [stringBody]
  split
  case h_1 hEmpty => cases hRest.symm.trans hEmpty
  case h_2 d more hFront =>
    cases hRest.symm.trans hFront
    rw [if_pos rfl]

/-- A written character is given back, and reading goes on behind it. -/
theorem stringBody_written (c : Char) (hRest : cur.rest = writtenChar c ++ rest) :
    ∃ next : Cursor, next.rest = rest ∧
      cur.stringBody = next.stringBody.map fun (t, cur) => (c :: t, cur) := by
  rcases writtenChar_cases c with
    ⟨d, hForm, hShort⟩ | ⟨hControl, hForm⟩ | ⟨hQuote, hSlash, hShown, hForm⟩
  · rw [hForm] at hRest
    have hAdvanced : cur.advance.rest = d :: rest := by
      rw [advance_rest, hRest]
      rfl
    refine ⟨cur.advance.advance, ?_, stringBody_escape hRest (escape_short hAdvanced hShort)⟩
    rw [advance_rest, hAdvanced, List.tail_cons]
  · rw [hForm] at hRest
    have hAdvanced : cur.advance.rest = ['u', '0', '0'] ++ controlDigits c ++ rest := by
      rw [advance_rest, hRest]
      rfl
    obtain ⟨next, hEscape, hNext⟩ := escape_control hControl hAdvanced
    exact ⟨next, hNext, stringBody_escape hRest hEscape⟩
  · rw [hForm] at hRest
    refine ⟨cur.advance, ?_, stringBody_plain hRest hQuote hSlash hShown⟩
    rw [advance_rest, hRest]
    rfl

theorem stringBody_eq (t : Text) (hRest : cur.rest = t.flatMap writtenChar ++ '"' :: rest) :
    ∃ next, cur.stringBody = .ok (t, next) ∧ next.rest = rest := by
  induction t generalizing cur with
  | nil =>
    refine ⟨cur.advance, stringBody_quote hRest, ?_⟩
    rw [advance_rest, hRest]
    rfl
  | cons c t ih =>
    rw [List.flatMap_cons, List.append_assoc] at hRest
    obtain ⟨middle, hMiddle, hRead⟩ := stringBody_written c hRest
    obtain ⟨next, hBody, hNext⟩ := ih hMiddle
    refine ⟨next, ?_, hNext⟩
    rw [hRead, hBody]
    rfl

end Cursor

theorem string_append (t rest : Text) :
    string t ++ rest = '"' :: (t.flatMap writtenChar ++ '"' :: rest) := by
  simp [string]

theorem gives_text (t : Text) : Gives Cursor.text (string t) t := by
  intro cur blanks rest hBlanks hRest
  rw [string_append] at hRest
  obtain ⟨start, hValue, hStart⟩ := Cursor.valueStart_eq hBlanks hRest (by decide)
  have hBody : start.advance.rest = t.flatMap writtenChar ++ '"' :: rest := by
    rw [Cursor.advance_rest, hStart, List.tail_cons]
  obtain ⟨next, hRead, hNext⟩ := Cursor.stringBody_eq t hBody
  refine ⟨next, ?_, hNext⟩
  rw [Cursor.text, hValue]
  exact hRead

theorem gives_text? (t : Text) : Gives Cursor.text? (string t) (some t) := by
  intro cur blanks rest hBlanks hRest
  have hWhole := hRest
  rw [string_append] at hRest
  obtain ⟨start, hValue, hStart⟩ := Cursor.valueStart_eq hBlanks hRest (by decide)
  obtain ⟨next, hRead, hNext⟩ := gives_text t start [] rest (by simp) (by
    rw [hStart, List.nil_append, string_append])
  refine ⟨next, ?_, hNext⟩
  rw [Cursor.text?, hValue]
  change start.text.bind _ = _
  rw [hRead]
  rfl

theorem gives_boolean (b : Bool) : Gives Cursor.boolean (boolean b) b := by
  intro cur blanks rest hBlanks hRest
  cases b with
  | true =>
    obtain ⟨start, hValue, hStart⟩ := Cursor.valueStart_eq hBlanks hRest (by decide)
    obtain ⟨next, hWord, hNext⟩ := Cursor.word_behind ['r', 'u', 'e'] hStart
    refine ⟨next, ?_, hNext⟩
    rw [Cursor.boolean, hValue]
    change (Cursor.word _ _).bind _ = _
    rw [hWord]
    rfl
  | false =>
    obtain ⟨start, hValue, hStart⟩ := Cursor.valueStart_eq hBlanks hRest (by decide)
    obtain ⟨next, hWord, hNext⟩ := Cursor.word_behind ['a', 'l', 's', 'e'] hStart
    refine ⟨next, ?_, hNext⟩
    rw [Cursor.boolean, hValue]
    change (Cursor.word _ _).bind _ = _
    rw [hWord]
    rfl

end MarkerLex.Json
