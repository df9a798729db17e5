import MarkerLex.Cli.Run
import MarkerLex.Proofs.ByteSource
import MarkerLex.Proofs.Context
import MarkerLex.Proofs.Coverage
import MarkerLex.Proofs.CutOff
import MarkerLex.Proofs.Lines

/-!
# Errors are shown where they arose

An error over a file has the place where a start marker stands in the text that the file is
decoded to. The context of that place in the same text shows the line that holds the marker, and
the caret stands below its first character.
-/

namespace MarkerLex

set_option autoImplicit false

namespace Report

/-- One of the rows shows, under the number of the place, the line that holds it. If `c` is no part
of a line end, it is in the column of the place, and the next row has its caret below it. -/
def PointsAt (source : Text) (place : Position) (c : Char) (rows : List Text) : Prop :=
  ∃ upper row caret lower width content, rows = upper ++ row :: caret :: lower ∧
    NumberedRow width place.line content row ∧ source.LineHolds place.byteOffset content ∧
    (c ≠ '\r' → c ≠ '\n' → content[place.column - 1]? = some c ∧
      row[width + 3 + (place.column - 1)]? = some c ∧
      ∀ i, caret[i]? = some '^' ↔ i = width + 3 + (place.column - 1))

theorem pointsAt_context (before after : Text) (c : Char) :
    let place := Position.start.advancedBy before
    PointsAt (before ++ c :: after) place c
      (context (before ++ c :: after) place.line place.column) := by
  intro place
  obtain ⟨line, hLine, hHolds, hColumn⟩ := Text.exists_line_at before after c
  have hSome : 1 ≤ place.line := by
    rw [Position.line_advancedBy]
    exact Nat.le_add_right ..
  have hThere : place.line ≤ (Text.lines (before ++ c :: after)).length := by
    have hBound : place.line - 1 < _ := (List.getElem?_eq_some_iff.mp hLine).1
    omega
  obtain ⟨upper, row, caret, lower, content, hRows, hContent, hRow, hCaret⟩ :=
    (layout_context place.column hSome hThere).around (by omega) (by omega)
  obtain rfl : line = content := Option.some.inj (hLine.symm.trans hContent)
  refine ⟨upper, row, caret, lower, _, line, hRows, hRow, hHolds, fun hReturn hBreak => ?_⟩
  have hHere := hColumn hReturn hBreak
  refine ⟨hHere, ?_, hCaret.caret⟩
  rw [← List.getElem?_drop, hRow.content]
  exact hHere

end Report

/-- In the text the error has the place of a start marker, and the reading of that delimiter fails
with it. -/
def LexError.ArisesIn (g : Grammar) (config : Config) (text : Text) (d : Delimiter)
    (e : LexError) : Prop :=
  ∃ before taken rest, text = before ++ (d.start ++ (taken ++ rest)) ∧
    e.position = Position.start.advancedBy before ∧
    Mode.Reads g config (.ofDelimiter e.position d) (e.position.advancedBy d.start) taken rest
      (.error e)

section Errors

variable {g : Grammar} {config : Config} {e : LexError}

theorem Run.Answers.of_error {rest : Run} {reported : Bool} {stop : Position} {answer : Answer}
    (h : rest.Answers reported stop answer) (hError : answer.error? = some e) :
    rest = ⟨[], some e⟩ ∨ e = ⟨.exhausted, stop⟩ := by
  obtain ⟨tokens, error?⟩ := rest
  cases tokens with
  | cons => cases answer <;> cases h <;> cases hError
  | nil =>
    cases error? with
    | none =>
      cases answer <;> cases h <;> cases hError
      exact .inr rfl
    | some e' =>
      left
      cases answer with
      | position => cases hError
      | hasNext | advance =>
        cases h
        cases hError
        rfl
      | next =>
        cases reported with
        | true =>
          cases h
          cases hError
        | false =>
          cases h
          cases hError
          rfl

theorem Run.Covers.arisesIn {taken rest : Text} {tokens : List Token}
    (hLaid : Token.Laid g .start taken tokens)
    (h : Covers g config (Token.stopAfter .start tokens) rest ⟨[], some e⟩) :
    ∃ d ∈ g.delimiters, e.ArisesIn g config (taken ++ rest) d := by
  cases h with
  | @failed _ gap body rest d _ hGap hMember hPlace hFails =>
    refine ⟨d, hMember, taken ++ gap, body, rest, by simp only [List.append_assoc], ?_, hFails⟩
    rw [hPlace, hLaid.stopAfter_eq, ← Position.advancedBy_append]

end Errors

namespace Lexer

/-- Over a file, however it is read, every error but the one that nothing is left arises at the
start marker of the delimiter that was being read, and the context that is shown points at it. -/
theorem context_ofReads {g : Grammar} (hValid : g.validate = .ok ()) (config : Config)
    {data : List UInt8} {reads : List Read} (hReads : Read.Splits data reads) :
    let shown := (Cli.Entry.file data).shownText
    ∃ created, create (.ofReads reads) g config = .ok created ∧ ∀ calls call e,
      ((created.value.after calls).answer call).1.error? = some e → e.isExhausted = false →
        ∃ d ∈ g.delimiters, e.ArisesIn g config shown d ∧ ∃ c marker, d.start = c :: marker ∧
          Report.PointsAt shown e.position c
            (Report.context shown e.position.line e.position.column) := by
  intro shown
  obtain ⟨created, hCreate⟩ := create_of_validate hValid (.ofReads reads) config
  refine ⟨created, hCreate, fun calls call e hError hMore => ?_⟩
  obtain ⟨hStripped, hUnfailing⟩ := Source.ofReads_stripped hReads
  have hCovers : (Run.ofMode g config .std (.ofReads reads)).Covers g config .start shown := by
    rw [← Run.ofMode_stripped g config .std _ hUnfailing, hStripped]
    exact Run.covers_text hValid config shown
  obtain ⟨later, hRun, hLater⟩ := stands_after (stands_create hCreate) calls
  rcases (stands_answer hLater call).1.of_error hError with rfl | rfl
  · obtain ⟨taken, rest, hText, hLaid, hRest⟩ := hCovers.split hRun
    obtain ⟨d, hMember, hArises⟩ := hRest.arisesIn hLaid
    rw [← hText] at hArises
    have hMarker : d.start ≠ [] := (Grammar.start_of_validate hValid hMember).1
    obtain ⟨c, marker, hStart⟩ := List.exists_cons_of_ne_nil hMarker
    refine ⟨d, hMember, hArises, c, marker, hStart, ?_⟩
    obtain ⟨before, body, after, hShown, hPlace, -⟩ := hArises
    rw [hStart] at hShown
    rw [hPlace, hShown]
    exact Report.pointsAt_context before _ c
  · cases hMore

/-- A byte that begins no character, and a string that is opened on the second line. -/
theorem context_ofReads_sample :
    Grammar.sample.validate = .ok () ∧
    Read.Splits [0xFF, 0x0A, 0x20, 0x27, 0x61] [.bytes [0xFF, 0x0A], .bytes [0x20, 0x27, 0x61]] ∧
    ∃ created, create (.ofReads [.bytes [0xFF, 0x0A], .bytes [0x20, 0x27, 0x61]]) .sample {} =
        .ok created ∧
      ((created.value.after [.next]).answer .advance).1.error? =
        some ⟨.unterminatedString ['\''], ⟨2, 2, 5, 1⟩⟩ ∧
      ∃ d ∈ Grammar.sample.delimiters, ∃ c marker, d.start = c :: marker ∧
        Report.PointsAt ['\uFFFD', '\n', ' ', '\'', 'a'] ⟨2, 2, 5, 1⟩ c
          (Report.context ['\uFFFD', '\n', ' ', '\'', 'a'] 2 2) := by
  have hLast : Read.Splits ([0x20, 0x27, 0x61] ++ []) [.bytes [0x20, 0x27, 0x61]] :=
    .bytes (List.cons_ne_nil _ _) .nothing
  have hReads : Read.Splits ([0xFF, 0x0A] ++ [0x20, 0x27, 0x61])
      [.bytes [0xFF, 0x0A], .bytes [0x20, 0x27, 0x61]] := .bytes (List.cons_ne_nil _ _) hLast
  obtain ⟨created, hCreate, hErrors⟩ := context_ofReads (g := .sample) rfl {} hReads
  have hError : ((created.value.after [.next]).answer .advance).1.error? =
      some ⟨.unterminatedString ['\''], ⟨2, 2, 5, 1⟩⟩ := by
    rw [value_of_create hCreate]
    decide +kernel
  have hShown : (Cli.Entry.file [0xFF, 0x0A, 0x20, 0x27, 0x61]).shownText =
      ['\uFFFD', '\n', ' ', '\'', 'a'] := by
    decide +kernel
  obtain ⟨d, hMember, -, c, marker, hStart, hPoints⟩ := hErrors _ _ _ hError rfl
  rw [List.cons_append, List.cons_append, List.nil_append, hShown] at hPoints
  exact ⟨rfl, hReads, created, hCreate, hError, d, hMember, c, marker, hStart, hPoints⟩

end Lexer

end MarkerLex
