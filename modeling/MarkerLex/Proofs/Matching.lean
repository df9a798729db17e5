import MarkerLex.Proofs.Closable
import MarkerLex.Proofs.Shadowing

/-!
# Delimiters that can match

In a valid grammar an entry may still match no text. It matches some exactly where no other entry
shadows it and its own markers let it be closed.
-/

namespace MarkerLex

set_option autoImplicit false

namespace Grammar

/-- A lexer over the text delivers a token that the entry `i`, with the delimiter `d`, has opened
and that ends in the delimiter's end marker. -/
structure Matches (g : Grammar) (config : Config) (i : Nat) (d : Delimiter) (text : Text)
    (token : Token) : Prop where
  closed : ∃ s s' s'',
    Relation.ReflTransGen (Mode.Moves g config) (.std, .ofText text) (.std, s) ∧
    g.Selects config i d token.start s s' ∧
    ((Mode.ofDelimiter token.start d).step g config s').value =
      (.ok (.emit (some token) .std), s'')
  kind_eq : token.kind = d.kind
  begins : d.start <+: token.text
  ends : d.stop <:+ token.text
  delivered : ∃ run, Lexer.Performs (.ofText text) g config run ∧ token ∈ run.tokens

def Matchable (g : Grammar) (config : Config) (i : Nat) : Prop :=
  ∃ d text token, g.Matches config i d text token

variable {g : Grammar} {config : Config} {d : Delimiter} {i : Nat} {text : Text} {token : Token}

theorem Matches.live (h : g.Matches config i d text token) : g.Live config i := by
  obtain ⟨s, s', -, hMoves, hSelects, -⟩ := h.closed
  exact ⟨text, s, d, token.start, s', hMoves, hSelects⟩

theorem Matches.entry (h : g.Matches config i d text token) : g.delimiters[i]? = some d := by
  obtain ⟨s, s', -, -, hSelects, -⟩ := h.closed
  exact hSelects.entry

/-- A strict lexer delivers no token of a delimiter but one that is closed. -/
theorem Matches.closes (h : g.Matches config i d text token)
    (hStrict : config.strictComments = true) :
    ∃ body, d.Closes config.maxCommentDepth body := by
  obtain ⟨s, s', s'', hMoves, hSelects, hStep⟩ := h.closed
  have hEntered : Mode.Moves g config (.std, s) (.ofDelimiter token.start d, s') := hSelects.enters
  have hText : Source.ofText text = .plain text .start := rfl
  obtain ⟨rest, place, hPlain⟩ := Mode.plain_of_moves (hMoves.tail hEntered) hText
  obtain ⟨taken, left, -, -, hReads⟩ :=
    Mode.step_reads g config (.ofDelimiter token.start d) place rest
  rw [← hPlain, hStep] at hReads
  rcases hReads.of_ofDelimiter hStrict with ⟨hCloses, -⟩ | ⟨e, hError⟩
  · exact ⟨taken, hCloses⟩
  · cases hError

theorem Unshadowed.matches (h : g.Unshadowed i d.start) (hValid : g.validate = .ok ())
    (hEntry : g.delimiters[i]? = some d) {body : Text}
    (hCloses : d.Closes config.maxCommentDepth body) :
    g.Matches config i d (d.start ++ body) (d.token .start body) := by
  have hRead := (validate_eq_ok.mp hValid d (List.mem_of_getElem? hEntry)).start_ne
  have hSelects := h.selects hEntry hRead config body .start
  have hClosed : Mode.Reads g config (.ofDelimiter .start d) (Position.start.advancedBy d.start)
      body [] _ := .closed hCloses
  have hStep := Mode.step_of_reads hClosed
  rw [List.append_nil] at hStep
  refine ⟨⟨_, _, _, .refl, hSelects, hStep⟩, rfl, List.prefix_append _ _, hCloses.ends, _,
    Lexer.performs_ofMode hValid _ config, ?_⟩
  have hRun := Run.ofMode_delimited (h.opens hEntry hRead) hCloses [] .start
  rw [List.nil_append, List.append_nil] at hRun
  have hSame : Source.ofText (d.start ++ body) = .plain (d.start ++ body) .start := rfl
  rw [hSame, hRun]
  exact List.mem_cons_self

/-- In a valid grammar a strict lexer can match an entry exactly where no other entry shadows its
start marker and its markers let it be closed. -/
theorem matchable_iff (hValid : g.validate = .ok ()) (hEntry : g.delimiters[i]? = some d)
    (hStrict : config.strictComments = true) :
    g.Matchable config i ↔ g.Unshadowed i d.start ∧ d.Closable config.maxCommentDepth := by
  have hFit := validate_eq_ok.mp hValid d (List.mem_of_getElem? hEntry)
  rw [Delimiter.closable_iff hFit]
  constructor
  · rintro ⟨e, text, token, hMatches⟩
    obtain rfl : d = e := Option.some.inj (hEntry.symm.trans hMatches.entry)
    exact ⟨(live_iff hEntry hFit.start_ne config).mp hMatches.live, hMatches.closes hStrict⟩
  · rintro ⟨hUnshadowed, body, hCloses⟩
    exact ⟨d, _, _, hUnshadowed.matches hValid hEntry hCloses⟩

theorem matchable_iff_sample : sample.validate = .ok () ∧ ({} : Config).strictComments = true ∧
    sample.delimiters[0]? = some (.comment ⟨['/', '*'], ['*', '/'], true⟩) ∧
    sample.Matchable {} 0 := by
  have hEntry : sample.delimiters[0]? = some (.comment ⟨['/', '*'], ['*', '/'], true⟩) := rfl
  refine ⟨rfl, rfl, hEntry, (matchable_iff rfl hEntry rfl).mpr ⟨?_, ?_⟩⟩
  · decide
  · decide

/-- Not every entry of a valid grammar can match. -/
theorem exists_unmatchable :
    ¬ ∀ g : Grammar, g.validate = .ok () → ∀ i < g.delimiters.length, g.Matchable {} i := by
  intro h
  obtain ⟨d, text, token, hMatches⟩ := h overlapping rfl 1 (by decide)
  have hEntry : overlapping.delimiters[1]? = some (.comment ⟨['-', '-'], ['\n'], false⟩) := rfl
  exact overlapping_shadowed
    ((live_iff hEntry (List.cons_ne_nil _ _) {}).mp hMatches.live)

end Grammar

end MarkerLex
