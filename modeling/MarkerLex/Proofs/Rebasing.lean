import MarkerLex.Proofs.Lawful

/-!
# Texts behind other texts

Where a text stands behind another one, all that is told of it has another place. Lines are
counted on, and only what stands on the first line of the text is moved in its columns. A
lexer reads the text in the same way there, and its run is moved as a whole.
-/

namespace MarkerLex

set_option autoImplicit false

namespace Position

/-- The place that `p`, counted from the front of a text, has where that text begins at `origin`. -/
def rebased (p origin : Position) : Position where
  line := origin.line + (p.line - 1)
  column := if p.line = 1 then origin.column + (p.column - 1) else p.column
  byteOffset := origin.byteOffset + p.byteOffset
  utf16Column := if p.line = 1 then origin.utf16Column + p.utf16Column else p.utf16Column

/-- Lines and columns count from one. -/
structure Counted (p : Position) : Prop where
  line : 0 < p.line
  column : 0 < p.column

variable {p origin : Position}

theorem counted_start : start.Counted := ⟨Nat.one_pos, Nat.one_pos⟩

theorem Counted.advance (h : p.Counted) (c : Char) : (p.advance c).Counted := by
  rw [Position.advance]
  split
  · exact ⟨Nat.succ_pos _, Nat.one_pos⟩
  · exact ⟨h.line, Nat.succ_pos _⟩

theorem Counted.advancedBy (h : p.Counted) (t : Text) : (p.advancedBy t).Counted := by
  induction t generalizing p with
  | nil => exact h
  | cons c t ih => exact ih (h.advance c)

theorem Counted.rebased_advance (h : p.Counted) (c : Char) :
    (p.advance c).rebased origin = (p.rebased origin).advance c := by
  have hLine := h.line
  have hColumn := h.column
  by_cases hBreak : c = '\n'
  · simp only [Position.advance, hBreak, if_true, rebased, mk.injEq]
    refine ⟨by omega, ?_, by omega, ?_⟩
    · rw [if_neg (by omega)]
    · rw [if_neg (by omega)]
  · simp only [Position.advance, hBreak, if_false, rebased, mk.injEq, true_and]
    refine ⟨?_, by omega, ?_⟩
    · split <;> omega
    · split <;> omega

theorem Counted.rebased_advancedBy (h : p.Counted) (t : Text) :
    (p.advancedBy t).rebased origin = (p.rebased origin).advancedBy t := by
  induction t generalizing p with
  | nil => rfl
  | cons c t ih => rw [advancedBy_cons, ih (h.advance c), h.rebased_advance, advancedBy_cons]

end Position

def Token.rebased (t : Token) (origin : Position) : Token := { t with start := t.start.rebased origin }

theorem Token.rebased_stop {t : Token} (h : t.start.Counted) (origin : Position) :
    (t.rebased origin).stop = t.stop.rebased origin :=
  (h.rebased_advancedBy t.text).symm

def LexError.rebased (e : LexError) (origin : Position) : LexError :=
  { e with position := e.position.rebased origin }

namespace Mode

def rebased (origin : Position) : Mode → Mode
  | std => std
  | whitespace => whitespace
  | comment spec start => comment spec (start.rebased origin)
  | string spec start => string spec (start.rebased origin)

theorem rebased_ofDelimiter (start origin : Position) (d : Delimiter) :
    (ofDelimiter start d).rebased origin = ofDelimiter (start.rebased origin) d := by
  cases d <;> rfl

end Mode

def Outcome.rebased (origin : Position) : Outcome → Outcome
  | .error e => .error (e.rebased origin)
  | .ok (.emit token? next) => .ok (.emit (token?.map (·.rebased origin)) (next.rebased origin))
  | .ok .exhausted => .ok .exhausted

def Run.rebased (r : Run) (origin : Position) : Run where
  tokens := r.tokens.map (·.rebased origin)
  error? := r.error?.map (·.rebased origin)

theorem Token.term?_rebased (t : Text) (place origin : Position) :
    (Token.term? t place).map (·.rebased origin) = Token.term? t (place.rebased origin) := by
  rw [Token.term?, Token.term?]
  split <;> rfl

namespace Mode

variable {g : Grammar} {config : Config} {mode : Mode} {place : Position} {taken rest : Text}
variable {outcome : Outcome}

theorem Reads.rebased (h : Reads g config mode place taken rest outcome) (hPlace : place.Counted)
    (origin : Position) :
    Reads g config (mode.rebased origin) (place.rebased origin) taken rest
      (outcome.rebased origin) := by
  cases h with
  | exhausted => exact .exhausted
  | lastTerm hPlain hRead => exact .lastTerm hPlain hRead
  | space hPlain hSpace =>
    rw [Outcome.rebased, Token.term?_rebased]
    exact .space hPlain hSpace
  | @opening _ u _ d hOpens =>
    rw [Outcome.rebased, Token.term?_rebased, rebased_ofDelimiter, hPlace.rebased_advancedBy]
    exact .opening hOpens
  | gap hSpace hRest => exact .gap hSpace hRest
  | closed hCloses =>
    rw [rebased_ofDelimiter]
    exact .closed hCloses
  | tooDeep hTooDeep => exact .tooDeep hTooDeep
  | commentCutOff hOpen hStrict => exact .commentCutOff hOpen hStrict
  | lenient hOpen hLenient => exact .lenient hOpen hLenient
  | stringCutOff hOpen => exact .stringCutOff hOpen

end Mode

namespace Run

theorem push_rebased (token? : Option Token) (r : Run) (origin : Position) :
    (r.push token?).rebased origin = (r.rebased origin).push (token?.map (·.rebased origin)) := by
  cases token? <;> rfl

theorem ofMode_rebased (g : Grammar) (config : Config) (mode : Mode) (place : Position) (t : Text)
    (hPlace : place.Counted) (origin : Position) :
    ofMode g config (mode.rebased origin) (.plain t (place.rebased origin)) =
      (ofMode g config mode (.plain t place)).rebased origin := by
  induction mode, place, t using Mode.reads_induction g config with
  | hReads mode place taken rest outcome h ih =>
    have hStep := Mode.step_of_reads h
    have hMoved := Mode.step_of_reads (h.rebased hPlace origin)
    cases outcome with
    | error e =>
      rw [ofMode_of_error hStep, ofMode_of_error hMoved]
      rfl
    | ok step =>
      cases step with
      | exhausted =>
        rw [ofMode_of_exhausted hStep, ofMode_of_exhausted hMoved]
        rfl
      | emit token? next =>
        have hLater := ih token? next rfl (hPlace.advancedBy taken)
        rw [hPlace.rebased_advancedBy] at hLater
        rw [ofMode_of_emit hStep, ofMode_of_emit hMoved, hLater, push_rebased]

/-- A run that begins anywhere is the run from the front of the text, moved there. -/
theorem ofMode_plain_eq_rebased (g : Grammar) (config : Config) (t : Text) (origin : Position) :
    ofMode g config .std (.plain t origin) =
      (ofMode g config .std (.ofText t)).rebased origin :=
  ofMode_rebased g config .std .start t Position.counted_start origin

end Run

end MarkerLex
