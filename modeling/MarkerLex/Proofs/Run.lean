import MarkerLex.Lexer
import MarkerLex.Proofs.Reading

/-!
# Runs

What a lexer will deliver is settled before anybody asks: its steps follow one
another until there is an error or the end, and the tokens on the way, with that
error, are the run. The reading ahead of a lexer only takes a run apart.
-/

namespace MarkerLex

set_option autoImplicit false

def Delimiter.kind : Delimiter → TokenKind
  | comment _ => .comment
  | string spec => .string spec.name

namespace Mode

open Source

/-- What a step of each mode can come to, and what it leaves behind at the end. -/
inductive Comes (config : Config) : Mode → Outcome → Source → Prop
  | sourceFailed {mode : Mode} {e : SourceError} {place : Position} {left : Source} :
    Comes config mode (.error ⟨.source e, place⟩) left
  | exhausted {place : Position} : Comes config .std (.ok .exhausted) ⟨[], place⟩
  | term {p : Pending} {next : Mode} {left : Source} :
    Comes config .std (.ok (.emit p.term? next)) left
  | spaceDropped {left : Source} : Comes config .whitespace (.ok (.emit none .std)) left
  | delimited {d : Delimiter} {text : Text} {start : Position} {left : Source} :
    Comes config (.ofDelimiter start d) (.ok (.emit (some ⟨d.kind, text, start⟩) .std)) left
  | tooDeep {spec : CommentSpec} {start : Position} {left : Source} :
    Comes config (.comment spec start)
      (.error ⟨.commentTooDeep config.maxCommentDepth, start⟩) left
  | commentCutOff {spec : CommentSpec} {start : Position} {left : Source} :
    Comes config (.comment spec start) (.error ⟨.unterminatedComment spec.stop, start⟩) left
  | stringCutOff {spec : StringSpec} {start : Position} {left : Source} :
    Comes config (.string spec start) (.error ⟨.unterminatedString spec.stop, start⟩) left

variable {g : Grammar} {config : Config}

variable (g config) in
theorem step_comes (mode : Mode) (s : Source) :
    Comes config mode (mode.step g config s).value.1 (mode.step g config s).value.2 := by
  cases mode with
  | std =>
    refine Reader.run_ends _ ?_ (fun _ _ _ => .sourceFailed) ?_ ?_ _ _ _
    · intro p place
      by_cases hEmpty : p.newest = []
      · simp only [Reader.std, hEmpty, if_true]
        exact .exhausted
      · simp only [Reader.std, hEmpty, if_false]
        exact .term
    · intro p place c rest outcome hReact
      rw [(Reader.std_leave hReact).2]
      exact .term
    · intro p place c rest outcome hReact
      rcases Reader.std_react_cases g p place c with h | h | ⟨-, d, before, -, -, h⟩
      · cases h.2.symm.trans hReact
      · cases h.2.2.symm.trans hReact
      · cases h.symm.trans hReact
        exact .term
  | whitespace =>
    refine Reader.run_ends _ (fun _ _ => .spaceDropped) (fun _ _ _ => .sourceFailed) ?_ ?_ _ _ _
    · intro _ place c rest outcome hReact
      rw [(Reader.whitespace_leave hReact).2]
      exact .spaceDropped
    · intro _ place c rest outcome hReact
      rcases Reader.whitespace_react_cases g place c with h | h
      · cases h.2.symm.trans hReact
      · cases h.2.symm.trans hReact
  | comment spec start =>
    refine Reader.run_ends _ ?_ (fun _ _ _ => .sourceFailed) ?_ ?_ _ _ _
    · intro p place
      rw [Reader.comment_finish]
      split
      · exact .commentCutOff
      · exact .delimited (d := .comment spec)
    · intro p place c rest outcome hReact
      exact absurd hReact (Reader.comment_ne_leave config spec start p place)
    · intro p place c rest outcome hReact
      rcases Reader.comment_react_cases config spec start p place c with
        ⟨-, h | h⟩ | ⟨-, -, h | h⟩ | ⟨-, -, h⟩
      · cases h.2.symm.trans hReact
        exact .delimited (d := .comment spec)
      · cases h.2.symm.trans hReact
      · cases h.2.symm.trans hReact
        exact .tooDeep
      · cases h.2.symm.trans hReact
      · cases h.symm.trans hReact
  | string spec start =>
    refine Reader.run_ends _ (fun _ _ => .stringCutOff) (fun _ _ _ => .sourceFailed) ?_ ?_ _ _ _
    · intro p place c rest outcome hReact
      exact absurd hReact (Reader.string_ne_leave spec start p place)
    · intro p place c rest outcome hReact
      rcases Reader.string_react_cases spec start p place c with
        h | ⟨-, -, h⟩ | ⟨-, -, -, h⟩ | ⟨-, -, -, h⟩
      · cases h.2.symm.trans hReact
      · cases h.symm.trans hReact
        exact .delimited (d := .string spec)
      · cases h.symm.trans hReact
      · cases h.symm.trans hReact

theorem unread_of_step_exhausted {mode : Mode} {s s' : Source}
    (hStep : (mode.step g config s).value = (.ok .exhausted, s')) : s'.unread = [] := by
  have h := step_comes g config mode s
  rw [hStep] at h
  cases h
  rfl

theorem isExhausted_of_step_error {mode : Mode} {s s' : Source} {e : LexError}
    (hStep : (mode.step g config s).value = (.error e, s')) : e.isExhausted = false := by
  have h := step_comes g config mode s
  rw [hStep] at h
  cases h <;> rfl

variable (g config) in
theorem step_leaves (mode : Mode) (s : Source) :
    ∃ taken, Leaves s taken (mode.step g config s).value.2 := by
  cases mode <;> exact Reader.run_leaves _ _ _ _

variable (g config) in
theorem step_stripped_or_failed (mode : Mode) (s : Source) :
    (mode.step g config s.stripped).value =
      ((mode.step g config s).value.1, (mode.step g config s).value.2.stripped) ∨
    ∃ f rest stop, .failure f ∈ s.signals ∧ (mode.step g config s).value =
      (.error ⟨.source (errorAt stop f), stop⟩, ⟨rest, stop⟩) := by
  cases mode <;> exact Reader.run_stripped_or_failed _ _ _ _

variable (g config) in
/-- Where nothing fails, a step is decided by the characters alone. -/
theorem step_stripped (mode : Mode) {s : Source} (hUnfailing : s.Unfailing) :
    (mode.step g config s.stripped).value =
      ((mode.step g config s).value.1, (mode.step g config s).value.2.stripped) := by
  apply (step_stripped_or_failed g config mode s).resolve_right
  rintro ⟨f, rest, stop, hf, -⟩
  exact hUnfailing f hf

/-- A step that is not an error has met no failure, so the characters alone decide it. -/
theorem step_stripped_of_ok {mode : Mode} {s s' : Source} {step : Step}
    (hStep : (mode.step g config s).value = (.ok step, s')) :
    (mode.step g config s.stripped).value = (.ok step, s'.stripped) := by
  rcases step_stripped_or_failed g config mode s with hSame | ⟨f, rest, stop, -, hFailed⟩
  · rwa [hStep] at hSame
  · cases hStep.symm.trans hFailed

variable (g config) in
theorem steps_induction {P : Mode → Source → Prop}
    (hStep : ∀ mode s, (∀ token? next s',
      (mode.step g config s).value = (.ok (.emit token? next), s') → P next s') → P mode s)
    (mode : Mode) (s : Source) : P mode s := by
  induction hn : mode.potential g s using Nat.strongRecOn generalizing mode s with
  | ind n ih =>
    subst hn
    apply hStep
    intro token? next s' h
    exact ih _ (potential_lt_of_step h) next s' rfl

end Mode

/-- The tokens that are delivered, and the error after them if there is one. -/
structure Run where
  tokens : List Token
  error? : Option LexError
deriving DecidableEq, Repr

namespace Run

def push (token? : Option Token) (r : Run) : Run := { r with tokens := token?.toList ++ r.tokens }

def ofMode (g : Grammar) (config : Config) (mode : Mode) (s : Source) : Run :=
  match _h : (mode.step g config s).value with
  | (.error e, _) => ⟨[], some e⟩
  | (.ok .exhausted, _) => ⟨[], none⟩
  | (.ok (.emit token? next), s') => (ofMode g config next s').push token?
termination_by mode.potential g s
decreasing_by exact Mode.potential_lt_of_step _h

variable {g : Grammar} {config : Config} {mode next : Mode} {s s' : Source}

theorem ofMode_of_error {e : LexError} (hStep : (mode.step g config s).value = (.error e, s')) :
    ofMode g config mode s = ⟨[], some e⟩ := by
  rw [ofMode]
  split <;> simp_all

theorem ofMode_of_exhausted (hStep : (mode.step g config s).value = (.ok .exhausted, s')) :
    ofMode g config mode s = ⟨[], none⟩ := by
  rw [ofMode]
  split <;> simp_all

theorem ofMode_of_emit {token? : Option Token}
    (hStep : (mode.step g config s).value = (.ok (.emit token? next), s')) :
    ofMode g config mode s = (ofMode g config next s').push token? := by
  rw [ofMode]
  split <;> simp_all

theorem isExhausted_of_error (mode : Mode) (s : Source) {e : LexError} :
    (ofMode g config mode s).error? = some e → e.isExhausted = false := by
  induction mode, s using Mode.steps_induction g config with
  | hStep mode s ih =>
    rcases hStep : (mode.step g config s).value with ⟨outcome, s'⟩
    cases outcome with
    | error e' =>
      rw [ofMode_of_error hStep]
      rintro ⟨⟩
      exact Mode.isExhausted_of_step_error hStep
    | ok step =>
      cases step with
      | exhausted =>
        rw [ofMode_of_exhausted hStep]
        rintro ⟨⟩
      | emit token? next =>
        rw [ofMode_of_emit hStep]
        exact ih _ _ _ hStep

end Run

namespace Lexer

variable {g : Grammar} {config : Config}

theorem pump_value (mode : Mode) (s : Source) : (pump g config mode s).value =
    match (mode.step g config s).value with
    | (.error e, s') => (.failed e false, s')
    | (.ok .exhausted, s') => (.ended, s')
    | (.ok (.emit (some t) next), s') => (.token t next, s')
    | (.ok (.emit none next), s') => (pump g config next s').value := by
  rw [pump]
  split <;> rename_i h <;> simp [h]

variable (g config) in
theorem pump_leaves (mode : Mode) (s : Source) :
    ∃ taken, s.Leaves taken (pump g config mode s).value.2 := by
  induction mode, s using Mode.steps_induction g config with
  | hStep mode s ih =>
    obtain ⟨taken, h⟩ := Mode.step_leaves g config mode s
    rw [pump_value]
    split
    case h_1 hStep | h_2 hStep | h_3 hStep =>
      rw [hStep] at h
      exact ⟨taken, h⟩
    case h_4 hStep =>
      rw [hStep] at h
      obtain ⟨further, hFurther⟩ := ih _ _ _ hStep
      exact ⟨taken ++ further, h.trans hFurther⟩

def Ready.ahead (g : Grammar) (config : Config) (s : Source) : Ready → Run
  | token t next => (Run.ofMode g config next s).push (some t)
  | ended => ⟨[], none⟩
  | failed e _ => ⟨[], some e⟩

theorem ahead_pump (mode : Mode) (s : Source) :
    (pump g config mode s).value.1.ahead g config (pump g config mode s).value.2 =
      Run.ofMode g config mode s := by
  induction mode, s using Mode.steps_induction g config with
  | hStep mode s ih =>
    rw [pump_value]
    split
    case h_1 hStep => exact (Run.ofMode_of_error hStep).symm
    case h_2 hStep => exact (Run.ofMode_of_exhausted hStep).symm
    case h_3 hStep => exact (Run.ofMode_of_emit hStep).symm
    case h_4 hStep => exact (ih _ _ _ hStep).trans (Run.ofMode_of_emit hStep).symm

def Ready.Sound (s : Source) : Ready → Prop
  | token _ _ => True
  | ended => s.unread = []
  | failed e _ => e.isExhausted = false

theorem sound_pump (mode : Mode) (s : Source) :
    (pump g config mode s).value.1.Sound (pump g config mode s).value.2 := by
  induction mode, s using Mode.steps_induction g config with
  | hStep mode s ih =>
    rw [pump_value]
    split
    case h_1 hStep => exact Mode.isExhausted_of_step_error hStep
    case h_2 hStep => exact Mode.unread_of_step_exhausted hStep
    case h_3 hStep => trivial
    case h_4 hStep => exact ih _ _ _ hStep

theorem unreported_pump (mode : Mode) (s : Source) {e : LexError} {reported : Bool} :
    (pump g config mode s).value.1 = .failed e reported → reported = false := by
  induction mode, s using Mode.steps_induction g config with
  | hStep mode s ih =>
    rw [pump_value]
    split
    case h_1 hStep =>
      intro h
      cases h
      rfl
    case h_2 | h_3 =>
      intro h
      cases h
    case h_4 hStep => exact ih _ _ _ hStep

end Lexer

end MarkerLex
