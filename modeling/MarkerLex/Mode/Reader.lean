import MarkerLex.Config
import MarkerLex.Source.Basic

/-!
# Readers

A reader takes characters off a source until one of them, or the end, decides
what the step of its mode comes to. How a reader deals with remarks and failures
of the source is the same for all readers, so it is said once, in `Reader.run`;
a reader itself only says how it reacts to a character and to the end.
-/

namespace MarkerLex

set_option autoImplicit false

/-- What a step comes to: a token or none and the mode of the next step, or the end. -/
inductive Step where
  | emit (token : Option Token) (next : Mode)
  | exhausted
deriving DecidableEq, Repr

abbrev Outcome := Except LexError Step

/-- What a reader does with a character. -/
inductive Reaction (σ : Type) where
  | proceed (state : σ)
  | remark (event : Event) (state : σ)
  | leave (outcome : Traced Outcome)
  | take (outcome : Traced Outcome)

structure Reader (σ : Type) where
  react : σ → Position → Char → Reaction σ
  finish : σ → Traced Outcome

namespace Reader

variable {σ : Type}

def run (r : Reader σ) (state : σ) (place : Position) : List Signal → Traced (Outcome × Source)
  | [] => (r.finish state).map (·, ⟨[], place⟩)
  | .note n :: rest => (run r state place rest).after [n.event place]
  | .failure f :: rest =>
    ⟨[.readFailed f], (.error ⟨.source (Source.errorAt place f), place⟩, ⟨rest, place⟩)⟩
  | .char c :: rest =>
    match r.react state place c with
    | .proceed state => run r state (place.advance c) rest
    | .remark event state => (run r state (place.advance c) rest).after [event]
    | .leave outcome => outcome.map (·, ⟨.char c :: rest, place⟩)
    | .take outcome => outcome.map (·, ⟨rest, place.advance c⟩)

/-- A step that is not an error either took a character, or was decided at once by the
first character or by the end, and then it took none. -/
theorem run_progress (r : Reader σ) {state : σ} {place : Position} {signals : List Signal}
    {step : Step} {s : Source} (hRun : (r.run state place signals).value = (.ok step, s)) :
    (Signal.chars s.signals).length < (Signal.chars signals).length ∨
    Signal.chars s.signals = Signal.chars signals ∧
      ((Signal.chars signals = [] ∧ (r.finish state).value = .ok step) ∨
        ∃ c rest place outcome, Signal.chars signals = c :: rest ∧
          r.react state place c = .leave outcome ∧ outcome.value = .ok step) := by
  induction signals generalizing state place with
  | nil =>
    simp only [run, Traced.map_value, Prod.mk.injEq] at hRun
    obtain ⟨hStep, rfl⟩ := hRun
    exact .inr ⟨rfl, .inl ⟨rfl, hStep⟩⟩
  | cons signal rest ih =>
    cases signal with
    | note n => exact ih hRun
    | failure f => simp [run] at hRun
    | char c =>
      have further {state : σ} {place : Position}
          (hRest : (r.run state place rest).value = (.ok step, s)) :
          (Signal.chars s.signals).length < (Signal.chars (.char c :: rest)).length := by
        have hLength : (Signal.chars s.signals).length ≤ (Signal.chars rest).length := by
          rcases ih hRest with hLess | ⟨hSame, _⟩
          · exact Nat.le_of_lt hLess
          · exact Nat.le_of_eq (congrArg List.length hSame)
        exact Nat.lt_succ_of_le hLength
      rw [run] at hRun
      split at hRun
      case h_1 state hReact => exact .inl (further hRun)
      case h_2 event state hReact => exact .inl (further hRun)
      case h_3 outcome hReact =>
        simp only [Traced.map_value, Prod.mk.injEq] at hRun
        obtain ⟨hStep, rfl⟩ := hRun
        exact .inr ⟨rfl, .inr ⟨c, Signal.chars rest, place, outcome, rfl, hReact, hStep⟩⟩
      case h_4 outcome hReact =>
        simp only [Traced.map_value, Prod.mk.injEq] at hRun
        obtain ⟨-, rfl⟩ := hRun
        exact .inl (Nat.lt_succ_self _)

end Reader

end MarkerLex
