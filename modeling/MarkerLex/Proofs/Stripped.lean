import MarkerLex.Proofs.PullOrder

/-!
# Remarks do not matter

Remarks among the characters of a source are told and forgotten. As long as nothing
fails, a lexer gives the same answers over the bare characters of its source, whatever
it is asked and in whatever order.
-/

namespace MarkerLex

set_option autoImplicit false

theorem Run.ofMode_stripped (g : Grammar) (config : Config) (mode : Mode) (s : Source)
    (hUnfailing : s.Unfailing) : ofMode g config mode s.stripped = ofMode g config mode s := by
  induction mode, s using Mode.steps_induction g config with
  | hStep mode s ih =>
    have hStripped := Mode.step_stripped g config mode hUnfailing
    obtain ⟨taken, hLeaves⟩ := Mode.step_leaves g config mode s
    rcases hStep : (mode.step g config s).value with ⟨outcome, s'⟩
    rw [hStep] at hStripped hLeaves
    cases outcome with
    | error e => rw [ofMode_of_error hStripped, ofMode_of_error hStep]
    | ok step =>
      cases step with
      | exhausted => rw [ofMode_of_exhausted hStripped, ofMode_of_exhausted hStep]
      | emit token? next =>
        rw [ofMode_of_emit hStripped, ofMode_of_emit hStep,
          ih token? next s' hStep (hUnfailing.of_leaves hLeaves)]

/-- Failures only cut a run off. -/
theorem Run.tokens_prefix_stripped (g : Grammar) (config : Config) (mode : Mode) (s : Source) :
    (ofMode g config mode s).tokens <+: (ofMode g config mode s.stripped).tokens := by
  induction mode, s using Mode.steps_induction g config with
  | hStep mode s ih =>
    rcases hStep : (mode.step g config s).value with ⟨outcome, s'⟩
    cases outcome with
    | error e =>
      rw [ofMode_of_error hStep]
      exact List.nil_prefix
    | ok step =>
      have hStripped := Mode.step_stripped_of_ok hStep
      cases step with
      | exhausted =>
        rw [ofMode_of_exhausted hStep]
        exact List.nil_prefix
      | emit token? next =>
        rw [ofMode_of_emit hStep, ofMode_of_emit hStripped]
        exact (List.prefix_append_right_inj _).mpr (ih token? next s' hStep)

namespace Lexer

def stripped (l : Lexer) : Lexer := { l with source := l.source.stripped }

variable {g : Grammar} {config : Config} {l : Lexer}

variable (g config) in
theorem pump_stripped (mode : Mode) (s : Source) (hUnfailing : s.Unfailing) :
    (pump g config mode s.stripped).value =
      ((pump g config mode s).value.1, (pump g config mode s).value.2.stripped) := by
  induction mode, s using Mode.steps_induction g config with
  | hStep mode s ih =>
    have hStripped := Mode.step_stripped g config mode hUnfailing
    obtain ⟨taken, hLeaves⟩ := Mode.step_leaves g config mode s
    rw [pump_value, pump_value mode s]
    rcases hStep : (mode.step g config s).value with ⟨outcome, s'⟩
    rw [hStep] at hStripped hLeaves
    rw [hStripped]
    cases outcome with
    | error e => rfl
    | ok step =>
      cases step with
      | exhausted => rfl
      | emit token? next =>
        cases token? with
        | some t => rfl
        | none => exact ih none next s' hStep (hUnfailing.of_leaves hLeaves)

theorem simulation_stripped :
    Simulation fun l l' => l.stripped = l' ∧ l.source.Unfailing where
  fill := by
    rintro ⟨source, g, config, state⟩ _ ⟨rfl, hUnfailing⟩
    cases state with
    | ready r => exact ⟨rfl, rfl, hUnfailing⟩
    | reading mode =>
      obtain ⟨taken, hLeaves⟩ := pump_leaves g config mode source
      have hPump := pump_stripped g config mode source hUnfailing
      have hFound := congrArg Prod.fst hPump
      refine ⟨hFound.symm, ?_, hUnfailing.of_leaves hLeaves⟩
      simp only [fill, stripped, Traced.map_value, hPump]
  state := by
    rintro l _ state ⟨rfl, hUnfailing⟩
    exact ⟨rfl, hUnfailing⟩
  position := by
    rintro l _ ⟨rfl, -⟩
    rfl

theorem answers_stripped (hUnfailing : l.source.Unfailing) (calls : List Call) :
    l.stripped.answers calls = l.answers calls :=
  (simulation_stripped.answers ⟨rfl, hUnfailing⟩ calls).symm

end Lexer

end MarkerLex
