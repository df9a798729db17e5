import MarkerLex.Mode.Delimited
import MarkerLex.Mode.Std

/-!
# Steps of a lexer

A step runs the reader of the current mode. Steps cannot go on for ever: every
step that emits lowers a potential, which counts each character twice and adds
what may still happen where the source stands.
-/

namespace MarkerLex

set_option autoImplicit false

namespace Mode

def step (g : Grammar) (config : Config) (mode : Mode) (s : Source) : Traced (Outcome × Source) :=
  match mode with
  | .std => (Reader.std g).run .empty s.position s.signals
  | .whitespace => (Reader.whitespace g).run () s.position s.signals
  | .comment spec start => (Reader.comment config spec start).run spec.opened s.position s.signals
  | .string spec start => (Reader.string spec start).run spec.opened s.position s.signals

/-- A bound on the number of steps that can follow. -/
def potential (g : Grammar) (mode : Mode) (s : Source) : Nat :=
  match mode with
  | .std => 2 * s.unread.length + 1
  | .whitespace =>
    if s.unread.head?.any g.isWhitespace then 2 * s.unread.length else 2 * s.unread.length + 2
  | .comment _ _ | .string _ _ => 2 * s.unread.length + 2

theorem potential_le (g : Grammar) (mode : Mode) (s : Source) :
    potential g mode s ≤ 2 * s.unread.length + 2 := by
  cases mode <;> simp only [potential]
  · omega
  · split <;> omega
  · omega
  · omega

theorem eq_emit_of_step_whitespace {g : Grammar} {config : Config} {s s' : Source} {step : Step}
    (hStep : (Mode.step g config .whitespace s).value = (.ok step, s')) :
    step = .emit none .std := by
  obtain ⟨signals, place⟩ := s
  simp only [Mode.step] at hStep
  induction signals generalizing place with
  | nil =>
    simp only [Reader.run, Reader.whitespace, Traced.map_value, Traced.silent, Prod.mk.injEq,
      Except.ok.injEq] at hStep
    exact hStep.1.symm
  | cons signal rest ih =>
    cases signal with
    | note n => exact ih place hStep
    | failure f => simp [Reader.run] at hStep
    | char c =>
      by_cases hSpace : g.isWhitespace c = true
      · refine ih (place.advance c) ?_
        simpa [Reader.run, Reader.whitespace, hSpace] using hStep
      · simp only [Reader.run, Reader.whitespace, hSpace, Bool.false_eq_true, if_false,
          Traced.map_value, Traced.silent, Prod.mk.injEq, Except.ok.injEq] at hStep
        exact hStep.1.symm

theorem potential_lt_of_step {g : Grammar} {config : Config} {mode next : Mode} {s s' : Source}
    {token : Option Token} (hStep : (mode.step g config s).value = (.ok (.emit token next), s')) :
    potential g next s' < potential g mode s := by
  have hNext := potential_le g next s'
  cases mode with
  | std =>
    rcases Reader.run_progress _ hStep with hLess | ⟨hSame, ⟨hEnd, hFinish⟩ | hLeave⟩
    · have hTaken : s'.unread.length < s.unread.length := hLess
      refine Nat.lt_of_le_of_lt hNext ?_
      simp only [potential]
      omega
    · simp [Reader.std, Traced.silent, Pending.empty] at hFinish
    · obtain ⟨c, rest, place, outcome, hFront, hReact, hOutcome⟩ := hLeave
      by_cases hSpace : g.isWhitespace c = true
      · simp only [Reader.std, hSpace, if_true, Reaction.leave.injEq] at hReact
        subst hReact
        simp only [Except.ok.injEq, Step.emit.injEq] at hOutcome
        obtain ⟨-, rfl⟩ := hOutcome
        have hLength : s'.unread = s.unread := hSame
        have hHead : s.unread = c :: rest := hFront
        simp only [potential, hLength, hHead, List.head?_cons, Option.any_some, hSpace, if_true]
        omega
      · simp only [Reader.std, hSpace, Bool.false_eq_true, if_false] at hReact
        split at hReact <;> simp at hReact
  | whitespace =>
    have hEmit := eq_emit_of_step_whitespace hStep
    simp only [Step.emit.injEq] at hEmit
    obtain ⟨-, rfl⟩ := hEmit
    rcases Reader.run_progress _ hStep with hLess | ⟨hSame, ⟨hEnd, hFinish⟩ | hLeave⟩
    · have hTaken : s'.unread.length < s.unread.length := hLess
      simp only [potential]
      split <;> omega
    · have hLength : s'.unread = s.unread := hSame
      have hEmpty : s.unread = [] := hEnd
      simp [potential, hLength, hEmpty]
    · obtain ⟨c, rest, place, outcome, hFront, hReact, hOutcome⟩ := hLeave
      have hLength : s'.unread = s.unread := hSame
      have hHead : s.unread = c :: rest := hFront
      by_cases hSpace : g.isWhitespace c = true
      · simp [Reader.whitespace, hSpace] at hReact
      · simp only [potential, hLength, hHead, List.head?_cons, Option.any_some, hSpace,
          Bool.false_eq_true, if_false]
        omega
  | comment spec start =>
    rcases Reader.run_progress _ hStep with hLess | ⟨hSame, ⟨hEnd, hFinish⟩ | hLeave⟩
    · have hTaken : s'.unread.length < s.unread.length := hLess
      refine Nat.lt_of_le_of_lt hNext ?_
      simp only [potential]
      omega
    · have hLength : s'.unread = s.unread := hSame
      simp only [Reader.comment] at hFinish
      split at hFinish
      · simp at hFinish
      · simp only [Except.ok.injEq, Step.emit.injEq] at hFinish
        obtain ⟨-, rfl⟩ := hFinish
        simp only [potential, hLength]
        omega
    · obtain ⟨c, rest, place, outcome, hFront, hReact, hOutcome⟩ := hLeave
      simp only [Reader.comment] at hReact
      split at hReact <;> split at hReact <;> simp at hReact
      split at hReact <;> simp at hReact
  | string spec start =>
    rcases Reader.run_progress _ hStep with hLess | ⟨hSame, ⟨hEnd, hFinish⟩ | hLeave⟩
    · have hTaken : s'.unread.length < s.unread.length := hLess
      refine Nat.lt_of_le_of_lt hNext ?_
      simp only [potential]
      omega
    · simp [Reader.string] at hFinish
    · obtain ⟨c, rest, place, outcome, hFront, hReact, hOutcome⟩ := hLeave
      simp only [Reader.string] at hReact
      repeat' split at hReact
      all_goals simp at hReact

end Mode

end MarkerLex
