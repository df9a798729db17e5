import MarkerLex.Proofs.Phases
import MarkerLex.Proofs.Run
import MarkerLex.Proofs.Slice

/-!
# How many steps there are

Not every step takes a character, but of two that follow one another one does, until the source
is at its end. The potential of a mode counts what may come: it falls with every step, and while
there is a step to come it is not nought. So the steps of a lexer are at most twice as many as
the characters, and two; between delimiters the last of these does not come to pass.
-/

namespace MarkerLex

set_option autoImplicit false

theorem Source.Leaves.nil_of_position {s left : Source} {taken : Text} (h : s.Leaves taken left)
    (hStill : left.position = s.position) : taken = [] := by
  cases taken with
  | nil => rfl
  | cons c taken =>
    have hBytes := Text.byteLength_pos (List.cons_ne_nil c taken)
    have hOffset := congrArg Position.byteOffset (hStill.symm.trans h.position)
    rw [Position.byteOffset_advancedBy] at hOffset
    omega

namespace Reader

open Source

variable {σ : Type} (r : Reader σ) {state : σ} {place : Position}

theorem run_takes {c : Char} (hReact : ∀ outcome, r.react state place c ≠ .leave outcome)
    (rest : List Signal) : ∃ taken, Leaves ⟨.char c :: rest, place⟩ (c :: taken)
      (r.run state place (.char c :: rest)).value.2 := by
  have further (state : σ) : ∃ taken, Leaves ⟨.char c :: rest, place⟩ (c :: taken)
      (r.run state (place.advance c) rest).value.2 := by
    obtain ⟨taken, h⟩ := r.run_leaves state (place.advance c) rest
    exact ⟨taken, h.signals.trans (List.suffix_cons _ _), congrArg (c :: ·) h.unread, h.position⟩
  rw [run]
  split
  case h_1 => exact further _
  case h_2 => exact further _
  case h_3 hLeave => exact absurd hLeave (hReact _)
  case h_4 => exact ⟨[], List.suffix_cons _ _, rfl, rfl⟩

/-- A step that takes nothing is decided by the end of the source, or by a character that is then
in front of what it leaves. -/
theorem run_still {signals : List Signal} {step : Step} {left : Source}
    (hRun : (r.run state place signals).value = (.ok step, left)) (hStill : left.position = place) :
    (Signal.chars signals = [] ∧ (r.finish state).value = .ok step) ∨
      ∃ c rest outcome, left.signals = .char c :: rest ∧
        r.react state place c = .leave outcome ∧ outcome.value = .ok step := by
  induction signals with
  | nil =>
    simp only [run, Traced.map_value, Prod.mk.injEq] at hRun
    exact .inl ⟨rfl, hRun.1⟩
  | cons signal rest ih =>
    cases signal with
    | note n => exact ih hRun
    | failure f => simp [run] at hRun
    | char c =>
      by_cases hReact : ∃ outcome, r.react state place c = .leave outcome
      · obtain ⟨outcome, hLeave⟩ := hReact
        simp only [run, hLeave, Traced.map_value, Prod.mk.injEq] at hRun
        obtain ⟨hStep, rfl⟩ := hRun
        exact .inr ⟨c, rest, outcome, rfl, hLeave, hStep⟩
      · obtain ⟨taken, hLeaves⟩ := r.run_takes (not_exists.mp hReact) rest
        rw [hRun] at hLeaves
        exact absurd (hLeaves.nil_of_position hStill) (List.cons_ne_nil _ _)

end Reader

namespace Mode

variable {g : Grammar} {config : Config} {mode next : Mode} {s s' : Source}
variable {token? : Option Token}

/-- Steps follow one another from a mode over a source, and the last of these `n` comes to the end
or to an error. -/
inductive Ends (g : Grammar) (config : Config) : Mode → Source → Nat → Prop
  | exhausted {mode : Mode} {s s' : Source}
    (hStep : (mode.step g config s).value = (.ok .exhausted, s')) : Ends g config mode s 1
  | failed {mode : Mode} {s s' : Source} {e : LexError}
    (hStep : (mode.step g config s).value = (.error e, s')) : Ends g config mode s 1
  | step {mode next : Mode} {s s' : Source} {token? : Option Token} {n : Nat}
    (hStep : (mode.step g config s).value = (.ok (.emit token? next), s'))
    (hLater : Ends g config next s' n) : Ends g config mode s (n + 1)

theorem potential_pos (g : Grammar) (mode : Mode) (s : Source) : 0 < mode.potential g s := by
  cases mode with
  | std | comment | string => exact Nat.succ_pos _
  | whitespace =>
    rw [potential]
    split
    case isTrue hSpace =>
      cases hUnread : s.unread with
      | nil => simp [hUnread] at hSpace
      | cons c rest => exact Nat.succ_pos _
    case isFalse => exact Nat.succ_pos _

theorem exists_ends (g : Grammar) (config : Config) (mode : Mode) (s : Source) :
    ∃ n, mode.Ends g config s n ∧ n ≤ mode.potential g s := by
  induction mode, s using steps_induction g config with
  | hStep mode s ih =>
    have hSome := potential_pos g mode s
    rcases hStep : (mode.step g config s).value with ⟨outcome, s'⟩
    cases outcome with
    | error e => exact ⟨1, .failed hStep, hSome⟩
    | ok step =>
      cases step with
      | exhausted => exact ⟨1, .exhausted hStep, hSome⟩
      | emit token? next =>
        obtain ⟨n, hLater, hBound⟩ := ih token? next s' hStep
        have hLess := potential_lt_of_step hStep
        exact ⟨n + 1, .step hStep hLater, by omega⟩

/-- Where a step takes nothing though there is something to take, whitespace begins or ends, and
the step that follows takes the character at which it does. -/
theorem unread_of_still (hStep : (mode.step g config s).value = (.ok (.emit token? next), s'))
    (hStill : s'.position = s.position)
    (hAgain : (next.step g config s').value.2.position = s'.position) : s.unread = [] := by
  have hTakes {σ : Type} {r : Reader σ} {state : σ} {c : Char} {rest : List Signal}
      (hReact : ∀ outcome, r.react state s'.position c ≠ .leave outcome)
      (hFront : s'.signals = .char c :: rest)
      (hSame : (r.run state s'.position s'.signals).value.2.position = s'.position) : False := by
    obtain ⟨taken, hLeaves⟩ := r.run_takes hReact rest
    rw [hFront] at hSame
    exact List.cons_ne_nil _ _ (hLeaves.nil_of_position hSame)
  cases mode with
  | std =>
    rcases Reader.run_still _ hStep hStill with
      ⟨hEnd, -⟩ | ⟨c, rest, outcome, hFront, hReact, hOutcome⟩
    · exact hEnd
    · obtain ⟨hSpace, rfl⟩ := Reader.std_leave hReact
      cases hOutcome
      refine (hTakes (fun outcome hLeave => ?_) hFront hAgain).elim
      cases hSpace.symm.trans (Reader.whitespace_leave hLeave).1
  | whitespace =>
    rcases Reader.run_still _ hStep hStill with
      ⟨hEnd, -⟩ | ⟨c, rest, outcome, hFront, hReact, hOutcome⟩
    · exact hEnd
    · obtain ⟨hSolid, rfl⟩ := Reader.whitespace_leave hReact
      cases hOutcome
      refine (hTakes (fun outcome hLeave => ?_) hFront hAgain).elim
      cases hSolid.symm.trans (Reader.std_leave hLeave).1
  | comment spec start =>
    rcases Reader.run_still _ hStep hStill with ⟨hEnd, -⟩ | ⟨c, rest, outcome, -, hReact, -⟩
    · exact hEnd
    · exact absurd hReact (Reader.comment_ne_leave config spec start _ _)
  | string spec start =>
    rcases Reader.run_still _ hStep hStill with ⟨hEnd, -⟩ | ⟨c, rest, outcome, -, hReact, -⟩
    · exact hEnd
    · exact absurd hReact (Reader.string_ne_leave spec start _ _)

end Mode

def Event.isStepRequested : Event → Bool
  | stepRequested _ => true
  | _ => false

theorem Mode.isStepRequested_of_mem_events (g : Grammar) (config : Config) (mode : Mode)
    (s : Source) : ∀ event ∈ (mode.step g config s).events, event.isStepRequested = false := by
  intro event hEvent
  have hPhase := mode.phase_of_mem_step g config s event hEvent
  cases event with
  | stepRequested _ => simp [Event.phase] at hPhase
  | _ => rfl

/-- Reading ahead for one token a lexer requests no more steps than the potential allows. -/
theorem Lexer.countP_pump_events_le (g : Grammar) (config : Config) (mode : Mode) (s : Source) :
    (pump g config mode s).events.countP Event.isStepRequested ≤ mode.potential g s := by
  have hNone {mode : Mode} {s : Source} {events : List Event} {answer : Outcome × Source}
      (hStep : mode.step g config s = ⟨events, answer⟩) :
      events.countP Event.isStepRequested = 0 := by
    have hEvents := Mode.isStepRequested_of_mem_events g config mode s
    rw [hStep] at hEvents
    rw [List.countP_eq_zero]
    intro event hEvent
    rw [hEvents event hEvent]
    exact Bool.false_ne_true
  have hOne (mode : Mode) (events : List Event) : (Event.stepRequested mode :: events).countP
      Event.isStepRequested = events.countP Event.isStepRequested + 1 := List.countP_cons_of_pos rfl
  fun_induction pump g config mode s with
  | case1 mode s events e s' hStep | case2 mode s events s' hStep
  | case3 mode s events t next s' hStep =>
    rw [List.cons_append, hOne, List.countP_append, hNone hStep]
    exact Mode.potential_pos g mode s
  | case4 mode s events next s' hStep ih =>
    have hLess := Mode.potential_lt_of_step (congrArg Traced.value hStep)
    rw [Traced.after_events, List.countP_append, hOne, hNone hStep]
    omega

namespace Mode

/-- Whatever the markers of the grammar are, a lexer comes to an end within twice as many steps as
there are characters, and two, or one where it begins between delimiters. As many it requests at
most for one token. And where two steps that follow one another take nothing, there is nothing. -/
theorem ends_within (g : Grammar) (config : Config) (mode : Mode) (s : Source) :
    (∃ n, mode.Ends g config s n ∧ n ≤ 2 * s.unread.length + 2 ∧
      (mode = .std → n ≤ 2 * s.unread.length + 1)) ∧
    (Lexer.pump g config mode s).events.countP Event.isStepRequested ≤ 2 * s.unread.length + 2 ∧
    ∀ token? next s', (mode.step g config s).value = (.ok (.emit token? next), s') →
      s'.position = s.position → (next.step g config s').value.2.position = s'.position →
        s.unread = [] := by
  have hPotential := potential_le g mode s
  refine ⟨?_, ?_, ?_⟩
  · obtain ⟨n, hEnds, hBound⟩ := exists_ends g config mode s
    refine ⟨n, hEnds, Nat.le_trans hBound hPotential, ?_⟩
    rintro rfl
    exact hBound
  · exact Nat.le_trans (Lexer.countP_pump_events_le g config mode s) hPotential
  · intro token? next s' hStep hStill hAgain
    exact unread_of_still hStep hStill hAgain

end Mode

end MarkerLex
