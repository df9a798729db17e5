import MarkerLex.Log.Line
import MarkerLex.Proofs.Reading

/-!
# Who tells what

The events of a step come from two sides. A reader tells how it reacts, and the source tells what
it finds between the characters, where it finds it. So the events of the source are settled by the
signals that have been passed, whichever reader passes them.
-/

namespace MarkerLex

set_option autoImplicit false

variable {σ : Type}

/-- The events that go with a reaction. -/
def Reaction.events : Reaction σ → List Event
  | .proceed _ => []
  | .remark event _ => [event]
  | .leave outcome => outcome.events
  | .take outcome => outcome.events

def Event.isOf (phase : Log.Phase) (e : Event) : Bool := e.phase == phase

/-- What a source tells while signals are passed, from a place on. -/
def Signal.told (place : Position) : List Signal → List Event
  | [] => []
  | .char c :: rest => told (place.advance c) rest
  | .note n :: rest => n.event place :: told place rest
  | .failure f :: rest => .readFailed f :: told place rest

theorem Signal.told_append (place : Position) (a b : List Signal) :
    told place (a ++ b) = told place a ++ told (place.advancedBy (chars a)) b := by
  induction a generalizing place with
  | nil => rfl
  | cons signal a ih =>
    cases signal with
    | char c => exact ih _
    | note n => exact congrArg (n.event place :: ·) (ih place)
    | failure f => exact congrArg (Event.readFailed f :: ·) (ih place)

@[simp] theorem Note.isOf_source (n : Note) (place : Position) :
    (n.event place).isOf .source = true := by
  cases n <;> rfl

namespace Source

/-- On the way from `s` to `left` these are the events, and those of the source among them are
what it tells of the signals that have been passed. -/
def Tells (s : Source) (events : List Event) (left : Source) : Prop :=
  ∃ passed, s.signals = passed ++ left.signals ∧
    left.position = s.position.advancedBy (Signal.chars passed) ∧
    events.filter (Event.isOf .source) = Signal.told s.position passed

variable {s left last : Source} {events later : List Event}

theorem tells_nothing {events : List Event} (s : Source)
    (hQuiet : events.filter (Event.isOf .source) = []) : s.Tells events s :=
  ⟨[], rfl, rfl, hQuiet⟩

theorem Tells.trans (hFirst : s.Tells events left) (hThen : left.Tells later last) :
    s.Tells (events ++ later) last := by
  obtain ⟨passed, hSignals, hPlace, hEvents⟩ := hFirst
  obtain ⟨further, hLeft, hStop, hLater⟩ := hThen
  refine ⟨passed ++ further, ?_, ?_, ?_⟩
  · rw [hSignals, hLeft, List.append_assoc]
  · rw [hStop, hPlace, Signal.chars_append, Position.advancedBy_append]
  · rw [List.filter_append, hEvents, hLater, hPlace, Signal.told_append]

theorem tells_note (n : Note) (rest : List Signal) (place : Position) :
    Tells ⟨.note n :: rest, place⟩ [n.event place] ⟨rest, place⟩ :=
  ⟨[.note n], rfl, rfl, by simp [Signal.told]⟩

theorem tells_failure (f : ReadFailure) (rest : List Signal) (place : Position) :
    Tells ⟨.failure f :: rest, place⟩ [.readFailed f] ⟨rest, place⟩ :=
  ⟨[.failure f], rfl, rfl, rfl⟩

theorem tells_char {events : List Event} (c : Char) (rest : List Signal) (place : Position)
    (hQuiet : events.filter (Event.isOf .source) = []) :
    Tells ⟨.char c :: rest, place⟩ events ⟨rest, place.advance c⟩ :=
  ⟨[.char c], rfl, rfl, hQuiet⟩

theorem tells_char_silent (c : Char) (rest : List Signal) (place : Position) :
    Tells ⟨.char c :: rest, place⟩ [] ⟨rest, place.advance c⟩ :=
  tells_char c rest place rfl

end Source

namespace Reader

/-- What holds of the events of a source and of those of a reader's answers holds of all events. -/
theorem forall_mem_run_events (r : Reader σ) {P : Event → Prop}
    (hNote : ∀ (n : Note) place, P (n.event place)) (hFailed : ∀ f, P (.readFailed f))
    (hReact : ∀ state place c, ∀ event ∈ (r.react state place c).events, P event)
    (hFinish : ∀ state, ∀ event ∈ (r.finish state).events, P event)
    (state : σ) (place : Position) (signals : List Signal) :
    ∀ event ∈ (r.run state place signals).events, P event := by
  induction signals generalizing state place with
  | nil => exact hFinish state
  | cons signal rest ih =>
    cases signal with
    | note n => exact List.forall_mem_cons.mpr ⟨hNote n place, ih state place⟩
    | failure f => exact List.forall_mem_singleton.mpr (hFailed f)
    | char c =>
      have hHere := hReact state place c
      rw [run]
      split
      case h_1 next h => exact ih next _
      case h_2 event next h =>
        rw [h] at hHere
        exact List.forall_mem_cons.mpr ⟨hHere event List.mem_cons_self, ih next _⟩
      case h_3 outcome h =>
        rw [h] at hHere
        exact hHere
      case h_4 outcome h =>
        rw [h] at hHere
        exact hHere

/-- What the reader itself tells is of the phase of readers. -/
structure Speaks (r : Reader σ) : Prop where
  react : ∀ state place c, ∀ event ∈ (r.react state place c).events, event.phase = .reader
  finish : ∀ state, ∀ event ∈ (r.finish state).events, event.phase = .reader

variable {r : Reader σ}

theorem filter_source_of_phase {events : List Event}
    (h : ∀ event ∈ events, event.phase = .reader) : events.filter (Event.isOf .source) = [] := by
  rw [List.filter_eq_nil_iff]
  intro event hEvent
  rw [Event.isOf, h event hEvent]
  decide

theorem Speaks.run_tells (h : r.Speaks) (state : σ) (place : Position) (signals : List Signal) :
    Source.Tells ⟨signals, place⟩ (r.run state place signals).events
      (r.run state place signals).value.2 := by
  induction signals generalizing state place with
  | nil => exact Source.tells_nothing _ (filter_source_of_phase (h.finish state))
  | cons signal rest ih =>
    cases signal with
    | note n => exact (Source.tells_note n rest place).trans (ih state place)
    | failure f => exact Source.tells_failure f rest place
    | char c =>
      have hQuiet := filter_source_of_phase (h.react state place c)
      rw [run]
      split
      case h_1 next hReact => exact (Source.tells_char_silent c rest place).trans (ih next _)
      case h_2 event next hReact =>
        rw [hReact] at hQuiet
        exact (Source.tells_char c rest place hQuiet).trans (ih next _)
      case h_3 outcome hReact =>
        rw [hReact] at hQuiet
        exact Source.tells_nothing _ hQuiet
      case h_4 outcome hReact =>
        rw [hReact] at hQuiet
        exact Source.tells_char c rest place hQuiet

theorem Speaks.phase_of_mem_run (h : r.Speaks) (state : σ) (place : Position)
    (signals : List Signal) : ∀ event ∈ (r.run state place signals).events,
      event.phase = .reader ∨ event.phase = .source := by
  refine r.forall_mem_run_events ?_ (fun _ => .inr rfl) ?_ ?_ state place signals
  · intro n place
    cases n <;> exact .inr rfl
  · exact fun state place c event hEvent => .inl (h.react state place c event hEvent)
  · exact fun state event hEvent => .inl (h.finish state event hEvent)

theorem speaks_std (g : Grammar) : (std g).Speaks where
  react p place c := by
    obtain ⟨-, h⟩ | ⟨-, -, h⟩ | ⟨-, d, before, -, -, h⟩ := std_react_cases g p place c
    · simp [h, Reaction.events, Event.phase]
    · simp [h, Reaction.events]
    · cases d <;> simp [h, Reaction.events, Event.phase, Delimiter.openedEvent]
  finish p := by simp [std, Traced.silent]

theorem speaks_whitespace (g : Grammar) : (whitespace g).Speaks where
  react _ place c := by
    obtain ⟨-, h⟩ | ⟨-, h⟩ := whitespace_react_cases g place c
    · simp [h, Reaction.events]
    · simp [h, Reaction.events, Traced.silent]
  finish _ := by simp [whitespace, Traced.silent]

theorem speaks_comment (config : Config) (spec : CommentSpec) (start : Position) :
    (comment config spec start).Speaks where
  react s place c := by
    obtain ⟨-, ⟨-, h⟩ | ⟨-, h⟩⟩ | ⟨-, -, ⟨-, h⟩ | ⟨-, h⟩⟩ | ⟨-, -, h⟩ :=
      comment_react_cases config spec start s place c
    · simp [h, Reaction.events, Event.phase]
    · simp [h, Reaction.events, Event.phase]
    · simp [h, Reaction.events, Event.phase]
    · simp [h, Reaction.events, Event.phase]
    · simp [h, Reaction.events]
  finish s := by
    simp only [comment]
    split <;> simp [Event.phase]

theorem speaks_string (spec : StringSpec) (start : Position) : (string spec start).Speaks where
  react s place c := by
    obtain ⟨-, h⟩ | ⟨-, -, h⟩ | ⟨-, -, -, h⟩ | ⟨-, -, -, h⟩ :=
      string_react_cases spec start s place c
    · simp [h, Reaction.events]
    · simp [h, Reaction.events, Event.phase]
    · simp [h, Reaction.events]
    · simp [h, Reaction.events]
  finish s := by simp [string, Event.phase]

end Reader

namespace Mode

variable (g : Grammar) (config : Config) (mode : Mode) (s : Source)

theorem step_tells : s.Tells (mode.step g config s).events (mode.step g config s).value.2 := by
  cases mode with
  | std => exact (Reader.speaks_std g).run_tells _ _ _
  | whitespace => exact (Reader.speaks_whitespace g).run_tells _ _ _
  | comment spec start => exact (Reader.speaks_comment config spec start).run_tells _ _ _
  | string spec start => exact (Reader.speaks_string spec start).run_tells _ _ _

/-- No step tells an event of the lexer itself. -/
theorem phase_of_mem_step : ∀ event ∈ (mode.step g config s).events,
    event.phase = .reader ∨ event.phase = .source := by
  cases mode with
  | std => exact (Reader.speaks_std g).phase_of_mem_run _ _ _
  | whitespace => exact (Reader.speaks_whitespace g).phase_of_mem_run _ _ _
  | comment spec start => exact (Reader.speaks_comment config spec start).phase_of_mem_run _ _ _
  | string spec start => exact (Reader.speaks_string spec start).phase_of_mem_run _ _ _

end Mode

end MarkerLex
