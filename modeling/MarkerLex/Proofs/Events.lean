import MarkerLex.Proofs.PullOrder
import MarkerLex.Proofs.Warnings

/-!
# What a lexer tells

The events of a lexer are those of one long reading, from the front of its source to the end or to
an error. Calls only decide how far along it the lexer is: what a call tells is taken off the
front of what is still to be told, and a call that does not read tells nothing.
-/

namespace MarkerLex

set_option autoImplicit false

namespace Event

def produced? : Event → Option Token
  | tokenProduced t => some t
  | _ => none

def failed? : Event → Option LexError
  | lexFailed e => some e
  | _ => none

/-- Whether the event is what reading ahead comes to. -/
def isVerdict : Event → Bool
  | tokenProduced _ | inputEnded | lexFailed _ => true
  | _ => false

theorem isVerdict_of_phase {e : Event} (h : e.phase = .reader ∨ e.phase = .source) :
    e.isVerdict = false := by
  cases e <;> simp_all [phase, isVerdict]

theorem produced?_of_isVerdict (e : Event) (h : e.isVerdict = false) : e.produced? = none := by
  cases e <;> first | rfl | cases h

theorem failed?_of_isVerdict (e : Event) (h : e.isVerdict = false) : e.failed? = none := by
  cases e <;> first | rfl | cases h

theorem filterMap_verdicts {α : Type} {f : Event → Option α}
    (hOnly : ∀ e, e.isVerdict = false → f e = none) (events : List Event) :
    events.filterMap f = (events.filter isVerdict).filterMap f := by
  rw [List.filterMap_filter]
  congr
  funext e
  cases hVerdict : e.isVerdict with
  | true => rfl
  | false => exact hOnly e hVerdict

end Event

namespace Lexer

/-- What a call tells. -/
def told (l : Lexer) : Call → List Event
  | .hasNext => l.hasNext.events
  | .advance => l.advance.events
  | .next => l.next?.events
  | .position => []

def events (l : Lexer) : List Call → List Event
  | [] => []
  | call :: calls => l.told call ++ events (l.answer call).2 calls

/-- All that a lexer has told since it was created. -/
def log (created : Traced Lexer) (calls : List Call) : List Event :=
  created.events ++ created.value.events calls

def Ready.verdict : Ready → Event
  | token t _ => .tokenProduced t
  | ended => .inputEnded
  | failed e _ => .lexFailed e

def verdict? (l : Lexer) : Option Event :=
  match l.state with
  | .reading _ => none
  | .ready r => some r.verdict

/-- The token that has been found but not delivered. -/
def held? (l : Lexer) : Option Token :=
  match l.state with
  | .ready (.token t _) => some t
  | _ => none

def failure? (l : Lexer) : Option LexError :=
  match l.state with
  | .ready (.failed e _) => some e
  | _ => none

/-- The lexer has come to the end or to an error. -/
def Done (l : Lexer) : Prop :=
  l.state = .ready .ended ∨ ∃ e reported, l.state = .ready (.failed e reported)

section Trail

variable {g : Grammar} {config : Config}

/-- All that is told from a mode on, to the end or to an error. -/
def trail (g : Grammar) (config : Config) (mode : Mode) (s : Source) : List Event :=
  match _h : pump g config mode s with
  | ⟨events, (.token _ next, s')⟩ => events ++ trail g config next s'
  | ⟨events, (.ended, _)⟩ => events
  | ⟨events, (.failed _ _, _)⟩ => events
termination_by mode.potential g s
decreasing_by exact potential_lt_of_pump (congrArg Traced.value _h)

def Ready.trail (g : Grammar) (config : Config) (s : Source) : Ready → List Event
  | token _ next => Lexer.trail g config next s
  | ended | failed _ _ => []

theorem trail_eq (mode : Mode) (s : Source) : trail g config mode s =
    (pump g config mode s).events ++
      (pump g config mode s).value.1.trail g config (pump g config mode s).value.2 := by
  rw [trail]
  split <;> rename_i hPump <;> simp [hPump, Ready.trail]

end Trail

/-- What a lexer has still to tell. -/
def unheard (l : Lexer) : List Event :=
  match l.state with
  | .reading mode => trail l.grammar l.config mode l.source
  | .ready r => r.trail l.grammar l.config l.source

section Pump

variable (g : Grammar) (config : Config)

/-- Reading ahead tells once what it comes to, and nothing like it before. -/
theorem pump_verdicts (mode : Mode) (s : Source) :
    (pump g config mode s).events.filter Event.isVerdict =
      [(pump g config mode s).value.1.verdict] := by
  have hNone {mode : Mode} {s : Source} {events : List Event} {answer : Outcome × Source}
      (hStep : mode.step g config s = ⟨events, answer⟩) : events.filter Event.isVerdict = [] := by
    have hPhases := mode.phase_of_mem_step g config s
    rw [hStep] at hPhases
    rw [List.filter_eq_nil_iff]
    intro event hEvent
    rw [Event.isVerdict_of_phase (hPhases event hEvent)]
    exact Bool.false_ne_true
  fun_induction pump g config mode s with
  | case1 mode s events e s' hStep | case2 mode s events s' hStep
  | case3 mode s events t next s' hStep =>
    rw [List.cons_append, List.filter_cons_of_neg Bool.false_ne_true, List.filter_append,
      hNone hStep]
    rfl
  | case4 mode s events next s' hStep ih =>
    rw [Traced.after_events, List.filter_append, List.filter_cons_of_neg Bool.false_ne_true,
      hNone hStep]
    exact ih

theorem pump_tells (mode : Mode) (s : Source) :
    s.Tells (pump g config mode s).events (pump g config mode s).value.2 := by
  have hRequested (s : Source) (mode : Mode) : s.Tells [.stepRequested mode] s :=
    s.tells_nothing rfl
  fun_induction pump g config mode s with
  | case1 mode s events e s' hStep | case2 mode s events s' hStep
  | case3 mode s events t next s' hStep =>
    have hTells := mode.step_tells g config s
    rw [hStep] at hTells
    exact ((hRequested s mode).trans hTells).trans (s'.tells_nothing rfl)
  | case4 mode s events next s' hStep ih =>
    have hTells := mode.step_tells g config s
    rw [hStep] at hTells
    exact ((hRequested s mode).trans hTells).trans ih

end Pump

namespace Ready.Leads

variable {r : Ready} {token? : Option Token} {state : State}

theorem unheard (h : r.Leads token? state) (l : Lexer) :
    ({ l with state := state } : Lexer).unheard = r.trail l.grammar l.config l.source := by
  cases h <;> rfl

theorem verdicts (h : r.Leads token? state) (l : Lexer) :
    [r.verdict] = token?.toList.map .tokenProduced ++
      ({ l with state := state } : Lexer).verdict?.toList := by
  cases h <;> rfl

end Ready.Leads

section Calls

variable (l : Lexer)

theorem fill_unheard : l.fill.events ++
    l.fill.value.1.trail l.fill.value.2.grammar l.fill.value.2.config l.fill.value.2.source =
      l.unheard := by
  obtain ⟨source, g, config, state⟩ := l
  cases state with
  | ready r => rfl
  | reading mode => exact (trail_eq mode source).symm

theorem fill_verdicts : l.verdict?.toList ++ l.fill.events.filter Event.isVerdict =
    [l.fill.value.1.verdict] := by
  obtain ⟨source, g, config, state⟩ := l
  cases state with
  | ready r => rfl
  | reading mode => exact pump_verdicts g config mode source

theorem fill_tells : l.source.Tells l.fill.events l.fill.value.2.source := by
  obtain ⟨source, g, config, state⟩ := l
  cases state with
  | ready r => exact source.tells_nothing rfl
  | reading mode => exact pump_tells g config mode source

/-- A call tells what is told while something is found for it. What it does with that it does not
tell, and the place of the lexer needs nothing to be found. -/
theorem told_eq {call : Call} (hReads : call ≠ .position) : l.told call = l.fill.events := by
  cases call with
  | position => exact absurd rfl hReads
  | hasNext | advance | next => rfl

theorem told_unheard (call : Call) : l.told call ++ (l.answer call).2.unheard = l.unheard := by
  by_cases hReads : call = .position
  · rw [hReads]
    rfl
  · obtain ⟨state, hLeads, hState⟩ := l.answer_leads hReads
    rw [l.told_eq hReads, hState, hLeads.unheard]
    exact l.fill_unheard

theorem told_verdicts (call : Call) :
    l.verdict?.toList ++ (l.told call).filter Event.isVerdict =
      (l.answer call).1.token?.toList.map .tokenProduced ++
        (l.answer call).2.verdict?.toList := by
  by_cases hReads : call = .position
  · rw [hReads]
    exact List.append_nil _
  · obtain ⟨state, hLeads, hState⟩ := l.answer_leads hReads
    rw [l.told_eq hReads, hState, fill_verdicts, ← hLeads.verdicts]

theorem told_tells (call : Call) : l.source.Tells (l.told call) (l.answer call).2.source := by
  by_cases hReads : call = .position
  · rw [hReads]
    exact l.source.tells_nothing rfl
  · obtain ⟨state, -, hState⟩ := l.answer_leads hReads
    rw [l.told_eq hReads, hState]
    exact l.fill_tells

theorem events_unheard (calls : List Call) :
    l.events calls ++ (l.after calls).unheard = l.unheard := by
  induction calls generalizing l with
  | nil => rfl
  | cons call calls ih => rw [events, after, List.append_assoc, ih, told_unheard]

/-- What has been found by reading ahead is what has been delivered and what is held. -/
theorem events_verdicts (calls : List Call) :
    l.verdict?.toList ++ (l.events calls).filter Event.isVerdict =
      (l.delivered calls).map .tokenProduced ++ (l.after calls).verdict?.toList := by
  induction calls generalizing l with
  | nil => exact List.append_nil _
  | cons call calls ih =>
    rw [events, List.filter_append, ← List.append_assoc, told_verdicts, List.append_assoc, ih,
      delivered_cons, List.map_append, List.append_assoc]
    rfl

theorem events_tells (calls : List Call) :
    l.source.Tells (l.events calls) (l.after calls).source := by
  induction calls generalizing l with
  | nil => exact l.source.tells_nothing rfl
  | cons call calls ih => exact (l.told_tells call).trans (ih _)

theorem Done.unheard {l : Lexer} (h : l.Done) : l.unheard = [] := by
  obtain hState | ⟨e, reported, hState⟩ := h <;> simp [Lexer.unheard, hState, Ready.trail]

theorem filterMap_produced?_verdict? :
    l.verdict?.toList.filterMap Event.produced? = l.held?.toList := by
  obtain ⟨source, g, config, state⟩ := l
  cases state with
  | reading mode => rfl
  | ready r => cases r <;> rfl

theorem filterMap_failed?_verdict? :
    l.verdict?.toList.filterMap Event.failed? = l.failure?.toList := by
  obtain ⟨source, g, config, state⟩ := l
  cases state with
  | reading mode => rfl
  | ready r => cases r <;> rfl

end Calls

/-- What the events of a lexer over a source keep to, whatever it is asked. -/
structure Logs (created : Traced Lexer) (s : Source) : Prop where
  /-- Two lexers have told the same, as far as both have got. -/
  agree : ∀ calls calls', log created calls <+: log created calls' ∨
    log created calls' <+: log created calls
  done : ∀ calls calls', (created.value.after calls).Done → (created.value.after calls').Done →
    log created calls = log created calls'
  /-- Every token that has been found is told once, in order. -/
  produced : ∀ calls, (log created calls).filterMap Event.produced? =
    created.value.delivered calls ++ (created.value.after calls).held?.toList
  failed : ∀ calls, (log created calls).filterMap Event.failed? =
    (created.value.after calls).failure?.toList
  /-- Every ill-formed part that a source of reads has replaced is warned about once. -/
  warned : ∀ reads, s = .ofReads reads → ∀ calls, ∃ taken,
    Source.Warns reads (log created calls) taken (created.value.after calls).source

section Created

variable {s : Source} {g : Grammar} {config : Config} {created : Traced Lexer}

theorem events_of_create (hCreate : create s g config = .ok created) : ∃ comments strings strict,
    created.events = [.lexerCreated comments strings strict] := by
  rw [create] at hCreate
  split at hCreate
  case h_1 => cases hCreate
  case h_2 =>
    cases hCreate
    exact ⟨_, _, _, rfl⟩

/-- However a lexer is asked, what it has told and what it has still to tell is the same list. -/
theorem log_append_unheard (created : Traced Lexer) (calls : List Call) :
    log created calls ++ (created.value.after calls).unheard =
      created.events ++ created.value.unheard := by
  rw [log, List.append_assoc, events_unheard]

theorem filter_log (hCreate : create s g config = .ok created) (calls : List Call) :
    (log created calls).filter Event.isVerdict =
      (created.value.delivered calls).map .tokenProduced ++
        (created.value.after calls).verdict?.toList := by
  obtain ⟨comments, strings, strict, hEvents⟩ := events_of_create hCreate
  rw [← events_verdicts, log, hEvents, value_of_create hCreate]
  rfl

theorem logs_of_create (hCreate : create s g config = .ok created) : Logs created s where
  agree calls calls' := by
    have hBegins (calls : List Call) :
        log created calls <+: created.events ++ created.value.unheard :=
      ⟨_, log_append_unheard created calls⟩
    exact List.prefix_or_prefix_of_prefix (hBegins calls) (hBegins calls')
  done calls calls' hDone hDone' := by
    have hSame := (log_append_unheard created calls).trans (log_append_unheard created calls').symm
    rwa [hDone.unheard, hDone'.unheard, List.append_nil, List.append_nil] at hSame
  produced calls := by
    have hTokens (tokens : List Token) :
        (tokens.map Event.tokenProduced).filterMap Event.produced? = tokens := by
      rw [List.filterMap_map]
      exact List.filterMap_some
    rw [Event.filterMap_verdicts Event.produced?_of_isVerdict, filter_log hCreate,
      List.filterMap_append, hTokens, filterMap_produced?_verdict?]
  failed calls := by
    have hTokens (tokens : List Token) :
        (tokens.map Event.tokenProduced).filterMap Event.failed? = [] := by
      simp [Event.failed?]
    rw [Event.filterMap_verdicts Event.failed?_of_isVerdict, filter_log hCreate,
      List.filterMap_append, hTokens, filterMap_failed?_verdict?, List.nil_append]
  warned reads hReads calls := by
    obtain rfl := hReads
    obtain ⟨comments, strings, strict, hEvents⟩ := events_of_create hCreate
    have hCreated : (Source.ofReads reads).Tells created.events created.value.source := by
      rw [hEvents, value_of_create hCreate]
      exact Source.tells_nothing _ rfl
    exact (hCreated.trans (created.value.events_tells calls)).warns

end Created

/-- The events of a lexer do not depend on the calls that bring them about, nor do the warnings
of a source of reads on what it is asked. -/
theorem log_independent {g : Grammar} (hValid : g.validate = .ok ()) (s : Source)
    (config : Config) :
    (∃ created, create s g config = .ok created ∧ Logs created s) ∧
      ∀ reads requests, Source.Warns reads ((Source.ofReads reads).events requests)
        ((Source.ofReads reads).delivered requests) ((Source.ofReads reads).after requests) := by
  obtain ⟨created, hCreate⟩ := create_of_validate hValid s config
  exact ⟨⟨created, hCreate, logs_of_create hCreate⟩, Source.warns_after⟩

theorem log_independent_sample : Grammar.sample.validate = .ok () ∧
    ∃ created, create (.ofReads [.bytes [0x61, 0xFF, 0xEF, 0xBF, 0xBD]]) .sample {} = .ok created ∧
      Logs created (.ofReads [.bytes [0x61, 0xFF, 0xEF, 0xBF, 0xBD]]) :=
  ⟨rfl, (log_independent rfl (.ofReads [.bytes [0x61, 0xFF, 0xEF, 0xBF, 0xBD]]) {}).1⟩

end Lexer

end MarkerLex
