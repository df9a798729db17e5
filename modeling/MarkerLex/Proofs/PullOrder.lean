import Mathlib.Logic.ExistsUnique
import MarkerLex.Proofs.Run
import MarkerLex.Proofs.Validity

/-!
# The order of calls

A lexer may be asked for a next token, for the token itself, by iteration, or
for its place, in any order. Whatever the order, the answers follow one run:
what a lexer has still ahead is that run without the tokens it has delivered.
-/

namespace MarkerLex

set_option autoImplicit false

inductive Call where
  | hasNext
  | advance
  | next
  | position
deriving DecidableEq, Repr

inductive Answer where
  | hasNext (answer : Except LexError Bool)
  | advance (answer : Except LexError Token)
  | next (answer : Option (Except LexError Token))
  | position (place : Position)

namespace Answer

def token? : Answer → Option Token
  | advance (.ok t) => some t
  | next (some (.ok t)) => some t
  | _ => none

def yieldsError : Answer → Bool
  | next (some (.error _)) => true
  | _ => false

end Answer

namespace Lexer

def answer (l : Lexer) : Call → Answer × Lexer
  | .hasNext => (.hasNext l.hasNext.value.1, l.hasNext.value.2)
  | .advance => (.advance l.advance.value.1, l.advance.value.2)
  | .next => (.next l.next?.value.1, l.next?.value.2)
  | .position => (.position l.position, l)

def answers (l : Lexer) : List Call → List Answer
  | [] => []
  | call :: calls => (l.answer call).1 :: answers (l.answer call).2 calls

def after (l : Lexer) : List Call → Lexer
  | [] => l
  | call :: calls => after (l.answer call).2 calls

def delivered (l : Lexer) (calls : List Call) : List Token :=
  (l.answers calls).filterMap Answer.token?

def hasYieldedError (l : Lexer) (calls : List Call) : Bool :=
  (l.answers calls).any Answer.yieldsError

theorem delivered_cons (l : Lexer) (call : Call) (calls : List Call) :
    l.delivered (call :: calls) =
      (l.answer call).1.token?.toList ++ (l.answer call).2.delivered calls := by
  rw [delivered, answers, List.filterMap_cons]
  cases (l.answer call).1.token? <;> rfl

/-- What a call does with what has been found: the token it hands over, and the state after it. -/
inductive Ready.Leads : Ready → Option Token → State → Prop
  | kept (r : Ready) : Leads r none (.ready r)
  | delivered (t : Token) (next : Mode) : Leads (.token t next) (some t) (.reading next)
  | reported (e : LexError) : Leads (.failed e false) none (.ready (.failed e true))

theorem state_fill (l : Lexer) : l.fill.value.2.state = .ready l.fill.value.1 := by
  obtain ⟨source, g, config, state⟩ := l
  cases state <;> rfl

/-- Any call but the one for the place finds something first, and only changes the state then. -/
theorem answer_leads (l : Lexer) {call : Call} (hReads : call ≠ .position) :
    ∃ state, l.fill.value.1.Leads (l.answer call).1.token? state ∧
      (l.answer call).2 = { l.fill.value.2 with state := state } := by
  have hKept : l.fill.value.2 = { l.fill.value.2 with state := .ready l.fill.value.1 } := by
    rw [← state_fill]
  rcases hFill : l.fill.value with ⟨r, found⟩
  rw [hFill] at hKept
  cases call with
  | position => exact absurd rfl hReads
  | hasNext =>
    simp only [answer, hasNext, Traced.map_value, hFill]
    cases r <;> exact ⟨_, .kept _, hKept⟩
  | advance =>
    simp only [answer, advance, Traced.map_value, hFill]
    cases r with
    | token t next => exact ⟨_, .delivered t next, rfl⟩
    | ended | failed => exact ⟨_, .kept _, hKept⟩
  | next =>
    simp only [answer, next?, Traced.map_value, hFill]
    cases r with
    | token t next => exact ⟨_, .delivered t next, rfl⟩
    | ended => exact ⟨_, .kept _, hKept⟩
    | failed e reported =>
      cases reported with
      | true => exact ⟨_, .kept _, hKept⟩
      | false => exact ⟨_, .reported e, rfl⟩

/-- While the lexer reads in a mode `P` holds of its source, and while it holds something `Q`. -/
structure Keeps (g : Grammar) (config : Config) (P : Mode → Source → Prop)
    (Q : Ready → Source → Prop) (l : Lexer) : Prop where
  grammar_eq : l.grammar = g
  config_eq : l.config = config
  reading : ∀ mode, l.state = .reading mode → P mode l.source
  ready : ∀ r, l.state = .ready r → Q r l.source

/-- What is found by reading from where `P` holds satisfies `Q`, and reading goes on from there. -/
structure Invariant (g : Grammar) (config : Config) (P : Mode → Source → Prop)
    (Q : Ready → Source → Prop) : Prop where
  pump : ∀ mode s, P mode s →
    Q (Lexer.pump g config mode s).value.1 (Lexer.pump g config mode s).value.2
  token : ∀ t next s, Q (.token t next) s → P next s
  reported : ∀ e s, Q (.failed e false) s → Q (.failed e true) s

section Invariant

variable {g : Grammar} {config : Config} {P : Mode → Source → Prop} {Q : Ready → Source → Prop}
variable {l : Lexer}

theorem keeps_reading {mode : Mode} {s : Source} (h : P mode s) :
    Keeps g config P Q ⟨s, g, config, .reading mode⟩ where
  grammar_eq := rfl
  config_eq := rfl
  reading _ hState := by cases hState; exact h
  ready _ hState := by cases hState

theorem keeps_ready {r : Ready} {s : Source} (h : Q r s) :
    Keeps g config P Q ⟨s, g, config, .ready r⟩ where
  grammar_eq := rfl
  config_eq := rfl
  reading _ hState := by cases hState
  ready _ hState := by cases hState; exact h

theorem Keeps.fill (h : l.Keeps g config P Q) (hInvariant : Invariant g config P Q) :
    ∃ r s, Q r s ∧ l.fill.value = (r, ⟨s, g, config, .ready r⟩) := by
  obtain ⟨source, g, config, state⟩ := l
  obtain ⟨rfl, rfl, hReading, hReady⟩ := h
  cases state with
  | ready r => exact ⟨r, source, hReady r rfl, rfl⟩
  | reading mode => exact ⟨_, _, hInvariant.pump mode source (hReading mode rfl), rfl⟩

theorem Keeps.answer (h : l.Keeps g config P Q) (hInvariant : Invariant g config P Q)
    (call : Call) : (l.answer call).2.Keeps g config P Q := by
  by_cases hReads : call = .position
  · rw [hReads]
    exact h
  obtain ⟨r, s, hFound, hFill⟩ := h.fill hInvariant
  obtain ⟨state, hLeads, hState⟩ := l.answer_leads hReads
  rw [hFill] at hLeads hState
  rw [hState]
  generalize (l.answer call).1.token? = token? at hLeads
  cases hLeads with
  | kept => exact keeps_ready hFound
  | delivered t next => exact keeps_reading (hInvariant.token t next s hFound)
  | reported e => exact keeps_ready (hInvariant.reported e s hFound)

theorem Keeps.after (h : l.Keeps g config P Q) (hInvariant : Invariant g config P Q)
    (calls : List Call) : (l.after calls).Keeps g config P Q := by
  induction calls generalizing l with
  | nil => exact h
  | cons call calls ih => exact ih (h.answer hInvariant call)

/-- A token just handed over has been found by reading, and nothing has been read since. -/
theorem Keeps.of_advance {l' : Lexer} {t : Token} (h : l.Keeps g config P Q)
    (hInvariant : Invariant g config P Q) (hAdvance : l.advance.value = (.ok t, l')) :
    ∃ next s, Q (.token t next) s ∧ l' = ⟨s, g, config, .reading next⟩ := by
  obtain ⟨r, s, hFound, hFill⟩ := h.fill hInvariant
  simp only [advance, Traced.map_value, hFill] at hAdvance
  cases r with
  | token u next =>
    cases hAdvance
    exact ⟨next, s, hFound, rfl⟩
  | ended | failed => cases hAdvance

end Invariant

theorem answers_of_fill {l l' : Lexer} (hFill : l.fill.value = l'.fill.value)
    (hPosition : l.position = l'.position) (calls : List Call) :
    l.answers calls = l'.answers calls := by
  induction calls with
  | nil => rfl
  | cons call calls ih =>
    cases call with
    | position => simp only [answers, answer, hPosition, ih]
    | hasNext => simp only [answers, answer, hasNext, Traced.map_value, hFill]
    | advance => simp only [answers, answer, advance, Traced.map_value, hFill]
    | next => simp only [answers, answer, next?, Traced.map_value, hFill]

/-- A relation of lexers that find the same at the same place, and are related again when they
hold what they have found and when they go on from there. -/
structure Simulation (R : Lexer → Lexer → Prop) : Prop where
  fill : ∀ l l', R l l' → l.fill.value.1 = l'.fill.value.1 ∧ R l.fill.value.2 l'.fill.value.2
  state : ∀ l l' state, R l l' → R { l with state := state } { l' with state := state }
  position : ∀ l l', R l l' → l.position = l'.position

section Simulation

variable {R : Lexer → Lexer → Prop} {l l' : Lexer}

theorem Simulation.answer (hSimulation : Simulation R) (h : R l l') (call : Call) :
    (l.answer call).1 = (l'.answer call).1 ∧ R (l.answer call).2 (l'.answer call).2 := by
  obtain ⟨hFound, hHeld⟩ := hSimulation.fill l l' h
  rcases hFill : l.fill.value with ⟨r, held⟩
  rcases hFill' : l'.fill.value with ⟨r', held'⟩
  rw [hFill, hFill'] at hFound hHeld
  obtain rfl : r = r' := hFound
  have hPlace : held.source.position = held'.source.position := hSimulation.position _ _ hHeld
  have hMoved (state : State) := hSimulation.state _ _ state hHeld
  cases call with
  | position => exact ⟨congrArg Answer.position (hSimulation.position l l' h), h⟩
  | hasNext =>
    simp only [Lexer.answer, hasNext, Traced.map_value, hFill, hFill']
    cases r <;> exact ⟨rfl, hHeld⟩
  | advance =>
    simp only [Lexer.answer, advance, Traced.map_value, hFill, hFill']
    cases r with
    | token t next => exact ⟨rfl, hMoved _⟩
    | ended =>
      refine ⟨?_, hHeld⟩
      simp only [hPlace]
    | failed e reported => exact ⟨rfl, hHeld⟩
  | next =>
    simp only [Lexer.answer, next?, Traced.map_value, hFill, hFill']
    cases r with
    | token t next => exact ⟨rfl, hMoved _⟩
    | ended => exact ⟨rfl, hHeld⟩
    | failed e reported =>
      cases reported with
      | true => exact ⟨rfl, hHeld⟩
      | false => exact ⟨rfl, hMoved _⟩

theorem Simulation.answers (hSimulation : Simulation R) (h : R l l') (calls : List Call) :
    l.answers calls = l'.answers calls := by
  induction calls generalizing l l' with
  | nil => rfl
  | cons call calls ih =>
    obtain ⟨hAnswer, hLater⟩ := hSimulation.answer h call
    rw [Lexer.answers, Lexer.answers, hAnswer, ih hLater]

end Simulation

def ahead (l : Lexer) : Run :=
  match l.state with
  | .reading mode => Run.ofMode l.grammar l.config mode l.source
  | .ready r => r.ahead l.grammar l.config l.source

def reported (l : Lexer) : Bool :=
  match l.state with
  | .ready (.failed _ reported) => reported
  | _ => false

/-- Where a lexer stands in a run: what is ahead of it, whether iteration has yielded the
error, and where its source ends. -/
structure Stands (l : Lexer) (rest : Run) (reported : Bool) (stop : Position) : Prop where
  ahead : l.ahead = rest
  reported : l.reported = reported
  stop : l.source.stop = stop
  sound : ∀ r, l.state = .ready r → r.Sound l.source

variable {l : Lexer} {rest : Run} {wasReported : Bool} {stop : Position}

theorem stands_fill (h : l.Stands rest wasReported stop) :
    l.fill.value.2.Stands rest wasReported stop ∧ l.fill.value.2.state = .ready l.fill.value.1 := by
  obtain ⟨source, g, config, state⟩ := l
  cases state with
  | ready r => exact ⟨h, rfl⟩
  | reading mode =>
    obtain ⟨taken, hLeaves⟩ := pump_leaves g config mode source
    refine ⟨⟨(ahead_pump mode source).trans h.ahead, ?_, hLeaves.stop_eq.trans h.stop, ?_⟩, rfl⟩
    · rw [← h.reported]
      change (match State.ready (pump g config mode source).value.1 with
        | .ready (.failed _ reported) => reported
        | _ => false) = false
      split
      case h_1 hFound => exact unreported_pump mode source (State.ready.inj hFound)
      case h_2 => rfl
    · intro r hr
      cases State.ready.inj hr
      exact sound_pump mode source

theorem Stands.token {t : Token} {next : Mode} (h : l.Stands rest wasReported stop)
    (hState : l.state = .ready (.token t next)) :
    ∃ later, rest = later.push (some t) ∧ wasReported = false ∧
      ({ l with state := .reading next } : Lexer).Stands later wasReported stop := by
  obtain ⟨source, g, config, state⟩ := l
  cases hState
  have hReported : false = wasReported := h.reported
  exact ⟨Run.ofMode g config next source, h.ahead.symm, hReported.symm, rfl, hReported, h.stop,
    fun r hr => by cases hr⟩

theorem Stands.ended (h : l.Stands rest wasReported stop) (hState : l.state = .ready .ended) :
    rest = ⟨[], none⟩ ∧ l.source.position = stop := by
  have hUnread : l.source.unread = [] := h.sound _ hState
  constructor
  · rw [← h.ahead, Lexer.ahead, hState]
    rfl
  · rw [← h.stop, Source.stop, hUnread, Position.advancedBy_nil]

theorem Stands.failed {e : LexError} {reported : Bool} (h : l.Stands rest wasReported stop)
    (hState : l.state = .ready (.failed e reported)) :
    rest = ⟨[], some e⟩ ∧ reported = wasReported ∧
      ({ l with state := .ready (.failed e true) } : Lexer).Stands rest true stop := by
  have hRest : rest = ⟨[], some e⟩ := by
    rw [← h.ahead, Lexer.ahead, hState]
    rfl
  have hSound : e.isExhausted = false := h.sound _ hState
  refine ⟨hRest, ?_, hRest.symm, rfl, h.stop, fun r hr => ?_⟩
  · rw [← h.reported, Lexer.reported, hState]
  · cases State.ready.inj hr
    exact hSound

end Lexer

def Run.result (r : Run) : Except LexError (List Token) :=
  match r.error? with
  | some e => .error e
  | none => .ok r.tokens

theorem Run.result_eq_ok {r : Run} {tokens : List Token} :
    r.result = .ok tokens ↔ r = ⟨tokens, none⟩ := by
  obtain ⟨found, error?⟩ := r
  cases error? with
  | none => simp [result]
  | some e => simp [result]

theorem allTokens_of_run (r : Run) :
    allTokens (r.tokens.map .ok ++ (r.error?.map .error).toList) = r.result := by
  obtain ⟨tokens, error?⟩ := r
  induction tokens with
  | nil => cases error? <;> rfl
  | cons t tokens ih =>
    rw [List.map_cons, List.cons_append, allTokens, ih]
    cases error? <;> rfl

def Run.Answers (rest : Run) (reported : Bool) (stop : Position) : Answer → Prop
  | .hasNext answer => answer = match rest with
    | ⟨_ :: _, _⟩ => .ok true
    | ⟨[], some e⟩ => .error e
    | ⟨[], none⟩ => .ok false
  | .advance answer => answer = match rest with
    | ⟨t :: _, _⟩ => .ok t
    | ⟨[], some e⟩ => .error e
    | ⟨[], none⟩ => .error ⟨.exhausted, stop⟩
  | .next answer => answer = match rest with
    | ⟨t :: _, _⟩ => some (.ok t)
    | ⟨[], some e⟩ => if reported then none else some (.error e)
    | ⟨[], none⟩ => none
  | .position _ => True

namespace Lexer

variable {l : Lexer} {rest : Run} {wasReported : Bool} {stop : Position}

theorem stands_answer (h : l.Stands rest wasReported stop) (call : Call) :
    rest.Answers wasReported stop (l.answer call).1 ∧
      ∃ later, rest = later.push (l.answer call).1.token? ∧
        (l.answer call).2.Stands later (wasReported || (l.answer call).1.yieldsError) stop := by
  obtain ⟨hFilled, hReady⟩ := stands_fill h
  have hHere : l.Stands rest (wasReported || false) stop := by rwa [Bool.or_false]
  have hKept : l.fill.value.2.Stands rest (wasReported || false) stop := by
    rwa [Bool.or_false]
  rcases hFill : l.fill.value with ⟨found, l'⟩
  rw [hFill] at hFilled hReady hKept
  cases call with
  | position => exact ⟨trivial, rest, rfl, hHere⟩
  | hasNext =>
    cases found with
    | token t next =>
      obtain ⟨later, rfl, -, -⟩ := hFilled.token hReady
      simp only [answer, hasNext, Traced.map_value, hFill]
      exact ⟨rfl, _, rfl, hKept⟩
    | ended =>
      obtain ⟨rfl, -⟩ := hFilled.ended hReady
      simp only [answer, hasNext, Traced.map_value, hFill]
      exact ⟨rfl, _, rfl, hKept⟩
    | failed e reported =>
      obtain ⟨rfl, -, -⟩ := hFilled.failed hReady
      simp only [answer, hasNext, Traced.map_value, hFill]
      exact ⟨rfl, _, rfl, hKept⟩
  | advance =>
    cases found with
    | token t next =>
      obtain ⟨later, rfl, rfl, hLater⟩ := hFilled.token hReady
      simp only [answer, advance, Traced.map_value, hFill]
      exact ⟨rfl, later, rfl, hLater⟩
    | ended =>
      obtain ⟨rfl, hPlace⟩ := hFilled.ended hReady
      simp only [answer, advance, Traced.map_value, hFill]
      exact ⟨by rw [← hPlace]; rfl, _, rfl, hKept⟩
    | failed e reported =>
      obtain ⟨rfl, -, -⟩ := hFilled.failed hReady
      simp only [answer, advance, Traced.map_value, hFill]
      exact ⟨rfl, _, rfl, hKept⟩
  | next =>
    cases found with
    | token t next =>
      obtain ⟨later, rfl, rfl, hLater⟩ := hFilled.token hReady
      simp only [answer, next?, Traced.map_value, hFill]
      exact ⟨rfl, later, rfl, hLater⟩
    | ended =>
      obtain ⟨rfl, -⟩ := hFilled.ended hReady
      simp only [answer, next?, Traced.map_value, hFill]
      exact ⟨rfl, _, rfl, hKept⟩
    | failed e reported =>
      obtain ⟨rfl, rfl, hReported⟩ := hFilled.failed hReady
      cases reported with
      | true =>
        simp only [answer, next?, Traced.map_value, hFill]
        exact ⟨rfl, _, rfl, hKept⟩
      | false =>
        simp only [answer, next?, Traced.map_value, hFill]
        exact ⟨rfl, _, rfl, hReported⟩

theorem stands_after (h : l.Stands rest wasReported stop) (calls : List Call) :
    ∃ later, rest = ⟨l.delivered calls ++ later.tokens, later.error?⟩ ∧
      (l.after calls).Stands later (wasReported || l.hasYieldedError calls) stop := by
  induction calls generalizing l rest wasReported with
  | nil => exact ⟨rest, rfl, by rwa [hasYieldedError, answers, List.any_nil, Bool.or_false]⟩
  | cons call calls ih =>
    obtain ⟨-, next, rfl, hNext⟩ := stands_answer h call
    obtain ⟨later, rfl, hLater⟩ := ih hNext
    refine ⟨later, ?_, ?_⟩
    · rw [delivered_cons, List.append_assoc]
      rfl
    · rwa [Bool.or_assoc] at hLater

theorem value_of_create {s : Source} {g : Grammar} {config : Config} {created : Traced Lexer}
    (hCreate : create s g config = .ok created) :
    created.value = ⟨s, g, config, .reading .std⟩ := by
  rw [create] at hCreate
  split at hCreate
  case h_1 => cases hCreate
  case h_2 =>
    cases hCreate
    rfl

theorem stands_create {s : Source} {g : Grammar} {config : Config} {created : Traced Lexer}
    (hCreate : create s g config = .ok created) :
    created.value.Stands (Run.ofMode g config .std s) false s.stop := by
  rw [value_of_create hCreate]
  exact ⟨rfl, rfl, rfl, fun r hr => by cases hr⟩

/-- What a lexer answers after some calls. The tokens it has handed over are the first ones of
the run; the next answers are those of the run at its next token, or at its end at `stop`. -/
structure Follows (l : Lexer) (run : Run) (stop : Position) (calls : List Call) : Prop where
  delivered : l.delivered calls = run.tokens.take (l.delivered calls).length
  more : ∀ t, run.tokens[(l.delivered calls).length]? = some t →
    (l.after calls).hasNext.value.1 = .ok true ∧
    (l.after calls).advance.value.1 = .ok t ∧
    (l.after calls).next?.value.1 = some (.ok t)
  ended : (l.delivered calls).length = run.tokens.length → run.error? = none →
    (l.after calls).hasNext.value.1 = .ok false ∧
    (l.after calls).advance.value.1 = .error ⟨.exhausted, stop⟩ ∧
    (l.after calls).next?.value.1 = none
  failed : ∀ e, (l.delivered calls).length = run.tokens.length → run.error? = some e →
    (l.after calls).hasNext.value.1 = .error e ∧
    (l.after calls).advance.value.1 = .error e ∧
    (l.after calls).next?.value.1 = if l.hasYieldedError calls then none else some (.error e)

theorem follows_of_stands (h : l.Stands rest false stop) (calls : List Call) :
    l.Follows rest stop calls := by
  obtain ⟨later, rfl, hLater⟩ := stands_after h calls
  rw [Bool.false_or] at hLater
  have hHasNext := (stands_answer hLater .hasNext).1
  have hAdvance := (stands_answer hLater .advance).1
  have hNext := (stands_answer hLater .next).1
  obtain ⟨tokens, error?⟩ := later
  refine ⟨List.take_left.symm, ?_, ?_, ?_⟩
  · intro t ht
    rw [List.getElem?_append_right (Nat.le_refl _), Nat.sub_self] at ht
    obtain ⟨u, tokens, rfl⟩ : ∃ u more, tokens = u :: more := by
      cases tokens with
      | nil => cases ht
      | cons u more => exact ⟨u, more, rfl⟩
    cases ht
    exact ⟨hHasNext, hAdvance, hNext⟩
  · intro hLength hError
    obtain rfl : tokens = [] := by simpa using hLength
    cases hError
    exact ⟨hHasNext, hAdvance, hNext⟩
  · intro e hLength hError
    obtain rfl : tokens = [] := by simpa using hLength
    cases hError
    exact ⟨hHasNext, hAdvance, hNext⟩

theorem delivered_advances (h : l.Stands rest wasReported stop) (n : Nat) :
    l.delivered (List.replicate n .advance) = rest.tokens.take n := by
  induction n generalizing l rest wasReported with
  | zero => rfl
  | succ n ih =>
    obtain ⟨hAnswer, later, rfl, hLater⟩ := stands_answer h .advance
    rw [List.replicate_succ, delivered_cons, ih hLater]
    change l.advance.value.1 = _ at hAnswer
    cases hToken : (l.answer .advance).1.token? with
    | some t => rfl
    | none =>
      -- no token was handed over, so none was ahead
      rw [hToken] at hAnswer
      obtain ⟨tokens, error?⟩ := later
      cases tokens with
      | nil => rw [Run.push, List.take_nil]; rfl
      | cons t tokens =>
        change Answer.token? (.advance l.advance.value.1) = none at hToken
        rw [hAnswer] at hToken
        cases hToken

/-- Answers determine the run: taking all tokens and asking once more shows its end. -/
theorem run_eq_of_follows {run : Run} (h : l.Stands rest false stop)
    (hFollows : ∀ calls, l.Follows run stop calls) : run = rest := by
  let calls := List.replicate rest.tokens.length Call.advance
  have hAll : l.delivered calls = rest.tokens := by
    rw [delivered_advances h, List.take_length]
  have hRest := follows_of_stands h calls
  have hRun := hFollows calls
  have hEnd : (l.delivered calls).length = rest.tokens.length := congrArg List.length hAll
  have hNoMore : ¬ ∃ t, run.tokens[(l.delivered calls).length]? = some t := by
    rintro ⟨t, ht⟩
    have hTrue := (hRun.more t ht).1
    cases hError : rest.error? with
    | none => cases (hRest.ended hEnd hError).1.symm.trans hTrue
    | some e => cases (hRest.failed e hEnd hError).1.symm.trans hTrue
  have hShort : run.tokens.length ≤ (l.delivered calls).length := by
    rw [← List.getElem?_eq_none_iff]
    exact Option.eq_none_iff_forall_ne_some.mpr fun t ht => hNoMore ⟨t, ht⟩
  have hTokens : run.tokens = rest.tokens := by
    rw [← hAll, hRun.delivered, List.take_of_length_le hShort]
  have hLength : (l.delivered calls).length = run.tokens.length := by rw [hEnd, hTokens]
  have hError : run.error? = rest.error? := by
    cases hOurs : run.error? with
    | none =>
      have hFalse := (hRun.ended hLength hOurs).1
      cases hTheirs : rest.error? with
      | none => rfl
      | some e => cases (hRest.failed e hEnd hTheirs).1.symm.trans hFalse
    | some e =>
      have hFails := (hRun.failed e hLength hOurs).1
      cases hTheirs : rest.error? with
      | none => cases (hRest.ended hEnd hTheirs).1.symm.trans hFails
      | some e' =>
        have hSame := (hRest.failed e' hEnd hTheirs).1.symm.trans hFails
        rw [Except.error.inj hSame]
  obtain ⟨tokens, error?⟩ := run
  obtain ⟨tokens', error'?⟩ := rest
  cases hTokens
  cases hError
  rfl

theorem create_of_validate {g : Grammar} (hValid : g.validate = .ok ()) (s : Source)
    (config : Config) : ∃ created, create s g config = .ok created := by
  rw [create, Grammar.error?_of_validate hValid]
  exact ⟨_, rfl⟩

/-- A lexer over the source goes through the run, whatever it is asked. -/
def Performs (s : Source) (g : Grammar) (config : Config) (run : Run) : Prop :=
  ∃ created, create s g config = .ok created ∧ ∀ calls, created.value.Follows run s.stop calls

theorem performs_ofMode {g : Grammar} (hValid : g.validate = .ok ()) (s : Source)
    (config : Config) : Performs s g config (Run.ofMode g config .std s) := by
  obtain ⟨created, hCreate⟩ := create_of_validate hValid s config
  exact ⟨created, hCreate, follows_of_stands (stands_create hCreate)⟩

theorem collect_of_stands (h : l.Stands rest false stop) :
    l.collect.value.1 = rest.tokens.map .ok ++ (rest.error?.map .error).toList := by
  induction hn : l.potential using Nat.strongRecOn generalizing l rest with
  | ind n ih =>
    subst hn
    obtain ⟨hAnswer, later, hRest, hLater⟩ := stands_answer h .next
    change l.next?.value.1 = _ at hAnswer
    rw [collect]
    split
    case h_1 events l' hNext =>
      rw [hNext] at hAnswer
      obtain ⟨tokens, error?⟩ := rest
      cases tokens with
      | cons t tokens => cases hAnswer
      | nil =>
        cases error? with
        | some e => cases hAnswer
        | none => rfl
    case h_2 events e l' hNext =>
      rw [hNext] at hAnswer
      obtain ⟨tokens, error?⟩ := rest
      cases tokens with
      | cons t tokens => cases hAnswer
      | nil =>
        cases error? with
        | some e => cases hAnswer; rfl
        | none => cases hAnswer
    case h_3 events t l' hNext =>
      have hDrop := potential_lt_of_next? (congrArg Traced.value hNext)
      simp only [answer, hNext, Answer.token?, Answer.yieldsError, Bool.or_false] at hRest hLater
      subst hRest
      exact congrArg (.ok t :: ·) (ih _ hDrop hLater rfl)

theorem tokenize_eq {g : Grammar} (hValid : g.validate = .ok ()) (t : Text) :
    tokenize t g = (Run.ofMode g {} .std (.ofText t)).result := by
  obtain ⟨created, hCreate⟩ := create_of_validate hValid (.ofText t) {}
  simp only [tokenize, hCreate]
  rw [collect_of_stands (stands_create hCreate), allTokens_of_run]

/-- Any order of calls takes the same run apart: there is one sequence of tokens, and one error
after it or none, from which every answer of a lexer follows. -/
theorem existsUnique_run {g : Grammar} (hValid : g.validate = .ok ()) (s : Source)
    (config : Config) :
    ∃ created, create s g config = .ok created ∧
      ∃! run : Run, (∀ e, run.error? = some e → e.isExhausted = false) ∧
        ∀ calls, created.value.Follows run s.stop calls := by
  obtain ⟨created, hCreate⟩ := create_of_validate hValid s config
  have hStands := stands_create hCreate
  refine ⟨created, hCreate, Run.ofMode g config .std s, ⟨?_, follows_of_stands hStands⟩, ?_⟩
  · intro e he
    exact Run.isExhausted_of_error .std s he
  · rintro run ⟨-, hFollows⟩
    exact run_eq_of_follows hStands hFollows

theorem existsUnique_run_sample : Grammar.sample.validate = .ok () ∧
    ∃ created, create (.ofText ['a', '\'', 'b']) .sample {} = .ok created ∧
      ∃! run : Run, (∀ e, run.error? = some e → e.isExhausted = false) ∧
        ∀ calls, created.value.Follows run ⟨1, 4, 3, 3⟩ calls :=
  ⟨rfl, existsUnique_run rfl (.ofText ['a', '\'', 'b']) {}⟩

end Lexer

end MarkerLex
