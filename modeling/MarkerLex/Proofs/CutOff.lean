import MarkerLex.Proofs.ByteSource
import MarkerLex.Proofs.Unsettled

/-!
# Reads that fail

A failure stands behind the characters that the bytes before it decide. A step that those
characters decide is the same whatever follows them; any other step meets the failure and
gives up what it was reading. So a run is cut off in front of what was in progress, and
what it delivers until then it would deliver however the text went on.
-/

namespace MarkerLex

set_option autoImplicit false

open Source

namespace Reader

/-- What a reader comes to when a failure stands behind some characters: these decide, or the
failure is met. -/
inductive Cut {σ : Type} (r : Reader σ) (state : σ) (place : Position) (before : List Signal)
    (f : ReadFailure) (after : List Signal) : Outcome × Source → Prop
  | failed {last : σ} (hPassed : r.passed? state place (Signal.chars before) = some last) :
    Cut r state place before f after
      (.error ⟨.source (errorAt (place.advancedBy (Signal.chars before)) f),
          place.advancedBy (Signal.chars before)⟩,
        ⟨after, place.advancedBy (Signal.chars before)⟩)
  | decided {taken : Text} {left : List Signal} {outcome : Outcome}
    (hTaken : Signal.chars before = taken ++ Signal.chars left)
    (hLeft : Signal.failures left = [])
    (hSame : ∀ more, (r.run state place ((Signal.chars before ++ more).map .char)).value =
      (outcome, plain (Signal.chars left ++ more) (place.advancedBy taken))) :
    Cut r state place before f after
      (outcome, ⟨left ++ .failure f :: after, place.advancedBy taken⟩)

variable {σ : Type} (r : Reader σ) {before : List Signal}

theorem run_cut (hBefore : Signal.failures before = []) (f : ReadFailure) (after : List Signal)
    (state : σ) (place : Position) : r.Cut state place before f after
      (r.run state place (before ++ .failure f :: after)).value := by
  induction before generalizing state place with
  | nil => exact .failed rfl
  | cons signal rest ih =>
    cases signal with
    | failure e => cases hBefore
    | note n =>
      change r.Cut state place _ f after (r.run state place (rest ++ .failure f :: after)).value
      have hRest := ih hBefore state place
      generalize (r.run state place (rest ++ .failure f :: after)).value = result at hRest ⊢
      cases hRest with
      | failed hPassed => exact .failed hPassed
      | decided hTaken hLeft hSame => exact .decided hTaken hLeft hSame
    | char c =>
      have further (next : σ)
          (hPassed : ∀ t, r.passed? state place (c :: t) = r.passed? next (place.advance c) t)
          (hRun : ∀ signals, (r.run state place (.char c :: signals)).value =
            (r.run next (place.advance c) signals).value) :
          r.Cut state place (.char c :: rest) f after
            (r.run state place (.char c :: (rest ++ .failure f :: after))).value := by
        have hRest := ih hBefore next (place.advance c)
        rw [hRun]
        generalize (r.run next (place.advance c) (rest ++ .failure f :: after)).value = result
          at hRest ⊢
        cases hRest with
        | failed hOn => exact .failed ((hPassed _).trans hOn)
        | @decided taken left outcome hTaken hLeft hSame =>
          have hMore (more : Text) := (hRun _).trans (hSame more)
          exact @Cut.decided _ r state place (.char c :: rest) f after (c :: taken) left outcome
            (congrArg (c :: ·) hTaken) hLeft hMore
      cases hReact : r.react state place c with
      | proceed next =>
        exact further next (fun t => by rw [passed?, hReact]) (fun t => by rw [run, hReact])
      | remark event next =>
        exact further next (fun t => by rw [passed?, hReact]) (fun t => by rw [run, hReact]; rfl)
      | leave outcome =>
        have hRun (signals : List Signal) : (r.run state place (.char c :: signals)).value =
            (outcome.value, ⟨.char c :: signals, place⟩) := by rw [run, hReact]; rfl
        rw [List.cons_append, hRun]
        exact @Cut.decided _ r state place (.char c :: rest) f after [] (.char c :: rest)
          outcome.value rfl hBefore fun more => hRun _
      | take outcome =>
        have hRun (signals : List Signal) : (r.run state place (.char c :: signals)).value =
            (outcome.value, ⟨signals, place.advance c⟩) := by rw [run, hReact]; rfl
        rw [List.cons_append, hRun]
        exact @Cut.decided _ r state place (.char c :: rest) f after [c] rest
          outcome.value rfl hBefore fun more => hRun _

end Reader

/-- What a run that meets a failure does not come to, though it would if the text ended there:
the term or, where that is allowed, the comment in progress, or an error that says of a comment
or a string that it is not over. -/
inductive Run.Withheld (g : Grammar) (config : Config) : Run → Prop
  | term {t : Text} {start : Position} (hPlain : g.Plain t) :
    Withheld g config ⟨(Token.term? t start).toList, none⟩
  | comment {spec : CommentSpec} {body : Text} {start : Position}
    (hOpen : spec.Open config.maxCommentDepth body) (hLenient : config.strictComments = false) :
    Withheld g config ⟨[(Delimiter.comment spec).token start body], none⟩
  | commentError {spec : CommentSpec} {start : Position} (hStrict : config.strictComments = true) :
    Withheld g config ⟨[], some ⟨.unterminatedComment spec.stop, start⟩⟩
  | stringError {spec : StringSpec} {start : Position} :
    Withheld g config ⟨[], some ⟨.unterminatedString spec.stop, start⟩⟩

/-- A token that is over in front of `stop`, however the text goes on: something else follows a
term, and the end marker of a comment or a string has been read. -/
inductive Token.Complete (config : Config) (stop : Position) : Token → Prop
  | term {text : Text} {start : Position}
    (hBefore : (start.advancedBy text).byteOffset < stop.byteOffset) :
    Complete config stop ⟨.term, text, start⟩
  | delimited {d : Delimiter} {body : Text} {start : Position}
    (hCloses : d.Closes config.maxCommentDepth body) : Complete config stop (d.token start body)

namespace Mode

/-- What a step comes to when a failure stands behind some characters. -/
inductive Cut (g : Grammar) (config : Config) (mode : Mode) (place : Position)
    (before : List Signal) (f : ReadFailure) (after : List Signal) : Outcome × Source → Prop
  | failed (hWithheld : (Run.ofMode g config mode
      (.plain (Signal.chars before) place)).Withheld g config) :
    Cut g config mode place before f after
      (.error ⟨.source (errorAt (place.advancedBy (Signal.chars before)) f),
          place.advancedBy (Signal.chars before)⟩,
        ⟨after, place.advancedBy (Signal.chars before)⟩)
  | decided {taken : Text} {left : List Signal} {outcome : Outcome}
    (hTaken : Signal.chars before = taken ++ Signal.chars left)
    (hLeft : Signal.failures left = [])
    (hReads : ∀ more, Reads g config mode place taken (Signal.chars left ++ more) outcome) :
    Cut g config mode place before f after
      (outcome, ⟨left ++ .failure f :: after, place.advancedBy taken⟩)

variable {g : Grammar} {config : Config} {mode next : Mode} {place : Position}
variable {taken rest : Text} {outcome : Outcome} {token? : Option Token}

theorem Reads.rest_of_whitespace (h : Reads g config mode place taken rest outcome)
    (hOutcome : outcome = .ok (.emit token? .whitespace)) : rest ≠ [] := by
  cases h with
  | space => exact List.cons_ne_nil _ _
  | @opening _ _ _ d => cases d <;> cases hOutcome
  | exhausted | lastTerm | gap | closed | tooDeep | commentCutOff | lenient | stringCutOff =>
    cases hOutcome

/-- What such a step emits is over where the text stood that decided it. -/
theorem Reads.complete (hValid : g.validate = .ok ())
    (h : ∀ more, Reads g config mode place taken (rest ++ more) (.ok (.emit token? next))) :
    ∀ t ∈ token?, t.Complete config (place.advancedBy (taken ++ rest)) := by
  have hTerm {u t : Text} (hText : taken ++ rest = u ++ t) (hMore : t ≠ []) :
      ∀ token ∈ Token.term? u place, token.Complete config (place.advancedBy (taken ++ rest)) := by
    intro token hToken
    have hBytes := Text.byteLength_pos hMore
    obtain ⟨-, rfl⟩ := Token.term?_eq_some.mp hToken
    apply Token.Complete.term
    rw [hText, Position.advancedBy_append, Position.byteOffset_advancedBy _ t]
    omega
  obtain ⟨longer, hSome, hLonger⟩ := Reads.longer h
  generalize hOutcome : Except.ok (Step.emit token? next) = outcome at hLonger
  cases hLonger with
  | space =>
    cases hOutcome
    have hRest := (h []).rest_of_whitespace rfl
    rw [List.append_nil] at hRest
    exact hTerm rfl hRest
  | @opening _ u _ d hOpens =>
    cases hOutcome
    have hStart := (Grammar.start_of_validate hValid (Grammar.mem_of_opening? hOpens.first)).1
    exact hTerm (List.append_assoc ..) (List.append_ne_nil_of_left_ne_nil hStart _)
  | closed hCloses =>
    cases hOutcome
    rintro t ⟨⟩
    exact .delimited hCloses
  | gap =>
    cases hOutcome
    rintro t ⟨⟩
  | lastTerm | lenient => exact absurd rfl hSome
  | exhausted | tooDeep | commentCutOff | stringCutOff => cases hOutcome

theorem Cut.of_reader {σ : Type} {r : Reader σ} {state : σ} {before : List Signal}
    (hStep : ∀ s, mode.step g config s = r.run state s.position s.signals)
    (hWithheld : ∀ last, r.passed? state place (Signal.chars before) = some last →
      (Run.ofMode g config mode (.plain (Signal.chars before) place)).Withheld g config)
    (hBefore : Signal.failures before = []) (f : ReadFailure) (after : List Signal) :
    mode.Cut g config place before f after
      (mode.step g config ⟨before ++ .failure f :: after, place⟩).value := by
  have hRun := r.run_cut hBefore f after state place
  rw [hStep]
  generalize (r.run state place (before ++ .failure f :: after)).value = result at hRun ⊢
  cases hRun with
  | failed hPassed => exact .failed (hWithheld _ hPassed)
  | @decided taken left outcome hTaken hLeft hSame =>
    refine .decided hTaken hLeft fun more => ?_
    obtain ⟨taken', rest, hText, hLeaves, hReads⟩ :=
      step_reads g config mode place (Signal.chars before ++ more)
    have hSame : (mode.step g config (.plain (Signal.chars before ++ more) place)).value =
        (outcome, .plain (Signal.chars left ++ more) (place.advancedBy taken)) := by
      rw [hStep]
      exact hSame more
    rw [hSame] at hLeaves hReads
    have hRest := congrArg Source.unread hLeaves
    rw [unread_plain, unread_plain] at hRest
    rw [hTaken, ← hRest, List.append_assoc, List.append_cancel_right_eq] at hText
    rwa [hText, hRest]

variable (g config mode place) in
theorem step_cut {before : List Signal} (hBefore : Signal.failures before = []) (f : ReadFailure)
    (after : List Signal) : mode.Cut g config place before f after
      (mode.step g config ⟨before ++ .failure f :: after, place⟩).value := by
  cases mode with
  | std =>
    refine .of_reader (fun _ => rfl) (fun last hPassed => ?_) hBefore f after
    obtain ⟨hPlain, -⟩ := (Reader.std_passed? place).mp hPassed
    rw [Run.ofMode_of_unsettled (.std hPlain)]
    exact .term hPlain
  | whitespace =>
    refine .of_reader (fun _ => rfl) (fun last hPassed => ?_) hBefore f after
    have hSpace := (Reader.whitespace_passed? place).mp hPassed
    have hNothing : Run.Withheld g config ⟨(Token.term? [] place).toList, none⟩ :=
      .term g.plain_nil
    rw [Run.ofMode_of_unsettled (.whitespace hSpace)]
    exact hNothing
  | comment spec start =>
    refine .of_reader (fun _ => rfl) (fun last hPassed => ?_) hBefore f after
    obtain ⟨hOpen, -⟩ := (Reader.comment_passed? start place).mp hPassed
    rw [Run.ofMode_of_unsettled (.comment hOpen), runAtEnd]
    split
    · exact .commentError ‹_›
    · exact .comment hOpen (Bool.eq_false_iff.mpr ‹_›)
  | string spec start =>
    refine .of_reader (fun _ => rfl) (fun last hPassed => ?_) hBefore f after
    have hStep : ((string spec start).step g config (.plain _ place)).value = _ :=
      (Reader.Decision.finish hPassed).run_eq
    rw [Run.ofMode_of_error hStep]
    exact .stringError

end Mode

namespace Run

/-- How a run goes when a failure stands behind `text`, compared with the runs over that text
and whatever else may follow it. -/
structure CutOff (g : Grammar) (config : Config) (f : ReadFailure) (mode : Mode)
    (place : Position) (text : Text) (run : Run) : Prop where
  complete : ∀ t ∈ run.tokens, t.Complete config (place.advancedBy text)
  goesOn : ∀ more, ∃ later : Run, ofMode g config mode (.plain (text ++ more) place) =
    ⟨run.tokens ++ later.tokens, later.error?⟩
  error : (∃ start, run.error? = some ⟨.commentTooDeep config.maxCommentDepth, start⟩ ∧
      ∀ more, ofMode g config mode (.plain (text ++ more) place) = run) ∨
    run.error? = some ⟨.source ⟨f, (place.advancedBy text).byteOffset⟩, place.advancedBy text⟩ ∧
      ∃ rest : Run, rest.Withheld g config ∧
        ofMode g config mode (.plain text place) = ⟨run.tokens ++ rest.tokens, rest.error?⟩

variable {g : Grammar} {config : Config} {f : ReadFailure} {mode next : Mode}
variable {place : Position} {text taken rest : Text} {token? : Option Token} {run : Run}

theorem CutOff.push (hValid : g.validate = .ok ())
    (hReads : ∀ more, mode.Reads g config place taken (rest ++ more) (.ok (.emit token? next)))
    (h : CutOff g config f next (place.advancedBy taken) rest run) :
    CutOff g config f mode place (taken ++ rest) (run.push token?) := by
  have hPlace := Position.advancedBy_append place taken rest
  have hStep (more : Text) : ofMode g config mode (.plain (taken ++ rest ++ more) place) =
      (ofMode g config next (.plain (rest ++ more) (place.advancedBy taken))).push token? := by
    rw [List.append_assoc, ofMode_of_emit (Mode.step_of_reads (hReads more))]
  constructor
  case complete =>
    intro t ht
    rcases List.mem_append.mp ht with hHere | hLater
    · exact Mode.Reads.complete hValid hReads t (Option.mem_toList.mp hHere)
    · rw [hPlace]
      exact h.complete t hLater
  case goesOn =>
    intro more
    obtain ⟨later, hLater⟩ := h.goesOn more
    refine ⟨later, ?_⟩
    rw [hStep, hLater, Run.push, Run.push, List.append_assoc]
  case error =>
    rcases h.error with ⟨start, hError, hSame⟩ | ⟨hError, withheld, hWithheld, hEnd⟩
    · refine .inl ⟨start, hError, fun more => ?_⟩
      rw [hStep, hSame]
    · rw [hPlace]
      refine .inr ⟨hError, withheld, hWithheld, ?_⟩
      have hLast := hStep []
      rw [List.append_nil, List.append_nil] at hLast
      rw [hLast, hEnd, Run.push, Run.push, List.append_assoc]

variable (config f) in
theorem cutOff_ofMode (hValid : g.validate = .ok ()) (mode : Mode) (s : Source)
    (before after : List Signal) (hSignals : s.signals = before ++ .failure f :: after)
    (hBefore : Signal.failures before = []) :
    CutOff g config f mode s.position (Signal.chars before) (ofMode g config mode s) := by
  induction mode, s using Mode.steps_induction g config generalizing before with
  | hStep mode s ih =>
    obtain ⟨signals, place⟩ := s
    obtain rfl : signals = before ++ .failure f :: after := hSignals
    have hCut := Mode.step_cut g config mode place hBefore f after
    rcases hStep : (mode.step g config ⟨before ++ .failure f :: after, place⟩).value with
      ⟨outcome, s'⟩
    rw [hStep] at hCut
    cases hCut with
    | failed hWithheld =>
      rw [ofMode_of_error hStep]
      exact ⟨fun t ht => (List.not_mem_nil ht).elim, fun more => ⟨_, rfl⟩,
        .inr ⟨rfl, _, hWithheld, rfl⟩⟩
    | @decided taken left _ hTaken hLeft hReads =>
      rw [hTaken]
      cases outcome with
      | error e =>
        obtain ⟨start, rfl⟩ := Mode.Reads.tooDeep_of_error hReads
        have hSame (more : Text) : ofMode g config mode
            (.plain (taken ++ Signal.chars left ++ more) place) =
              ⟨[], some ⟨.commentTooDeep config.maxCommentDepth, start⟩⟩ := by
          rw [List.append_assoc, ofMode_of_error (Mode.step_of_reads (hReads more))]
        rw [ofMode_of_error hStep]
        exact ⟨fun t ht => (List.not_mem_nil ht).elim, fun more => ⟨_, rfl⟩,
          .inl ⟨start, rfl, hSame⟩⟩
      | ok step =>
        cases step with
        | exhausted => exact absurd rfl (Mode.Reads.ne_exhausted hReads)
        | emit token? next =>
          rw [ofMode_of_emit hStep]
          exact .push hValid hReads (ih token? next _ hStep left rfl hLeft)

end Run

namespace Source

/-- `f` is the next failure that the source has to hand over. -/
def Awaits (s : Source) (f : ReadFailure) : Prop :=
  ∃ before after, s.signals = before ++ .failure f :: after ∧ Signal.failures before = []

end Source

/-- The errors of a lexer whose source stands as it does when they are found: the failure is
still to come, or it is the error and has the place of the source. -/
inductive LexError.Heeds (config : Config) (f : ReadFailure) (s : Source) : LexError → Prop
  | tooDeep {start : Position} (hAwaits : s.Awaits f) :
    Heeds config f s ⟨.commentTooDeep config.maxCommentDepth, start⟩
  | failed : Heeds config f s ⟨.source ⟨f, s.position.byteOffset⟩, s.position⟩

def Answer.error? : Answer → Option LexError
  | hasNext (.error e) => some e
  | advance (.error e) => some e
  | next (some (.error e)) => some e
  | _ => none

namespace Lexer

section Errors

variable {g : Grammar} {config : Config} {P : Mode → Source → Prop} {Q : Ready → Source → Prop}
variable {l : Lexer} {call : Call} {e : LexError}

/-- An error that is answered is held from then on, unless it only says that nothing is left. -/
theorem Keeps.of_error (h : l.Keeps g config P Q) (hInvariant : Invariant g config P Q)
    (hError : (l.answer call).1.error? = some e) :
    (∃ reported, Q (.failed e reported) (l.answer call).2.source) ∨
      e.cause = .exhausted ∧ Q .ended (l.answer call).2.source := by
  obtain ⟨r, s, hFound, hFill⟩ := h.fill hInvariant
  cases call with
  | position => cases hError
  | hasNext =>
    simp only [Lexer.answer, hasNext, Traced.map_value, hFill] at hError ⊢
    cases r with
    | token | ended => cases hError
    | failed e reported =>
      cases hError
      exact .inl ⟨reported, hFound⟩
  | advance =>
    simp only [Lexer.answer, advance, Traced.map_value, hFill] at hError ⊢
    cases r with
    | token => cases hError
    | ended =>
      cases hError
      exact .inr ⟨rfl, hFound⟩
    | failed e reported =>
      cases hError
      exact .inl ⟨reported, hFound⟩
  | next =>
    simp only [Lexer.answer, next?, Traced.map_value, hFill] at hError ⊢
    cases r with
    | token | ended => cases hError
    | failed e reported =>
      cases reported with
      | true => cases hError
      | false =>
        cases hError
        exact .inl ⟨false, hFound⟩

theorem Keeps.of_no_more (h : l.Keeps g config P Q) (hInvariant : Invariant g config P Q)
    (hAnswer : (l.answer call).1 = .hasNext (.ok false)) : Q .ended (l.answer call).2.source := by
  obtain ⟨r, s, hFound, hFill⟩ := h.fill hInvariant
  cases call with
  | position | advance | next => cases hAnswer
  | hasNext =>
    simp only [Lexer.answer, hasNext, Traced.map_value, hFill] at hAnswer ⊢
    cases r with
    | token | failed => cases hAnswer
    | ended => exact hFound

end Errors

variable {g : Grammar} {config : Config} {f : ReadFailure} {l : Lexer}

def Ready.Heeds (config : Config) (f : ReadFailure) (s : Source) : Ready → Prop
  | token _ _ => s.Awaits f
  | ended => False
  | failed e _ => e.Heeds config f s

theorem heeds_pump (mode : Mode) (s : Source) (hAwaits : s.Awaits f) :
    (pump g config mode s).value.1.Heeds config f (pump g config mode s).value.2 := by
  induction mode, s using Mode.steps_induction g config with
  | hStep mode s ih =>
    obtain ⟨signals, place⟩ := s
    obtain ⟨before, after, hSignals, hBefore⟩ := hAwaits
    obtain rfl : signals = before ++ .failure f :: after := hSignals
    have hCut := Mode.step_cut g config mode place hBefore f after
    rw [pump_value]
    rcases hStep : (mode.step g config ⟨before ++ .failure f :: after, place⟩).value with
      ⟨outcome, s'⟩
    rw [hStep] at hCut
    cases hCut with
    | failed hWithheld => exact .failed
    | @decided taken left _ hTaken hLeft hReads =>
      have hLater : Source.Awaits ⟨left ++ .failure f :: after, place.advancedBy taken⟩ f :=
        ⟨left, after, rfl, hLeft⟩
      cases outcome with
      | error e =>
        obtain ⟨start, rfl⟩ := Mode.Reads.tooDeep_of_error hReads
        exact .tooDeep hLater
      | ok step =>
        cases step with
        | exhausted => exact absurd rfl (Mode.Reads.ne_exhausted hReads)
        | emit token? next =>
          cases token? with
          | some t => exact hLater
          | none => exact ih none next _ hStep hLater

/-- The failure is still to come, or the lexer holds an error that heeds it. -/
structure Heeds (l : Lexer) (config : Config) (f : ReadFailure) : Prop where
  config_eq : l.config = config
  state : match l.state with
    | .reading _ => l.source.Awaits f
    | .ready r => r.Heeds config f l.source

variable (g config f) in
theorem heeds_invariant : Invariant g config (fun _ s => s.Awaits f)
    (fun r s => r.Heeds config f s) where
  pump := heeds_pump
  token _ _ _ hAwaits := hAwaits
  reported _ _ hHeeds := hHeeds

theorem heeds_iff_keeps : l.Heeds config f ↔
    l.Keeps l.grammar config (fun _ s => s.Awaits f) (fun r s => r.Heeds config f s) := by
  obtain ⟨source, g, config', state⟩ := l
  constructor
  · rintro ⟨rfl, h⟩
    cases state with
    | reading mode => exact keeps_reading h
    | ready r => exact keeps_ready h
  · rintro ⟨-, rfl, hReading, hReady⟩
    cases state with
    | reading mode => exact ⟨rfl, hReading mode rfl⟩
    | ready r => exact ⟨rfl, hReady r rfl⟩

theorem heeds_answer (h : l.Heeds config f) (call : Call) :
    (l.answer call).2.Heeds config f ∧ (l.answer call).1 ≠ .hasNext (.ok false) ∧
      ∀ e, (l.answer call).1.error? = some e → e.Heeds config f (l.answer call).2.source := by
  have hInvariant := heeds_invariant l.grammar config f
  have hKeeps := heeds_iff_keeps.mp h
  refine ⟨?_, ?_, ?_⟩
  · have hKept := hKeeps.answer hInvariant call
    rw [heeds_iff_keeps, hKept.grammar_eq]
    exact hKept
  · intro hNone
    exact hKeeps.of_no_more hInvariant hNone
  · intro e hError
    rcases hKeeps.of_error hInvariant hError with ⟨reported, hHeeds⟩ | ⟨-, hEnded⟩
    · exact hHeeds
    · exact hEnded.elim

theorem heeds_after (h : l.Heeds config f) (calls : List Call) :
    (l.after calls).Heeds config f := by
  induction calls generalizing l with
  | nil => exact h
  | cons call calls ih => exact ih (heeds_answer h call).1

theorem heeds_create {s : Source} {created : Traced Lexer} (hAwaits : s.Awaits f)
    (hCreate : create s g config = .ok created) : created.value.Heeds config f := by
  rw [value_of_create hCreate]
  exact ⟨rfl, hAwaits⟩

/-- When the first failing read comes after some bytes, every error of a lexer heeds it, and the
end is not reported. The tokens are those that the text read until then gives, without what
was in progress, and they come first however the bytes go on. -/
theorem cutOff_ofReads {g : Grammar} (hValid : g.validate = .ok ()) (config : Config)
    {earlier : List Read} (hOn : .bytes [] ∉ earlier) (hFirst : Read.failures earlier = [])
    (f : ReadFailure) (later : List Read) :
    ∃ created run text, create (.ofReads (earlier ++ .failed f :: later)) g config = .ok created ∧
      (∀ calls, created.value.Follows run (ofReads (earlier ++ .failed f :: later)).stop calls) ∧
      Utf8.Settles (Read.data earlier) text ∧ run.CutOff g config f .std .start text ∧
      (∀ calls call, ((created.value.after calls).answer call).1 ≠ .hasNext (.ok false) ∧
        ∀ e, ((created.value.after calls).answer call).1.error? = some e →
          e.Heeds config f ((created.value.after calls).answer call).2.source) ∧
      ∀ more reads, Read.Splits (Read.data earlier ++ more) reads →
        ∃ created' run', create (.ofReads reads) g config = .ok created' ∧
          (∀ calls, created'.value.Follows run' (ofReads reads).stop calls) ∧
          run.tokens <+: run'.tokens := by
  obtain ⟨before, after, hSignals, hBefore, hSettles⟩ := signals_ofReads_failed hOn f later
  rw [hFirst] at hBefore
  obtain ⟨created, hCreate⟩ := create_of_validate hValid (.ofReads (earlier ++ .failed f :: later))
    config
  have hCutOff := Run.cutOff_ofMode config f hValid .std _ before after hSignals hBefore
  refine ⟨created, _, Signal.chars before, hCreate, follows_of_stands (stands_create hCreate),
    hSettles, hCutOff, fun calls call => ?_, fun more reads hReads => ?_⟩
  · have hHeeds := heeds_create ⟨before, after, hSignals, hBefore⟩ hCreate
    exact (heeds_answer (heeds_after hHeeds calls) call).2
  · obtain ⟨created', hCreate'⟩ := create_of_validate hValid (.ofReads reads) config
    refine ⟨created', _, hCreate', follows_of_stands (stands_create hCreate'), ?_⟩
    obtain ⟨hStripped, hUnfailing⟩ := ofReads_stripped hReads
    obtain ⟨rest, hText⟩ := hSettles.prefix_lossy more
    obtain ⟨later, hLater⟩ := hCutOff.goesOn rest
    rw [← Run.ofMode_stripped g config .std _ hUnfailing, hStripped, ← hText]
    exact ⟨later.tokens, congrArg Run.tokens hLater.symm⟩

theorem cutOff_ofReads_sample : Grammar.sample.validate = .ok () ∧
    .bytes [] ∉ [Read.bytes [0x61, 0x20, 0x62], .interrupted] ∧
    Read.failures [.bytes [0x61, 0x20, 0x62], .interrupted] = [] ∧
    ∃ created, ∃ run : Run, ∃ text,
      create (.ofReads ([.bytes [0x61, 0x20, 0x62], .interrupted] ++
        .failed ⟨.timedOut, "late"⟩ :: [.bytes [0x63]])) .sample {} = .ok created ∧
      Utf8.Settles [0x61, 0x20, 0x62] text ∧
      run.CutOff .sample {} ⟨.timedOut, "late"⟩ .std .start text ∧
      ∀ reads, Read.Splits [0x61, 0x20, 0x62, 0x63] reads →
        ∃ created', ∃ run' : Run, create (.ofReads reads) .sample {} = .ok created' ∧
          (∀ calls, created'.value.Follows run' (ofReads reads).stop calls) ∧
          run.tokens <+: run'.tokens := by
  have hOn : .bytes [] ∉ [Read.bytes [0x61, 0x20, 0x62], .interrupted] := by decide
  obtain ⟨created, run, text, hCreate, -, hSettles, hCutOff, -, hMore⟩ :=
    cutOff_ofReads (g := .sample) rfl {} hOn rfl ⟨.timedOut, "late"⟩ [.bytes [0x63]]
  exact ⟨rfl, hOn, rfl, created, run, text, hCreate, hSettles, hCutOff, hMore [0x63]⟩

end Lexer

end MarkerLex
