import MarkerLex.Proofs.Shadowing

/-!
# The nesting limit

The limit is looked at in one place only: where an inner comment opens. So two lexers with
different limits go the same way until the lower limit is exceeded, and then they are at the
same comment. The outermost comment is not held against the limit, which therefore bounds the
depth of a comment from one on.
-/

namespace MarkerLex

set_option autoImplicit false

namespace CommentSpec

variable {spec : CommentSpec} {limit limit' : Nat} {body q : Text}

theorem Open.mono (h : spec.Open limit body) (hLimit : limit ≤ limit') : spec.Open limit' body where
  deep := h.deep
  shallow q hq hSome hOpens :=
    Int.le_trans (h.shallow q hq hSome hOpens) (Int.ofNat_le.mpr hLimit)

theorem Closes.mono (h : spec.Closes limit body) (hLimit : limit ≤ limit') :
    spec.Closes limit' body where
  before q hq hShort := (h.before q hq hShort).mono hLimit
  closed := h.closed

theorem Open.of_prefix (h : spec.Open limit body) (hq : q <+: body) : spec.Open limit q where
  deep p hp := h.deep p (hp.trans hq)
  shallow p hp := h.shallow p (hp.trans hq)

/-- The outermost comment is open whatever the limit is; every other one is held against it. -/
theorem Open.depth_le (h : spec.Open limit body) : spec.depth body ≤ (max 1 limit : Nat) := by
  induction body using List.reverseRecOn with
  | nil =>
    rw [depth_nil]
    omega
  | append_singleton body c ih =>
    obtain ⟨hBefore, -, hShallow⟩ := open_concat.mp h
    have hEarlier := ih hBefore
    have hStep := depth_concat spec body c
    split at hStep
    · omega
    · split at hStep
      case isTrue hOpens =>
        have hLow := hShallow hOpens
        omega
      case isFalse => omega

theorem Closes.depth_le (h : spec.Closes limit body) (hq : q <+: body) :
    spec.depth q ≤ (max 1 limit : Nat) := by
  by_cases hWhole : q = body
  · rw [hWhole, h.closed]
    omega
  · exact (h.before q hq hWhole).depth_le

end CommentSpec

theorem Delimiter.Closes.mono {d : Delimiter} {limit limit' : Nat} {body : Text}
    (h : d.Closes limit body) (hLimit : limit ≤ limit') : d.Closes limit' body := by
  cases d with
  | comment spec => exact CommentSpec.Closes.mono h hLimit
  | string spec => exact h

namespace Mode

variable {g : Grammar} {config : Config} {strict : Bool} {limit limit' : Nat} {mode : Mode}
variable {place : Position} {taken rest : Text} {outcome : Outcome}

/-- A step that does not exceed a limit does not exceed a higher one. -/
theorem Reads.raised (h : Reads g ⟨strict, limit⟩ mode place taken rest outcome)
    (hLimit : limit ≤ limit')
    (hWithin : ∀ exceeded start, outcome ≠ .error ⟨.commentTooDeep exceeded, start⟩) :
    Reads g ⟨strict, limit'⟩ mode place taken rest outcome := by
  cases h with
  | exhausted => exact .exhausted
  | lastTerm hPlain hRead => exact .lastTerm hPlain hRead
  | space hPlain hSpace => exact .space hPlain hSpace
  | opening hOpens => exact .opening hOpens
  | gap hSpace hRest => exact .gap hSpace hRest
  | closed hCloses => exact .closed (hCloses.mono hLimit)
  | @tooDeep _ start => exact absurd rfl (hWithin limit start)
  | commentCutOff hOpen hStrict => exact .commentCutOff (hOpen.mono hLimit) hStrict
  | lenient hOpen hLenient => exact .lenient (hOpen.mono hLimit) hLenient
  | stringCutOff hOpen => exact .stringCutOff hOpen

theorem Reads.eq_comment_of_tooDeep {start : Position}
    (h : Reads g config mode place taken rest (.error ⟨.commentTooDeep limit, start⟩)) :
    ∃ spec, mode = .comment spec start := by
  cases h with
  | @tooDeep _ _ spec => exact ⟨spec, rfl⟩

end Mode

namespace Run

/-- The run begins at the comment that begins at `start`: with its token, or with an error that
reports it, and then that is all. -/
inductive BeginsAt (limit : Nat) (start : Position) : Run → Prop
  | delivered {text : Text} {later : Run} :
    BeginsAt limit start (later.push (some ⟨.comment, text, start⟩))
  | tooDeep : BeginsAt limit start ⟨[], some ⟨.commentTooDeep limit, start⟩⟩
  | cutOff {marker : Text} : BeginsAt limit start ⟨[], some ⟨.unterminatedComment marker, start⟩⟩

/-- How the run under a higher limit follows from the run under a lower one. -/
structure Raises (limit' : Nat) (low high : Run) : Prop where
  same : (∀ exceeded start, low.error? ≠ some ⟨.commentTooDeep exceeded, start⟩) → high = low
  deeper : ∀ exceeded start, low.error? = some ⟨.commentTooDeep exceeded, start⟩ →
    ∃ next : Run, high = next.after low.tokens ∧ next.BeginsAt limit' start

variable {g : Grammar} {strict : Bool} {limit limit' : Nat} {low high : Run}

theorem beginsAt_ofMode (g : Grammar) (config : Config) (spec : CommentSpec)
    (start place : Position) (t : Text) :
    (ofMode g config (.comment spec start) (.plain t place)).BeginsAt
      config.maxCommentDepth start := by
  obtain ⟨taken, rest, rfl, hLeft, h⟩ := Mode.step_reads g config (.comment spec start) place t
  rcases h.of_comment with ⟨-, hOutcome⟩ | ⟨-, hOutcome⟩ | ⟨-, -, hOutcome⟩
  · rw [ofMode_of_emit (Prod.ext hOutcome hLeft)]
    exact .delivered
  · rw [ofMode_of_error (Prod.ext hOutcome hLeft)]
    exact .tooDeep
  · split at hOutcome
    · rw [ofMode_of_error (Prod.ext hOutcome hLeft)]
      exact .cutOff
    · rw [ofMode_of_emit (Prod.ext hOutcome hLeft)]
      exact .delivered

theorem raises_self {r : Run}
    (h : ∀ exceeded start, r.error? ≠ some ⟨.commentTooDeep exceeded, start⟩) :
    Raises limit' r r :=
  ⟨fun _ => rfl, fun exceeded start hError => absurd hError (h exceeded start)⟩

theorem Raises.push (h : Raises limit' low high) (token? : Option Token) :
    Raises limit' (low.push token?) (high.push token?) where
  same hWithin := congrArg (Run.push token?) (h.same hWithin)
  deeper exceeded start hError := by
    obtain ⟨next, rfl, hBegins⟩ := h.deeper exceeded start hError
    exact ⟨next, after_after token?.toList low.tokens next, hBegins⟩

theorem raises_ofMode (g : Grammar) (strict : Bool) (hLimit : limit ≤ limit') (mode : Mode)
    (place : Position) (t : Text) :
    Raises limit' (ofMode g ⟨strict, limit⟩ mode (.plain t place))
      (ofMode g ⟨strict, limit'⟩ mode (.plain t place)) := by
  induction mode, place, t using Mode.reads_induction g ⟨strict, limit⟩ with
  | hReads mode place taken rest outcome h ih =>
    have hLow := Mode.step_of_reads h
    by_cases hDeep : ∃ exceeded start, outcome = .error ⟨.commentTooDeep exceeded, start⟩
    · -- both lexers are at this comment, and the one with the higher limit may go on in it
      obtain ⟨exceeded, start, rfl⟩ := hDeep
      obtain ⟨spec, rfl⟩ := h.eq_comment_of_tooDeep
      rw [ofMode_of_error hLow]
      refine ⟨fun hWithin => absurd rfl (hWithin exceeded start), ?_⟩
      rintro _ _ ⟨⟩
      exact ⟨_, rfl, beginsAt_ofMode g ⟨strict, limit'⟩ spec start place _⟩
    · have hWithin exceeded start : outcome ≠ .error ⟨.commentTooDeep exceeded, start⟩ :=
        fun hError => hDeep ⟨exceeded, start, hError⟩
      have hHigh := Mode.step_of_reads (h.raised hLimit hWithin)
      cases outcome with
      | error e =>
        rw [ofMode_of_error hLow, ofMode_of_error hHigh]
        apply raises_self
        rintro exceeded start ⟨⟩
        exact hWithin exceeded start rfl
      | ok step =>
        cases step with
        | exhausted =>
          rw [ofMode_of_exhausted hLow, ofMode_of_exhausted hHigh]
          exact raises_self nofun
        | emit token? next =>
          rw [ofMode_of_emit hLow, ofMode_of_emit hHigh]
          exact (ih token? next rfl).push token?

theorem ofMode_of_moves {config : Config} {here there : Mode × Source}
    (h : Relation.ReflTransGen (Mode.Moves g config) here there) :
    ∃ earlier, ofMode g config here.1 here.2 = (ofMode g config there.1 there.2).after earlier := by
  induction h with
  | refl => exact ⟨[], rfl⟩
  | @tail last there _ hMoves ih =>
    obtain ⟨earlier, hEarlier⟩ := ih
    obtain ⟨token?, hStep⟩ := hMoves
    refine ⟨earlier ++ token?.toList, ?_⟩
    rw [hEarlier, ofMode_of_emit hStep, push_eq_after, after_after]

/-- Every token of a run is what some step on its way comes to. -/
theorem exists_moves_of_mem {config : Config} {t : Token} (mode : Mode) (s : Source) :
    t ∈ (ofMode g config mode s).tokens →
      ∃ last s' next s'', Relation.ReflTransGen (Mode.Moves g config) (mode, s) (last, s') ∧
        (last.step g config s').value = (.ok (.emit (some t) next), s'') := by
  induction mode, s using Mode.steps_induction g config with
  | hStep mode s ih =>
    intro ht
    rcases hStep : (mode.step g config s).value with ⟨outcome, left⟩
    cases outcome with
    | error e =>
      rw [ofMode_of_error hStep] at ht
      cases ht
    | ok step =>
      cases step with
      | exhausted =>
        rw [ofMode_of_exhausted hStep] at ht
        cases ht
      | emit token? next =>
        rw [ofMode_of_emit hStep, push] at ht
        rcases List.mem_append.mp ht with hHere | hLater
        · obtain rfl := Option.mem_toList.mp hHere
          exact ⟨mode, s, next, left, .refl, hStep⟩
        · obtain ⟨last, s', later, s'', hMoves, hLast⟩ := ih token? next left hStep hLater
          exact ⟨last, s', later, s'', .head ⟨token?, hStep⟩ hMoves, hLast⟩

end Run

namespace Lexer

/-- Two lexers with different limits over one text agree unless the lower limit is exceeded. Then
both deliver the same tokens as far as the comment with which the one of them fails, and the
other goes on with that comment. -/
theorem limit_raises {g : Grammar} (hValid : g.validate = .ok ()) (strict : Bool)
    {limit limit' : Nat} (hLimit : limit ≤ limit') (text : Text) :
    ∃ low high, Performs (.ofText text) g ⟨strict, limit⟩ low ∧
      Performs (.ofText text) g ⟨strict, limit'⟩ high ∧ low.Raises limit' high :=
  ⟨_, _, performs_ofMode hValid _ _, performs_ofMode hValid _ _,
    Run.raises_ofMode g strict hLimit .std .start text⟩

theorem limit_raises_sample : Grammar.sample.validate = .ok () ∧ 1 ≤ 2 ∧ ∃ low high,
    Performs (.ofText ['a', '/', '*', 'b', '/', '*', 'c', '*', '/']) .sample ⟨true, 1⟩ low ∧
    Performs (.ofText ['a', '/', '*', 'b', '/', '*', 'c', '*', '/']) .sample ⟨true, 2⟩ high ∧
    low.Raises 2 high :=
  ⟨rfl, by decide, limit_raises rfl true (by decide)
    ['a', '/', '*', 'b', '/', '*', 'c', '*', '/']⟩

/-- Over the text a lexer comes to a comment that begins at `start`, and `rest` is what follows
the comment's start marker. -/
def MeetsComment (g : Grammar) (config : Config) (text : Text) (spec : CommentSpec)
    (start : Position) (rest : Text) : Prop :=
  ∃ place, Relation.ReflTransGen (Mode.Moves g config) (.std, .ofText text)
    (.comment spec start, .plain rest place)

/-- Over the text a lexer comes to a comment and makes the token of it, with `body` behind the
start marker. -/
structure DeliversComment (g : Grammar) (config : Config) (text : Text) (spec : CommentSpec)
    (body : Text) (t : Token) : Prop where
  text_eq : t.text = spec.start ++ body
  read : ∃ s s', Relation.ReflTransGen (Mode.Moves g config) (.std, .ofText text)
      (.comment spec t.start, s) ∧
    ((Mode.comment spec t.start).step g config s).value = (.ok (.emit (some t) .std), s')

variable {g : Grammar} {config : Config} {text body rest : Text} {spec : CommentSpec} {t : Token}
variable {start : Position}

theorem exists_deliversComment (ht : t ∈ (Run.ofMode g config .std (.ofText text)).tokens)
    (hComment : t.kind = .comment) : ∃ spec body, DeliversComment g config text spec body t := by
  obtain ⟨mode, s, next, s', hMoves, hStep⟩ := Run.exists_moves_of_mem _ _ ht
  have hText : Source.ofText text = .plain text .start := rfl
  obtain ⟨rest, place, hPlain⟩ := Mode.plain_of_moves hMoves hText
  obtain rfl : s = .plain rest place := hPlain
  obtain ⟨taken, left, -, -, hReads⟩ := Mode.step_reads g config mode place rest
  have hEmits := hReads
  rw [hStep] at hEmits
  generalize hOutcome : Except.ok (Step.emit (some t) next) = outcome at hEmits
  cases hEmits with
  | exhausted | gap | tooDeep | commentCutOff | stringCutOff => cases hOutcome
  | lastTerm => cases hOutcome; cases hComment
  | space | opening =>
    obtain ⟨hTerm, -⟩ := Step.emit.inj (Except.ok.inj hOutcome)
    obtain ⟨-, rfl⟩ := Token.term?_eq_some.mp hTerm.symm
    cases hComment
  | @closed _ start d =>
    cases hOutcome
    cases d with
    | string spec => cases hComment
    | comment spec => exact ⟨spec, taken, rfl, _, _, hMoves, hStep⟩
  | @lenient _ start spec =>
    cases hOutcome
    exact ⟨spec, taken, rfl, _, _, hMoves, hStep⟩

theorem DeliversComment.mem (h : DeliversComment g config text spec body t) :
    t ∈ (Run.ofMode g config .std (.ofText text)).tokens := by
  obtain ⟨-, s, s', hMoves, hStep⟩ := h
  obtain ⟨earlier, hRun⟩ := Run.ofMode_of_moves hMoves
  rw [hRun, Run.ofMode_of_emit hStep, Run.after_tokens]
  exact List.mem_append_right _ List.mem_cons_self

theorem DeliversComment.depth_le (h : DeliversComment g config text spec body t) {q : Text}
    (hq : q <+: body) : spec.depth q ≤ (max 1 config.maxCommentDepth : Nat) := by
  obtain ⟨hBody, s, s', hMoves, hStep⟩ := h
  have hText : Source.ofText text = .plain text .start := rfl
  obtain ⟨rest, place, hPlain⟩ := Mode.plain_of_moves hMoves hText
  obtain rfl : s = .plain rest place := hPlain
  obtain ⟨taken, left, -, -, hReads⟩ :=
    Mode.step_reads g config (.comment spec t.start) place rest
  rw [hStep] at hReads
  have hSame (hToken : t = (Delimiter.comment spec).token t.start taken) : body = taken := by
    rw [hToken] at hBody
    exact (List.append_cancel_left hBody).symm
  rcases hReads.of_comment with ⟨hCloses, hOutcome⟩ | ⟨-, hOutcome⟩ | ⟨-, hOpen, hOutcome⟩
  · simp only [Except.ok.injEq, Step.emit.injEq, Option.some.injEq, and_true] at hOutcome
    rw [hSame hOutcome] at hq
    exact hCloses.depth_le hq
  · cases hOutcome
  · split at hOutcome
    · cases hOutcome
    · simp only [Except.ok.injEq, Step.emit.injEq, Option.some.injEq, and_true] at hOutcome
      rw [hSame hOutcome] at hq
      exact (hOpen.of_prefix hq).depth_le

theorem MeetsComment.error?_eq (h : MeetsComment g config text spec start rest) {q : Text}
    (hq : q <+: rest) (hGoesOn : ∀ p, p <+: q → spec.depth p ≠ 0)
    (hDeep : (max 1 config.maxCommentDepth : Nat) < spec.depth q) :
    (Run.ofMode g config .std (.ofText text)).error? =
      some ⟨.commentTooDeep config.maxCommentDepth, start⟩ := by
  obtain ⟨place, hMoves⟩ := h
  obtain ⟨earlier, hRun⟩ := Run.ofMode_of_moves hMoves
  obtain ⟨taken, left, hRest, hLeft, hReads⟩ :=
    Mode.step_reads g config (.comment spec start) place rest
  have hTaken : taken <+: rest := ⟨left, hRest.symm⟩
  rcases hReads.of_comment with ⟨hCloses, -⟩ | ⟨-, hOutcome⟩ | ⟨hEnd, hOpen, -⟩
  · rcases List.prefix_or_prefix_of_prefix hq hTaken with hInside | hPast
    · exact absurd (hCloses.depth_le hInside) (Int.not_le.mpr hDeep)
    · exact absurd hCloses.closed (hGoesOn taken hPast)
  · rw [hRun, Run.after_error?, Run.ofMode_of_error (Prod.ext hOutcome hLeft)]
  · rw [hRest, hEnd, List.append_nil] at hq
    exact absurd (hOpen.of_prefix hq).depth_le (Int.not_le.mpr hDeep)

/-- The comments that are delivered are never deeper than the limit, or than one where the limit
is nought, and a comment that gets deeper before it is closed is the error that the run ends in. -/
theorem depth_bounded (hValid : g.validate = .ok ()) (config : Config) (text : Text) :
    ∃ run, Performs (.ofText text) g config run ∧
      (∀ t ∈ run.tokens, t.kind = .comment →
        ∃ spec body, DeliversComment g config text spec body t) ∧
      (∀ spec body t, DeliversComment g config text spec body t → t ∈ run.tokens ∧
        ∀ q, q <+: body → spec.depth q ≤ (max 1 config.maxCommentDepth : Nat)) ∧
      (∀ spec start rest q, MeetsComment g config text spec start rest → q <+: rest →
        (∀ p, p <+: q → spec.depth p ≠ 0) →
          (max 1 config.maxCommentDepth : Nat) < spec.depth q →
            run.error? = some ⟨.commentTooDeep config.maxCommentDepth, start⟩) := by
  refine ⟨_, performs_ofMode hValid _ config, ?_, ?_, ?_⟩
  · intro t ht hComment
    exact exists_deliversComment ht hComment
  · intro spec body t hDelivers
    exact ⟨hDelivers.mem, fun q hq => hDelivers.depth_le hq⟩
  · intro spec start rest q hMeets hq hGoesOn hDeep
    exact hMeets.error?_eq hq hGoesOn hDeep

theorem depth_bounded_sample : Grammar.sample.validate = .ok () ∧
    ∃ run, Performs (.ofText ['/', '*', 'a', '/', '*']) .sample ⟨true, 1⟩ run ∧
      run.error? = some ⟨.commentTooDeep 1, .start⟩ := by
  let spec : CommentSpec := ⟨['/', '*'], ['*', '/'], true⟩
  obtain ⟨run, hPerforms, -, -, hDeep⟩ :=
    depth_bounded (g := .sample) rfl ⟨true, 1⟩ ['/', '*', 'a', '/', '*']
  have hMeets : MeetsComment .sample ⟨true, 1⟩ ['/', '*', 'a', '/', '*'] spec .start
      ['a', '/', '*'] := ⟨⟨1, 3, 2, 2⟩, .single ⟨none, rfl⟩⟩
  have hGoesOn : ∀ p ∈ ['a', '/', '*'].inits, spec.depth p ≠ 0 := by decide
  refine ⟨rfl, run, hPerforms, hDeep spec .start _ _ hMeets List.prefix_rfl ?_ (by decide)⟩
  intro p hp
  exact hGoesOn p ((List.mem_inits _ _).mpr hp)

/-- A limit of nought is exceeded: the outermost comment is not held against it. -/
theorem exists_deeper_than_limit :
    ¬ ∀ (g : Grammar) (config : Config) (text : Text) (spec : CommentSpec) (body : Text)
      (t : Token), g.validate = .ok () → spec.nestable = true →
        DeliversComment g config text spec body t →
          ∀ q, q <+: body → spec.depth q ≤ config.maxCommentDepth := by
  intro h
  let spec : CommentSpec := ⟨['/', '*'], ['*', '/'], true⟩
  have hDelivers : DeliversComment .sample ⟨true, 0⟩ ['/', '*', 'a', '*', '/'] spec
      ['a', '*', '/'] ⟨.comment, ['/', '*', 'a', '*', '/'], .start⟩ :=
    ⟨rfl, _, _, .single ⟨none, rfl⟩, rfl⟩
  have hNone := h _ _ _ _ _ _ rfl rfl hDelivers [] List.nil_prefix
  exact absurd hNone (by decide)

end Lexer

end MarkerLex
