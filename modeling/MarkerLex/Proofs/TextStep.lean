import MarkerLex.Proofs.Comment
import MarkerLex.Proofs.Run
import MarkerLex.Proofs.StringLiteral

/-!
# Steps on a text

On a bare text a step is settled by the text alone. `Mode.Reads` says how, without
speaking of readers: what a step takes, what it leaves and what it comes to. There
is exactly one such way, and it is the one a step takes.
-/

namespace MarkerLex

set_option autoImplicit false

namespace Delimiter

/-- The text after the start marker is over after `body`, and not before. -/
def Closes (limit : Nat) (body : Text) : Delimiter → Prop
  | comment spec => spec.Closes limit body
  | string spec => spec.Closes spec.start body

def token (start : Position) (body : Text) (d : Delimiter) : Token :=
  ⟨d.kind, d.start ++ body, start⟩

end Delimiter

namespace Mode

theorem seed_ofDelimiter (start : Position) (d : Delimiter) :
    (ofDelimiter start d).seed = d.start := by
  cases d <;> rfl

theorem ofDelimiter_inj {start start' : Position} {d d' : Delimiter}
    (h : ofDelimiter start d = ofDelimiter start' d') : start = start' ∧ d = d' := by
  cases d <;> cases d' <;> cases h <;> exact ⟨rfl, rfl⟩

theorem std_ne_ofDelimiter (start : Position) (d : Delimiter) : std ≠ ofDelimiter start d := by
  cases d <;> exact nofun

theorem whitespace_ne_ofDelimiter (start : Position) (d : Delimiter) :
    whitespace ≠ ofDelimiter start d := by
  cases d <;> exact nofun

/-- At a place a step of a mode takes `taken` from a text, leaves `rest` and comes to an outcome. -/
inductive Reads (g : Grammar) (config : Config) :
    Mode → Position → (taken rest : Text) → Outcome → Prop
  | exhausted {place : Position} : Reads g config .std place [] [] (.ok .exhausted)
  | lastTerm {place : Position} {t : Text} (hPlain : g.Plain t) (hRead : t ≠ []) :
    Reads g config .std place t [] (.ok (.emit (some ⟨.term, t, place⟩) .std))
  | space {place : Position} {t rest : Text} {c : Char} (hPlain : g.Plain t)
    (hSpace : g.isWhitespace c = true) :
    Reads g config .std place t (c :: rest) (.ok (.emit (Token.term? t place) .whitespace))
  | opening {place : Position} {u rest : Text} {d : Delimiter} (hOpens : g.Opens u d) :
    Reads g config .std place (u ++ d.start) rest
      (.ok (.emit (Token.term? u place) (.ofDelimiter (place.advancedBy u) d)))
  | gap {place : Position} {t rest : Text} (hSpace : ∀ c ∈ t, g.isWhitespace c = true)
    (hRest : ∀ c ∈ rest.head?, g.isWhitespace c = false) :
    Reads g config .whitespace place t rest (.ok (.emit none .std))
  | closed {place start : Position} {d : Delimiter} {body rest : Text}
    (hCloses : d.Closes config.maxCommentDepth body) :
    Reads g config (.ofDelimiter start d) place body rest
      (.ok (.emit (some (d.token start body)) .std))
  | tooDeep {place start : Position} {spec : CommentSpec} {body rest : Text}
    (hTooDeep : spec.TooDeep config.maxCommentDepth body) :
    Reads g config (.comment spec start) place body rest
      (.error ⟨.commentTooDeep config.maxCommentDepth, start⟩)
  | commentCutOff {place start : Position} {spec : CommentSpec} {body : Text}
    (hOpen : spec.Open config.maxCommentDepth body) (hStrict : config.strictComments = true) :
    Reads g config (.comment spec start) place body []
      (.error ⟨.unterminatedComment spec.stop, start⟩)
  | lenient {place start : Position} {spec : CommentSpec} {body : Text}
    (hOpen : spec.Open config.maxCommentDepth body) (hLenient : config.strictComments = false) :
    Reads g config (.comment spec start) place body []
      (.ok (.emit (some ((Delimiter.comment spec).token start body)) .std))
  | stringCutOff {place start : Position} {spec : StringSpec} {body : Text}
    (hOpen : ∀ part rest, body = part ++ rest → ¬ spec.Closes spec.start part) :
    Reads g config (.string spec start) place body []
      (.error ⟨.unterminatedString spec.stop, start⟩)

variable {g : Grammar} {config : Config}

theorem std_reads {place : Position} {t : Text} {outcome : Outcome} {left : Source}
    (h : (Reader.std g).Decision .empty place t outcome left) :
    ∃ taken rest, t = taken ++ rest ∧ left = .plain rest (place.advancedBy taken) ∧
      Reads g config .std place taken rest outcome := by
  cases h with
  | finish hPassed =>
    obtain ⟨hPlain, rfl⟩ := (Reader.std_passed? place).mp hPassed
    refine ⟨t, [], (List.append_nil t).symm, rfl, ?_⟩
    cases t with
    | nil => exact .exhausted
    | cons c t =>
      have hTerm := Pending.term?_of (c :: t) place
      have hRead : (Pending.of (c :: t) place).newest ≠ [] := by simp [Pending.of]
      simp only [Reader.std, hRead, if_false, hTerm]
      exact .lastTerm hPlain (List.cons_ne_nil _ _)
  | @leave a rest c last outcome hText hPassed hReact =>
    obtain ⟨hPlain, rfl⟩ := (Reader.std_passed? place).mp hPassed
    refine ⟨a, c :: rest, hText, rfl, ?_⟩
    obtain ⟨hSpace, rfl⟩ := Reader.std_leave hReact
    rw [Pending.term?_of]
    exact .space hPlain hSpace
  | @take a rest c last outcome hText hPassed hReact =>
    obtain ⟨hPlain, rfl⟩ := (Reader.std_passed? place).mp hPassed
    rcases Reader.std_react_cases g (.of a place) (place.advancedBy a) c with
      ⟨-, h⟩ | ⟨-, -, h⟩ | ⟨hSolid, d, before, hOpening, hBefore, h⟩
    · cases h.symm.trans hReact
    · cases h.symm.trans hReact
    · cases h.symm.trans hReact
      -- the marker ends what has been read, and the term is what stands before it
      obtain ⟨u, hRead⟩ := Grammar.start_suffix_of_opening? hOpening
      have hRead : u ++ d.start = a ++ [c] := by
        rw [hRead, List.reverse_cons, Pending.of, List.reverse_reverse]
      have hne : u ++ d.start ≠ [] := by simp [hRead]
      rw [Pending.push_of, ← hRead, Pending.without_of place hne] at hBefore
      subst hBefore
      refine ⟨u ++ d.start, rest, by rw [hRead, hText, List.append_assoc]; rfl, by rw [hRead], ?_⟩
      rw [Pending.term?_reverse, Pending.stop_reverse]
      exact .opening ((Grammar.opens_iff hRead).mpr ⟨hPlain, hSolid, hOpening⟩)

theorem whitespace_reads {place : Position} {t : Text} {outcome : Outcome} {left : Source}
    (h : (Reader.whitespace g).Decision () place t outcome left) :
    ∃ taken rest, t = taken ++ rest ∧ left = .plain rest (place.advancedBy taken) ∧
      Reads g config .whitespace place taken rest outcome := by
  cases h with
  | finish hPassed =>
    exact ⟨t, [], (List.append_nil t).symm, rfl,
      .gap ((Reader.whitespace_passed? place).mp hPassed) (fun _ hc => by cases hc)⟩
  | @leave a rest c last outcome hText hPassed hReact =>
    refine ⟨a, c :: rest, hText, rfl, ?_⟩
    obtain ⟨hSolid, rfl⟩ := Reader.whitespace_leave hReact
    refine .gap ((Reader.whitespace_passed? place).mp hPassed) fun d hd => ?_
    cases hd
    exact hSolid
  | @take a rest c last outcome hText hPassed hReact =>
    rcases Reader.whitespace_react_cases g (place.advancedBy a) c with ⟨-, h⟩ | ⟨-, h⟩
    · cases h.symm.trans hReact
    · cases h.symm.trans hReact

theorem comment_reads {spec : CommentSpec} {start place : Position} {t : Text} {outcome : Outcome}
    {left : Source}
    (h : (Reader.comment config spec start).Decision spec.opened place t outcome left) :
    ∃ taken rest, t = taken ++ rest ∧ left = .plain rest (place.advancedBy taken) ∧
      Reads g config (.comment spec start) place taken rest outcome := by
  cases h with
  | finish hPassed =>
    obtain ⟨hOpen, rfl⟩ := (Reader.comment_passed? start place).mp hPassed
    refine ⟨t, [], (List.append_nil t).symm, rfl, ?_⟩
    cases hStrict : config.strictComments with
    | true =>
      rw [Reader.comment_finish, if_pos hStrict]
      exact .commentCutOff hOpen hStrict
    | false =>
      rw [Reader.comment_finish, hStrict, if_neg Bool.false_ne_true, CommentSpec.going,
        List.reverse_reverse]
      exact .lenient hOpen hStrict
  | @leave a rest c last outcome hText hPassed hReact =>
    exact absurd hReact (Reader.comment_ne_leave config spec start _ _)
  | @take a rest c last outcome hText hPassed hReact =>
    obtain ⟨hOpen, rfl⟩ := (Reader.comment_passed? start place).mp hPassed
    refine ⟨a ++ [c], rest, by simp [hText], rfl, ?_⟩
    rcases Reader.comment_react hOpen start (place.advancedBy a) c with
      ⟨hCloses, events, h⟩ | ⟨hTooDeep, events, h⟩ | ⟨-, h | ⟨event, h⟩⟩
    · cases h.symm.trans hReact
      exact .closed (d := .comment spec) hCloses
    · cases h.symm.trans hReact
      exact .tooDeep hTooDeep
    · cases h.symm.trans hReact
    · cases h.symm.trans hReact

theorem string_reads (spec : StringSpec) (start place : Position) (t : Text) :
    ∃ taken rest, t = taken ++ rest ∧
      ((Mode.string spec start).step g config (.plain t place)).value.2 =
        .plain rest (place.advancedBy taken) ∧
      Reads g config (.string spec start) place taken rest
        ((Mode.string spec start).step g config (.plain t place)).value.1 := by
  change ∃ taken rest, t = taken ++ rest ∧
    ((Reader.string spec start).run (OpenString.going [] spec.start) place (t.map .char)).value.2 =
      .plain rest (place.advancedBy taken) ∧
    Reads g config (.string spec start) place taken rest
      ((Reader.string spec start).run (OpenString.going [] spec.start) place (t.map .char)).value.1
  rcases Reader.string_run_cases spec start [] spec.start place t with
    ⟨body, rest, rfl, hCloses⟩ | hRun
  · rw [List.map_append, Reader.string_run_of_closes hCloses]
    exact ⟨body, rest, rfl, rfl, .closed (d := .string spec) hCloses⟩
  · rw [hRun]
    refine ⟨t, [], (List.append_nil t).symm, rfl, .stringCutOff ?_⟩
    rintro part rest rfl hCloses
    rw [List.map_append, Reader.string_run_of_closes hCloses] at hRun
    cases hRun

variable (g config) in
theorem step_reads (mode : Mode) (place : Position) (t : Text) :
    ∃ taken rest, t = taken ++ rest ∧
      (mode.step g config (.plain t place)).value.2 = .plain rest (place.advancedBy taken) ∧
      Reads g config mode place taken rest (mode.step g config (.plain t place)).value.1 := by
  cases mode with
  | std => exact std_reads (Reader.run_decides _ _ _ _)
  | whitespace => exact whitespace_reads (Reader.run_decides _ _ _ _)
  | comment spec start => exact comment_reads (Reader.run_decides _ _ _ _)
  | string spec start => exact string_reads spec start place t

theorem step_of_opens {u : Text} {d : Delimiter} (hOpens : g.Opens u d) (place : Position)
    (rest : Text) : (std.step g config (.plain (u ++ d.start ++ rest) place)).value =
      (.ok (.emit (Token.term? u place) (.ofDelimiter (place.advancedBy u) d)),
        .plain rest (place.advancedBy (u ++ d.start))) := by
  obtain ⟨a, c, hRead⟩ := Text.exists_concat hOpens.read
  obtain ⟨hPlain, hSolid, hOpening⟩ := (Grammar.opens_iff hRead).mp hOpens
  have hPassed := (Reader.std_passed? place).mpr ⟨hPlain, rfl⟩
  have hText : u ++ d.start ++ rest = a ++ c :: rest := by
    rw [hRead, List.append_assoc]
    rfl
  rcases Reader.std_react_cases g (.of a place) (place.advancedBy a) c with
    ⟨hSpace, -⟩ | ⟨-, hNone, -⟩ | ⟨-, e, before, hFirst, hBefore, h⟩
  · exact absurd (hSpace.symm.trans hSolid) (by decide)
  · exact absurd (hNone.symm.trans hOpening) (by simp)
  · obtain rfl : d = e := Option.some.inj (hOpening.symm.trans hFirst)
    rw [Pending.push_of, ← hRead, Pending.without_of place hOpens.read] at hBefore
    rw [hBefore] at h
    have hRun := (Reader.Decision.take hText hPassed h).run_eq
    rwa [← hRead, Pending.term?_reverse, Pending.stop_reverse] at hRun

theorem step_of_closes {d : Delimiter} {body : Text}
    (hCloses : d.Closes config.maxCommentDepth body) (start place : Position) (rest : Text) :
    ((ofDelimiter start d).step g config (.plain (body ++ rest) place)).value =
      (.ok (.emit (some (d.token start body)) .std), .plain rest (place.advancedBy body)) := by
  cases d with
  | string spec =>
    have hRun := Reader.string_run_of_closes hCloses start [] place (rest.map .char)
    rw [← List.map_append] at hRun
    exact hRun
  | comment spec =>
    have hCloses : spec.Closes config.maxCommentDepth body := hCloses
    obtain ⟨a, c, rfl⟩ := Text.exists_concat hCloses.ne_nil
    have hOpen := CommentSpec.Open.of_before hCloses.before
    have hPassed := (Reader.comment_passed? start place).mpr ⟨hOpen, rfl⟩
    rcases Reader.comment_react hOpen start (place.advancedBy a) c with
      ⟨-, events, h⟩ | ⟨hTooDeep, -⟩ | ⟨hGoesOn, -⟩
    · exact (Reader.Decision.take (by rw [List.append_assoc]; rfl) hPassed h).run_eq
    · exact absurd hTooDeep hCloses.not_tooDeep
    · exact absurd hGoesOn hCloses.not_open

theorem step_of_tooDeep {spec : CommentSpec} {body : Text}
    (hTooDeep : spec.TooDeep config.maxCommentDepth body) (start place : Position) (rest : Text) :
    ((comment spec start).step g config (.plain (body ++ rest) place)).value =
      (.error ⟨.commentTooDeep config.maxCommentDepth, start⟩,
        .plain rest (place.advancedBy body)) := by
  obtain ⟨a, c, rfl⟩ := Text.exists_concat hTooDeep.opens.1
  have hOpen := CommentSpec.Open.of_before hTooDeep.before
  have hPassed := (Reader.comment_passed? start place).mpr ⟨hOpen, rfl⟩
  rcases Reader.comment_react hOpen start (place.advancedBy a) c with
    ⟨hCloses, -⟩ | ⟨-, events, h⟩ | ⟨hGoesOn, -⟩
  · exact absurd hTooDeep hCloses.not_tooDeep
  · exact (Reader.Decision.take (by rw [List.append_assoc]; rfl) hPassed h).run_eq
  · exact absurd hGoesOn hTooDeep.not_open

theorem step_of_reads {mode : Mode} {place : Position} {taken rest : Text} {outcome : Outcome}
    (h : Reads g config mode place taken rest outcome) :
    (mode.step g config (.plain (taken ++ rest) place)).value =
      (outcome, .plain rest (place.advancedBy taken)) := by
  cases h with
  | exhausted => rfl
  | lastTerm hPlain hRead =>
    have hPassed := (Reader.std_passed? place).mpr ⟨hPlain, rfl⟩
    have hNewest : (Pending.of taken place).newest ≠ [] := by simpa [Pending.of] using hRead
    have hRun := (Reader.Decision.finish hPassed).run_eq
    simp only [Reader.std, hNewest, if_false, Pending.term?_of, Token.term?, hRead] at hRun
    rw [List.append_nil]
    exact hRun
  | @space place t rest c hPlain hSpace =>
    have hPassed := (Reader.std_passed? place).mpr ⟨hPlain, rfl⟩
    rcases Reader.std_react_cases g (.of taken place) (place.advancedBy taken) c with
      ⟨-, h⟩ | ⟨hSolid, -⟩ | ⟨hSolid, -⟩
    · rw [Pending.term?_of] at h
      exact (Reader.Decision.leave rfl hPassed h).run_eq
    · exact absurd (hSpace.symm.trans hSolid) (by decide)
    · exact absurd (hSpace.symm.trans hSolid) (by decide)
  | opening hOpens => exact step_of_opens hOpens place rest
  | gap hSpace hRest =>
    have hPassed := (Reader.whitespace_passed? place).mpr hSpace
    cases rest with
    | nil =>
      rw [List.append_nil]
      exact (Reader.Decision.finish hPassed).run_eq
    | cons c rest =>
      rcases Reader.whitespace_react_cases g (place.advancedBy taken) c with ⟨h, -⟩ | ⟨-, h⟩
      · exact absurd (h.symm.trans (hRest c rfl)) (by decide)
      · exact (Reader.Decision.leave rfl hPassed h).run_eq
  | closed hCloses => exact step_of_closes hCloses _ place rest
  | tooDeep hTooDeep => exact step_of_tooDeep hTooDeep _ place rest
  | @commentCutOff place start spec body hOpen hStrict =>
    have hPassed := (Reader.comment_passed? start place).mpr ⟨hOpen, rfl⟩
    have hRun := (Reader.Decision.finish hPassed).run_eq
    rw [Reader.comment_finish, if_pos hStrict] at hRun
    rw [List.append_nil]
    exact hRun
  | @lenient place start spec body hOpen hLenient =>
    have hPassed := (Reader.comment_passed? start place).mpr ⟨hOpen, rfl⟩
    have hRun := (Reader.Decision.finish hPassed).run_eq
    rw [Reader.comment_finish, hLenient, if_neg Bool.false_ne_true, CommentSpec.going,
      List.reverse_reverse] at hRun
    rw [List.append_nil]
    exact hRun
  | @stringCutOff place start spec body hOpen =>
    rw [List.append_nil]
    rcases Reader.string_run_cases spec start [] spec.start place taken with
      ⟨part, rest, hText, hCloses⟩ | hRun
    · exact absurd hCloses (hOpen part rest hText)
    · exact hRun

/-- A step over a source comes to an outcome and takes exactly this text. -/
structure Takes (g : Grammar) (config : Config) (mode : Mode) (s : Source) (taken : Text)
    (outcome : Outcome) : Prop where
  outcome_eq : (mode.step g config s).value.1 = outcome
  leaves : s.Leaves taken (mode.step g config s).value.2

theorem takes_of_plain {mode : Mode} {s : Source} {taken rest : Text} {outcome : Outcome}
    (hUnfailing : s.Unfailing) (hUnread : s.unread = taken ++ rest)
    (hPlain : (mode.step g config (.plain s.unread s.position)).value =
      (outcome, .plain rest (s.position.advancedBy taken))) :
    mode.Takes g config s taken outcome := by
  have hSame := step_stripped g config mode hUnfailing
  rw [Source.stripped, hPlain, Prod.mk.injEq] at hSame
  obtain ⟨hOutcome, hLeft⟩ := hSame
  obtain ⟨_, hLeaves⟩ := step_leaves g config mode s
  have hRest := congrArg Source.unread hLeft
  rw [Source.stripped, Source.unread_plain, Source.unread_plain] at hRest
  constructor
  · exact hOutcome.symm
  · exact ⟨hLeaves.signals, by rw [hUnread, hRest], (congrArg Source.position hLeft).symm⟩

theorem takes_of_reads {mode : Mode} {s : Source} {taken rest : Text} {outcome : Outcome}
    (hUnfailing : s.Unfailing) (hUnread : s.unread = taken ++ rest)
    (h : Reads g config mode s.position taken rest outcome) :
    mode.Takes g config s taken outcome := by
  apply takes_of_plain hUnfailing hUnread
  rw [hUnread]
  exact step_of_reads h

theorem Reads.of_ofDelimiter {start place : Position} {d : Delimiter} {taken rest : Text}
    {outcome : Outcome} (hStrict : config.strictComments = true)
    (h : Reads g config (.ofDelimiter start d) place taken rest outcome) :
    (d.Closes config.maxCommentDepth taken ∧
      outcome = .ok (.emit (some (d.token start taken)) .std)) ∨
      ∃ e, outcome = .error e := by
  generalize hMode : ofDelimiter start d = mode at h
  cases h with
  | exhausted | lastTerm | space | opening | gap => cases d <;> cases hMode
  | closed hCloses =>
    obtain ⟨rfl, rfl⟩ := ofDelimiter_inj hMode
    exact .inl ⟨hCloses, rfl⟩
  | tooDeep | commentCutOff | stringCutOff => exact .inr ⟨_, rfl⟩
  | lenient hOpen hLenient => cases hStrict.symm.trans hLenient

theorem Reads.of_comment {spec : CommentSpec} {start place : Position} {taken rest : Text}
    {outcome : Outcome} (h : Reads g config (.comment spec start) place taken rest outcome) :
    (spec.Closes config.maxCommentDepth taken ∧
      outcome = .ok (.emit (some ((Delimiter.comment spec).token start taken)) .std)) ∨
    (spec.TooDeep config.maxCommentDepth taken ∧
      outcome = .error ⟨.commentTooDeep config.maxCommentDepth, start⟩) ∨
    (rest = [] ∧ spec.Open config.maxCommentDepth taken ∧
      outcome = if config.strictComments then .error ⟨.unterminatedComment spec.stop, start⟩
        else .ok (.emit (some ((Delimiter.comment spec).token start taken)) .std)) := by
  generalize hMode : comment spec start = mode at h
  cases h with
  | exhausted | lastTerm | space | opening | gap | stringCutOff => cases hMode
  | closed hCloses =>
    obtain ⟨rfl, rfl⟩ := ofDelimiter_inj (d := .comment spec) hMode
    exact .inl ⟨hCloses, rfl⟩
  | tooDeep hTooDeep =>
    cases hMode
    exact .inr (.inl ⟨hTooDeep, rfl⟩)
  | commentCutOff hOpen hStrict =>
    cases hMode
    exact .inr (.inr ⟨rfl, hOpen, (if_pos hStrict).symm⟩)
  | lenient hOpen hLenient =>
    cases hMode
    exact .inr (.inr ⟨rfl, hOpen, (if_neg (Bool.eq_false_iff.mp hLenient)).symm⟩)

/-- A step that is not an error reads a text, whatever stands in the source beside it. -/
theorem reads_of_step_ok {mode : Mode} {s s' : Source} {step : Step}
    (hStep : (mode.step g config s).value = (.ok step, s')) :
    ∃ taken, s.Leaves taken s' ∧ Reads g config mode s.position taken s'.unread (.ok step) := by
  have hPlain : (mode.step g config (.plain s.unread s.position)).value = (.ok step, s'.stripped) :=
    step_stripped_of_ok hStep
  obtain ⟨_, hLeaves⟩ := step_leaves g config mode s
  obtain ⟨taken, rest, hUnread, hLeft, hReads⟩ := step_reads g config mode s.position s.unread
  rw [hStep] at hLeaves
  rw [hPlain] at hLeft hReads
  have hRest : s'.unread = rest := by
    rw [← Source.unread_plain s'.unread s'.position, ← Source.unread_plain rest]
    exact congrArg Source.unread hLeft
  subst hRest
  exact ⟨taken, ⟨hLeaves.signals, hUnread, congrArg Source.position hLeft⟩, hReads⟩

theorem Reads.of_std {place : Position} {taken rest : Text} {token? : Option Token} {next : Mode}
    (h : Reads g config .std place taken rest (.ok (.emit token? next))) :
    (∀ c ∈ taken, g.isWhitespace c = false) ∧
      ∃ u, taken = u ++ next.seed ∧ token? = Token.term? u place ∧
        (next = .std ∨ next = .whitespace ∨
          ∃ d ∈ g.delimiters, next = .ofDelimiter (place.advancedBy u) d) := by
  generalize hMode : std = mode at h
  cases h with
  | lastTerm hPlain hRead =>
    refine ⟨hPlain.solid, taken, (List.append_nil _).symm, ?_, .inl rfl⟩
    rw [Token.term?, if_neg hRead]
  | space hPlain => exact ⟨hPlain.solid, taken, (List.append_nil _).symm, rfl, .inr (.inl rfl)⟩
  | @opening _ u _ d hOpens =>
    refine ⟨hOpens.solid, u, ?_, rfl, .inr (.inr ⟨d, ?_, rfl⟩)⟩
    · rw [seed_ofDelimiter]
    · exact Grammar.mem_of_opening? hOpens.first
  | gap | lenient => cases hMode
  | closed => exact absurd hMode (std_ne_ofDelimiter _ _)

theorem Reads.of_whitespace {place : Position} {taken rest : Text} {token? : Option Token}
    {next : Mode} (h : Reads g config .whitespace place taken rest (.ok (.emit token? next))) :
    token? = none ∧ next = .std ∧ (∀ c ∈ taken, g.isWhitespace c = true) ∧
      ∀ c ∈ rest.head?, g.isWhitespace c = false := by
  generalize hMode : whitespace = mode at h
  cases h with
  | lastTerm | space | opening | lenient => cases hMode
  | gap hSpace hRest => exact ⟨rfl, rfl, hSpace, hRest⟩
  | closed => exact absurd hMode (whitespace_ne_ofDelimiter _ _)

/-- Where a delimiter has been opened, a step that goes on emits the whole of its token. -/
theorem Reads.emit_of_ofDelimiter {start place : Position} {d : Delimiter} {taken rest : Text}
    {token? : Option Token} {next : Mode}
    (h : Reads g config (.ofDelimiter start d) place taken rest (.ok (.emit token? next))) :
    token? = some (d.token start taken) ∧ next = .std := by
  generalize hMode : ofDelimiter start d = mode at h
  cases h with
  | lastTerm | space | opening | gap => cases d <;> cases hMode
  | closed =>
    obtain ⟨rfl, rfl⟩ := ofDelimiter_inj hMode
    exact ⟨rfl, rfl⟩
  | @lenient _ start' spec =>
    obtain ⟨rfl, rfl⟩ : start = start' ∧ d = .comment spec := ofDelimiter_inj hMode
    exact ⟨rfl, rfl⟩

variable (g config) in
theorem reads_induction {P : Mode → Position → Text → Prop}
    (hReads : ∀ mode place taken rest outcome, Reads g config mode place taken rest outcome →
      (∀ token? next, outcome = .ok (.emit token? next) → P next (place.advancedBy taken) rest) →
        P mode place (taken ++ rest))
    (mode : Mode) (place : Position) (t : Text) : P mode place t := by
  generalize hSource : Source.plain t place = s
  induction mode, s using steps_induction g config generalizing place t with
  | hStep mode s ih =>
    subst hSource
    obtain ⟨taken, rest, rfl, hLeft, h⟩ := step_reads g config mode place t
    apply hReads mode place taken rest _ h
    intro token? next hOutcome
    exact ih token? next _ (Prod.ext hOutcome hLeft) _ _ rfl

end Mode

end MarkerLex
