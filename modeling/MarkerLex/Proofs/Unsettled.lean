import MarkerLex.Proofs.Coverage
import MarkerLex.Proofs.Lawful

/-!
# What the end of a text decides

A step that the characters of a text decide is the same however the text goes on, and
whether a comment may be cut off or not. The rest is unsettled: only there a step looks at
the end of the text and at that policy. So two runs over texts that begin alike, or under
two policies, keep together as far as the unsettled rest.
-/

namespace MarkerLex

set_option autoImplicit false

namespace Mode

/-- No beginning of the text decides the step of the mode. -/
inductive Unsettled (g : Grammar) (limit : Nat) : Mode → Text → Prop
  | std {t : Text} (hPlain : g.Plain t) : Unsettled g limit .std t
  | whitespace {t : Text} (hSpace : ∀ c ∈ t, g.isWhitespace c = true) :
    Unsettled g limit .whitespace t
  | comment {spec : CommentSpec} {start : Position} {body : Text} (hOpen : spec.Open limit body) :
    Unsettled g limit (.comment spec start) body
  | string {spec : StringSpec} {start : Position} {body : Text}
    (hOpen : ∀ part rest, body = part ++ rest → ¬ spec.Closes spec.start part) :
    Unsettled g limit (.string spec start) body

/-- What a run comes to where the text ends in the unsettled text `t`. -/
def runAtEnd (config : Config) (place : Position) (t : Text) : Mode → Run
  | std => ⟨(Token.term? t place).toList, none⟩
  | whitespace => ⟨[], none⟩
  | comment spec start =>
    if config.strictComments then ⟨[], some ⟨.unterminatedComment spec.stop, start⟩⟩
    else ⟨[(Delimiter.comment spec).token start t], none⟩
  | string spec start => ⟨[], some ⟨.unterminatedString spec.stop, start⟩⟩

variable {g : Grammar} {config : Config} {mode next : Mode} {place : Position}
variable {taken rest : Text} {outcome : Outcome} {token? : Option Token}

theorem Reads.settled_or_unsettled (h : Reads g config mode place taken rest outcome) :
    (∀ strict more, Reads g ⟨strict, config.maxCommentDepth⟩ mode place taken (rest ++ more)
      outcome) ∨ rest = [] ∧ mode.Unsettled g config.maxCommentDepth taken := by
  cases h with
  | exhausted => exact .inr ⟨rfl, .std g.plain_nil⟩
  | lastTerm hPlain hRead => exact .inr ⟨rfl, .std hPlain⟩
  | space hPlain hSpace => exact .inl fun _ _ => .space hPlain hSpace
  | opening hOpens => exact .inl fun _ _ => .opening hOpens
  | gap hSpace hRest =>
    cases rest with
    | nil => exact .inr ⟨rfl, .whitespace hSpace⟩
    | cons c rest => exact .inl fun _ _ => .gap hSpace hRest
  | closed hCloses => exact .inl fun _ _ => .closed hCloses
  | tooDeep hTooDeep => exact .inl fun _ _ => .tooDeep hTooDeep
  | commentCutOff hOpen | lenient hOpen => exact .inr ⟨rfl, .comment hOpen⟩
  | stringCutOff hOpen => exact .inr ⟨rfl, .string hOpen⟩

/-- A step that is the same however the text goes on leaves text for some of its ways on. -/
theorem Reads.longer (h : ∀ more, Reads g config mode place taken (rest ++ more) outcome) :
    ∃ longer, longer ≠ [] ∧ Reads g config mode place taken longer outcome :=
  ⟨rest ++ ['a'], List.append_ne_nil_of_right_ne_nil _ (List.cons_ne_nil _ _), h ['a']⟩

theorem Reads.ne_exhausted (h : ∀ more, Reads g config mode place taken (rest ++ more) outcome) :
    outcome ≠ .ok .exhausted := by
  rintro rfl
  obtain ⟨longer, hSome, hLonger⟩ := Reads.longer h
  cases hLonger
  exact hSome rfl

theorem Reads.tooDeep_of_error {e : LexError}
    (h : ∀ more, Reads g config mode place taken (rest ++ more) (.error e)) :
    ∃ start, e = ⟨.commentTooDeep config.maxCommentDepth, start⟩ := by
  obtain ⟨longer, hSome, hLonger⟩ := Reads.longer h
  cases hLonger with
  | @tooDeep _ start => exact ⟨start, rfl⟩
  | commentCutOff | stringCutOff => exact absurd rfl hSome

end Mode

namespace Run

/-- The run with these tokens in front. -/
def after (earlier : List Token) (r : Run) : Run := { r with tokens := earlier ++ r.tokens }

@[simp] theorem after_tokens (earlier : List Token) (r : Run) :
    (r.after earlier).tokens = earlier ++ r.tokens := rfl

@[simp] theorem after_error? (earlier : List Token) (r : Run) :
    (r.after earlier).error? = r.error? := rfl

theorem push_eq_after (token? : Option Token) (r : Run) : r.push token? = r.after token?.toList :=
  rfl

theorem after_after (earlier later : List Token) (r : Run) :
    (r.after later).after earlier = r.after (earlier ++ later) := by
  simp [after]

variable {g : Grammar} {config : Config} {mode : Mode} {t : Text}

theorem ofMode_of_unsettled (h : mode.Unsettled g config.maxCommentDepth t) (place : Position) :
    ofMode g config mode (.plain t place) = mode.runAtEnd config place t := by
  have hEnd (place : Position) : ofMode g config .std (.plain [] place) = ⟨[], none⟩ :=
    ofMode_plain g.plain_nil place
  have hStep {outcome : Outcome} (hReads : mode.Reads g config place t [] outcome) :
      (mode.step g config (.plain t place)).value =
        (outcome, .plain [] (place.advancedBy t)) := by
    have hTaken := Mode.step_of_reads hReads
    rwa [List.append_nil] at hTaken
  cases h with
  | std hPlain =>
    rw [ofMode_plain hPlain, push_eq_after, after, List.append_nil]
    rfl
  | whitespace hSpace =>
    rw [ofMode_of_emit (hStep (.gap hSpace g.solid_nil)), hEnd]
    rfl
  | comment hOpen =>
    cases hStrict : config.strictComments with
    | true =>
      rw [ofMode_of_error (hStep (.commentCutOff hOpen hStrict)), Mode.runAtEnd, if_pos hStrict]
    | false =>
      rw [ofMode_of_emit (hStep (.lenient hOpen hStrict)), hEnd, Mode.runAtEnd, hStrict]
      rfl
  | string hOpen => rw [ofMode_of_error (hStep (.stringCutOff hOpen)), Mode.runAtEnd]

end Run

namespace Mode

/-- Steps that the characters of a text decide lead from a mode at a place, over the tokens
`earlier`, to a mode at another place with the rest of the text still to be read. -/
inductive Reaches (g : Grammar) (limit : Nat) :
    Mode → Position → Text → (earlier : List Token) → Mode → Position → Text → Prop
  | here {mode : Mode} {place : Position} {t : Text} : Reaches g limit mode place t [] mode place t
  | step {mode next last : Mode} {place stop : Position} {taken rest left : Text}
    {token? : Option Token} {earlier : List Token}
    (hReads : ∀ strict more, Reads g ⟨strict, limit⟩ mode place taken (rest ++ more)
      (.ok (.emit token? next)))
    (hLater : Reaches g limit next (place.advancedBy taken) rest earlier last stop left) :
    Reaches g limit mode place (taken ++ rest) (token?.toList ++ earlier) last stop left

/-- All that the characters of a text decide is decided: what is left of it is unsettled, or an
inner comment too many is met in it. -/
inductive Halts (g : Grammar) (limit : Nat) (mode : Mode) (place : Position) (t : Text) : Prop
  | unsettled (hUnsettled : mode.Unsettled g limit t)
  | tooDeep (start : Position)
    (hError : ∀ strict more, Run.ofMode g ⟨strict, limit⟩ mode (.plain (t ++ more) place) =
      ⟨[], some ⟨.commentTooDeep limit, start⟩⟩)

variable {g : Grammar} {limit : Nat} {mode last : Mode} {place stop : Position}
variable {t left : Text} {earlier : List Token}

theorem Reaches.stop_eq (h : Reaches g limit mode place t earlier last stop left) :
    stop.advancedBy left = place.advancedBy t := by
  induction h with
  | here => rfl
  | step hReads hLater ih => rw [ih, Position.advancedBy_append]

/-- Runs over longer texts, and under either policy, go through what a text reaches. -/
theorem Reaches.run_eq (h : Reaches g limit mode place t earlier last stop left) (strict : Bool)
    (more : Text) : Run.ofMode g ⟨strict, limit⟩ mode (.plain (t ++ more) place) =
      (Run.ofMode g ⟨strict, limit⟩ last (.plain (left ++ more) stop)).after earlier := by
  induction h with
  | here => rfl
  | step hReads hLater ih =>
    have hStep := step_of_reads (hReads strict more)
    rw [List.append_assoc, Run.ofMode_of_emit hStep, ih, Run.push_eq_after, Run.after_after]

theorem Reaches.run_here (h : Reaches g limit mode place t earlier last stop left)
    (strict : Bool) : Run.ofMode g ⟨strict, limit⟩ mode (.plain t place) =
      (Run.ofMode g ⟨strict, limit⟩ last (.plain left stop)).after earlier := by
  have hRun := h.run_eq strict []
  rwa [List.append_nil, List.append_nil] at hRun

variable (g limit) in
theorem reaches_halt (mode : Mode) (place : Position) (t : Text) :
    ∃ earlier last stop left, Reaches g limit mode place t earlier last stop left ∧
      last.Halts g limit stop left := by
  induction mode, place, t using reads_induction g ⟨true, limit⟩ with
  | hReads mode place taken rest outcome h ih =>
    rcases h.settled_or_unsettled with hSettled | ⟨rfl, hUnsettled⟩
    · have hOn (more : Text) := hSettled true more
      cases outcome with
      | error e =>
        obtain ⟨start, rfl⟩ := Reads.tooDeep_of_error hOn
        refine ⟨[], mode, place, _, .here, .tooDeep start fun strict more => ?_⟩
        rw [List.append_assoc, Run.ofMode_of_error (step_of_reads (hSettled strict more))]
      | ok step =>
        cases step with
        | exhausted => exact absurd rfl (Reads.ne_exhausted hOn)
        | emit token? next =>
          obtain ⟨earlier, last, stop, left, hLater, hHalts⟩ := ih token? next rfl
          exact ⟨_, last, stop, left, .step hSettled hLater, hHalts⟩
    · rw [List.append_nil]
      exact ⟨[], mode, place, taken, .here, .unsettled hUnsettled⟩

/-- The mode stands in `text` behind what has been read, with `rest` still to be read. -/
def Within (g : Grammar) (text : Text) (mode : Mode) (place : Position) (rest : Text) : Prop :=
  ∃ before, text = before ++ (mode.seed ++ rest) ∧ mode.Entered g .start before place

variable {config : Config} {text taken rest : Text} {next : Mode} {token? : Option Token}

theorem within_start (g : Grammar) (text : Text) : std.Within g text .start text :=
  ⟨[], rfl, entered_std rfl⟩

theorem Within.step (h : mode.Within g text place (taken ++ rest))
    (hReads : Reads g config mode place taken rest (.ok (.emit token? next))) :
    next.Within g text (place.advancedBy taken) rest := by
  obtain ⟨before, hText, hEntered⟩ := h
  have hMoved : Position.start.advancedBy (before ++ (mode.seed ++ taken)) =
      place.advancedBy taken := by
    rw [hEntered.place_eq]
    simp only [Position.advancedBy_append]
  have hWhole : text = before ++ (mode.seed ++ taken) ++ rest := by
    rw [hText]
    simp only [List.append_assoc]
  cases hReads with
  | lastTerm | gap | closed | lenient => exact ⟨_, hWhole, entered_std hMoved⟩
  | space => exact ⟨_, hWhole, entered_whitespace hMoved⟩
  | @opening _ u _ d hOpens =>
    -- what has been read is known behind the term only; the marker is the seed of the new mode
    have hPlace : Position.start.advancedBy (before ++ u) = place.advancedBy u := by
      rw [hEntered.place_eq, Position.advancedBy_append]
      rfl
    refine ⟨before ++ u, ?_, ?_⟩
    · rw [hText, seed_ofDelimiter, seed]
      simp only [List.nil_append, List.append_assoc]
    · rw [Position.advancedBy_append]
      exact entered_ofDelimiter (Grammar.mem_of_opening? hOpens.first) hPlace

theorem Reaches.within (h : Reaches g limit mode place t earlier last stop left)
    (hWithin : mode.Within g text place t) : last.Within g text stop left := by
  induction h with
  | here => exact hWithin
  | @step mode next last place stop taken rest left token? earlier hReads hLater ih =>
    have hHere := hReads true []
    rw [List.append_nil] at hHere
    exact ih (hWithin.step hHere)

end Mode

end MarkerLex
