import MarkerLex.Proofs.Composition

/-!
# Tokens put together again

What a token is does not depend on what stood before it: a marker that was found behind a term
is found alone too, and the text after a start marker ends where it ended. So the texts of the
tokens, joined by whitespace characters, are taken apart into the same tokens again.
-/

namespace MarkerLex

set_option autoImplicit false

theorem Grammar.Opens.alone {g : Grammar} {u : Text} {d : Delimiter} (h : g.Opens u d)
    (hRead : d.start ≠ []) : g.Opens [] d where
  solid := (List.forall_mem_append.mp h.solid).2
  early q hq hne hShort := by
    rw [List.nil_append] at hq hShort
    have hBehind : u ++ q <+: u ++ d.start := (List.prefix_append_right_inj u).mpr hq
    have hQuiet := h.early (u ++ q) hBehind (List.append_ne_nil_of_right_ne_nil u hne)
      fun hSame => hShort (List.append_cancel_left hSame)
    rw [opening?_eq_none] at hQuiet ⊢
    intro e he hEnds
    exact hQuiet e he (hEnds.trans (List.suffix_append u q))
  first := by
    obtain ⟨-, before, after, hOrder, hFirst⟩ := opening?_eq_some.mp h.first
    rw [List.nil_append]
    refine opening?_eq_some.mpr ⟨List.suffix_rfl, before, after, hOrder, fun e he hEnds => ?_⟩
    exact hFirst e he (hEnds.trans (List.suffix_append u d.start))
  read := hRead

namespace Token

/-- What a token says apart from its place. -/
def content (t : Token) : List Category × Text := (t.categories, t.text)

def movedTo (place : Position) (t : Token) : Token := { t with start := place }

/-- A token whose own characters end it. -/
inductive Whole (g : Grammar) (limit : Nat) : Token → Prop
  | term {t : Text} {place : Position} (hPlain : g.Plain t) (hRead : t ≠ []) :
    Whole g limit ⟨.term, t, place⟩
  | delimited {d : Delimiter} {body : Text} {place : Position} (hOpens : g.Opens [] d)
    (hCloses : d.Closes limit body) : Whole g limit (d.token place body)

/-- A token that its text alone is read as: a whole one, or where that is allowed a comment that
the end cuts off. -/
inductive Standing (g : Grammar) (config : Config) : Token → Prop
  | whole {t : Token} (h : t.Whole g config.maxCommentDepth) : Standing g config t
  | cutOff {spec : CommentSpec} {body : Text} {place : Position}
    (hOpens : g.Opens [] (.comment spec)) (hOpen : spec.Open config.maxCommentDepth body)
    (hLenient : config.strictComments = false) :
    Standing g config ((Delimiter.comment spec).token place body)

/-- Tokens whose texts can be put one behind the other: all but the last are whole. -/
inductive Rejoin (g : Grammar) (config : Config) : List Token → Prop
  | nil : Rejoin g config []
  | last {t : Token} (h : t.Standing g config) : Rejoin g config [t]
  | cons {t u : Token} {rest : List Token} (h : t.Whole g config.maxCommentDepth)
    (hRest : Rejoin g config (u :: rest)) : Rejoin g config (t :: u :: rest)

variable {g : Grammar} {config : Config} {t : Token} {tokens : List Token}

theorem Rejoin.of_whole (hWhole : ∀ t ∈ tokens, t.Whole g config.maxCommentDepth)
    {last? : Option Token} (hLast : ∀ t ∈ last?, t.Standing g config) :
    Rejoin g config (tokens ++ last?.toList) := by
  induction tokens with
  | nil =>
    cases last? with
    | none => exact .nil
    | some t => exact .last (hLast t rfl)
  | cons t tokens ih =>
    obtain ⟨ht, hTokens⟩ := List.forall_mem_cons.mp hWhole
    have hRest := ih hTokens
    rw [List.cons_append]
    generalize tokens ++ last?.toList = rest at hRest
    cases rest with
    | nil => exact .last (.whole ht)
    | cons u rest => exact .cons ht hRest

theorem Rejoin.standing (h : Rejoin g config tokens) : ∀ t ∈ tokens, t.Standing g config := by
  induction h with
  | nil => simp
  | last h => exact List.forall_mem_singleton.mpr h
  | cons h hRest ih => exact List.forall_mem_cons.mpr ⟨.whole h, ih⟩

end Token

namespace Mode

variable {g : Grammar} {limit : Nat} {mode last : Mode} {place stop : Position}
variable {t left : Text} {earlier : List Token}

/-- A mode between markers has been entered where the start marker alone would open it. -/
def Opened (g : Grammar) (mode : Mode) : Prop :=
  ∀ d start, mode = ofDelimiter start d → g.Opens [] d

theorem opened_std (g : Grammar) : std.Opened g := by
  intro d start h
  exact absurd h (std_ne_ofDelimiter start d)

theorem opened_whitespace (g : Grammar) : whitespace.Opened g := by
  intro d start h
  exact absurd h (whitespace_ne_ofDelimiter start d)

/-- The tokens that characters decide are whole. -/
theorem Reaches.whole (hValid : g.validate = .ok ())
    (h : Reaches g limit mode place t earlier last stop left) (hOpened : mode.Opened g) :
    (∀ token ∈ earlier, token.Whole g limit) ∧ last.Opened g := by
  induction h with
  | here => exact ⟨by simp, hOpened⟩
  | @step mode next last place stop taken rest left token? earlier hReads hLater ih =>
    suffices h : (∀ token ∈ token?, token.Whole g limit) ∧ next.Opened g by
      obtain ⟨hEarlier, hLast⟩ := ih h.2
      refine ⟨List.forall_mem_append.mpr ⟨?_, hEarlier⟩, hLast⟩
      intro token hToken
      exact h.1 token (Option.mem_toList.mp hToken)
    have hTerm {u : Text} (hPlain : g.Plain u) (place : Position) :
        ∀ token ∈ Token.term? u place, token.Whole g limit := by
      intro token hToken
      obtain ⟨hRead, rfl⟩ := Token.term?_eq_some.mp hToken
      exact .term hPlain hRead
    obtain ⟨longer, hSome, hHere⟩ := Reads.longer (hReads true)
    cases hHere with
    | lastTerm => exact absurd rfl hSome
    | space hPlain => exact ⟨hTerm hPlain _, opened_whitespace g⟩
    | @opening _ u _ d hOpens =>
      have hRead := (Grammar.start_of_validate hValid (Grammar.mem_of_opening? hOpens.first)).1
      refine ⟨hTerm (hOpens.plain hRead) _, fun e start hSame => ?_⟩
      obtain ⟨-, rfl⟩ := ofDelimiter_inj hSame
      exact hOpens.alone hRead
    | gap => exact ⟨by simp, opened_std g⟩
    | @closed _ start d body _ hCloses =>
      refine ⟨?_, opened_std g⟩
      rintro token ⟨⟩
      exact .delimited (hOpened d start rfl) hCloses
    | lenient => exact absurd rfl hSome

/-- What the end makes of an unsettled text is one token at most, and that token stands alone. -/
theorem standing_of_runAtEnd (config : Config)
    (h : mode.Unsettled g config.maxCommentDepth t) (hOpened : mode.Opened g) (place : Position) :
    ∃ last?, (mode.runAtEnd config place t).tokens = Option.toList last? ∧
      ∀ token ∈ last?, token.Standing g config := by
  cases h with
  | std hPlain =>
    refine ⟨Token.term? t place, rfl, fun token hToken => ?_⟩
    obtain ⟨hRead, rfl⟩ := Token.term?_eq_some.mp hToken
    exact .whole (.term hPlain hRead)
  | whitespace | string => exact ⟨none, rfl, by simp⟩
  | @comment spec start body hOpen =>
    rw [runAtEnd]
    split
    case isTrue => exact ⟨none, rfl, by simp⟩
    case isFalse hLenient =>
      refine ⟨some ((Delimiter.comment spec).token start t), rfl, ?_⟩
      rintro token ⟨⟩
      exact .cutOff (hOpened (.comment spec) start rfl) hOpen (Bool.eq_false_iff.mpr hLenient)

end Mode

namespace Run

variable {g : Grammar} {config : Config} {t : Token} {tokens : List Token} {c : Char}

theorem ofMode_rejoin (hValid : g.validate = .ok ()) (config : Config) (place : Position)
    (text : Text) : Token.Rejoin g config (ofMode g config .std (.plain text place)).tokens := by
  obtain ⟨strict, limit⟩ := config
  obtain ⟨earlier, last, stop, left, hReaches, hHalts⟩ := Mode.reaches_halt g limit .std place text
  obtain ⟨hWhole, hOpened⟩ := hReaches.whole hValid (Mode.opened_std g)
  rw [hReaches.run_here strict, after_tokens]
  cases hHalts with
  | tooDeep start hError =>
    have hEnd := hError strict []
    rw [List.append_nil] at hEnd
    rw [hEnd]
    have hNone : ∀ t ∈ (none : Option Token), t.Standing g ⟨strict, limit⟩ := by simp
    exact .of_whole hWhole hNone
  | unsettled hUnsettled =>
    obtain ⟨last?, hLast, hStanding⟩ :=
      Mode.standing_of_runAtEnd ⟨strict, limit⟩ hUnsettled hOpened stop
    rw [ofMode_of_unsettled hUnsettled, hLast]
    exact .of_whole hWhole hStanding

theorem ofMode_whole (h : t.Whole g config.maxCommentDepth) (hSpace : g.isWhitespace c = true)
    (rest : Text) (place : Position) :
    ofMode g config .std (.plain (t.text ++ c :: rest) place) =
      (ofMode g config .std (.plain rest (place.advancedBy (t.text ++ [c])))).push
        (some (t.movedTo place)) := by
  cases h with
  | @term text start hPlain hRead =>
    have hRun : ofMode g config .std _ = _ := ofMode_space hPlain hSpace rest place
    rwa [Token.term?, if_neg hRead] at hRun
  | @delimited d body start hOpens hCloses =>
    have hToken := ofMode_delimited hOpens hCloses (c :: rest) place
    have hGap : ofMode g config .std _ = _ :=
      ofMode_space g.plain_nil hSpace rest (place.advancedBy (d.start ++ body))
    rw [List.nil_append] at hToken hGap
    rw [hGap, List.nil_append, ← Position.advancedBy_append] at hToken
    exact hToken

theorem ofMode_standing (h : t.Standing g config) (place : Position) :
    ofMode g config .std (.plain t.text place) = ⟨[t.movedTo place], none⟩ := by
  have hEnd (place : Position) : ofMode g config .std (.plain [] place) = ⟨[], none⟩ :=
    ofMode_plain g.plain_nil place
  cases h with
  | whole h =>
    cases h with
    | @term text start hPlain hRead =>
      have hRun : ofMode g config .std _ = _ := ofMode_plain hPlain place
      rwa [Token.term?, if_neg hRead] at hRun
    | @delimited d body start hOpens hCloses =>
      have hToken := ofMode_delimited hOpens hCloses [] place
      rw [List.nil_append, List.append_nil, hEnd] at hToken
      exact hToken
  | @cutOff spec body start hOpens hOpen hLenient =>
    have hOpening : Mode.Reads g config .std place ([] ++ spec.start) body _ := .opening hOpens
    have hLast : Mode.Reads g config (.comment spec place) (place.advancedBy spec.start) body [] _ :=
      .lenient hOpen hLenient
    have hBody := ofMode_of_emit (Mode.step_of_reads hLast)
    rw [List.append_nil, hEnd] at hBody
    have hToken := ofMode_of_emit (Mode.step_of_reads hOpening)
    rw [List.nil_append] at hToken
    exact hToken.trans (congrArg (push none) hBody)

/-- Joined by whitespace, the texts of tokens are read as these tokens again. -/
theorem ofMode_joined (h : Token.Rejoin g config tokens) (hSpace : g.isWhitespace c = true)
    (place : Position) : ∃ again,
      ofMode g config .std (.plain (Text.joined [c] (tokens.map Token.text)) place) =
        ⟨again, none⟩ ∧ again.map Token.content = tokens.map Token.content := by
  induction h generalizing place with
  | nil => exact ⟨[], ofMode_plain g.plain_nil place, rfl⟩
  | @last t h => exact ⟨[t.movedTo place], ofMode_standing h place, rfl⟩
  | @cons t u rest h hRest ih =>
    obtain ⟨again, hRun, hSame⟩ := ih (place.advancedBy (t.text ++ [c]))
    refine ⟨t.movedTo place :: again, ?_, ?_⟩
    · have hToken := ofMode_whole h hSpace (Text.joined [c] ((u :: rest).map Token.text)) place
      rw [hRun] at hToken
      rw [List.map_cons, List.map_cons, Text.joined_cons_cons, List.append_assoc]
      exact hToken
    · rw [List.map_cons, List.map_cons, hSame]
      rfl

end Run

namespace Lexer

/-- The texts of the tokens of a text, joined by any whitespace character, are taken apart into
tokens of the same categories and texts, and the text of each token alone is that one token. -/
theorem rejoined_stable {g : Grammar} (hValid : g.validate = .ok ()) (config : Config)
    (text : Text) :
    ∃ run, Performs (.ofText text) g config run ∧
      (run.error? = none → ∀ c, g.isWhitespace c = true →
        ∃ again, Performs (.ofText (Text.joined [c] (run.tokens.map Token.text))) g config
            ⟨again, none⟩ ∧
          again.map Token.content = run.tokens.map Token.content) ∧
      ∀ t ∈ run.tokens, Performs (.ofText t.text) g config ⟨[t.movedTo .start], none⟩ := by
  have hRejoin := Run.ofMode_rejoin hValid config .start text
  refine ⟨_, performs_ofMode hValid _ config, fun _ c hSpace => ?_, fun t ht => ?_⟩
  · obtain ⟨again, hRun, hSame⟩ := Run.ofMode_joined hRejoin hSpace .start
    refine ⟨again, ?_, hSame⟩
    rw [← hRun]
    exact performs_ofMode hValid _ config
  · rw [← Run.ofMode_standing (hRejoin.standing t ht) .start]
    exact performs_ofMode hValid _ config

theorem rejoined_stable_sample : Grammar.sample.validate = .ok () ∧
    ∃ run, Performs (.ofText ['a', '\'', 'b', '\'', '/', '*']) .sample .lenient run ∧
      (run.error? = none → ∀ c, Grammar.sample.isWhitespace c = true →
        ∃ again, Performs (.ofText (Text.joined [c] (run.tokens.map Token.text))) .sample .lenient
            ⟨again, none⟩ ∧
          again.map Token.content = run.tokens.map Token.content) ∧
      ∀ t ∈ run.tokens, Performs (.ofText t.text) .sample .lenient ⟨[t.movedTo .start], none⟩ :=
  ⟨rfl, rejoined_stable rfl .lenient ['a', '\'', 'b', '\'', '/', '*']⟩

end Lexer

end MarkerLex
