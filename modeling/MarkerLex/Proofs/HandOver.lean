import MarkerLex.Proofs.Rebasing
import MarkerLex.Proofs.Unsettled

/-!
# Sources that are handed over

A lexer that has just delivered a token has read as far as that token, and what it knows
beyond its source is the mode it goes on in. A new lexer over that source makes up for it,
unless a start marker ended the token: the marker is gone then, and the new lexer reads what
follows it as a text of its own.
-/

namespace MarkerLex

set_option autoImplicit false

namespace Token

/-- In the text a start marker that is recognised there ends the term, with `rest` behind it. -/
structure EndedBy (g : Grammar) (text : Text) (t : Token) (d : Delimiter) (rest : Text) :
    Prop where
  kind : t.kind = .term
  opens : g.Opens t.text d
  follows : text.slice t.stop.byteOffset text.byteLength = d.start ++ rest

/-- How a lexer that has delivered the token goes on: in which mode, where, and what is left. -/
inductive HandsOver (g : Grammar) (t : Token) : Mode → Position → Text → Prop
  | closed {rest : Text} (hKind : t.kind ≠ .term) : HandsOver g t .std t.stop rest
  | last : HandsOver g t .std t.stop []
  | space {c : Char} {rest : Text} (hSpace : g.isWhitespace c = true) :
    HandsOver g t .whitespace t.stop (c :: rest)
  | marker {d : Delimiter} {rest : Text} (hKind : t.kind = .term) (hOpens : g.Opens t.text d) :
    HandsOver g t (.ofDelimiter t.stop d) (t.stop.advancedBy d.start) rest

variable {g : Grammar} {t : Token} {text rest rest' : Text} {place : Position} {d d' : Delimiter}
variable {next : Mode}

theorem kind_token_ne_term (d : Delimiter) (start : Position) (body : Text) :
    (d.token start body).kind ≠ .term := by
  cases d <;> rintro ⟨⟩

/-- Behind the token there stands in the text what the lexer has still to read, and before it
the marker with which the lexer has entered its mode. -/
theorem HandsOver.slice_eq (h : t.HandsOver g next place rest)
    (hWithin : next.Within g text place rest) :
    text.slice t.stop.byteOffset text.byteLength = next.seed ++ rest := by
  obtain ⟨before, hText, hEntered⟩ := hWithin
  have hStop : t.stop = Position.start.advancedBy before := by
    cases h with
    | closed | last | space => exact hEntered.place_eq
    | @marker d => exact (hEntered.delimited d t.stop rfl).2
  have hSlice := Text.slice_append before (next.seed ++ rest) []
  rw [List.append_nil] at hSlice
  rw [hStop, hText, Position.byteOffset_start_advancedBy, hSlice]

theorem EndedBy.unique (h : t.EndedBy g text d rest) (h' : t.EndedBy g text d' rest') :
    d = d' ∧ rest = rest' := by
  have hRest : d.start ++ rest = d'.start ++ rest' := h.follows.symm.trans h'.follows
  have hStep : (Mode.std.step g {} (.plain (t.text ++ d.start ++ rest) .start)).value = _ :=
    Mode.step_of_opens h.opens .start rest
  rw [List.append_assoc, hRest, ← List.append_assoc, Mode.step_of_opens h'.opens] at hStep
  simp only [Prod.mk.injEq, Except.ok.injEq, Step.emit.injEq] at hStep
  obtain ⟨-, rfl⟩ := Mode.ofDelimiter_inj hStep.1.2
  exact ⟨rfl, List.append_cancel_left hRest⟩

/-- Either a marker has ended the token and is all that has been read behind it, or none has
and nothing behind the token has been read. -/
theorem HandsOver.endedBy_or (hValid : g.validate = .ok ()) (h : t.HandsOver g next place rest)
    (hWithin : next.Within g text place rest) :
    (∃ d, t.EndedBy g text d rest ∧ place = t.stop.advancedBy d.start) ∨
    (∀ d more, ¬ t.EndedBy g text d more) ∧ place = t.stop ∧
      (next = .std ∨ next = .whitespace ∧ ∃ c ∈ rest.head?, g.isWhitespace c = true) := by
  have hSlice := h.slice_eq hWithin
  -- a marker is not empty, and it begins with what is no whitespace
  have hFront {d : Delimiter} {more : Text} (hEnded : t.EndedBy g text d more) :
      d.start ++ more ≠ [] ∧ ∀ c ∈ (d.start ++ more).head?, g.isWhitespace c = false := by
    have hMember := Grammar.mem_of_opening? hEnded.opens.first
    obtain ⟨hRead, hSolid⟩ := Grammar.start_of_validate hValid hMember
    exact ⟨List.append_ne_nil_of_left_ne_nil hRead more, Grammar.solid_append hRead hSolid more⟩
  cases h with
  | closed hKind => exact .inr ⟨fun d more hEnded => hKind hEnded.kind, rfl, .inl rfl⟩
  | last =>
    refine .inr ⟨fun d more hEnded => ?_, rfl, .inl rfl⟩
    exact (hFront hEnded).1 (hEnded.follows.symm.trans hSlice)
  | @space c later hSpace =>
    refine .inr ⟨fun d more hEnded => ?_, rfl, .inr ⟨rfl, c, rfl, hSpace⟩⟩
    have hText : d.start ++ more = c :: later := hEnded.follows.symm.trans hSlice
    have hSolid := (hFront hEnded).2 c (by rw [hText]; rfl)
    exact absurd (hSpace.symm.trans hSolid) (by decide)
  | @marker d _ hKind hOpens =>
    rw [Mode.seed_ofDelimiter] at hSlice
    exact .inl ⟨d, ⟨hKind, hOpens, hSlice⟩, rfl⟩

end Token

namespace Mode

variable {g : Grammar} {config : Config} {mode next : Mode} {place : Position}
variable {text taken rest : Text} {t : Token}

theorem Within.handsOver (h : mode.Within g text place (taken ++ rest))
    (hReads : Reads g config mode place taken rest (.ok (.emit (some t) next))) :
    t.HandsOver g next (place.advancedBy taken) rest := by
  obtain ⟨before, -, hEntered⟩ := h
  have hDelimited {d : Delimiter} {start : Position} (hMode : mode = .ofDelimiter start d) :
      (d.token start taken).HandsOver g .std (place.advancedBy taken) rest := by
    have hStart := (hEntered.delimited d start hMode).2
    have hPlace := hEntered.place_eq
    rw [hMode, seed_ofDelimiter, ← hStart] at hPlace
    rw [hPlace, ← Delimiter.token_stop]
    exact .closed (Token.kind_token_ne_term d start taken)
  generalize hOutcome : Except.ok (Step.emit (some t) next) = outcome at hReads
  cases hReads with
  | lastTerm =>
    cases hOutcome
    exact .last
  | space hPlain hSpace =>
    injection hOutcome with hOutcome
    injection hOutcome with hTerm hNext
    obtain ⟨-, rfl⟩ := Token.term?_eq_some.mp hTerm.symm
    subst hNext
    exact .space hSpace
  | @opening _ u _ d hOpens =>
    injection hOutcome with hOutcome
    injection hOutcome with hTerm hNext
    obtain ⟨-, rfl⟩ := Token.term?_eq_some.mp hTerm.symm
    subst hNext
    rw [Position.advancedBy_append]
    exact .marker rfl hOpens
  | closed =>
    cases hOutcome
    exact hDelimited rfl
  | @lenient _ start spec =>
    cases hOutcome
    exact hDelimited (d := .comment spec) rfl
  | gap | exhausted | tooDeep | commentCutOff | stringCutOff => cases hOutcome

end Mode

namespace Lexer

variable {g : Grammar} {config : Config} {text : Text}

/-- The source is what is left of the text where a lexer is in the mode. -/
def StandsIn (g : Grammar) (text : Text) (mode : Mode) (s : Source) : Prop :=
  ∃ place rest, s = .plain rest place ∧ mode.Within g text place rest

/-- A token that a lexer holds is handed over where its source stands. -/
def Ready.HandsOver (g : Grammar) (text : Text) (s : Source) : Ready → Prop
  | token t next => ∃ place rest, s = .plain rest place ∧ next.Within g text place rest ∧
      t.HandsOver g next place rest
  | ended | failed _ _ => True

theorem handsOver_pump (mode : Mode) (place : Position) (rest : Text)
    (hWithin : mode.Within g text place rest) :
    (pump g config mode (.plain rest place)).value.1.HandsOver g text
      (pump g config mode (.plain rest place)).value.2 := by
  induction mode, place, rest using Mode.reads_induction g config with
  | hReads mode place taken rest outcome h ih =>
    rw [pump_value, Mode.step_of_reads h]
    cases outcome with
    | error e => trivial
    | ok step =>
      cases step with
      | exhausted => trivial
      | emit token? next =>
        cases token? with
        | some t => exact ⟨_, rest, rfl, hWithin.step h, hWithin.handsOver h⟩
        | none => exact ih none next rfl (hWithin.step h)

variable (g config text) in
theorem handsOver_invariant : Invariant g config (StandsIn g text)
    (fun r s => r.HandsOver g text s) where
  pump := by
    rintro mode _ ⟨place, rest, rfl, hWithin⟩
    exact handsOver_pump mode place rest hWithin
  token := by
    rintro t next _ ⟨place, rest, rfl, hWithin, -⟩
    exact ⟨place, rest, rfl, hWithin⟩
  reported _ _ _ := trivial

/-- In front of whitespace it makes no difference whether the lexer has seen it already. -/
theorem answers_std_eq_whitespace {c : Char} {rest : Text} (hFront : c ∈ rest.head?)
    (hSpace : g.isWhitespace c = true) (place : Position) (calls : List Call) :
    answers ⟨.plain rest place, g, config, .reading .std⟩ calls =
      answers ⟨.plain rest place, g, config, .reading .whitespace⟩ calls := by
  cases rest with
  | nil => cases hFront
  | cons d rest =>
    cases hFront
    have hMet : Mode.Reads g config .std place [] (c :: rest) _ := .space g.plain_nil hSpace
    have hStep := Mode.step_of_reads hMet
    rw [List.nil_append] at hStep
    have hPump : (pump g config .std (.plain (c :: rest) place)).value =
        (pump g config .whitespace (.plain (c :: rest) place)).value := by
      rw [pump_value, hStep]
      rfl
    apply answers_of_fill
    case hFill => simp only [fill, Traced.map_value, hPump]
    case hPosition => rfl

/-- When a lexer over a text has just handed over a token, its source stands where the token
ends, and a new lexer over that source answers as the old one would. Only where a start marker
ends a term the source stands behind the marker, and a new lexer goes through the run that the
text behind the marker has by itself, with all places moved. -/
theorem advance_hands_over {g : Grammar} (hValid : g.validate = .ok ()) (config : Config)
    (text : Text) :
    ∃ created, create (.ofText text) g config = .ok created ∧
      ∀ calls t l, (created.value.after calls).advance.value = (.ok t, l) →
        ((∀ d rest, ¬ t.EndedBy g text d rest) → l.position = t.stop ∧
          ∃ renewed, create l.source g config = .ok renewed ∧
            ∀ calls, renewed.value.answers calls = l.answers calls) ∧
        ∀ d rest, t.EndedBy g text d rest → l.position = t.stop.advancedBy d.start ∧
          ∃ run, Performs (.ofText rest) g config run ∧
            Performs l.source g config (run.rebased l.position) := by
  obtain ⟨created, hCreate⟩ := create_of_validate hValid (.ofText text) config
  refine ⟨created, hCreate, fun calls t l hAdvance => ?_⟩
  have hInvariant := handsOver_invariant g config text
  have hFront : StandsIn g text .std (.ofText text) := ⟨_, _, rfl, Mode.within_start g text⟩
  have hKeeps : created.value.Keeps g config (StandsIn g text) (fun r s => r.HandsOver g text s) :=
    value_of_create hCreate ▸ keeps_reading hFront
  obtain ⟨next, _, ⟨place, rest, rfl, hWithin, hHandsOver⟩, rfl⟩ :=
    (hKeeps.after hInvariant calls).of_advance hInvariant hAdvance
  rcases hHandsOver.endedBy_or hValid hWithin with ⟨d, hEnded, hPlace⟩ | ⟨hNone, hPlace, hNext⟩
  · refine ⟨fun hNone => absurd hEnded (hNone d rest), fun d' rest' hEnded' => ?_⟩
    obtain ⟨rfl, rfl⟩ := hEnded.unique hEnded'
    refine ⟨hPlace, _, performs_ofMode hValid _ config, ?_⟩
    have hPerforms := performs_ofMode hValid (.plain rest place) config
    rwa [Run.ofMode_plain_eq_rebased] at hPerforms
  · refine ⟨fun _ => ⟨hPlace, ?_⟩, fun d rest' hEnded => absurd hEnded (hNone d rest')⟩
    obtain ⟨renewed, hRenew⟩ := create_of_validate hValid (.plain rest place) config
    refine ⟨renewed, hRenew, fun calls => ?_⟩
    rw [value_of_create hRenew]
    rcases hNext with rfl | ⟨rfl, c, hFront, hSpace⟩
    · rfl
    · exact answers_std_eq_whitespace hFront hSpace place calls

theorem advance_hands_over_sample : Grammar.sample.validate = .ok () ∧
    Token.EndedBy .sample ['a', '\'', 'b'] ⟨.term, ['a'], .start⟩
      (.string ⟨['\''], ['\''], some ['\\'], none⟩) ['b'] ∧
    ∃ created, create (.ofText ['a', '\'', 'b']) .sample {} = .ok created ∧
      ∀ calls l, (created.value.after calls).advance.value = (.ok ⟨.term, ['a'], .start⟩, l) →
        l.position = ⟨1, 3, 2, 2⟩ ∧ ∃ run, Performs (.ofText ['b']) .sample {} run ∧
          Performs l.source .sample {} (run.rebased l.position) := by
  have hPlain : Grammar.sample.Plain ['a'] :=
    (Grammar.plain_concat (t := [])).mpr ⟨Grammar.plain_nil _, rfl, rfl⟩
  have hOpens : Grammar.sample.Opens ['a'] (.string ⟨['\''], ['\''], some ['\\'], none⟩) :=
    (Grammar.opens_iff rfl).mpr ⟨hPlain, rfl, rfl⟩
  have hEnded : Token.EndedBy .sample ['a', '\'', 'b'] ⟨.term, ['a'], .start⟩ _ ['b'] :=
    ⟨rfl, hOpens, rfl⟩
  obtain ⟨created, hCreate, hHandsOver⟩ :=
    advance_hands_over (g := .sample) rfl {} ['a', '\'', 'b']
  exact ⟨rfl, hEnded, created, hCreate, fun calls l hAdvance =>
    (hHandsOver calls _ l hAdvance).2 _ _ hEnded⟩

end Lexer

end MarkerLex
