import Mathlib.Data.List.TakeWhile
import MarkerLex.Proofs.PullOrder
import MarkerLex.Proofs.TextStep

/-!
# Lawful tokenizations

The law of a grammar says which tokens a text consists of, without saying how they
are found. A text has at most one lawful tokenization, and a lexer finds it.
-/

namespace MarkerLex

set_option autoImplicit false

namespace Grammar

/-- After `u` a delimiter is the one that opens: no start marker ends an earlier place, and of
those that end here its own is the first in order. -/
structure Leads (g : Grammar) (u : Text) (d : Delimiter) : Prop where
  early : ∀ q, q <+: u ++ d.start → q ≠ [] → q ≠ u ++ d.start → ∀ e ∈ g.delimiters, ¬ e.start <:+ q
  first : ∃ before after, g.delimiters = before ++ d :: after ∧
    ∀ e ∈ before, ¬ e.start <:+ u ++ d.start

/-- From `place` on, directly after the text `u` of a term, or after none, a text consists of
these tokens, whitespace apart. -/
inductive Lawful (g : Grammar) (limit : Nat) : Position → Text → Text → List Token → Prop
  | done {place : Position} {u gap : Text} (hGap : ∀ c ∈ gap, g.isWhitespace c = true) :
    Lawful g limit place u gap []
  | term {place : Position} {u gap x rest : Text} {tokens : List Token}
    (hGap : ∀ c ∈ gap, g.isWhitespace c = true) (hApart : u ≠ [] → gap ≠ [])
    (hRead : x ≠ []) (hSolid : ∀ c ∈ x, g.isWhitespace c = false)
    (hFree : ∀ d ∈ g.delimiters, ¬ d.start <:+: x)
    (hLater : Lawful g limit (place.advancedBy (gap ++ x)) x rest tokens) :
    Lawful g limit place u (gap ++ x ++ rest) (⟨.term, x, place.advancedBy gap⟩ :: tokens)
  | delimited {place : Position} {u gap body rest : Text} {d : Delimiter} {tokens : List Token}
    (hGap : ∀ c ∈ gap, g.isWhitespace c = true)
    (hLeads : g.Leads (if gap = [] then u else []) d) (hCloses : d.Closes limit body)
    (hLater : Lawful g limit (place.advancedBy (gap ++ (d.start ++ body))) [] rest tokens) :
    Lawful g limit place u (gap ++ (d.start ++ body) ++ rest)
      (d.token (place.advancedBy gap) body :: tokens)

variable {g : Grammar} {u t gap rest : Text} {d : Delimiter} {place : Position}

theorem plain_iff (hValid : g.validate = .ok ()) :
    g.Plain t ↔ (∀ c ∈ t, g.isWhitespace c = false) ∧ ∀ d ∈ g.delimiters, ¬ d.start <:+: t := by
  constructor
  · rintro ⟨hSolid, hQuiet⟩
    refine ⟨hSolid, fun d hd hInside => ?_⟩
    obtain ⟨q, hEnds, hq⟩ := List.infix_iff_suffix_prefix.mp hInside
    have hRead : q ≠ [] := by
      rintro rfl
      exact (start_of_validate hValid hd).1 (List.suffix_nil.mp hEnds)
    exact opening?_eq_none.mp (hQuiet q hq hRead) d hd hEnds
  · rintro ⟨hSolid, hFree⟩
    refine ⟨hSolid, fun q hq _ => opening?_eq_none.mpr fun d hd hEnds => ?_⟩
    exact hFree d hd (List.infix_iff_suffix_prefix.mpr ⟨q, hEnds, hq⟩)

theorem Opens.plain (h : g.Opens u d) (hRead : d.start ≠ []) : g.Plain u where
  solid := (List.forall_mem_append.mp h.solid).1
  quiet q hq hne := by
    refine h.early q (hq.trans (List.prefix_append _ _)) hne ?_
    rintro rfl
    have hLength := hq.length_le
    have hStartLength := List.length_pos_iff.mpr hRead
    rw [List.length_append] at hLength
    omega

theorem Leads.mem (h : g.Leads u d) : d ∈ g.delimiters := by
  obtain ⟨before, after, hOrder, -⟩ := h.first
  rw [hOrder]
  exact List.mem_append_right _ List.mem_cons_self

theorem opens_iff_leads (hValid : g.validate = .ok ())
    (hSolid : ∀ c ∈ u, g.isWhitespace c = false) : g.Opens u d ↔ g.Leads u d := by
  constructor
  · rintro ⟨-, hEarly, hFirst, -⟩
    refine ⟨fun q hq hRead hShort => opening?_eq_none.mp (hEarly q hq hRead hShort), ?_⟩
    exact (opening?_eq_some.mp hFirst).2
  · intro h
    obtain ⟨hRead, hStart⟩ := start_of_validate hValid h.mem
    obtain ⟨hEarly, before, after, hOrder, hFirst⟩ := h
    refine ⟨List.forall_mem_append.mpr ⟨hSolid, hStart⟩, ?_, ?_, ?_⟩
    · intro q hq hne hShort
      exact opening?_eq_none.mpr (hEarly q hq hne hShort)
    · exact opening?_eq_some.mpr ⟨List.suffix_append _ _, before, after, hOrder, hFirst⟩
    · exact List.append_ne_nil_of_right_ne_nil _ hRead

theorem solid_nil (g : Grammar) : ∀ c ∈ ([] : Text).head?, g.isWhitespace c = false := by
  intro c hc
  cases hc

theorem solid_append (hRead : t ≠ []) (hSolid : ∀ c ∈ t, g.isWhitespace c = false) (rest : Text) :
    ∀ c ∈ (t ++ rest).head?, g.isWhitespace c = false := by
  cases t with
  | nil => exact absurd rfl hRead
  | cons d t =>
    intro c hc
    cases hc
    exact hSolid d List.mem_cons_self

/-- Whitespace before a text cuts it off from the term before. -/
theorem Lawful.after_gap {limit : Nat} {tokens : List Token}
    (h : g.Lawful limit (place.advancedBy gap) [] rest tokens)
    (hGap : ∀ c ∈ gap, g.isWhitespace c = true) (hSome : gap ≠ []) (u : Text) :
    g.Lawful limit place u (gap ++ rest) tokens := by
  have hJoined {more : Text} (hMore : ∀ c ∈ more, g.isWhitespace c = true) :
      ∀ c ∈ gap ++ more, g.isWhitespace c = true :=
    List.forall_mem_append.mpr ⟨hGap, hMore⟩
  have hKept (more : Text) : gap ++ more ≠ [] := List.append_ne_nil_of_left_ne_nil hSome more
  generalize hPlace : place.advancedBy gap = after at h
  generalize hFresh : ([] : Text) = none at h
  cases h with
  | done hMore => exact .done (hJoined hMore)
  | @term _ _ more x rest tokens hMore hApart hRead hSolid hFree hLater =>
    subst hPlace
    rw [← Position.advancedBy_append, ← List.append_assoc] at hLater
    rw [← Position.advancedBy_append, ← List.append_assoc, ← List.append_assoc]
    exact .term (hJoined hMore) (fun _ => hKept more) hRead hSolid hFree hLater
  | @delimited _ _ more body rest d tokens hMore hLeads hCloses hLater =>
    subst hPlace hFresh
    rw [ite_self] at hLeads
    rw [← Position.advancedBy_append, ← List.append_assoc] at hLater
    rw [← Position.advancedBy_append, ← List.append_assoc, ← List.append_assoc]
    refine .delimited (hJoined hMore) ?_ hCloses hLater
    rwa [if_neg (hKept more)]

theorem Lawful.of_term {limit : Nat} {tokens : List Token} (hValid : g.validate = .ok ())
    (hPlain : g.Plain t) (h : g.Lawful limit (place.advancedBy t) t rest tokens) :
    g.Lawful limit place [] (t ++ rest) ((Token.term? t place).toList ++ tokens) := by
  by_cases hEmpty : t = []
  · subst hEmpty
    exact h
  · obtain ⟨hSolid, hFree⟩ := (plain_iff hValid).mp hPlain
    rw [Token.term?, if_neg hEmpty]
    change g.Lawful limit place [] ([] ++ t ++ rest) (⟨.term, t, place.advancedBy []⟩ :: tokens)
    exact .term (by simp) (by simp) hEmpty hSolid hFree h

theorem Lawful.of_delimited {limit : Nat} {body : Text} {tokens : List Token}
    (hLeads : g.Leads u d) (hCloses : d.Closes limit body)
    (h : g.Lawful limit (place.advancedBy (d.start ++ body)) [] rest tokens) :
    g.Lawful limit place u (d.start ++ body ++ rest) (d.token place body :: tokens) := by
  change g.Lawful limit place u ([] ++ (d.start ++ body) ++ rest)
    (d.token (place.advancedBy []) body :: tokens)
  exact .delimited (by simp) hLeads hCloses h

end Grammar

namespace Run

variable {g : Grammar} {config : Config} {u gap body rest text : Text} {d : Delimiter}
variable {place : Position} {tokens : List Token}

theorem push_eq {r : Run} {token? : Option Token} (h : r.push token? = ⟨tokens, none⟩) :
    ∃ later, r = ⟨later, none⟩ ∧ tokens = token?.toList ++ later := by
  obtain ⟨later, error?⟩ := r
  cases h
  exact ⟨later, rfl, rfl⟩

variable (g config) in
theorem ofMode_whitespace (t : Text) (place : Position) : ∃ gap rest, t = gap ++ rest ∧
    (∀ c ∈ gap, g.isWhitespace c = true) ∧ (∀ c ∈ rest.head?, g.isWhitespace c = false) ∧
      ofMode g config .whitespace (.plain t place) =
        ofMode g config .std (.plain rest (place.advancedBy gap)) := by
  have hGap : ∀ c ∈ t.takeWhile g.isWhitespace, g.isWhitespace c = true :=
    fun c hc => List.mem_takeWhile_imp hc
  have hRest : ∀ c ∈ (t.dropWhile g.isWhitespace).head?, g.isWhitespace c = false := by
    intro c hc
    have hFront := List.head?_dropWhile_not g.isWhitespace t
    rw [Option.mem_def.mp hc] at hFront
    exact hFront
  have hText : t = t.takeWhile g.isWhitespace ++ t.dropWhile g.isWhitespace :=
    List.takeWhile_append_dropWhile.symm
  refine ⟨_, _, hText, hGap, hRest, ?_⟩
  have hDropped : Mode.Reads g config .whitespace place _ _ _ := .gap hGap hRest
  have hRun := ofMode_of_emit (Mode.step_of_reads hDropped)
  rwa [← hText] at hRun

variable (config) in
theorem ofMode_gap (hPlain : g.Plain u) (hGap : ∀ c ∈ gap, g.isWhitespace c = true)
    (hSome : gap ≠ []) (hRest : ∀ c ∈ rest.head?, g.isWhitespace c = false) (place : Position) :
    ofMode g config .std (.plain (u ++ (gap ++ rest)) place) =
      (ofMode g config .std (.plain rest (place.advancedBy (u ++ gap)))).push
        (Token.term? u place) := by
  cases gap with
  | nil => exact absurd rfl hSome
  | cons c gap =>
    have hTerm : Mode.Reads g config .std place u (c :: (gap ++ rest)) _ :=
      .space hPlain (hGap c List.mem_cons_self)
    have hDropped : Mode.Reads g config .whitespace (place.advancedBy u) (c :: gap) rest _ :=
      .gap hGap hRest
    have hSecond := ofMode_of_emit (Mode.step_of_reads hDropped)
    rw [List.cons_append, ofMode_of_emit (Mode.step_of_reads hTerm), ← List.cons_append, hSecond,
      Position.advancedBy_append]
    rfl

theorem ofMode_delimited (hOpens : g.Opens u d) (hCloses : d.Closes config.maxCommentDepth body)
    (rest : Text) (place : Position) :
    ofMode g config .std (.plain (u ++ (d.start ++ body) ++ rest) place) =
      ((ofMode g config .std (.plain rest (place.advancedBy (u ++ (d.start ++ body))))).push
        (some (d.token (place.advancedBy u) body))).push (Token.term? u place) := by
  have hOpening : Mode.Reads g config .std place (u ++ d.start) (body ++ rest) _ := .opening hOpens
  have hClosed : Mode.Reads g config (.ofDelimiter (place.advancedBy u) d)
      (place.advancedBy (u ++ d.start)) body rest _ := .closed hCloses
  have hText : u ++ (d.start ++ body) ++ rest = u ++ d.start ++ (body ++ rest) := by
    simp only [List.append_assoc]
  have hPlace : place.advancedBy (u ++ (d.start ++ body)) =
      (place.advancedBy (u ++ d.start)).advancedBy body := by
    rw [← Position.advancedBy_append, List.append_assoc]
  rw [hText, hPlace, ofMode_of_emit (Mode.step_of_reads hOpening),
    ofMode_of_emit (Mode.step_of_reads hClosed)]

theorem ofMode_plain (hPlain : g.Plain u) (place : Position) :
    ofMode g config .std (.plain u place) = (⟨[], none⟩ : Run).push (Token.term? u place) := by
  have hEnd (place : Position) : ofMode g config .std (.plain [] place) = ⟨[], none⟩ :=
    ofMode_of_exhausted (Mode.step_of_reads .exhausted)
  by_cases hEmpty : u = []
  · rw [hEmpty, hEnd]
    rfl
  · have hLast : Mode.Reads g config .std place u [] _ := .lastTerm hPlain hEmpty
    have hRun := ofMode_of_emit (Mode.step_of_reads hLast)
    rw [List.append_nil] at hRun
    rw [hRun, hEnd, Token.term?, if_neg hEmpty]

/-- A lawful tokenization is what a lexer delivers, also where the text of a term is still to
be read before. -/
theorem ofMode_of_lawful (hValid : g.validate = .ok ())
    (h : g.Lawful config.maxCommentDepth place u text tokens) (hPlain : g.Plain u)
    (origin : Position) (hPlace : place = origin.advancedBy u) :
    ofMode g config .std (.plain (u ++ text) origin) =
      (⟨tokens, none⟩ : Run).push (Token.term? u origin) := by
  induction h generalizing origin with
  | @done place u gap hGap =>
    by_cases hSome : gap = []
    · rw [hSome, List.append_nil]
      exact ofMode_plain hPlain origin
    · have hRun := ofMode_gap config hPlain hGap hSome g.solid_nil origin
      rw [List.append_nil, ofMode_plain g.plain_nil] at hRun
      exact hRun
  | @term place u gap x rest tokens hGap hApart hRead hSolid hFree hLater ih =>
    have hTerm : g.Plain x := (Grammar.plain_iff hValid).mpr ⟨hSolid, hFree⟩
    have hHere := ih hTerm (place.advancedBy gap) (Position.advancedBy_append ..)
    rw [Token.term?, if_neg hRead] at hHere
    by_cases hSome : gap = []
    · have hFresh : u = [] := by
        by_contra hAdjacent
        exact hApart hAdjacent hSome
      subst hSome hFresh
      cases hPlace
      exact hHere
    · have hFront := Grammar.solid_append hRead hSolid rest
      rw [List.append_assoc gap, ofMode_gap config hPlain hGap hSome hFront,
        Position.advancedBy_append, ← hPlace, hHere]
      rfl
  | @delimited place u gap body rest d tokens hGap hLeads hCloses hLater ih =>
    have hRest : ofMode g config .std
        (.plain rest (place.advancedBy (gap ++ (d.start ++ body)))) = ⟨tokens, none⟩ :=
      ih g.plain_nil _ rfl
    by_cases hSome : gap = []
    · subst hSome
      have hOpens := (Grammar.opens_iff_leads hValid hPlain.solid).mpr hLeads
      rw [List.nil_append] at hRest
      rw [List.nil_append, ← List.append_assoc, ofMode_delimited hOpens hCloses,
        Position.advancedBy_append, ← hPlace, hRest]
      rfl
    · rw [if_neg hSome] at hLeads
      have hOpens := (Grammar.opens_iff_leads hValid g.plain_nil.solid).mpr hLeads
      obtain ⟨hRead, hSolid⟩ := Grammar.start_of_validate hValid hLeads.mem
      have hFront := Grammar.solid_append hRead hSolid (body ++ rest)
      have hHere : ofMode g config .std (.plain (d.start ++ body ++ rest) (place.advancedBy gap)) =
          (⟨tokens, none⟩ : Run).push (some (d.token (place.advancedBy gap) body)) := by
        rw [← hRest, Position.advancedBy_append place gap]
        exact ofMode_delimited hOpens hCloses rest (place.advancedBy gap)
      rw [← List.append_assoc] at hFront
      rw [List.append_assoc gap, ofMode_gap config hPlain hGap hSome hFront,
        Position.advancedBy_append, ← hPlace, hHere]
      rfl

/-- How a run that comes to the end begins between delimiters: with the rest of a term alone,
with a term that whitespace ends, or with one that a whole delimited token ends. -/
inductive Ends (g : Grammar) (config : Config) (place : Position) : Text → List Token → Prop
  | plain {u : Text} (hPlain : g.Plain u) : Ends g config place u (Token.term? u place).toList
  | gap {u gap rest : Text} {later : List Token} (hPlain : g.Plain u)
    (hGap : ∀ c ∈ gap, g.isWhitespace c = true) (hSome : gap ≠ [])
    (hLater : ofMode g config .std (.plain rest ((place.advancedBy u).advancedBy gap)) =
      ⟨later, none⟩) :
    Ends g config place (u ++ (gap ++ rest)) ((Token.term? u place).toList ++ later)
  | delimited {u body rest : Text} {d : Delimiter} {later : List Token} (hOpens : g.Opens u d)
    (hCloses : d.Closes config.maxCommentDepth body)
    (hLater : ofMode g config .std
      (.plain rest ((place.advancedBy u).advancedBy (d.start ++ body))) = ⟨later, none⟩) :
    Ends g config place (u ++ (d.start ++ body ++ rest))
      ((Token.term? u place).toList ++ d.token (place.advancedBy u) body :: later)

theorem ends_of_ofMode (hStrict : config.strictComments = true) {t : Text}
    (hRun : ofMode g config .std (.plain t place) = ⟨tokens, none⟩) :
    Ends g config place t tokens := by
  obtain ⟨taken, rest, rfl, -, h⟩ := Mode.step_reads g config .std place t
  have hStep := Mode.step_of_reads h
  generalize (Mode.std.step g config (.plain (taken ++ rest) place)).value.1 = outcome at h hStep
  generalize hMode : Mode.std = mode at h
  cases h with
  | exhausted =>
    rw [ofMode_of_exhausted hStep] at hRun
    cases hRun
    exact .plain g.plain_nil
  | lastTerm hPlain hRead =>
    rw [List.append_nil, ofMode_plain hPlain] at hRun
    cases hRun
    rw [List.append_nil, List.append_nil]
    exact .plain hPlain
  | @space _ _ rest c hPlain hSpace =>
    rw [ofMode_of_emit hStep] at hRun
    obtain ⟨later, hLater, rfl⟩ := push_eq hRun
    obtain ⟨gap, rest', hText, hGap, hFront, hSame⟩ :=
      ofMode_whitespace g config (c :: rest) (place.advancedBy taken)
    rw [hSame] at hLater
    have hSome : gap ≠ [] := by
      rintro rfl
      cases hText
      exact absurd (hSpace.symm.trans (hFront c rfl)) (by decide)
    rw [hText]
    exact .gap hPlain hGap hSome hLater
  | @opening _ u _ d hOpens =>
    rw [ofMode_of_emit hStep] at hRun
    obtain ⟨later, hLater, rfl⟩ := push_eq hRun
    obtain ⟨body, rest, rfl, -, hReads⟩ :=
      Mode.step_reads g config (.ofDelimiter (place.advancedBy u) d)
        (place.advancedBy (u ++ d.start)) rest
    have hSecond := Mode.step_of_reads hReads
    rcases hReads.of_ofDelimiter hStrict with ⟨hCloses, hOutcome⟩ | ⟨e, hOutcome⟩
    · rw [hOutcome] at hSecond
      rw [ofMode_of_emit hSecond, Position.advancedBy_append place u,
        ← Position.advancedBy_append _ d.start] at hLater
      obtain ⟨tokens, hRest, rfl⟩ := push_eq hLater
      rw [List.append_assoc, ← List.append_assoc d.start]
      exact .delimited hOpens hCloses hRest
    · rw [hOutcome] at hSecond
      rw [ofMode_of_error hSecond] at hLater
      cases hLater
  | gap => cases hMode
  | @closed _ _ d => cases d <;> cases hMode
  | tooDeep | commentCutOff | lenient | stringCutOff => cases hMode

theorem lawful_of_ofMode (hValid : g.validate = .ok ()) (hStrict : config.strictComments = true)
    (t : Text) : ∀ (place : Position) (tokens : List Token),
      ofMode g config .std (.plain t place) = ⟨tokens, none⟩ →
        g.Lawful config.maxCommentDepth place [] t tokens := by
  induction hn : t.length using Nat.strongRecOn generalizing t with
  | ind n ih =>
    subst hn
    intro place tokens hRun
    cases ends_of_ofMode hStrict hRun with
    | plain hPlain =>
      have hTerm : g.Lawful config.maxCommentDepth place [] (t ++ [])
          ((Token.term? t place).toList ++ []) := .of_term hValid hPlain (.done (by simp))
      rwa [List.append_nil, List.append_nil] at hTerm
    | @gap u gap rest later hPlain hGap hSome hLater =>
      have hShorter : rest.length < (u ++ (gap ++ rest)).length := by
        have hGapLength := List.length_pos_iff.mpr hSome
        simp only [List.length_append]
        omega
      have hLawful := ih _ hShorter rest rfl _ _ hLater
      exact .of_term hValid hPlain (hLawful.after_gap hGap hSome u)
    | @delimited u body rest d later hOpens hCloses hLater =>
      have hSolid := (List.forall_mem_append.mp hOpens.solid).1
      have hLeads := (Grammar.opens_iff_leads hValid hSolid).mp hOpens
      have hStart := (Grammar.start_of_validate hValid hLeads.mem).1
      have hShorter : rest.length < (u ++ (d.start ++ body ++ rest)).length := by
        have hStartLength := List.length_pos_iff.mpr hStart
        simp only [List.length_append]
        omega
      have hLawful := ih _ hShorter rest rfl _ _ hLater
      exact .of_term hValid (hOpens.plain hStart) (.of_delimited hLeads hCloses hLawful)

end Run

/-- The tokens into which a lexer takes a text apart are its one lawful tokenization, and where
there is none the lexer fails. -/
theorem tokenize_lawful {g : Grammar} (hValid : g.validate = .ok ()) (text : Text) :
    (∀ tokens, tokenize text g = .ok tokens ↔
      g.Lawful ({} : Config).maxCommentDepth .start [] text tokens) ∧
    (∀ tokens tokens', g.Lawful ({} : Config).maxCommentDepth .start [] text tokens →
      g.Lawful ({} : Config).maxCommentDepth .start [] text tokens' → tokens = tokens') ∧
    ((∃ e, tokenize text g = .error e) ↔
      ¬ ∃ tokens, g.Lawful ({} : Config).maxCommentDepth .start [] text tokens) := by
  have hIff (tokens : List Token) : tokenize text g = .ok tokens ↔
      g.Lawful ({} : Config).maxCommentDepth .start [] text tokens := by
    rw [Lexer.tokenize_eq hValid, Run.result_eq_ok]
    constructor
    · intro hRun
      exact Run.lawful_of_ofMode hValid rfl text .start tokens hRun
    · intro h
      exact Run.ofMode_of_lawful hValid h g.plain_nil .start rfl
  refine ⟨hIff, ?_, ?_⟩
  · intro tokens tokens' h h'
    exact Except.ok.inj (((hIff tokens).mpr h).symm.trans ((hIff tokens').mpr h'))
  · constructor
    · rintro ⟨e, he⟩ ⟨tokens, h⟩
      cases he.symm.trans ((hIff tokens).mpr h)
    · intro hNone
      cases hResult : tokenize text g with
      | error e => exact ⟨e, rfl⟩
      | ok tokens => exact absurd ⟨tokens, (hIff tokens).mp hResult⟩ hNone

theorem tokenize_lawful_sample : Grammar.sample.validate = .ok () ∧
    ∀ tokens, tokenize ['a', '\'', 'b', '\''] .sample = .ok tokens ↔
      Grammar.sample.Lawful 128 .start [] ['a', '\'', 'b', '\''] tokens :=
  ⟨rfl, (tokenize_lawful (g := .sample) rfl ['a', '\'', 'b', '\'']).1⟩

end MarkerLex
