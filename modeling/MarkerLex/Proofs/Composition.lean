import MarkerLex.Proofs.Rebasing
import MarkerLex.Proofs.Unsettled

/-!
# Texts that whitespace joins

Nothing is carried over whitespace: where a text has been read to its end without an error,
a lexer that goes on behind a whitespace character reads what follows as a text of its own.
-/

namespace MarkerLex

set_option autoImplicit false

namespace Token

variable {g : Grammar} {place : Position} {text : Text} {tokens : List Token}

theorem Laid.counted (h : Laid g place text tokens) (hPlace : place.Counted) :
    ∀ t ∈ tokens, t.start.Counted := by
  intro t ht
  obtain ⟨earlier, later, rfl⟩ := List.append_of_mem ht
  obtain ⟨before, gap, after, -, -, -, hStart, -⟩ := h.split
  rw [hStart]
  exact hPlace.advancedBy _

end Token

namespace Run

variable {g : Grammar} {config : Config} {u gap a b : Text} {c : Char} {tokens : List Token}

theorem result_eq_error {r : Run} {e : LexError} : r.result = .error e ↔ r.error? = some e := by
  obtain ⟨tokens, error?⟩ := r
  cases error? <;> simp [result]

variable (g config) in
theorem counted_ofMode (hValid : g.validate = .ok ()) (t : Text) :
    ∀ token ∈ (ofMode g config .std (.ofText t)).tokens, token.start.Counted := by
  have hCovers := covers_text hValid config t
  have hAll : ofMode g config .std (.ofText t) =
      (⟨[], (ofMode g config .std (.ofText t)).error?⟩ : Run).after
        (ofMode g config .std (.ofText t)).tokens := by rw [after, List.append_nil]
  obtain ⟨taken, rest, -, hLaid, -⟩ := hCovers.split hAll
  exact hLaid.counted Position.counted_start

variable (config) in
/-- After any whitespace a lexer stands as at the front of a text. -/
theorem ofMode_dropped (hGap : ∀ c ∈ gap, g.isWhitespace c = true) (rest : Text)
    (place : Position) : ofMode g config .whitespace (.plain (gap ++ rest) place) =
      ofMode g config .std (.plain rest (place.advancedBy gap)) := by
  obtain ⟨more, left, rfl, hMore, hLeft, -⟩ :=
    ofMode_whitespace g config rest (place.advancedBy gap)
  have hAll : Mode.Reads g config .whitespace place (gap ++ more) left _ :=
    .gap (List.forall_mem_append.mpr ⟨hGap, hMore⟩) hLeft
  have hDropped := ofMode_of_emit (Mode.step_of_reads hAll)
  rw [List.append_assoc] at hDropped
  rw [hDropped, Position.advancedBy_append]
  by_cases hSome : more = []
  · rw [hSome]
    rfl
  · have hMet := ofMode_gap config g.plain_nil hMore hSome hLeft (place.advancedBy gap)
    exact hMet.symm

theorem ofMode_space (hPlain : g.Plain u) (hSpace : g.isWhitespace c = true) (rest : Text)
    (place : Position) : ofMode g config .std (.plain (u ++ c :: rest) place) =
      (ofMode g config .std (.plain rest (place.advancedBy (u ++ [c])))).push
        (Token.term? u place) := by
  have hTerm : Mode.Reads g config .std place u (c :: rest) _ := .space hPlain hSpace
  have hDropped := ofMode_dropped config (List.forall_mem_singleton.mpr hSpace) rest
    (place.advancedBy u)
  rw [ofMode_of_emit (Mode.step_of_reads hTerm), Position.advancedBy_append]
  exact congrArg (push _) hDropped

/-- A run that comes to the end of a text goes on behind a whitespace character as at the front. -/
theorem ofMode_append (hStrict : config.strictComments = true) (hSpace : g.isWhitespace c = true)
    (b : Text) {place : Position} (hRun : ofMode g config .std (.plain a place) = ⟨tokens, none⟩) :
    ofMode g config .std (.plain (a ++ c :: b) place) =
      (ofMode g config .std (.plain b (place.advancedBy (a ++ [c])))).after tokens := by
  obtain ⟨strict, limit⟩ := config
  obtain ⟨earlier, last, stop, left, hReaches, hHalts⟩ := Mode.reaches_halt g limit .std place a
  have hHere := hRun.symm.trans (hReaches.run_here strict)
  have hStop : stop.advancedBy (left ++ [c]) = place.advancedBy (a ++ [c]) := by
    rw [Position.advancedBy_append, hReaches.stop_eq, Position.advancedBy_append]
  rw [hReaches.run_eq]
  cases hHalts with
  | tooDeep start hError =>
    have hEnd := hError strict []
    rw [List.append_nil] at hEnd
    rw [hEnd] at hHere
    cases hHere
  | unsettled hUnsettled =>
    rw [ofMode_of_unsettled hUnsettled] at hHere
    cases hUnsettled with
    | std hPlain =>
      cases hHere
      rw [ofMode_space hPlain hSpace, hStop, push_eq_after, after_after]
      rfl
    | whitespace hGap =>
      obtain rfl : tokens = earlier := (congrArg Run.tokens hHere).trans (List.append_nil earlier)
      have hAll := List.forall_mem_append.mpr ⟨hGap, List.forall_mem_singleton.mpr hSpace⟩
      have hDropped := ofMode_dropped ⟨strict, limit⟩ hAll b stop
      rw [List.append_assoc, hStop] at hDropped
      exact congrArg (after tokens) hDropped
    | comment hOpen =>
      rw [Mode.runAtEnd, if_pos hStrict] at hHere
      cases hHere
    | string hOpen => cases hHere

end Run

theorem tokenize_plain {g : Grammar} (hValid : g.validate = .ok ()) {t : Text} (hPlain : g.Plain t)
    (hRead : t ≠ []) : tokenize t g = .ok [⟨.term, t, .start⟩] := by
  rw [Lexer.tokenize_eq hValid, Run.result_eq_ok]
  refine (Run.ofMode_plain hPlain .start).trans ?_
  rw [Token.term?, if_neg hRead]
  rfl

/-- Behind a text that can be taken apart and a whitespace character, a text is taken apart as
it is alone, with all places moved, and fails as it does alone, at the place moved. -/
theorem tokenize_append {g : Grammar} (hValid : g.validate = .ok ()) {c : Char}
    (hSpace : g.isWhitespace c = true) {a : Text} {first : List Token}
    (hFirst : tokenize a g = .ok first) (b : Text) :
    (∀ second, tokenize b g = .ok second →
      tokenize (a ++ c :: b) g =
        .ok (first ++ second.map (·.rebased (Position.start.advancedBy (a ++ [c])))) ∧
      ∀ t ∈ second, (t.rebased (Position.start.advancedBy (a ++ [c]))).stop =
        t.stop.rebased (Position.start.advancedBy (a ++ [c]))) ∧
    (∀ e, tokenize b g = .error e →
      tokenize (a ++ c :: b) g = .error (e.rebased (Position.start.advancedBy (a ++ [c])))) ∧
    ((∃ e, tokenize (a ++ c :: b) g = .error e) ↔ ∃ e, tokenize b g = .error e) := by
  rw [Lexer.tokenize_eq hValid, Run.result_eq_ok] at hFirst
  have hWhole := (Run.ofMode_append rfl hSpace b hFirst).trans
    (congrArg (Run.after first) (Run.ofMode_plain_eq_rebased g {} b _))
  have hTokens (second : List Token) (hSecond : tokenize b g = .ok second) :
      tokenize (a ++ c :: b) g =
        .ok (first ++ second.map (·.rebased (Position.start.advancedBy (a ++ [c])))) := by
    rw [Lexer.tokenize_eq hValid, Run.result_eq_ok] at hSecond ⊢
    rw [hSecond] at hWhole
    exact hWhole
  have hError (e : LexError) (hFails : tokenize b g = .error e) :
      tokenize (a ++ c :: b) g = .error (e.rebased (Position.start.advancedBy (a ++ [c]))) := by
    rw [Lexer.tokenize_eq hValid, Run.result_eq_error] at hFails ⊢
    have hMoved := congrArg Run.error? hWhole
    rw [Run.after_error?, Run.rebased, hFails] at hMoved
    exact hMoved
  refine ⟨fun second hSecond => ⟨hTokens second hSecond, fun t ht => ?_⟩, hError, ?_⟩
  · rw [Lexer.tokenize_eq hValid, Run.result_eq_ok] at hSecond
    apply Token.rebased_stop
    apply Run.counted_ofMode g {} hValid b
    rwa [hSecond]
  · constructor
    · rintro ⟨e, hFails⟩
      cases hSecond : tokenize b g with
      | ok second => cases hFails.symm.trans (hTokens second hSecond)
      | error e' => exact ⟨e', rfl⟩
    · rintro ⟨e, hFails⟩
      exact ⟨_, hError e hFails⟩

theorem tokenize_append_sample : Grammar.sample.validate = .ok () ∧
    Grammar.sample.isWhitespace '\n' = true ∧
    tokenize ['a'] .sample = .ok [⟨.term, ['a'], .start⟩] ∧
    tokenize ['b'] .sample = .ok [⟨.term, ['b'], .start⟩] ∧
    tokenize ['a', '\n', 'b'] .sample =
      .ok [⟨.term, ['a'], .start⟩, ⟨.term, ['b'], ⟨2, 1, 2, 0⟩⟩] := by
  have hPlain (c : Char) (hSolid : Grammar.sample.isWhitespace c = false)
      (hQuiet : Grammar.sample.opening? [c] = none) : Grammar.sample.Plain [c] :=
    (Grammar.plain_concat (t := [])).mpr ⟨Grammar.plain_nil _, hSolid, hQuiet⟩
  have hFirst := tokenize_plain (g := .sample) rfl (hPlain 'a' rfl rfl) (List.cons_ne_nil _ _)
  have hSecond := tokenize_plain (g := .sample) rfl (hPlain 'b' rfl rfl) (List.cons_ne_nil _ _)
  have hSpace : Grammar.sample.isWhitespace '\n' = true := by decide
  exact ⟨rfl, hSpace, hFirst, hSecond,
    ((tokenize_append (g := .sample) rfl hSpace hFirst ['b']).1 _ hSecond).1⟩

end MarkerLex
