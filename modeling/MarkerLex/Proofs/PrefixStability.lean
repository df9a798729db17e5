import MarkerLex.Proofs.Unsettled

/-!
# Tokens that more text does not change

A lexer does not look ahead. A token that it delivers over a text it delivers over every
longer text too, at the same index, unless the end of the text is what ended the token.
-/

namespace MarkerLex

set_option autoImplicit false

/-- A token that the end of the text has ended: a term there, or where that is allowed a
comment, if `strict`, the run that does not allow it, reports that comment as not closed. -/
inductive Token.Tentative (config : Config) (stop : Position) (strict : Run) : Token → Prop
  | term {t : Token} (hTerm : t.kind = .term) (hStop : t.stop = stop) :
    Tentative config stop strict t
  | comment {t : Token} {marker : Text} (hComment : t.kind = .comment)
    (hLenient : config.strictComments = false)
    (hCutOff : strict.error? = some ⟨.unterminatedComment marker, t.start⟩) :
    Tentative config stop strict t

theorem Mode.tentative_of_runAtEnd {config : Config} {mode : Mode} {place : Position} {t : Text}
    {strict : Run}
    (hStrict : strict.error? = (mode.runAtEnd ⟨true, config.maxCommentDepth⟩ place t).error?) :
    ∀ token ∈ (mode.runAtEnd config place t).tokens,
      token.Tentative config (place.advancedBy t) strict := by
  intro token hToken
  cases mode with
  | std =>
    obtain ⟨-, rfl⟩ := Token.term?_eq_some.mp (Option.mem_toList.mp hToken)
    exact .term rfl rfl
  | whitespace | string => cases hToken
  | comment spec start =>
    rw [runAtEnd] at hToken
    split at hToken
    case isTrue => cases hToken
    case isFalse hLenient =>
      obtain rfl := List.mem_singleton.mp hToken
      exact .comment rfl (Bool.eq_false_iff.mpr hLenient) hStrict

namespace Run

/-- Two runs over texts that begin alike, compared token by token. -/
theorem getElem?_of_not_tentative (g : Grammar) (config : Config) (mode : Mode) (place : Position)
    (t more : Text) {i : Nat} {token : Token}
    (hToken : (ofMode g config mode (.plain t place)).tokens[i]? = some token)
    (hFinal : ¬ token.Tentative config (place.advancedBy t)
      (ofMode g ⟨true, config.maxCommentDepth⟩ mode (.plain t place))) :
    (ofMode g config mode (.plain (t ++ more) place)).tokens[i]? = some token := by
  obtain ⟨strict, limit⟩ := config
  obtain ⟨earlier, last, stop, left, hReaches, hHalts⟩ := Mode.reaches_halt g limit mode place t
  rw [hReaches.run_here] at hToken
  rw [hReaches.run_eq]
  cases hHalts with
  | tooDeep start hError =>
    have hEnd := hError strict []
    rw [List.append_nil] at hEnd
    rw [hError strict more]
    rwa [hEnd] at hToken
  | unsettled hUnsettled =>
    rw [ofMode_of_unsettled hUnsettled] at hToken
    rw [after_tokens] at hToken ⊢
    by_cases hEarlier : i < earlier.length
    · rw [List.getElem?_append_left hEarlier] at hToken ⊢
      exact hToken
    · -- the token is one that the run comes to at the end of the text
      rw [List.getElem?_append_right (Nat.le_of_not_lt hEarlier)] at hToken
      refine absurd ?_ hFinal
      rw [← hReaches.stop_eq]
      apply Mode.tentative_of_runAtEnd _ token (List.mem_of_getElem? hToken)
      rw [hReaches.run_here, after_error?, ofMode_of_unsettled hUnsettled]

end Run

namespace Lexer

/-- Every token that is delivered over a text and that the end of the text has not ended is
delivered at the same index however the text goes on. -/
theorem delivered_stable {g : Grammar} (hValid : g.validate = .ok ()) (config : Config)
    (text : Text) :
    ∃ run strict, Performs (.ofText text) g config run ∧
      Performs (.ofText text) g { config with strictComments := true } strict ∧
      ∀ more, ∃ longer, Performs (.ofText (text ++ more)) g config longer ∧
        ∀ (i : Nat) (t : Token), run.tokens[i]? = some t →
          ¬ t.Tentative config (Position.start.advancedBy text) strict →
            longer.tokens[i]? = some t := by
  refine ⟨_, _, performs_ofMode hValid _ config, performs_ofMode hValid _ _, fun more => ?_⟩
  refine ⟨_, performs_ofMode hValid _ config, fun i t hToken hFinal => ?_⟩
  exact Run.getElem?_of_not_tentative g config .std .start text more hToken hFinal

theorem delivered_stable_sample : Grammar.sample.validate = .ok () ∧
    ∃ run strict, Performs (.ofText ['a', '/', '*', 'b']) .sample .lenient run ∧
      Performs (.ofText ['a', '/', '*', 'b']) .sample {} strict ∧
      ∀ more, ∃ longer, Performs (.ofText (['a', '/', '*', 'b'] ++ more)) .sample .lenient longer ∧
        ∀ (i : Nat) (t : Token), run.tokens[i]? = some t → ¬ t.Tentative .lenient ⟨1, 5, 4, 4⟩ strict →
          longer.tokens[i]? = some t :=
  ⟨rfl, delivered_stable (g := .sample) rfl .lenient ['a', '/', '*', 'b']⟩

end Lexer

end MarkerLex
