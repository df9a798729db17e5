import MarkerLex.Proofs.ByteSource
import MarkerLex.Proofs.Unsettled

/-!
# Strict and lenient lexers

The policy for comments that are cut off is looked at in one place only: where the text
ends in a comment. Up to there a lenient lexer goes as a strict one does, and where the
strict one reports the comment the lenient one makes a last token of it.
-/

namespace MarkerLex

set_option autoImplicit false

/-- Sources without failures that give a text: the text itself, or its bytes as reads bring them. -/
inductive Source.Carries : Source → Text → Prop
  | text (t : Text) : Carries (.ofText t) t
  | reads {data : List UInt8} {reads : List Read} {text : Text} (hReads : Read.Splits data reads)
    (hText : Utf8.Decodes data text) : Carries (.ofReads reads) text

theorem Run.ofMode_of_carries {s : Source} {text : Text} (h : s.Carries text) (g : Grammar)
    (config : Config) (mode : Mode) :
    ofMode g config mode s = ofMode g config mode (.ofText text) := by
  cases h with
  | text => rfl
  | reads hReads hText =>
    obtain ⟨hStripped, hUnfailing⟩ := Source.ofReads_stripped hReads
    rw [← ofMode_stripped g config mode _ hUnfailing, hStripped, Utf8.decodes_iff.mp hText]

/-- How the run of a lenient lexer over a text follows from the run of a strict one. -/
structure Run.Relaxes (text : Text) (strict lenient : Run) : Prop where
  same : (∀ marker start, strict.error? ≠ some ⟨.unterminatedComment marker, start⟩) →
    lenient = strict
  cutOff : ∀ marker start, strict.error? = some ⟨.unterminatedComment marker, start⟩ →
    ∃ before body, text = before ++ body ∧ start = Position.start.advancedBy before ∧
      lenient = ⟨strict.tokens ++ [⟨.comment, body, start⟩], none⟩
  closed : ∀ marker start, lenient.error? ≠ some ⟨.unterminatedComment marker, start⟩

namespace Run

variable {text : Text} {r : Run}

theorem relaxes_self (h : ∀ marker start, r.error? ≠ some ⟨.unterminatedComment marker, start⟩) :
    Relaxes text r r :=
  ⟨fun _ => rfl, fun marker start hError => absurd hError (h marker start), h⟩

theorem relaxes_cutOff {before body marker : Text} {start : Position} {earlier : List Token}
    (hText : text = before ++ body) (hStart : start = Position.start.advancedBy before) :
    Relaxes text ⟨earlier, some ⟨.unterminatedComment marker, start⟩⟩
      ⟨earlier ++ [⟨.comment, body, start⟩], none⟩ where
  same h := absurd rfl (h marker start)
  cutOff marker' start' hError := by
    cases hError
    exact ⟨before, body, hText, hStart, rfl⟩
  closed _ _ h := by cases h

/-- The end of the text relaxes what comes before it in both runs alike. -/
theorem relaxes_runAtEnd {g : Grammar} {limit : Nat} {mode : Mode} {place : Position} {left : Text}
    (hWithin : mode.Within g text place left) (earlier : List Token) :
    Relaxes text ((mode.runAtEnd ⟨true, limit⟩ place left).after earlier)
      ((mode.runAtEnd ⟨false, limit⟩ place left).after earlier) := by
  cases mode with
  | std | whitespace | string => exact relaxes_self (by rintro marker start ⟨⟩)
  | comment spec start =>
    obtain ⟨before, hText, hEntered⟩ := hWithin
    obtain ⟨-, hStart⟩ := hEntered.delimited (.comment spec) start rfl
    rw [Mode.runAtEnd, if_pos rfl, Mode.runAtEnd, if_neg Bool.false_ne_true, after, after,
      List.append_nil]
    exact relaxes_cutOff hText hStart

theorem relaxes_ofMode (g : Grammar) (limit : Nat) (text : Text) :
    Relaxes text (ofMode g ⟨true, limit⟩ .std (.ofText text))
      (ofMode g ⟨false, limit⟩ .std (.ofText text)) := by
  obtain ⟨earlier, last, stop, left, hReaches, hHalts⟩ :=
    Mode.reaches_halt g limit .std .start text
  change Relaxes text (ofMode g ⟨true, limit⟩ .std (.plain text .start))
    (ofMode g ⟨false, limit⟩ .std (.plain text .start))
  rw [hReaches.run_here, hReaches.run_here]
  cases hHalts with
  | tooDeep start hError =>
    have hEnd (strict : Bool) := hError strict []
    simp only [List.append_nil] at hEnd
    rw [hEnd, hEnd]
    exact relaxes_self (by rintro marker start ⟨⟩)
  | unsettled hUnsettled =>
    rw [ofMode_of_unsettled hUnsettled, ofMode_of_unsettled hUnsettled]
    exact relaxes_runAtEnd (hReaches.within (Mode.within_start g text)) earlier

end Run

namespace Lexer

/-- A strict and a lenient lexer over the same characters agree, but for a comment that the end
of the input cuts off: the strict one fails with it, the lenient one delivers it last. -/
theorem lenient_relaxes {g : Grammar} (hValid : g.validate = .ok ()) (limit : Nat) {s : Source}
    {text : Text} (hSource : s.Carries text) :
    ∃ strict lenient, Performs s g ⟨true, limit⟩ strict ∧ Performs s g ⟨false, limit⟩ lenient ∧
      strict.Relaxes text lenient := by
  refine ⟨_, _, performs_ofMode hValid s ⟨true, limit⟩, performs_ofMode hValid s ⟨false, limit⟩, ?_⟩
  rw [Run.ofMode_of_carries hSource, Run.ofMode_of_carries hSource]
  exact Run.relaxes_ofMode g limit text

theorem lenient_relaxes_sample : Grammar.sample.validate = .ok () ∧
    Source.Carries (.ofReads [.bytes [0x61, 0x2F], .interrupted, .bytes [0x2A, 0xE2]])
      (Utf8.lossy [0x61, 0x2F, 0x2A, 0xE2]) ∧
    ∃ strict lenient,
      Performs (.ofReads [.bytes [0x61, 0x2F], .interrupted, .bytes [0x2A, 0xE2]]) .sample
        ⟨true, 1⟩ strict ∧
      Performs (.ofReads [.bytes [0x61, 0x2F], .interrupted, .bytes [0x2A, 0xE2]]) .sample
        ⟨false, 1⟩ lenient ∧
      strict.Relaxes (Utf8.lossy [0x61, 0x2F, 0x2A, 0xE2]) lenient := by
  have hLast : Read.Splits ([0x2A, 0xE2] ++ []) [.bytes [0x2A, 0xE2]] :=
    .bytes (List.cons_ne_nil _ _) .nothing
  have hReads : Read.Splits ([0x61, 0x2F] ++ [0x2A, 0xE2])
      [.bytes [0x61, 0x2F], .interrupted, .bytes [0x2A, 0xE2]] :=
    .bytes (List.cons_ne_nil _ _) (.interrupted hLast)
  have hSource := Source.Carries.reads hReads (Utf8.decodes_lossy _)
  exact ⟨rfl, hSource, lenient_relaxes rfl 1 hSource⟩

end Lexer

end MarkerLex
