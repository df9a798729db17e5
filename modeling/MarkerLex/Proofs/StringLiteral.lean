import MarkerLex.Proofs.Plain

/-!
# Where a string ends

After the start marker the text of a string is a sequence of stretches. A stretch
is ended by the first end or escape marker in it; the end marker ends the string,
and an escape marker makes the next character an ordinary one, after which the
next stretch begins afresh. Only the first stretch may use characters of the
start marker.
-/

namespace MarkerLex

set_option autoImplicit false

namespace StringSpec

/-- Read after `fresh`, no beginning of `part` ends in a marker. -/
def Calm (spec : StringSpec) (fresh part : Text) : Prop :=
  ∀ q, q <+: part → q ≠ [] →
    ¬ spec.stop <:+ fresh ++ q ∧ ∀ e, spec.escape = some e → ¬ e <:+ fresh ++ q

/-- The string is over after the text that follows `fresh`, and not before. -/
inductive Closes (spec : StringSpec) : Text → Text → Prop
  | stop {fresh part : Text} {c : Char} (hCalm : spec.Calm fresh part)
    (hStop : spec.stop <:+ fresh ++ (part ++ [c])) : Closes spec fresh (part ++ [c])
  | escape {fresh part body e : Text} {c d : Char} (hCalm : spec.Calm fresh part)
    (hOn : ¬ spec.stop <:+ fresh ++ (part ++ [c])) (hSpec : spec.escape = some e)
    (hEscape : e <:+ fresh ++ (part ++ [c])) (hRest : Closes spec [] body) :
    Closes spec fresh (part ++ [c] ++ d :: body)

variable {spec : StringSpec} {fresh part body : Text} {c : Char}

theorem calm_nil : spec.Calm fresh [] :=
  fun _ hq hne => absurd (List.prefix_nil.mp hq) hne

theorem calm_cons (hStop : ¬ spec.stop <:+ fresh ++ [c])
    (hEscape : ∀ e, spec.escape = some e → ¬ e <:+ fresh ++ [c])
    (h : spec.Calm (fresh ++ [c]) part) : spec.Calm fresh (c :: part) := by
  intro q hq hne
  rcases List.prefix_cons_iff.mp hq with rfl | ⟨q, rfl, hRest⟩
  · exact absurd rfl hne
  rw [List.append_cons]
  cases q with
  | nil =>
    rw [List.append_nil]
    exact ⟨hStop, hEscape⟩
  | cons d q => exact h (d :: q) hRest (List.cons_ne_nil _ _)

theorem calm_concat (h : spec.Calm fresh (part ++ [c])) :
    spec.Calm fresh part ∧ ¬ spec.stop <:+ fresh ++ (part ++ [c]) ∧
      ∀ e, spec.escape = some e → ¬ e <:+ fresh ++ (part ++ [c]) := by
  have hne : part ++ [c] ≠ [] := List.append_ne_nil_of_right_ne_nil _ (List.cons_ne_nil _ _)
  exact ⟨fun q hq => h q (hq.trans (List.prefix_append _ _)), h _ List.prefix_rfl hne⟩

theorem Closes.cons (hStop : ¬ spec.stop <:+ fresh ++ [c])
    (hEscape : ∀ e, spec.escape = some e → ¬ e <:+ fresh ++ [c])
    (h : spec.Closes (fresh ++ [c]) body) : spec.Closes fresh (c :: body) := by
  cases h with
  | @stop _ part d hCalm hLast =>
    rw [← List.append_cons] at hLast
    change spec.Closes fresh (c :: part ++ [d])
    exact .stop (calm_cons hStop hEscape hCalm) hLast
  | @escape _ part body e d d' hCalm hOn hSpec hLast hRest =>
    rw [← List.append_cons] at hOn hLast
    change spec.Closes fresh (c :: part ++ [d] ++ d' :: body)
    exact .escape (calm_cons hStop hEscape hCalm) hOn hSpec hLast hRest

end StringSpec

namespace OpenString

def going (settled fresh : Text) : OpenString := ⟨settled, fresh.reverse, false⟩

theorem newest_going (settled fresh : Text) :
    (going settled fresh).newest = fresh.reverse ++ settled := rfl

end OpenString

namespace Reader

open StringSpec OpenString

variable {spec : StringSpec} {start place : Position} {settled fresh part body : Text}
variable {c d : Char}

variable (spec start place settled fresh c) in
theorem string_react :
    (spec.stop <:+ fresh ++ [c] ∧ (string spec start).react (going settled fresh) place c =
        .take ⟨[.stringClosed], .ok (.emit
          (some ⟨.string spec.name, settled.reverse ++ (fresh ++ [c]), start⟩) .std)⟩) ∨
    (¬ spec.stop <:+ fresh ++ [c] ∧ (∃ e, spec.escape = some e ∧ e <:+ fresh ++ [c]) ∧
      (string spec start).react (going settled fresh) place c =
        .proceed ⟨(fresh ++ [c]).reverse ++ settled, [], true⟩) ∨
    (¬ spec.stop <:+ fresh ++ [c] ∧ (∀ e, spec.escape = some e → ¬ e <:+ fresh ++ [c]) ∧
      (string spec start).react (going settled fresh) place c =
        .proceed (going settled (fresh ++ [c]))) := by
  have hNewest : c :: fresh.reverse = (fresh ++ [c]).reverse := List.reverse_concat.symm
  have hEnds (marker : Text) : Text.endsIn (c :: fresh.reverse) marker =
      decide (marker <:+ fresh ++ [c]) := by rw [hNewest, Text.endsIn_reverse]
  rcases string_react_cases spec start (going settled fresh) place c with
    ⟨hEscaped, -⟩ | ⟨-, hStop, h⟩ | ⟨-, hStop, hEscape, h⟩ | ⟨-, hStop, hEscape, h⟩
  · cases hEscaped
  · refine .inl ⟨of_decide_eq_true ((hEnds _).symm.trans hStop), ?_⟩
    rw [h, newest_going]
    simp
  · refine .inr (.inl ⟨of_decide_eq_false ((hEnds _).symm.trans hStop), ?_, ?_⟩)
    · obtain ⟨e, he, hEnd⟩ := (Option.any_eq_true _ _).mp hEscape
      exact ⟨e, he, of_decide_eq_true ((hEnds e).symm.trans hEnd)⟩
    · rw [h, newest_going, ← hNewest]
      rfl
  · refine .inr (.inr ⟨of_decide_eq_false ((hEnds _).symm.trans hStop), ?_, ?_⟩)
    · intro e he
      exact of_decide_eq_false ((hEnds e).symm.trans ((Option.any_eq_false _ _).mp hEscape e he))
    · rw [h, going, going, ← hNewest]

theorem string_passed?_of_calm (h : spec.Calm fresh part) :
    (string spec start).passed? (going settled fresh) place part =
      some (going settled (fresh ++ part)) := by
  induction part using List.reverseRecOn with
  | nil => rw [passed?, List.append_nil]
  | append_singleton part c ih =>
    obtain ⟨hPart, hStop, hEscape⟩ := calm_concat h
    rw [← List.append_assoc] at hStop hEscape
    rw [passed?_append, ih hPart, Option.bind_some, ← List.append_assoc]
    rcases string_react spec start (place.advancedBy part) settled (fresh ++ part) c with
      ⟨hEnd, -⟩ | ⟨-, ⟨e, he, hEnd⟩, -⟩ | ⟨-, -, hReact⟩
    · exact absurd hEnd hStop
    · exact absurd hEnd (hEscape e he)
    · simp only [passed?, hReact]

theorem string_react_escaped :
    (string spec start).react ⟨settled, [], true⟩ place d = .proceed (going (d :: settled) []) :=
  rfl

variable (start place settled d) in
/-- An escape marker and the character after it set aside what has been read. -/
theorem string_passed?_of_escape {e : Text} (hCalm : spec.Calm fresh part)
    (hOn : ¬ spec.stop <:+ fresh ++ (part ++ [c])) (hSpec : spec.escape = some e)
    (hEscape : e <:+ fresh ++ (part ++ [c])) :
    (string spec start).passed? (going settled fresh) place (part ++ [c] ++ [d]) =
      some (going ((fresh ++ (part ++ [c] ++ [d])).reverse ++ settled) []) := by
  rw [← List.append_assoc] at hOn hEscape
  rw [List.append_assoc, passed?_append, string_passed?_of_calm hCalm, Option.bind_some]
  rcases string_react spec start (place.advancedBy part) settled (fresh ++ part) c with
    ⟨hEnd, -⟩ | ⟨-, -, hReact⟩ | ⟨-, hNone, -⟩
  · exact absurd hEnd hOn
  · simp only [List.cons_append, List.nil_append, passed?, hReact, string_react_escaped]
    simp
  · exact absurd hEscape (hNone e hSpec)

theorem string_run_of_closes (h : spec.Closes fresh body) (start : Position) (settled : Text)
    (place : Position) (signals : List Signal) :
    ((string spec start).run (going settled fresh) place (body.map .char ++ signals)).value =
      (.ok (.emit (some ⟨.string spec.name, settled.reverse ++ (fresh ++ body), start⟩) .std),
        ⟨signals, place.advancedBy body⟩) := by
  induction h generalizing settled place with
  | @stop fresh part c hCalm hStop =>
    rw [← List.append_assoc] at hStop
    rw [List.map_append, List.append_assoc, run_of_passed? _ (string_passed?_of_calm hCalm) _]
    rcases string_react spec start (place.advancedBy part) settled (fresh ++ part) c with
      ⟨-, hReact⟩ | ⟨hOn, -⟩ | ⟨hOn, -⟩
    · simp only [List.map_cons, List.map_nil, List.cons_append, List.nil_append, run, hReact,
        Traced.map_value, Position.advancedBy_append, List.append_assoc]
      rfl
    · exact absurd hStop hOn
    · exact absurd hStop hOn
  | @escape fresh part body e c d hCalm hOn hSpec hEscape hRest ih =>
    rw [List.append_cons _ d body, List.map_append, List.append_assoc,
      run_of_passed? _ (string_passed?_of_escape _ _ _ _ hCalm hOn hSpec hEscape) _, ih]
    simp [Position.advancedBy_append]

theorem string_run_cases (spec : StringSpec) (start : Position) (settled fresh : Text)
    (place : Position) : ∀ t : Text,
    (∃ body rest, t = body ++ rest ∧ spec.Closes fresh body) ∨
    ((string spec start).run (going settled fresh) place (t.map .char)).value =
      (.error ⟨.unterminatedString spec.stop, start⟩, Source.plain [] (place.advancedBy t))
  | [] => .inr rfl
  | c :: t => by
    rcases string_react spec start place settled fresh c with
      ⟨hStop, -⟩ | ⟨hOn, ⟨e, hSpec, hEscape⟩, hReact⟩ | ⟨hOn, hNone, hReact⟩
    · exact .inl ⟨[] ++ [c], t, rfl, .stop calm_nil hStop⟩
    · cases t with
      | nil =>
        right
        rw [List.map_cons, run, hReact]
        rfl
      | cons d t =>
        have hPassed := string_passed?_of_escape start place settled d calm_nil hOn hSpec hEscape
        rcases string_run_cases spec start ((fresh ++ [c, d]).reverse ++ settled) []
          (place.advancedBy [c, d]) t with ⟨body, rest, rfl, hCloses⟩ | hRun
        · exact .inl ⟨[] ++ [c] ++ d :: body, rest, rfl,
            .escape calm_nil hOn hSpec hEscape hCloses⟩
        · exact .inr ((run_of_passed? _ hPassed _).trans hRun)
    · rcases string_run_cases spec start settled (fresh ++ [c]) (place.advance c) t with
        ⟨body, rest, rfl, hCloses⟩ | hRun
      · exact .inl ⟨c :: body, rest, rfl, hCloses.cons hOn hNone⟩
      · right
        rw [List.map_cons, run, hReact]
        exact hRun

end Reader

end MarkerLex
