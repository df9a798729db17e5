import Mathlib.Computability.Language
import Mathlib.Order.Bounds.Defs
import MarkerLex.Proofs.TextStep
import MarkerLex.Proofs.Validity

/-!
# Escaped characters

Which characters of a string are escaped is a matter of the whole text before them:
an escape marker makes the next character an ordinary one, unless the marker uses up
an escaped character, and ordinary characters take part in no marker. The string ends
at the first end marker that is made of characters after the last escaped one. With
markers of one character this is the usual form of a quoted text.
-/

namespace MarkerLex

set_option autoImplicit false

namespace StringSpec

variable (spec : StringSpec)

/-- The last character of `body`, which follows the start marker, is escaped: an escape
marker ends before it that begins after every escaped character and does not itself end
in an escaped character or in the one that closes the string. -/
def Escaped (body : Text) : Prop :=
  ∃ _ : body.dropLast ≠ [], ¬ Escaped body.dropLast ∧
    let Met (marker : Text) : Prop := marker <:+ spec.start ++ body.dropLast ∧
      ∀ p, p <+: body.dropLast → Escaped p → p.length + marker.length ≤ body.dropLast.length
    ¬ Met spec.stop ∧ ∃ e, spec.escape = some e ∧ Met e
termination_by body.length
decreasing_by
  all_goals
    have hSome := List.length_pos_iff.mpr ‹body.dropLast ≠ []›
    rw [List.length_dropLast] at hSome
  · rw [List.length_dropLast]
    omega
  · have hShort := List.IsPrefix.length_le ‹_ <+: body.dropLast›
    rw [List.length_dropLast] at hShort
    omega

/-- None of the last `n` characters of what has been read is escaped. -/
def Clear (body : Text) (n : Nat) : Prop :=
  ∀ p, p <+: body → spec.Escaped p → p.length + n ≤ body.length

/-- The marker ends what has been read, and no character of it is escaped. -/
def Meets (marker body : Text) : Prop :=
  marker <:+ spec.start ++ body ∧ spec.Clear body marker.length

/-- The last character of `body` completes an end marker. -/
def Closing (body : Text) : Prop :=
  body ≠ [] ∧ ¬ spec.Escaped body ∧ spec.Meets spec.stop body

/-- The last character of `body` completes an escape marker. -/
def Escaping (body : Text) : Prop :=
  body ≠ [] ∧ ¬ spec.Escaped body ∧ ¬ spec.Closing body ∧
    ∃ e, spec.escape = some e ∧ spec.Meets e body

variable {spec} {body : Text} {c : Char}

theorem not_escaped_nil : ¬ spec.Escaped [] := by
  intro h
  rw [Escaped] at h
  obtain ⟨hSome, -⟩ := h
  exact hSome rfl

theorem escaped_concat : spec.Escaped (body ++ [c]) ↔ spec.Escaping body := by
  rw [Escaped, List.dropLast_concat]
  constructor
  · rintro ⟨hSome, hOrdinary, hOpen, hEscape⟩
    refine ⟨hSome, hOrdinary, ?_, hEscape⟩
    rintro ⟨-, -, hStop⟩
    exact hOpen hStop
  · rintro ⟨hSome, hOrdinary, hOpen, hEscape⟩
    refine ⟨hSome, hOrdinary, ?_, hEscape⟩
    intro hStop
    exact hOpen ⟨hSome, hOrdinary, hStop⟩

theorem clear_zero (body : Text) : spec.Clear body 0 := by
  intro p hp _
  exact hp.length_le

theorem clear_succ_concat {n : Nat} (h : ¬ spec.Escaped (body ++ [c])) :
    spec.Clear (body ++ [c]) (n + 1) ↔ spec.Clear body n := by
  have hLength : (body ++ [c]).length = body.length + 1 := List.length_append
  constructor
  · intro hClear p hp hEscaped
    have hBound := hClear p (hp.trans (List.prefix_append _ _)) hEscaped
    omega
  · intro hClear p hp hEscaped
    rcases List.prefix_concat_iff.mp hp with rfl | hp
    · exact absurd hEscaped h
    · have hBound := hClear p hp hEscaped
      omega

theorem eq_zero_of_clear {n : Nat} (h : spec.Escaped body) (hClear : spec.Clear body n) :
    n = 0 := by
  have hBound := hClear body List.prefix_rfl h
  omega

/-- What the reader holds after `body`: all that has been read, whether the next character is
escaped, and apart the characters that a marker may still use. -/
structure Held (spec : StringSpec) (body : Text) (s : OpenString) : Prop where
  newest : s.newest = (spec.start ++ body).reverse
  escaped : s.escaped = true ↔ spec.Escaping body
  fresh : s.escaped = false → ∀ n,
    n ≤ s.fresh.length ↔ n ≤ (spec.start ++ body).length ∧ spec.Clear body n

variable (spec) in
theorem held_opened : spec.Held [] spec.opened where
  newest := by
    rw [List.append_nil]
    exact List.append_nil _
  escaped := by
    constructor
    · intro h
      cases h
    · rintro ⟨hSome, -⟩
      exact absurd rfl hSome
  fresh := by
    intro _ n
    have hClear : spec.Clear [] n := by
      intro p hp hEscaped
      rw [List.prefix_nil.mp hp] at hEscaped
      exact absurd hEscaped not_escaped_nil
    rw [List.append_nil, and_iff_left hClear]
    change n ≤ spec.start.reverse.length ↔ _
    rw [List.length_reverse]

variable {s : OpenString}

theorem Held.newest_concat (h : spec.Held body s) (c : Char) :
    c :: s.newest = (spec.start ++ (body ++ [c])).reverse := by
  rw [h.newest, ← List.append_assoc, List.reverse_concat]

theorem Held.not_escaped (h : spec.Held body s) (hPlain : s.escaped = false) (c : Char) :
    ¬ spec.Escaped (body ++ [c]) := by
  intro hEscaped
  cases hPlain.symm.trans (h.escaped.mpr (escaped_concat.mp hEscaped))

theorem Held.endsIn_iff (h : spec.Held body s) (hPlain : s.escaped = false) (c : Char)
    (marker : Text) :
    Text.endsIn (c :: s.fresh) marker = true ↔ spec.Meets marker (body ++ [c]) := by
  have hWhole := h.newest_concat c
  have hNext := h.not_escaped hPlain c
  have hPart : (c :: s.fresh).reverse <:+ spec.start ++ (body ++ [c]) := by
    rw [← List.reverse_prefix, ← hWhole, List.reverse_reverse]
    exact ⟨s.settled, rfl⟩
  have hRoom : marker <:+ spec.start ++ (body ++ [c]) →
      (marker.length ≤ s.fresh.length + 1 ↔ spec.Clear (body ++ [c]) marker.length) := by
    intro hEnds
    cases hLength : marker.length with
    | zero => exact iff_of_true (Nat.zero_le _) (clear_zero _)
    | succ n =>
      have hLong := hEnds.length_le
      simp only [hLength, List.length_append, List.length_singleton] at hLong
      rw [clear_succ_concat hNext, Nat.add_le_add_iff_right, h.fresh hPlain, and_iff_right]
      rw [List.length_append]
      omega
  rw [Text.endsIn_iff]
  constructor
  · intro hEnds
    have hWhole := hEnds.trans hPart
    have hShort := hEnds.length_le
    rw [List.length_reverse, List.length_cons] at hShort
    exact ⟨hWhole, (hRoom hWhole).mp hShort⟩
  · rintro ⟨hEnds, hClear⟩
    apply List.suffix_of_suffix_length_le hEnds hPart
    rw [List.length_reverse, List.length_cons]
    exact (hRoom hEnds).mpr hClear

end StringSpec

namespace Reader

open StringSpec

variable {spec : StringSpec} {body : Text} {s : OpenString}

/-- Each character either closes the string or is held with the others. -/
theorem string_react_of_held (h : spec.Held body s) (start place : Position) (c : Char) :
    (spec.Closing (body ++ [c]) ∧ (string spec start).react s place c = .take ⟨[.stringClosed],
      .ok (.emit (some ⟨.string spec.name, spec.start ++ (body ++ [c]), start⟩) .std)⟩) ∨
    (¬ spec.Closing (body ++ [c]) ∧ ∃ next,
      (string spec start).react s place c = .proceed next ∧ spec.Held (body ++ [c]) next) := by
  have hSome : body ++ [c] ≠ [] := List.append_ne_nil_of_right_ne_nil _ (List.cons_ne_nil _ _)
  have hWhole := h.newest_concat c
  rcases string_react_cases spec start s place c with
    ⟨hEscaped, hReact⟩ | ⟨hPlain, hStop, hReact⟩ | ⟨hPlain, hStop, hEscape, hReact⟩ |
      ⟨hPlain, hStop, hEscape, hReact⟩
  · have hHere : spec.Escaped (body ++ [c]) := escaped_concat.mpr (h.escaped.mp hEscaped)
    refine .inr ⟨fun hClosing => hClosing.2.1 hHere, _, hReact, ?_⟩
    constructor
    case newest => exact hWhole
    case escaped =>
      constructor
      · intro hNext
        cases hNext
      · rintro ⟨-, hOrdinary, -⟩
        exact absurd hHere hOrdinary
    case fresh =>
      intro _ n
      constructor
      · intro hNone
        obtain rfl := Nat.le_zero.mp hNone
        exact ⟨Nat.zero_le _, clear_zero _⟩
      · rintro ⟨-, hClear⟩
        exact Nat.le_of_eq (eq_zero_of_clear hHere hClear)
  · have hMeets := (h.endsIn_iff hPlain c _).mp hStop
    refine .inl ⟨⟨hSome, h.not_escaped hPlain c, hMeets⟩, ?_⟩
    rw [hReact, hWhole, List.reverse_reverse]
  all_goals
    have hOrdinary := h.not_escaped hPlain c
    have hOpen : ¬ spec.Closing (body ++ [c]) := by
      rintro ⟨-, -, hMeets⟩
      cases hStop.symm.trans ((h.endsIn_iff hPlain c _).mpr hMeets)
  · obtain ⟨e, hSpec, hEnds⟩ := (Option.any_eq_true _ _).mp hEscape
    have hMeets := (h.endsIn_iff hPlain c e).mp hEnds
    refine .inr ⟨hOpen, _, hReact, ?_⟩
    constructor
    case newest => exact hWhole
    case escaped => exact iff_of_true rfl ⟨hSome, hOrdinary, hOpen, e, hSpec, hMeets⟩
    case fresh =>
      intro hNext
      cases hNext
  · refine .inr ⟨hOpen, _, hReact, ?_⟩
    constructor
    case newest => exact hWhole
    case escaped =>
      refine iff_of_false (by rw [hPlain]; decide) ?_
      rintro ⟨-, -, -, e, hSpec, hMeets⟩
      have hEnds := (h.endsIn_iff hPlain c e).mpr hMeets
      cases hEnds.symm.trans ((Option.any_eq_false _ _).mp hEscape e hSpec)
    case fresh =>
      intro _ n
      cases n with
      | zero => exact iff_of_true (Nat.zero_le _) ⟨Nat.zero_le _, clear_zero _⟩
      | succ n =>
        have hLength : (spec.start ++ (body ++ [c])).length = (spec.start ++ body).length + 1 := by
          rw [← List.append_assoc, List.length_append, List.length_singleton]
        rw [clear_succ_concat hOrdinary, hLength, List.length_cons, Nat.add_le_add_iff_right,
          Nat.add_le_add_iff_right, h.fresh hPlain]

theorem held_of_passed? {start place : Position}
    (h : (string spec start).passed? spec.opened place body = some s) :
    (∀ q, q <+: body → ¬ spec.Closing q) ∧ spec.Held body s := by
  induction body using List.reverseRecOn generalizing s with
  | nil =>
    cases h
    refine ⟨?_, spec.held_opened⟩
    rintro q hq ⟨hSome, -⟩
    exact hSome (List.prefix_nil.mp hq)
  | append_singleton body c ih =>
    rw [passed?_append, Option.bind_eq_some_iff] at h
    obtain ⟨before, hBefore, hLast⟩ := h
    obtain ⟨hOpen, hHeld⟩ := ih hBefore
    rcases string_react_of_held hHeld start (place.advancedBy body) c with
      ⟨-, hReact⟩ | ⟨hGoesOn, next, hReact, hNext⟩
    · simp [passed?, hReact] at hLast
    · simp only [passed?, hReact, Option.some.injEq] at hLast
      subst hLast
      refine ⟨?_, hNext⟩
      intro q hq
      rcases List.prefix_concat_iff.mp hq with rfl | hq
      · exact hGoesOn
      · exact hOpen q hq

end Reader

namespace StringSpec

/-- After so many characters of `t` an end marker is complete. -/
def closings (spec : StringSpec) (t : Text) : Set Nat :=
  {n | n ≤ t.length ∧ spec.Closing (t.take n)}

variable {spec : StringSpec} {body t : Text}

theorem isLeast_closings (hClosing : spec.Closing body)
    (hFirst : ∀ q, q <+: body → q ≠ body → ¬ spec.Closing q) (rest : Text) :
    IsLeast (spec.closings (body ++ rest)) body.length := by
  constructor
  · refine ⟨?_, ?_⟩
    · rw [List.length_append]
      exact Nat.le_add_right _ _
    · rwa [List.take_left]
  · rintro n ⟨-, hn⟩
    by_contra hShort
    have hLess : n < body.length := Nat.lt_of_not_le hShort
    rw [List.take_append_of_le_length (Nat.le_of_lt hLess)] at hn
    refine hFirst (body.take n) (List.take_prefix _ _) ?_ hn
    intro hSame
    have hLength := congrArg List.length hSame
    rw [List.length_take_of_le (Nat.le_of_lt hLess)] at hLength
    omega

theorem closings_eq_empty (hOpen : ∀ q, q <+: t → ¬ spec.Closing q) : spec.closings t = ∅ := by
  apply Set.eq_empty_of_forall_notMem
  rintro n ⟨-, hn⟩
  exact hOpen _ (List.take_prefix _ _) hn

end StringSpec

namespace Mode

open StringSpec

variable (g : Grammar) (config : Config) (spec : StringSpec) (start : Position)

theorem step_string_plain (place : Position) (t : Text) :
    (∃ body rest, t = body ++ rest ∧ IsLeast (spec.closings t) body.length ∧
      ((string spec start).step g config (.plain t place)).value =
        (.ok (.emit (some ((Delimiter.string spec).token start body)) .std),
          .plain rest (place.advancedBy body))) ∨
    (spec.closings t = ∅ ∧ ((string spec start).step g config (.plain t place)).value =
      (.error ⟨.unterminatedString spec.stop, start⟩, .plain [] (place.advancedBy t))) := by
  have hDecides := (Reader.string spec start).run_decides spec.opened place t
  have hStep : ((string spec start).step g config (.plain t place)).value = (_, _) :=
    hDecides.run_eq
  generalize ((Reader.string spec start).run spec.opened place (t.map .char)).value.1 = outcome
    at hDecides hStep
  generalize ((Reader.string spec start).run spec.opened place (t.map .char)).value.2 = left
    at hDecides hStep
  cases hDecides with
  | finish hPassed =>
    exact .inr ⟨closings_eq_empty (Reader.held_of_passed? hPassed).1, hStep⟩
  | @leave a rest c last outcome hText hPassed hReact =>
    have hHeld := (Reader.held_of_passed? hPassed).2
    rcases Reader.string_react_of_held hHeld start (place.advancedBy a) c with
      ⟨-, h⟩ | ⟨-, next, h, -⟩
    · cases h.symm.trans hReact
    · cases h.symm.trans hReact
  | @take a rest c last outcome hText hPassed hReact =>
    obtain ⟨hOpen, hHeld⟩ := Reader.held_of_passed? hPassed
    rcases Reader.string_react_of_held hHeld start (place.advancedBy a) c with
      ⟨hClosing, h⟩ | ⟨-, next, h, -⟩
    · cases h.symm.trans hReact
      have hRead : t = a ++ [c] ++ rest := by rw [hText, List.append_assoc]; rfl
      refine .inl ⟨a ++ [c], rest, hRead, ?_, hStep⟩
      rw [hRead]
      apply isLeast_closings hClosing
      intro q hq hShort
      rcases List.prefix_concat_iff.mp hq with rfl | hq
      · exact absurd rfl hShort
      · exact hOpen q hq
    · cases h.symm.trans hReact

end Mode

/-! With markers of one character the text of a string has the usual form. -/

namespace Text

open Computability

/-- An ordinary character, or the escape character and any other. -/
def quotedPart (stop escape : Char) : Language Char :=
  {t | (∃ c, c ≠ stop ∧ c ≠ escape ∧ t = [c]) ∨ ∃ c, t = [escape, c]}

/-- What follows the start marker of a quoted text. -/
def quotation (stop escape : Char) : Language Char := (quotedPart stop escape)∗ * {[stop]}

/-- What follows the start marker of a quoted text that is not over yet. -/
def unclosed (stop escape : Char) : Language Char := (quotedPart stop escape)∗ * (1 + {[escape]})

variable {stop escape : Char} {part t : Text}

theorem append_mem_quoted {last : Language Char} (hPart : part ∈ quotedPart stop escape)
    (h : t ∈ (quotedPart stop escape)∗ * last) : part ++ t ∈ (quotedPart stop escape)∗ * last := by
  obtain ⟨inner, hInner, rest, hRest, rfl⟩ := Language.mem_mul.mp h
  have hLonger : quotedPart stop escape * (quotedPart stop escape)∗ ≤ (quotedPart stop escape)∗ :=
    mul_kstar_le_kstar
  rw [← List.append_assoc]
  exact Language.append_mem_mul (hLonger (Language.append_mem_mul hPart hInner)) hRest

theorem quotation_cases (stop escape : Char) : ∀ t : Text,
    (∃ body rest, t = body ++ rest ∧ body ∈ quotation stop escape) ∨ t ∈ unclosed stop escape
  | [] => .inr (Language.append_mem_mul (Language.nil_mem_kstar _) (.inl rfl))
  | c :: t => by
    have hOn {part rest : Text} (hPart : part ∈ quotedPart stop escape)
        (h : (∃ body more, rest = body ++ more ∧ body ∈ quotation stop escape) ∨
          rest ∈ unclosed stop escape) :
        (∃ body more, part ++ rest = body ++ more ∧ body ∈ quotation stop escape) ∨
          part ++ rest ∈ unclosed stop escape := by
      rcases h with ⟨body, more, rfl, hBody⟩ | hInner
      · exact .inl ⟨part ++ body, more, (List.append_assoc ..).symm, append_mem_quoted hPart hBody⟩
      · exact .inr (append_mem_quoted hPart hInner)
    by_cases hStop : c = stop
    · subst hStop
      exact .inl ⟨[] ++ [c], t, rfl, Language.append_mem_mul (Language.nil_mem_kstar _) rfl⟩
    by_cases hEscape : c = escape
    · subst hEscape
      cases t with
      | nil =>
        have hLast : [] ++ [c] ∈ unclosed stop c :=
          Language.append_mem_mul (Language.nil_mem_kstar _) (.inr rfl)
        exact .inr hLast
      | cons d t =>
        have hPair : [c, d] ∈ quotedPart stop c := Or.inr ⟨d, rfl⟩
        exact hOn hPair (quotation_cases stop c t)
    · have hOrdinary : [c] ∈ quotedPart stop escape := Or.inl ⟨c, hStop, hEscape, rfl⟩
      exact hOn hOrdinary (quotation_cases stop escape t)

theorem endsIn_singleton {newest : Text} {c d : Char} :
    endsIn (c :: newest) [d] = true ↔ c = d := by
  rw [endsIn, List.reverse_singleton, List.isPrefixOf, List.isPrefixOf, Bool.and_true, beq_iff_eq]
  exact eq_comm

end Text

namespace Reader

open StringSpec Text Computability

variable {spec : StringSpec} {stop escape : Char} {t : Text}

theorem passed?_of_quotedPart (hStop : spec.stop = [stop]) (hEscape : spec.escape = some [escape])
    (hne : escape ≠ stop) (h : t ∈ quotedPart stop escape) (start place : Position)
    {s : OpenString} (hPlain : s.escaped = false) : ∃ next,
      (string spec start).passed? s place t = some next ∧ next.escaped = false := by
  have hStops {c : Char} (hc : c ≠ stop) : ¬ endsIn (c :: s.fresh) spec.stop = true := by
    rw [hStop, endsIn_singleton]
    exact hc
  have hEscapes (c : Char) :
      spec.escape.any (endsIn (c :: s.fresh)) = true ↔ c = escape := by
    rw [hEscape, Option.any_some, endsIn_singleton]
  rcases h with ⟨c, hc, hOrdinary, rfl⟩ | ⟨d, rfl⟩
  · rcases string_react_cases spec start s place c with
      ⟨hEscaped, -⟩ | ⟨-, hEnd, -⟩ | ⟨-, -, hMarker, -⟩ | ⟨-, -, -, hReact⟩
    · cases hPlain.symm.trans hEscaped
    · exact absurd hEnd (hStops hc)
    · exact absurd ((hEscapes c).mp hMarker) hOrdinary
    · simp only [passed?, hReact]
      exact ⟨_, rfl, hPlain⟩
  · rcases string_react_cases spec start s place escape with
      ⟨hEscaped, -⟩ | ⟨-, hEnd, -⟩ | ⟨-, -, -, hReact⟩ | ⟨-, -, hMarker, -⟩
    · cases hPlain.symm.trans hEscaped
    · exact absurd hEnd (hStops hne)
    · simp only [passed?, hReact, string_react_escaped]
      exact ⟨_, rfl, rfl⟩
    · cases hMarker.symm.trans ((hEscapes escape).mpr rfl)

theorem passed?_of_quotedParts (hStop : spec.stop = [stop])
    (hEscape : spec.escape = some [escape]) (hne : escape ≠ stop)
    (h : t ∈ (quotedPart stop escape)∗) (start place : Position) {s : OpenString}
    (hPlain : s.escaped = false) : ∃ next,
      (string spec start).passed? s place t = some next ∧ next.escaped = false := by
  obtain ⟨parts, hFlat, hParts⟩ := Language.mem_kstar.mp h
  subst hFlat
  clear h
  induction parts generalizing s place with
  | nil => exact ⟨s, rfl, hPlain⟩
  | cons part parts ih =>
    obtain ⟨hPart, hLater⟩ := List.forall_mem_cons.mp hParts
    obtain ⟨middle, hPassed, hMiddle⟩ :=
      passed?_of_quotedPart hStop hEscape hne hPart start place hPlain
    obtain ⟨next, hRest, hNext⟩ :=
      ih (place.advancedBy part) hMiddle hLater
    refine ⟨next, ?_, hNext⟩
    rw [List.flatten_cons, passed?_append, hPassed, Option.bind_some, hRest]

end Reader

namespace StringSpec

open Text

variable {spec : StringSpec} {stop escape : Char} {body t : Text}

/-- A quotation is over with its last character and not before. -/
theorem isLeast_of_quotation (hStop : spec.stop = [stop]) (hEscape : spec.escape = some [escape])
    (hne : escape ≠ stop) (h : body ∈ quotation stop escape) (rest : Text) :
    IsLeast (spec.closings (body ++ rest)) body.length := by
  obtain ⟨inner, hInner, _, rfl, rfl⟩ := Language.mem_mul.mp h
  obtain ⟨s, hPassed, hPlain⟩ := Reader.passed?_of_quotedParts hStop hEscape hne hInner
    .start .start (s := spec.opened) rfl
  obtain ⟨hOpen, hHeld⟩ := Reader.held_of_passed? hPassed
  have hEnds : endsIn (stop :: s.fresh) spec.stop = true := by rw [hStop, endsIn_singleton]
  apply isLeast_closings
  · exact ⟨List.append_ne_nil_of_right_ne_nil _ (List.cons_ne_nil _ _),
      hHeld.not_escaped hPlain stop, (hHeld.endsIn_iff hPlain stop _).mp hEnds⟩
  · intro q hq hShort
    rcases List.prefix_concat_iff.mp hq with rfl | hq
    · exact absurd rfl hShort
    · exact hOpen q hq

theorem closings_of_unclosed (hStop : spec.stop = [stop])
    (hEscape : spec.escape = some [escape]) (hne : escape ≠ stop)
    (h : t ∈ unclosed stop escape) : spec.closings t = ∅ := by
  obtain ⟨inner, hInner, last, hLast, rfl⟩ := Language.mem_mul.mp h
  obtain ⟨s, hPassed, hPlain⟩ := Reader.passed?_of_quotedParts hStop hEscape hne hInner
    .start .start (s := spec.opened) rfl
  obtain ⟨hOpen, hHeld⟩ := Reader.held_of_passed? hPassed
  apply closings_eq_empty
  rcases hLast with rfl | rfl
  · rw [List.append_nil]
    exact hOpen
  · intro q hq
    rcases List.prefix_concat_iff.mp hq with rfl | hq
    · rintro ⟨-, -, hMeets⟩
      have hEnds := (hHeld.endsIn_iff hPlain escape _).mpr hMeets
      rw [hStop, endsIn_singleton] at hEnds
      exact hne hEnds
    · exact hOpen q hq

theorem closings_eq_empty_iff (hStop : spec.stop = [stop]) (hEscape : spec.escape = some [escape])
    (hne : escape ≠ stop) :
    spec.closings t = ∅ ↔ ∀ body, body <+: t → body ∉ quotation stop escape := by
  constructor
  · rintro hNone body ⟨rest, rfl⟩ hBody
    have hLeast := isLeast_of_quotation hStop hEscape hne hBody rest
    rw [hNone] at hLeast
    exact hLeast.1
  · intro hNone
    rcases quotation_cases stop escape t with ⟨body, rest, rfl, hBody⟩ | hOpen
    · exact absurd hBody (hNone body (List.prefix_append _ _))
    · exact closings_of_unclosed hStop hEscape hne hOpen

end StringSpec

namespace Mode

open Source StringSpec

variable (g : Grammar) (config : Config) {spec : StringSpec} {s : Source}

theorem takes_of_isLeast_closings {n : Nat} (hUnfailing : s.Unfailing)
    (hn : IsLeast (spec.closings s.unread) n) (start : Position) :
    (string spec start).Takes g config s (s.unread.take n)
      (.ok (.emit (some ((Delimiter.string spec).token start (s.unread.take n))) .std)) := by
  rcases step_string_plain g config spec start s.position s.unread with
    ⟨body, rest, hText, hFirst, hStep⟩ | ⟨hNone, -⟩
  · obtain rfl := hn.unique hFirst
    have hBody : s.unread.take body.length = body := by rw [hText, List.take_left]
    rw [hBody]
    exact takes_of_plain hUnfailing hText hStep
  · rw [hNone] at hn
    exact absurd hn.1 (Set.notMem_empty n)

theorem takes_of_no_closings (hUnfailing : s.Unfailing) (hNone : spec.closings s.unread = ∅)
    (start : Position) : (string spec start).Takes g config s s.unread
      (.error ⟨.unterminatedString spec.stop, start⟩) := by
  rcases step_string_plain g config spec start s.position s.unread with
    ⟨body, rest, -, hFirst, -⟩ | ⟨-, hStep⟩
  · rw [hNone] at hFirst
    exact absurd hFirst.1 (Set.notMem_empty _)
  · exact takes_of_plain hUnfailing (List.append_nil _).symm hStep

/-- A string is read as far as the first end marker that is made of characters after the last
escaped one; where there is none, everything is read and it is unterminated. With an end and
an escape of one character, it is read as far as the one quotation that stands there. -/
theorem string_takes_closings (spec : StringSpec) (start : Position) (hUnfailing : s.Unfailing) :
    (∀ n, IsLeast (spec.closings s.unread) n →
      (string spec start).Takes g config s (s.unread.take n)
        (.ok (.emit (some ((Delimiter.string spec).token start (s.unread.take n))) .std))) ∧
    (spec.closings s.unread = ∅ →
      (string spec start).Takes g config s s.unread
        (.error ⟨.unterminatedString spec.stop, start⟩)) ∧
    ∀ stop escape, spec.stop = [stop] → spec.escape = some [escape] → escape ≠ stop →
      (∀ body, body <+: s.unread → body ∈ Text.quotation stop escape →
        (string spec start).Takes g config s body
          (.ok (.emit (some ((Delimiter.string spec).token start body)) .std)) ∧
        ∀ other, other <+: s.unread → other ∈ Text.quotation stop escape → other = body) ∧
      (((string spec start).step g config s).value.1 =
          .error ⟨.unterminatedString spec.stop, start⟩ ↔
        ∀ body, body <+: s.unread → body ∉ Text.quotation stop escape) := by
  refine ⟨fun n hn => takes_of_isLeast_closings g config hUnfailing hn start,
    fun hNone => takes_of_no_closings g config hUnfailing hNone start, ?_⟩
  intro stop escape hStop hEscape hne
  have hQuoted : ∀ body, body <+: s.unread → body ∈ Text.quotation stop escape →
      IsLeast (spec.closings s.unread) body.length ∧ s.unread.take body.length = body := by
    rintro body ⟨rest, hText⟩ hBody
    rw [← hText]
    exact ⟨isLeast_of_quotation hStop hEscape hne hBody rest, List.take_left⟩
  constructor
  · intro body hBody hQuotation
    obtain ⟨hFirst, hTake⟩ := hQuoted body hBody hQuotation
    constructor
    · have hTakes := takes_of_isLeast_closings g config hUnfailing hFirst start
      rwa [hTake] at hTakes
    · intro other hOther hAgain
      obtain ⟨hFirst', hTake'⟩ := hQuoted other hOther hAgain
      rw [← hTake, ← hTake', hFirst.unique hFirst']
  · rw [← closings_eq_empty_iff hStop hEscape hne]
    constructor
    · intro hError
      rcases step_string_plain g config spec start s.position s.unread with
        ⟨body, rest, -, hFirst, -⟩ | ⟨hNone, -⟩
      · have hTakes := takes_of_isLeast_closings g config hUnfailing hFirst start
        cases hError.symm.trans hTakes.outcome_eq
      · exact hNone
    · intro hNone
      exact (takes_of_no_closings g config hUnfailing hNone start).outcome_eq

theorem string_takes_closings_sample :
    (ofText ['a', '\\', '\'', 'b', '\'', 'c']).Unfailing ∧
    (string ⟨['\''], ['\''], some ['\\'], none⟩ .start).Takes .sample {}
      (ofText ['a', '\\', '\'', 'b', '\'', 'c']) ['a', '\\', '\'', 'b', '\'']
      (.ok (.emit (some ⟨.string none, ['\'', 'a', '\\', '\'', 'b', '\''], .start⟩) .std)) := by
  have hUnfailing := unfailing_plain ['a', '\\', '\'', 'b', '\'', 'c'] .start
  have hParts : ∀ part ∈ [['a'], ['\\', '\''], ['b']], part ∈ Text.quotedPart '\'' '\\' := by
    simp only [List.forall_mem_cons]
    exact ⟨.inl ⟨'a', by decide, by decide, rfl⟩, .inr ⟨'\'', rfl⟩,
      .inl ⟨'b', by decide, by decide, rfl⟩, by simp⟩
  have hQuotation : ['a', '\\', '\'', 'b', '\''] ∈ Text.quotation '\'' '\\' :=
    Language.append_mem_mul (Language.join_mem_kstar hParts) rfl
  have hQuoted := (string_takes_closings .sample {} ⟨['\''], ['\''], some ['\\'], none⟩ .start
    hUnfailing).2.2 '\'' '\\' rfl rfl (by decide)
  rw [unread_plain] at hQuoted
  exact ⟨hUnfailing, (hQuoted.1 _ ⟨['c'], rfl⟩ hQuotation).1⟩

end Mode

end MarkerLex
