import Mathlib.Data.List.Induction
import MarkerLex.Proofs.Reading

/-!
# Plain text and where delimiters open

Text is plain as long as no whitespace is met and no start marker ends a
beginning of it. A delimiter opens at the first beginning that one ends, and
in a valid grammar this is the same as to say that the text before it holds no
marker anywhere.
-/

namespace MarkerLex

set_option autoImplicit false

theorem Text.endsIn_reverse (t marker : Text) :
    Text.endsIn t.reverse marker = decide (marker <:+ t) := by
  rw [Bool.eq_iff_iff, Text.endsIn_iff, List.reverse_reverse, decide_eq_true_iff]

theorem Text.exists_concat {t : Text} (hRead : t ≠ []) : ∃ a c, t = a ++ [c] :=
  ⟨_, _, (List.dropLast_concat_getLast hRead).symm⟩

namespace Grammar

variable {g : Grammar} {u t : Text} {d : Delimiter} {c : Char}

/-- The text holds no whitespace, and nothing opens in it. -/
structure Plain (g : Grammar) (t : Text) : Prop where
  solid : ∀ c ∈ t, g.isWhitespace c = false
  quiet : ∀ q, q <+: t → q ≠ [] → g.opening? q.reverse = none

theorem plain_nil (g : Grammar) : g.Plain [] where
  solid _ hc := by cases hc
  quiet _ hq hne := absurd (List.prefix_nil.mp hq) hne

theorem plain_concat : g.Plain (t ++ [c]) ↔
    g.Plain t ∧ g.isWhitespace c = false ∧ g.opening? (c :: t.reverse) = none := by
  have hReverse : (t ++ [c]).reverse = c :: t.reverse := List.reverse_concat ..
  constructor
  · intro h
    obtain ⟨hSolid, hLast⟩ := List.forall_mem_append.mp h.solid
    refine ⟨⟨hSolid, ?_⟩, hLast c List.mem_cons_self, ?_⟩
    · intro q hq
      exact h.quiet q (hq.trans (List.prefix_append _ _))
    · rw [← hReverse]
      exact h.quiet _ List.prefix_rfl (List.append_ne_nil_of_right_ne_nil _ (List.cons_ne_nil _ _))
  · rintro ⟨h, hSolid, hQuiet⟩
    constructor
    · exact List.forall_mem_append.mpr ⟨h.solid, List.forall_mem_singleton.mpr hSolid⟩
    · intro q hq hne
      rcases List.prefix_concat_iff.mp hq with rfl | hq
      · rwa [hReverse]
      · exact h.quiet q hq hne

/-- After the plain text `u` the delimiter opens, and its start marker is read in full. -/
structure Opens (g : Grammar) (u : Text) (d : Delimiter) : Prop where
  solid : ∀ c ∈ u ++ d.start, g.isWhitespace c = false
  early : ∀ q, q <+: u ++ d.start → q ≠ [] → q ≠ u ++ d.start → g.opening? q.reverse = none
  first : g.opening? (u ++ d.start).reverse = some d
  read : u ++ d.start ≠ []

theorem opens_iff {a : Text} (hRead : u ++ d.start = a ++ [c]) :
    g.Opens u d ↔
      g.Plain a ∧ g.isWhitespace c = false ∧ g.opening? (c :: a.reverse) = some d := by
  have hReverse : (a ++ [c]).reverse = c :: a.reverse := List.reverse_concat ..
  constructor
  · rintro ⟨hSolid, hEarly, hFirst, -⟩
    rw [hRead] at hSolid hEarly hFirst
    obtain ⟨hBefore, hLast⟩ := List.forall_mem_append.mp hSolid
    refine ⟨⟨hBefore, ?_⟩, hLast c List.mem_cons_self, ?_⟩
    · intro q hq hne
      apply hEarly q (hq.trans (List.prefix_append _ _)) hne
      rintro rfl
      have hLength := hq.length_le
      rw [List.length_append, List.length_singleton] at hLength
      omega
    · rwa [← hReverse]
  · rintro ⟨hPlain, hSolid, hFirst⟩
    refine ⟨?_, ?_, by rwa [hRead, hReverse], by simp [hRead]⟩
    · rw [hRead]
      exact List.forall_mem_append.mpr ⟨hPlain.solid, List.forall_mem_singleton.mpr hSolid⟩
    · intro q hq hne hShort
      rw [hRead] at hq hShort
      rcases List.prefix_concat_iff.mp hq with rfl | hq
      · exact absurd rfl hShort
      · exact hPlain.quiet q hq hne

theorem start_suffix_of_opening? {newest : Text} (h : g.opening? newest = some d) :
    d.start <:+ newest.reverse := by
  rw [opening?_eq_find?] at h
  have hEnds := List.find?_some (p := fun d : Delimiter => Text.endsIn newest d.start) h
  exact Text.endsIn_iff.mp hEnds

theorem mem_of_opening? {newest : Text} (h : g.opening? newest = some d) : d ∈ g.delimiters := by
  rw [opening?_eq_find?] at h
  exact List.mem_of_find?_eq_some h

theorem opening?_eq_none : g.opening? t.reverse = none ↔ ∀ d ∈ g.delimiters, ¬ d.start <:+ t := by
  rw [opening?_eq_find?, List.find?_eq_none]
  simp only [Text.endsIn_reverse, decide_eq_true_eq]

theorem opening?_eq_some : g.opening? t.reverse = some d ↔ d.start <:+ t ∧
    ∃ before after, g.delimiters = before ++ d :: after ∧ ∀ e ∈ before, ¬ e.start <:+ t := by
  rw [opening?_eq_find?, List.find?_eq_some_iff_append]
  simp only [Text.endsIn_reverse, decide_eq_true_eq, Bool.not_eq_true', decide_eq_false_iff_not]

end Grammar

def Token.term? (t : Text) (place : Position) : Option Token :=
  if t = [] then none else some ⟨.term, t, place⟩

theorem Token.term?_eq_some {t : Text} {place : Position} {token : Token} :
    term? t place = some token ↔ t ≠ [] ∧ ⟨.term, t, place⟩ = token := by
  rw [term?, Option.ite_none_left_eq_some, Option.some.injEq]

namespace Pending

def of (t : Text) (place : Position) : Pending := ⟨t.reverse, if t = [] then .start else place⟩

theorem push_of (t : Text) (place : Position) (c : Char) :
    (of t place).push (place.advancedBy t) c = of (t ++ [c]) place := by
  cases t with
  | nil => rfl
  | cons d t => simp [of, push]

theorem term?_of (t : Text) (place : Position) : (of t place).term? = Token.term? t place := by
  cases t with
  | nil => rfl
  | cons d t => simp [of, term?, Token.term?, text]

theorem without_of {u marker : Text} (place : Position) (hRead : u ++ marker ≠ []) :
    (of (u ++ marker) place).without marker = ⟨u.reverse, place⟩ := by
  have hDrop : (u ++ marker).reverse.drop marker.length = u.reverse := by
    rw [List.reverse_append, List.drop_left' (List.length_reverse)]
  rw [of, without, if_neg hRead, hDrop]

theorem term?_reverse (u : Text) (place : Position) :
    term? ⟨u.reverse, place⟩ = Token.term? u place := by
  simp [term?, Token.term?, text]

theorem stop_reverse (u : Text) (place : Position) :
    stop ⟨u.reverse, place⟩ = place.advancedBy u := by
  rw [stop, text, List.reverse_reverse]

end Pending

namespace Reader

variable {g : Grammar}

/-- Between delimiters exactly the plain texts are read on. -/
theorem std_passed? {t : Text} (place : Position) {p : Pending} :
    (std g).passed? .empty place t = some p ↔ g.Plain t ∧ p = .of t place := by
  induction t using List.reverseRecOn generalizing p with
  | nil =>
    constructor
    · rintro ⟨⟩
      exact ⟨g.plain_nil, rfl⟩
    · rintro ⟨-, rfl⟩
      rfl
  | append_singleton t c ih =>
    rw [passed?_append, Option.bind_eq_some_iff, Grammar.plain_concat, ← Pending.push_of]
    constructor
    · rintro ⟨q, hq, hLast⟩
      obtain ⟨hPlain, rfl⟩ := ih.mp hq
      rcases std_react_cases g (.of t place) (place.advancedBy t) c with
        h | ⟨hSolid, hQuiet, h⟩ | ⟨-, d, before, -, -, h⟩
      · simp [passed?, h.2] at hLast
      · simp only [passed?, h, Option.some.injEq] at hLast
        exact ⟨⟨hPlain, hSolid, hQuiet⟩, hLast.symm⟩
      · simp [passed?, h] at hLast
    · rintro ⟨⟨hPlain, hSolid, hQuiet⟩, rfl⟩
      refine ⟨_, ih.mpr ⟨hPlain, rfl⟩, ?_⟩
      rcases std_react_cases g (.of t place) (place.advancedBy t) c with
        h | h | ⟨-, d, before, hOpening, -, h⟩
      · exact absurd (h.1.symm.trans hSolid) (by decide)
      · simp only [passed?, h.2.2]
      · exact absurd (hOpening.symm.trans hQuiet) (by simp)

theorem whitespace_passed? {t : Text} (place : Position) :
    (whitespace g).passed? () place t = some () ↔ ∀ c ∈ t, g.isWhitespace c = true := by
  induction t generalizing place with
  | nil => simp [passed?]
  | cons c t ih =>
    rcases whitespace_react_cases g place c with ⟨hSpace, h⟩ | ⟨hSolid, h⟩
    · simp only [passed?, h, ih, List.forall_mem_cons, hSpace, true_and]
    · simp [passed?, h, hSolid]

end Reader

end MarkerLex
