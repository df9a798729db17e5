import MarkerLex.Grammar.Validity

/-!
# What validity gives

A grammar is valid where all its delimiters are fit for it: their markers hold text, and no
whitespace stands in a start marker.
-/

namespace MarkerLex

set_option autoImplicit false

namespace Delimiter

def stop : Delimiter → Text
  | comment spec => spec.stop
  | string spec => spec.stop

def escape? : Delimiter → Option Text
  | comment _ => none
  | string spec => spec.escape

structure Fit (g : Grammar) (d : Delimiter) : Prop where
  start_ne : d.start ≠ []
  stop_ne : d.stop ≠ []
  solid : ∀ c ∈ d.start, g.isWhitespace c = false
  escape_ne : d.escape? ≠ some []

end Delimiter

namespace Grammar

/-- Comments that nest and strings with escapes. -/
def sample : Grammar where
  comments := [⟨['/', '*'], ['*', '/'], true⟩]
  strings := [⟨['\''], ['\''], some ['\\'], none⟩]

variable {g : Grammar} {d : Delimiter}

theorem error?_of_validate (hValid : g.validate = .ok ()) : g.error? = none := by
  rw [validate] at hValid
  split at hValid
  · cases hValid
  · assumption

theorem markerError?_eq_none {kind : SpecKind} {index : Nat} {start stop : Text} :
    g.markerError? kind index start stop = none ↔
      start ≠ [] ∧ stop ≠ [] ∧ ∀ c ∈ start, g.isWhitespace c = false := by
  rw [markerError?]
  split
  case isTrue hStart => simp [hStart]
  case isFalse hStart =>
    split
    case isTrue hStop => simp [hStop]
    case isFalse hStop => simp [hStart, hStop]

theorem commentError?_eq_none {index : Nat} {spec : CommentSpec} :
    g.commentError? index spec = none ↔ (Delimiter.comment spec).Fit g := by
  rw [commentError?, markerError?_eq_none]
  constructor
  · rintro ⟨hStart, hStop, hSolid⟩
    exact ⟨hStart, hStop, hSolid, nofun⟩
  · intro h
    exact ⟨h.start_ne, h.stop_ne, h.solid⟩

theorem stringError?_eq_none {index : Nat} {spec : StringSpec} :
    g.stringError? index spec = none ↔ (Delimiter.string spec).Fit g := by
  rw [stringError?, Option.or_eq_none_iff, markerError?_eq_none, ite_eq_right_iff]
  constructor
  · rintro ⟨⟨hStart, hStop, hSolid⟩, hEscape⟩
    exact ⟨hStart, hStop, hSolid, fun hEmpty => Option.some_ne_none _ (hEscape hEmpty)⟩
  · intro h
    exact ⟨⟨h.start_ne, h.stop_ne, h.solid⟩, fun hEmpty => absurd hEmpty h.escape_ne⟩

theorem findSome?_zipIdx_eq_none {α β : Type} (error? : Nat → α → Option β) {P : α → Prop}
    (hError : ∀ i a, error? i a = none ↔ P a) (specs : List α) :
    (specs.zipIdx.findSome? fun (a, i) => error? i a) = none ↔ ∀ a ∈ specs, P a := by
  simp only [List.findSome?_eq_none_iff, hError]
  constructor
  · intro h a ha
    rw [← List.zipIdx_map_fst 0 specs] at ha
    obtain ⟨pair, hPair, rfl⟩ := List.mem_map.mp ha
    exact h pair hPair
  · intro h pair hPair
    exact h pair.1 (List.fst_mem_of_mem_zipIdx hPair)

theorem validate_eq_ok : g.validate = .ok () ↔ ∀ d ∈ g.delimiters, d.Fit g := by
  have hError : g.validate = .ok () ↔ g.error? = none :=
    ⟨error?_of_validate, fun hNone => by rw [validate, hNone]⟩
  rw [hError, error?, Option.or_eq_none_iff,
    findSome?_zipIdx_eq_none g.commentError? (fun _ _ => commentError?_eq_none),
    findSome?_zipIdx_eq_none g.stringError? (fun _ _ => stringError?_eq_none), delimiters,
    List.forall_mem_append, List.forall_mem_map, List.forall_mem_map]

theorem start_of_validate (hValid : g.validate = .ok ()) (hd : d ∈ g.delimiters) :
    d.start ≠ [] ∧ ∀ c ∈ d.start, g.isWhitespace c = false :=
  have hFit := validate_eq_ok.mp hValid d hd
  ⟨hFit.start_ne, hFit.solid⟩

end Grammar

end MarkerLex
