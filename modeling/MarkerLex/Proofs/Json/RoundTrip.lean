import MarkerLex.Grammar.Json
import MarkerLex.Proofs.Json.Blocks

/-!
# Written grammars are read back

A grammar is given back by its written form, whatever its markers and names hold. What reading
adds is the check of the grammar, and it is the only way in which reading a written one fails.
-/

namespace MarkerLex

set_option autoImplicit false

open Json

namespace WhitespaceSet

theorem insertAscending_of_lt {c : Char} {cs : List Char} (h : ∀ d ∈ cs, c < d) :
    insertAscending c cs = c :: cs := by
  cases cs with
  | nil => rfl
  | cons d cs => rw [insertAscending, if_pos (h d List.mem_cons_self)]

/-- The characters of a set, as a text, make the same set. -/
theorem ofText_chars (w : WhitespaceSet) : ofText w.chars = w := by
  obtain ⟨chars, hAscending⟩ := w
  suffices h : chars.foldr insertAscending [] = chars by simp only [ofText, h]
  induction chars with
  | nil => rfl
  | cons c cs ih =>
    obtain ⟨hHead, hTail⟩ := List.pairwise_cons.mp hAscending
    rw [List.foldr_cons, ih hTail, insertAscending_of_lt hHead]

end WhitespaceSet

namespace CommentSpec

theorem gives_read (spec : CommentSpec) (level : Nat) :
    Gives read (Pretty.map level spec.members) spec := by
  have hFills : schema.Fills {} spec.members
      ⟨some spec.start, some spec.stop, some spec.nestable⟩ :=
    .of rfl rfl (gives_text spec.start) <| .of rfl rfl (gives_text spec.stop) <|
      .of rfl rfl (gives_boolean spec.nestable) .nil
  exact (gives_map hFills rfl level).map ofDraft

end CommentSpec

namespace StringSpec

theorem gives_read (spec : StringSpec) (level : Nat) :
    Gives read (Pretty.map level spec.members) spec := by
  have hFills : schema.Fills {} spec.members
      ⟨some spec.start, some spec.stop, spec.escape.map some, spec.name.map some⟩ := by
    refine .of rfl rfl (gives_text spec.start) (.of rfl rfl (gives_text spec.stop) ?_)
    obtain ⟨start, stop, escape, name⟩ := spec
    cases escape with
    | none =>
      cases name with
      | none => exact .nil
      | some n => exact .of rfl rfl (gives_text? n) .nil
    | some e =>
      refine .of rfl rfl (gives_text? e) ?_
      cases name with
      | none => exact .nil
      | some n => exact .of rfl rfl (gives_text? n) .nil
  have hDraft : ofDraft ⟨some spec.start, some spec.stop, spec.escape.map some,
      spec.name.map some⟩ = spec := by
    obtain ⟨start, stop, escape, name⟩ := spec
    cases escape <;> cases name <;> rfl
  have hRead := (gives_map hFills rfl level).map ofDraft
  rwa [hDraft] at hRead

end StringSpec

namespace Grammar

theorem gives_read (g : Grammar) : Gives read g.toJson g := by
  have hComments : Gives (Cursor.list CommentSpec.read)
      (Pretty.list 1 (g.comments.map fun spec => Pretty.map 2 spec.members)) g.comments :=
    gives_list (fun spec => spec.gives_read 2) (fun spec => begins_map 2 spec.members) 1 g.comments
  have hStrings : Gives (Cursor.list StringSpec.read)
      (Pretty.list 1 (g.strings.map fun spec => Pretty.map 2 spec.members)) g.strings :=
    gives_list (fun spec => spec.gives_read 2) (fun spec => begins_map 2 spec.members) 1 g.strings
  have hFills : schema.Fills {}
      [("whitespace".toList, Json.string g.whitespace.chars),
        ("comments".toList,
          Pretty.list 1 (g.comments.map fun spec => Pretty.map 2 spec.members)),
        ("strings".toList,
          Pretty.list 1 (g.strings.map fun spec => Pretty.map 2 spec.members))]
      ⟨some g.whitespace.chars, some g.comments, some g.strings⟩ :=
    .of rfl rfl (gives_text g.whitespace.chars) <| .of rfl rfl hComments <|
      .of rfl rfl hStrings .nil
  have hDraft : ofDraft ⟨some g.whitespace.chars, some g.comments, some g.strings⟩ = g := by
    rw [ofDraft, Option.map_some, Option.getD_some, WhitespaceSet.ofText_chars]
    rfl
  have hRead := (gives_map hFills rfl 0).map ofDraft
  rwa [hDraft] at hRead

theorem markerError?_ne_unreadable (g : Grammar) (kind : SpecKind) (index : Nat)
    (start stop : Text) (fault : Json.Fault) :
    g.markerError? kind index start stop ≠ some (.unreadable fault) := by
  rw [markerError?]
  split
  · simp
  split
  · simp
  · simp

/-- A grammar is never refused for a document. -/
theorem validate_ne_unreadable (g : Grammar) (fault : Json.Fault) :
    g.validate ≠ .error (.unreadable fault) := by
  intro hRefused
  have hError : g.error? = some (.unreadable fault) := by
    rw [validate] at hRefused
    split at hRefused
    · cases hRefused
      assumption
    · cases hRefused
  rw [error?, Option.or_eq_some_iff] at hError
  rcases hError with hComment | ⟨-, hString⟩
  · obtain ⟨⟨spec, index⟩, -, hSpec⟩ := List.exists_of_findSome?_eq_some hComment
    exact g.markerError?_ne_unreadable _ _ _ _ _ hSpec
  · obtain ⟨⟨spec, index⟩, -, hSpec⟩ := List.exists_of_findSome?_eq_some hString
    rcases Option.or_eq_some_iff.mp hSpec with hMarker | ⟨-, hEscape⟩
    · exact g.markerError?_ne_unreadable _ _ _ _ _ hMarker
    · split at hEscape <;> cases hEscape

/-- A written grammar is read back if it is valid, and refused for what makes it invalid if it
is not; the document itself is never at fault. -/
theorem ofJson_toJson (g : Grammar) :
    (ofJson g.toJson = match g.validate with
      | .ok () => .ok g
      | .error e => .error e) ∧
    ∀ fault, ofJson g.toJson ≠ .error (.unreadable fault) := by
  have hRead : ofJson g.toJson = g.validate.map fun _ => g := by
    rw [ofJson, document_of_gives g.gives_read]
  constructor
  · rw [hRead]
    cases g.validate <;> rfl
  · intro fault hFault
    rw [hRead] at hFault
    cases hValidate : g.validate with
    | ok valid =>
      rw [hValidate] at hFault
      cases hFault
    | error e =>
      rw [hValidate] at hFault
      cases hFault
      exact g.validate_ne_unreadable fault hValidate

end Grammar

end MarkerLex
