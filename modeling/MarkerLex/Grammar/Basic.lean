import MarkerLex.Text.Basic

/-!
# Lexical grammars

A grammar is data: the characters that separate terms, and the delimiters of
comments and strings in order. A delimiter opens where its start marker ends
the text read so far, and the first one in order wins, comments before strings.
-/

namespace MarkerLex

set_option autoImplicit false

def insertAscending (c : Char) : List Char → List Char
  | [] => [c]
  | d :: rest =>
    if c < d then c :: d :: rest
    else if c = d then d :: rest
    else d :: insertAscending c rest

theorem mem_insertAscending {c d : Char} {cs : List Char} :
    d ∈ insertAscending c cs ↔ d = c ∨ d ∈ cs := by
  induction cs with
  | nil => simp [insertAscending]
  | cons e rest ih =>
    by_cases hLess : c < e
    · simp [insertAscending, hLess]
    · by_cases hSame : c = e
      · simp [insertAscending, hSame]
      · simp only [insertAscending, hLess, hSame, if_false, List.mem_cons, ih]
        exact or_left_comm

theorem insertAscending_pairwise {c : Char} {cs : List Char}
    (hSorted : cs.Pairwise (· < ·)) : (insertAscending c cs).Pairwise (· < ·) := by
  induction cs with
  | nil => simp [insertAscending]
  | cons e rest ih =>
    obtain ⟨hHead, hTail⟩ := List.pairwise_cons.mp hSorted
    by_cases hLess : c < e
    · rw [insertAscending, if_pos hLess]
      refine List.pairwise_cons.mpr ⟨fun d hd => ?_, hSorted⟩
      rcases List.mem_cons.mp hd with rfl | hd
      · exact hLess
      · exact Char.lt_trans hLess (hHead d hd)
    · by_cases hSame : c = e
      · rw [insertAscending, if_neg hLess, if_pos hSame]
        exact hSorted
      · rw [insertAscending, if_neg hLess, if_neg hSame]
        refine List.pairwise_cons.mpr ⟨fun d hd => ?_, ih hTail⟩
        rcases mem_insertAscending.mp hd with rfl | hd
        · exact Char.not_le.mp fun hBack => hSame (Char.le_antisymm hBack (Char.not_lt.mp hLess))
        · exact hHead d hd

/-- A set of characters, kept ascending so that equal sets are equal values. -/
structure WhitespaceSet where
  chars : List Char
  ascending : chars.Pairwise (· < ·)
deriving DecidableEq, Repr

namespace WhitespaceSet

def ofText (t : Text) : WhitespaceSet :=
  ⟨t.foldr insertAscending [], by
    induction t with
    | nil => exact .nil
    | cons c rest ih => exact insertAscending_pairwise ih⟩

def usual : WhitespaceSet := ofText [' ', '\t', '\r', '\n']

instance : Inhabited WhitespaceSet := ⟨usual⟩

def contains (w : WhitespaceSet) (c : Char) : Bool := w.chars.contains c

def size (w : WhitespaceSet) : Nat := w.chars.length

def isEmpty (w : WhitespaceSet) : Bool := w.chars.isEmpty

theorem contains_ofText {t : Text} {c : Char} : (ofText t).contains c = true ↔ c ∈ t := by
  rw [contains, List.contains_iff_mem]
  induction t with
  | nil => simp [ofText]
  | cons d rest ih => simpa [ofText, mem_insertAscending] using or_congr_right ih

end WhitespaceSet

structure CommentSpec where
  start : Text
  stop : Text
  /-- Whether `start` inside the comment opens an inner comment. -/
  nestable : Bool := false
deriving DecidableEq, Repr

structure StringSpec where
  start : Text
  stop : Text
  /-- The marker that makes the next character an ordinary one. -/
  escape : Option Text := none
  name : Option Text := none
deriving DecidableEq, Repr

inductive Delimiter where
  | comment (spec : CommentSpec)
  | string (spec : StringSpec)
deriving DecidableEq, Repr

def Delimiter.start : Delimiter → Text
  | comment spec => spec.start
  | string spec => spec.start

structure Grammar where
  whitespace : WhitespaceSet := .usual
  comments : List CommentSpec := []
  strings : List StringSpec := []
deriving DecidableEq, Repr, Inhabited

namespace Grammar

def isWhitespace (g : Grammar) (c : Char) : Bool := g.whitespace.contains c

def commentStart? (g : Grammar) (newest : Text) : Option CommentSpec :=
  g.comments.find? (fun spec => Text.endsIn newest spec.start)

def stringStart? (g : Grammar) (newest : Text) : Option StringSpec :=
  g.strings.find? (fun spec => Text.endsIn newest spec.start)

/-- All delimiters in the order in which they are tried. -/
def delimiters (g : Grammar) : List Delimiter :=
  g.comments.map .comment ++ g.strings.map .string

def opening? (g : Grammar) (newest : Text) : Option Delimiter :=
  match g.commentStart? newest with
  | some spec => some (.comment spec)
  | none => (g.stringStart? newest).map .string

theorem opening?_eq_find? (g : Grammar) (newest : Text) :
    g.opening? newest = g.delimiters.find? (fun d => Text.endsIn newest d.start) := by
  rw [opening?, delimiters, List.find?_append, List.find?_map, List.find?_map]
  change (match g.commentStart? newest with
    | some spec => some (Delimiter.comment spec)
    | none => (g.stringStart? newest).map .string) =
    ((g.commentStart? newest).map Delimiter.comment).or
      ((g.stringStart? newest).map Delimiter.string)
  cases g.commentStart? newest <;> rfl

end Grammar

end MarkerLex
