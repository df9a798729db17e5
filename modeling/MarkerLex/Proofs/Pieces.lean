import MarkerLex.Proofs.Decoding
import MarkerLex.Proofs.Slice

/-!
# Bytes behind characters

Decoding takes bytes apart into pieces, one for each character. A well-formed piece has as many
bytes as its character has in UTF-8. An ill-formed one may have fewer, since what replaces it has
always three. So a text may have more bytes than it was decoded from, and the excess is that of
its pieces together.
-/

namespace MarkerLex.Utf8

set_option autoImplicit false

/-- Bytes, and the character that they are decoded to. -/
structure Piece where
  bytes : List UInt8
  char : Char
deriving DecidableEq, Repr

def pieces : List UInt8 → List Piece
  | [] => []
  | lead :: rest =>
    let first := head lead rest
    ⟨lead :: rest.take (first.width - 1), first.char⟩ :: pieces (rest.drop (first.width - 1))
termination_by data => data.length
decreasing_by
  simp only [List.length_drop, List.length_cons]
  omega

namespace Piece

def data (ps : List Piece) : List UInt8 := ps.flatMap bytes

def text (ps : List Piece) : Text := ps.map char

/-- In front of `rest` the bytes are those of the character, or a maximal ill-formed part that it
replaces. -/
def Sound (p : Piece) (rest : List UInt8) : Prop :=
  p.bytes = String.utf8EncodeChar p.char ∨ p.char = replacement ∧ MaximalSubpart p.bytes rest

/-- The character has as many bytes as are decoded to it. -/
def Exact (p : Piece) : Prop := p.bytes.length = p.char.utf8Size

instance (p : Piece) : Decidable p.Exact :=
  inferInstanceAs (Decidable (p.bytes.length = p.char.utf8Size))

/-- How many bytes more than are decoded to them the characters have. -/
def excess : List Piece → Nat
  | [] => 0
  | p :: ps => p.char.utf8Size - p.bytes.length + excess ps

@[simp] theorem data_cons (p : Piece) (ps : List Piece) : data (p :: ps) = p.bytes ++ data ps :=
  List.flatMap_cons

theorem data_append (ps qs : List Piece) : data (ps ++ qs) = data ps ++ data qs :=
  List.flatMap_append

end Piece

open Piece

theorem text_pieces (data : List UInt8) : text (pieces data) = lossy data := by
  fun_induction pieces data with
  | case1 => rw [lossy]; rfl
  | case2 lead rest first ih => rw [lossy, ← ih]; rfl

theorem data_pieces (bytes : List UInt8) : data (pieces bytes) = bytes := by
  fun_induction pieces bytes with
  | case1 => rfl
  | case2 lead rest first ih =>
    rw [data_cons, ih, List.cons_append, List.take_append_drop]

theorem exists_pieces_cons (lead : UInt8) (rest : List UInt8) :
    ∃ p left, pieces (lead :: rest) = p :: pieces left ∧ p.Sound left := by
  refine ⟨_, _, pieces.eq_2 lead rest, ?_⟩
  rcases head_spec lead rest with
    ⟨c, tail, left, rfl, hEncode, hHead⟩ | ⟨part, left, rfl, hPart, hHead⟩
  · left
    simp [hHead, hEncode]
  · right
    simpa [hHead, Head.ill] using hPart

theorem sound_of_pieces {bytes : List UInt8} {before after : List Piece} {p : Piece}
    (h : pieces bytes = before ++ p :: after) : p.Sound (data after) := by
  induction before generalizing bytes with
  | nil =>
    cases bytes with
    | nil => simp [pieces] at h
    | cons lead rest =>
      obtain ⟨q, left, hPieces, hSound⟩ := exists_pieces_cons lead rest
      obtain ⟨rfl, rfl⟩ : q = p ∧ pieces left = after := List.cons.inj (hPieces.symm.trans h)
      rwa [data_pieces]
  | cons first before ih =>
    cases bytes with
    | nil => simp [pieces] at h
    | cons lead rest =>
      obtain ⟨q, left, hPieces, -⟩ := exists_pieces_cons lead rest
      exact ih (List.cons.inj (hPieces.symm.trans h)).2

theorem MaximalSubpart.length_le_three {part rest : List UInt8} (h : MaximalSubpart part rest) :
    part.length ≤ 3 := by
  rcases h.begins with ⟨b, rfl⟩ | ⟨-, c, missing, hEncode⟩
  · exact Nat.le_add_left 1 2
  · have hLength := congrArg List.length hEncode
    have hSize := c.utf8Size_le_four
    rw [List.length_append, String.length_utf8EncodeChar] at hLength
    -- a part with nothing missing would be a character
    have hMissing : missing ≠ [] := by
      rintro rfl
      rw [List.append_nil] at hEncode
      exact h.ill c (hEncode ▸ List.prefix_append part rest)
    have hSome := List.length_pos_iff.mpr hMissing
    omega

namespace Piece

variable {p : Piece} {rest : List UInt8} {ps : List Piece}

theorem Sound.length_le (h : p.Sound rest) : p.bytes.length ≤ p.char.utf8Size := by
  rcases h with hEncode | ⟨hChar, hPart⟩
  · rw [hEncode, String.length_utf8EncodeChar]
  · rw [hChar]
    exact hPart.length_le_three

theorem length_le_of_pieces {bytes : List UInt8} {before after : List Piece}
    (h : pieces bytes = before ++ after) : ∀ p ∈ before, p.bytes.length ≤ p.char.utf8Size := by
  intro p hp
  obtain ⟨earlier, later, rfl⟩ := List.append_of_mem hp
  rw [List.append_assoc] at h
  exact (sound_of_pieces h).length_le

theorem byteLength_text (h : ∀ p ∈ ps, p.bytes.length ≤ p.char.utf8Size) :
    (text ps).byteLength = (data ps).length + excess ps := by
  induction ps with
  | nil => rfl
  | cons p ps ih =>
    obtain ⟨hHere, hLater⟩ := List.forall_mem_cons.mp h
    have hText : (text (p :: ps)).byteLength = p.char.utf8Size + (text ps).byteLength := rfl
    rw [hText, ih hLater, data_cons, List.length_append, excess]
    omega

theorem excess_eq_zero (h : ∀ p ∈ ps, p.bytes.length ≤ p.char.utf8Size) :
    excess ps = 0 ↔ ∀ p ∈ ps, p.Exact := by
  induction ps with
  | nil => simp [excess]
  | cons p ps ih =>
    obtain ⟨hHere, hLater⟩ := List.forall_mem_cons.mp h
    rw [List.forall_mem_cons, ← ih hLater, excess, Exact]
    omega

theorem length_data_le {bytes : List UInt8} {before after : List Piece}
    (h : pieces bytes = before ++ after) : (data before).length ≤ bytes.length := by
  rw [← data_pieces bytes, h, data_append, List.length_append]
  exact Nat.le_add_right _ _

/-- Where a decoded text is cut, its pieces are. -/
theorem exists_pieces_append {bytes : List UInt8} {a b : Text} (h : lossy bytes = a ++ b) :
    ∃ before after, pieces bytes = before ++ after ∧ text before = a ∧ text after = b := by
  rw [← text_pieces] at h
  exact List.map_eq_append_iff.mp h

end Piece

end MarkerLex.Utf8
