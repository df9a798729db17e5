import MarkerLex.Position

/-!
# Slices

A stretch of a text is found again by the byte offsets of its two ends. The
offset of a place counts the bytes of what stands before it.
-/

namespace MarkerLex

set_option autoImplicit false

namespace Text

/-- The longest beginning of a text that has no more than so many bytes. -/
def upTo (offset : Nat) : Text → Text
  | [] => []
  | c :: t => if c.utf8Size ≤ offset then c :: upTo (offset - c.utf8Size) t else []

def slice (start stop : Nat) (t : Text) : Text := (t.upTo stop).drop (t.upTo start).length

variable (a b c : Text)

theorem byteLength_append : (a ++ b).byteLength = a.byteLength + b.byteLength := by
  induction a with
  | nil => exact (Nat.zero_add _).symm
  | cons d a ih =>
    rw [List.cons_append, byteLength, byteLength, ih]
    omega

theorem byteLength_pos {t : Text} (hRead : t ≠ []) : 0 < t.byteLength := by
  cases t with
  | nil => exact absurd rfl hRead
  | cons d t =>
    have hSize := d.utf8Size_pos
    rw [byteLength]
    omega

theorem upTo_zero : upTo 0 a = [] := by
  cases a with
  | nil => rfl
  | cons d a =>
    have hSize := d.utf8Size_pos
    rw [upTo, if_neg (by omega)]

theorem upTo_append : upTo a.byteLength (a ++ b) = a := by
  induction a with
  | nil => exact upTo_zero b
  | cons d a ih => rw [byteLength, List.cons_append, upTo, if_pos (Nat.le_add_right _ _),
      Nat.add_sub_cancel_left, ih]

theorem slice_append : slice a.byteLength (a ++ b).byteLength (a ++ b ++ c) = b := by
  rw [slice, upTo_append, List.append_assoc, upTo_append, List.drop_left]

end Text

namespace Position

theorem byteOffset_advance (p : Position) (c : Char) :
    (p.advance c).byteOffset = p.byteOffset + c.utf8Size := by
  rw [advance]
  split <;> rfl

theorem byteOffset_advancedBy (p : Position) (t : Text) :
    (p.advancedBy t).byteOffset = p.byteOffset + t.byteLength := by
  induction t generalizing p with
  | nil => rfl
  | cons c t ih =>
    rw [advancedBy_cons, ih, byteOffset_advance, Text.byteLength]
    omega

theorem byteOffset_start_advancedBy (t : Text) :
    (start.advancedBy t).byteOffset = t.byteLength := by
  rw [byteOffset_advancedBy]
  exact Nat.zero_add _

end Position

end MarkerLex
