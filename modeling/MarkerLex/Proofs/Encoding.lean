import Mathlib.Data.List.Basic
import Mathlib.Data.List.TakeWhile
import MarkerLex.Utf8

/-!
# The bytes of characters

Which bytes make up a character. The first one fixes their number and the range of
the second; every further one is a continuation byte. The reader of UTF-8 accepts
exactly these, and takes them for the character that they encode.
-/

namespace MarkerLex.Utf8

set_option autoImplicit false

/-- The bytes of a character after its first one. -/
inductive Completes (lead : UInt8) : List UInt8 → Prop
  | alone (hLead : lead.toNat < 0x80) : Completes lead []
  | more {shape : Shape} {second : UInt8} {tail : List UInt8} (hLead : ¬ lead.toNat < 0x80)
    (hShape : shape? lead = some shape) (hLow : shape.low ≤ second.toNat)
    (hHigh : second.toNat ≤ shape.high) (hLength : tail.length = shape.length - 2)
    (hTail : ∀ b ∈ tail, isContinuation b = true) : Completes lead (second :: tail)

variable {lead second third fourth : UInt8} {n : Nat}

theorem isContinuation_iff :
    isContinuation second = true ↔ 0x80 ≤ second.toNat ∧ second.toNat ≤ 0xBF := by
  rw [isContinuation, Bool.and_eq_true, decide_eq_true_iff, decide_eq_true_iff]

/-! What the first byte says, for characters of two, three and four bytes. -/

theorem shape_two_iff :
    (∃ s, shape? lead = some s ∧ s.length = 2 ∧ s.low ≤ n ∧ n ≤ s.high) ↔
      0xC2 ≤ lead.toNat ∧ lead.toNat < 0xE0 ∧ 0x80 ≤ n ∧ n ≤ 0xBF := by
  rw [shape?]
  repeat' split
  all_goals simp
  all_goals omega

theorem shape_three_iff :
    (∃ s, shape? lead = some s ∧ s.length = 3 ∧ s.low ≤ n ∧ n ≤ s.high) ↔
      0xE0 ≤ lead.toNat ∧ lead.toNat < 0xF0 ∧ 0x80 ≤ n ∧ n ≤ 0xBF ∧
        (lead.toNat = 0xE0 → 0xA0 ≤ n) ∧ (lead.toNat = 0xED → n ≤ 0x9F) := by
  rw [shape?]
  repeat' split
  all_goals simp
  all_goals omega

theorem shape_four_iff :
    (∃ s, shape? lead = some s ∧ s.length = 4 ∧ s.low ≤ n ∧ n ≤ s.high) ↔
      0xF0 ≤ lead.toNat ∧ lead.toNat < 0xF5 ∧ 0x80 ≤ n ∧ n ≤ 0xBF ∧
        (lead.toNat = 0xF0 → 0x90 ≤ n) ∧ (lead.toNat = 0xF4 → n ≤ 0x8F) := by
  rw [shape?]
  repeat' split
  all_goals simp
  all_goals omega

theorem length_of_shape? {s : Shape} (h : shape? lead = some s) :
    s.length = 2 ∨ s.length = 3 ∨ s.length = 4 := by
  rw [shape?] at h
  repeat' split at h
  all_goals cases h
  all_goals simp

/-! The bytes that such characters are assembled from are their encodings. -/

theorem toNat_ofNat (h : n.isValidChar) : (Char.ofNat n).val.toNat = n := by
  rw [Char.ofNat, dif_pos h]
  rfl

theorem ofNat_eq_byte (b : UInt8) (h : n = b.toNat) : UInt8.ofNat n = b := by
  rw [h, UInt8.ofNat_toNat]

theorem encode_two (hLead : 0xC2 ≤ lead.toNat ∧ lead.toNat < 0xE0)
    (hSecond : 0x80 ≤ second.toNat ∧ second.toNat ≤ 0xBF) :
    String.utf8EncodeChar (assemble 2 lead [second]) = [lead, second] := by
  have hValid : Nat.isValidChar (lead.toNat % 32 * 64 + second.toNat % 64) := by
    rw [Nat.isValidChar]
    omega
  have hCode : (assemble 2 lead [second]).val.toNat =
      lead.toNat % 32 * 64 + second.toNat % 64 := toNat_ofNat hValid
  rw [String.utf8EncodeChar, hCode, if_neg (by omega), if_pos (by omega),
    ofNat_eq_byte lead (by omega), ofNat_eq_byte second (by omega)]

theorem encode_three (hLead : 0xE0 ≤ lead.toNat ∧ lead.toNat < 0xF0)
    (hSecond : 0x80 ≤ second.toNat ∧ second.toNat ≤ 0xBF)
    (hLow : lead.toNat = 0xE0 → 0xA0 ≤ second.toNat)
    (hHigh : lead.toNat = 0xED → second.toNat ≤ 0x9F)
    (hThird : 0x80 ≤ third.toNat ∧ third.toNat ≤ 0xBF) :
    String.utf8EncodeChar (assemble 3 lead [second, third]) = [lead, second, third] := by
  have hValid : Nat.isValidChar
      ((lead.toNat % 16 * 64 + second.toNat % 64) * 64 + third.toNat % 64) := by
    rw [Nat.isValidChar]
    omega
  have hCode : (assemble 3 lead [second, third]).val.toNat =
      (lead.toNat % 16 * 64 + second.toNat % 64) * 64 + third.toNat % 64 := toNat_ofNat hValid
  rw [String.utf8EncodeChar, hCode, if_neg (by omega), if_neg (by omega), if_pos (by omega),
    ofNat_eq_byte lead (by omega), ofNat_eq_byte second (by omega), ofNat_eq_byte third (by omega)]

theorem encode_four (hLead : 0xF0 ≤ lead.toNat ∧ lead.toNat < 0xF5)
    (hSecond : 0x80 ≤ second.toNat ∧ second.toNat ≤ 0xBF)
    (hLow : lead.toNat = 0xF0 → 0x90 ≤ second.toNat)
    (hHigh : lead.toNat = 0xF4 → second.toNat ≤ 0x8F)
    (hThird : 0x80 ≤ third.toNat ∧ third.toNat ≤ 0xBF)
    (hFourth : 0x80 ≤ fourth.toNat ∧ fourth.toNat ≤ 0xBF) :
    String.utf8EncodeChar (assemble 4 lead [second, third, fourth]) =
      [lead, second, third, fourth] := by
  have hValid : Nat.isValidChar (((lead.toNat % 8 * 64 + second.toNat % 64) * 64 +
      third.toNat % 64) * 64 + fourth.toNat % 64) := by
    rw [Nat.isValidChar]
    omega
  have hCode : (assemble 4 lead [second, third, fourth]).val.toNat =
      ((lead.toNat % 8 * 64 + second.toNat % 64) * 64 + third.toNat % 64) * 64 +
        fourth.toNat % 64 := toNat_ofNat hValid
  rw [String.utf8EncodeChar, hCode, if_neg (by omega), if_neg (by omega), if_neg (by omega),
    ofNat_eq_byte lead (by omega), ofNat_eq_byte second (by omega), ofNat_eq_byte third (by omega),
    ofNat_eq_byte fourth (by omega)]

theorem encode_assemble {s : Shape} {tail : List UInt8} (hShape : shape? lead = some s)
    (hLow : s.low ≤ second.toNat) (hHigh : second.toNat ≤ s.high)
    (hLength : tail.length = s.length - 2) (hTail : ∀ b ∈ tail, isContinuation b = true) :
    String.utf8EncodeChar (assemble s.length lead (second :: tail)) = lead :: second :: tail := by
  rcases length_of_shape? hShape with hTwo | hThree | hFour
  · rw [hTwo] at hLength
    obtain ⟨hFirst, hLast, hSecond⟩ := shape_two_iff.mp ⟨s, hShape, hTwo, hLow, hHigh⟩
    obtain rfl := List.length_eq_zero_iff.mp hLength
    rw [hTwo]
    exact encode_two ⟨hFirst, hLast⟩ hSecond
  · rw [hThree] at hLength
    obtain ⟨hFirst, hLast, hLeast, hMost, hBelow, hAbove⟩ :=
      shape_three_iff.mp ⟨s, hShape, hThree, hLow, hHigh⟩
    obtain ⟨third, rfl⟩ := List.length_eq_one_iff.mp hLength
    have hThird := isContinuation_iff.mp (hTail third (by simp))
    rw [hThree]
    exact encode_three ⟨hFirst, hLast⟩ ⟨hLeast, hMost⟩ hBelow hAbove hThird
  · rw [hFour] at hLength
    obtain ⟨hFirst, hLast, hLeast, hMost, hBelow, hAbove⟩ :=
      shape_four_iff.mp ⟨s, hShape, hFour, hLow, hHigh⟩
    obtain ⟨third, fourth, rfl⟩ := List.length_eq_two.mp hLength
    have hThird := isContinuation_iff.mp (hTail third (by simp))
    have hFourth := isContinuation_iff.mp (hTail fourth (by simp))
    rw [hFour]
    exact encode_four ⟨hFirst, hLast⟩ ⟨hLeast, hMost⟩ hBelow hAbove hThird hFourth

theorem completes_of_encode {c : Char} {tail : List UInt8}
    (h : String.utf8EncodeChar c = lead :: tail) : Completes lead tail := by
  have hValid : c.val.toNat < 0xD800 ∨ 0xDFFF < c.val.toNat ∧ c.val.toNat < 0x110000 := c.valid
  have hByte (n : Nat) : (UInt8.ofNat n).toNat = n % 256 := UInt8.toNat_ofNat'
  rw [String.utf8EncodeChar] at h
  split at h
  · cases h
    refine .alone ?_
    rw [hByte]
    omega
  · have hLead : ∀ n, 0x80 ≤ n % 256 → ¬ (UInt8.ofNat n).toNat < 0x80 := by
      intro n hn
      rw [hByte]
      omega
    have hContinuation : ∀ n, 0x80 ≤ n % 256 → n % 256 ≤ 0xBF →
        isContinuation (UInt8.ofNat n) = true := by
      intro n hLeast hMost
      rw [isContinuation_iff, hByte]
      exact ⟨hLeast, hMost⟩
    split at h
    · cases h
      obtain ⟨s, hShape, hLength, hLow, hHigh⟩ :
          ∃ s, shape? (UInt8.ofNat (c.val.toNat / 64 % 32 + 192)) = some s ∧ s.length = 2 ∧
            s.low ≤ (UInt8.ofNat (c.val.toNat % 64 + 128)).toNat ∧
            (UInt8.ofNat (c.val.toNat % 64 + 128)).toNat ≤ s.high := by
        rw [shape_two_iff, hByte, hByte]
        omega
      exact .more (hLead _ (by omega)) hShape hLow hHigh (by rw [hLength]; rfl) (by simp)
    · split at h
      · cases h
        obtain ⟨s, hShape, hLength, hLow, hHigh⟩ :
            ∃ s, shape? (UInt8.ofNat (c.val.toNat / 4096 % 16 + 224)) = some s ∧ s.length = 3 ∧
              s.low ≤ (UInt8.ofNat (c.val.toNat / 64 % 64 + 128)).toNat ∧
              (UInt8.ofNat (c.val.toNat / 64 % 64 + 128)).toNat ≤ s.high := by
          rw [shape_three_iff, hByte, hByte]
          omega
        refine .more (hLead _ (by omega)) hShape hLow hHigh (by rw [hLength]; rfl) ?_
        simp only [List.forall_mem_cons]
        exact ⟨hContinuation _ (by omega) (by omega), by simp⟩
      · cases h
        obtain ⟨s, hShape, hLength, hLow, hHigh⟩ :
            ∃ s, shape? (UInt8.ofNat (c.val.toNat / 262144 % 8 + 240)) = some s ∧ s.length = 4 ∧
              s.low ≤ (UInt8.ofNat (c.val.toNat / 4096 % 64 + 128)).toNat ∧
              (UInt8.ofNat (c.val.toNat / 4096 % 64 + 128)).toNat ≤ s.high := by
          rw [shape_four_iff, hByte, hByte]
          omega
        refine .more (hLead _ (by omega)) hShape hLow hHigh (by rw [hLength]; rfl) ?_
        simp only [List.forall_mem_cons]
        have hThird := hContinuation (c.val.toNat / 64 % 64 + 128) (by omega) (by omega)
        have hFourth := hContinuation (c.val.toNat % 64 + 128) (by omega) (by omega)
        exact ⟨hThird, hFourth, by simp⟩

theorem encode_injective {c d : Char} (h : String.utf8EncodeChar c = String.utf8EncodeChar d) :
    c = d := by
  have hFirst := ByteArray.utf8DecodeChar?_utf8EncodeChar_append (b := .empty) (c := c)
  have hSecond := ByteArray.utf8DecodeChar?_utf8EncodeChar_append (b := .empty) (c := d)
  rw [h, hSecond] at hFirst
  exact (Option.some.inj hFirst).symm

theorem encode_ofNat (hLead : lead.toNat < 0x80) :
    String.utf8EncodeChar (Char.ofNat lead.toNat) = [lead] := by
  have hCode : (Char.ofNat lead.toNat).val.toNat = lead.toNat := by
    apply toNat_ofNat
    rw [Nat.isValidChar]
    omega
  rw [String.utf8EncodeChar, hCode, if_pos (by omega), UInt8.ofNat_toNat]

/-! What the reader does with each kind of first and second byte. -/

section Reader

variable {s : Shape} {rest : List UInt8}

theorem head_alone (hLead : lead.toNat < 0x80) (rest : List UInt8) :
    head lead rest = ⟨Char.ofNat lead.toNat, 1, true⟩ := by
  rw [head.eq_def, if_pos hLead]

theorem head_of_none (hLead : ¬ lead.toNat < 0x80) (hShape : shape? lead = none) :
    head lead rest = .ill 1 := by
  rw [head.eq_def, if_neg hLead, hShape]

theorem head_nil (hLead : ¬ lead.toNat < 0x80) (hShape : shape? lead = some s) :
    head lead [] = .ill 1 := by
  rw [head.eq_def, if_neg hLead, hShape]

theorem head_outside (hLead : ¬ lead.toNat < 0x80) (hShape : shape? lead = some s)
    (hSecond : ¬ (s.low ≤ second.toNat ∧ second.toNat ≤ s.high)) :
    head lead (second :: rest) = .ill 1 := by
  have hOutside : (decide (s.low ≤ second.toNat) && decide (second.toNat ≤ s.high)) = false := by
    rw [← Bool.decide_and, decide_eq_false hSecond]
  rw [head.eq_def, if_neg hLead, hShape]
  simp only [hOutside, Bool.false_eq_true, if_false]

theorem head_within (hLead : ¬ lead.toNat < 0x80) (hShape : shape? lead = some s)
    (hLow : s.low ≤ second.toNat) (hHigh : second.toNat ≤ s.high) {tail : List UInt8}
    (hTail : (rest.take (s.length - 2)).takeWhile isContinuation = tail) :
    head lead (second :: rest) =
      if tail.length = s.length - 2 then ⟨assemble s.length lead (second :: tail), s.length, true⟩
      else .ill (2 + tail.length) := by
  have hWithin : (decide (s.low ≤ second.toNat) && decide (second.toNat ≤ s.high)) = true := by
    rw [← Bool.decide_and, decide_eq_true ⟨hLow, hHigh⟩]
  rw [head.eq_def, if_neg hLead, hShape]
  simp only [hWithin, if_true, hTail]

end Reader

theorem Completes.encode {tail : List UInt8} (h : Completes lead tail) (rest : List UInt8) :
    ∃ c, String.utf8EncodeChar c = lead :: tail ∧
      head lead (tail ++ rest) = ⟨c, tail.length + 1, true⟩ := by
  cases h with
  | alone hLead => exact ⟨_, encode_ofNat hLead, head_alone hLead _⟩
  | @more s second tail hLead hShape hLow hHigh hLength hTail =>
    refine ⟨_, encode_assemble hShape hLow hHigh hLength hTail, ?_⟩
    have hTaken : ((tail ++ rest).take (s.length - 2)).takeWhile isContinuation = tail := by
      rw [← hLength, List.take_left, List.takeWhile_eq_self_iff.mpr hTail]
    have hWidth : s.length = tail.length + 2 := by
      have hAtLeast := length_of_shape? hShape
      omega
    rw [List.cons_append, head_within hLead hShape hLow hHigh hTaken, if_pos hLength, hWidth]
    rfl

theorem head_encode {c : Char} {tail : List UInt8} (h : String.utf8EncodeChar c = lead :: tail)
    (rest : List UInt8) : head lead (tail ++ rest) = ⟨c, tail.length + 1, true⟩ := by
  obtain ⟨d, hEncode, hHead⟩ := (completes_of_encode h).encode rest
  rw [hHead, encode_injective (hEncode.trans h.symm)]

end MarkerLex.Utf8
