import MarkerLex.Proofs.Encoding

/-!
# Decoding with replacements

Where bytes are not the encoding of a character, the longest part of them that begins
an encoding is replaced by one character, or a single byte if there is no such part.
Every sequence of bytes is decoded in exactly one such way.
-/

namespace MarkerLex.Utf8

set_option autoImplicit false

def Begins (part : List UInt8) : Prop := ∃ c, part <+: String.utf8EncodeChar c

/-- At the front of some bytes there is no character, and `part` is the longest beginning of a
character there, or one byte. -/
structure MaximalSubpart (part rest : List UInt8) : Prop where
  ill : ∀ c, ¬ String.utf8EncodeChar c <+: part ++ rest
  begins : (∃ b, part = [b]) ∨ part ≠ [] ∧ Begins part
  longest : ∀ q, q <+: part ++ rest → part.length < q.length → ¬ Begins q

/-- The text that bytes stand for, ill-formed parts replaced. -/
inductive Decodes : List UInt8 → Text → Prop
  | nil : Decodes [] []
  | char {c : Char} {rest : List UInt8} {t : Text} (hRest : Decodes rest t) :
    Decodes (String.utf8EncodeChar c ++ rest) (c :: t)
  | ill {part rest : List UInt8} {t : Text} (hPart : MaximalSubpart part rest)
    (hRest : Decodes rest t) : Decodes (part ++ rest) (replacement :: t)

variable {lead : UInt8} {part tail rest q : List UInt8}

theorem head_width_pos (lead : UInt8) (rest : List UInt8) : 0 < (head lead rest).width := by
  by_cases hLead : lead.toNat < 0x80
  · rw [head_alone hLead]
    exact Nat.one_pos
  cases hShape : shape? lead with
  | none =>
    rw [head_of_none hLead hShape]
    exact Nat.one_pos
  | some s =>
    cases rest with
    | nil =>
      rw [head_nil hLead hShape]
      exact Nat.one_pos
    | cons second more =>
      by_cases hSecond : s.low ≤ second.toNat ∧ second.toNat ≤ s.high
      · have hLength := length_of_shape? hShape
        rw [head_within hLead hShape hSecond.1 hSecond.2 rfl]
        split
        · change 0 < s.length
          omega
        · exact Nat.lt_of_lt_of_le Nat.two_pos (Nat.le_add_right _ _)
      · rw [head_outside hLead hShape hSecond]
        exact Nat.one_pos

/-- The reader takes no less than what may still become a character. -/
theorem Completes.le_width (h : Completes lead tail) (hTail : q <+: tail) (hRest : q <+: rest) :
    q.length + 1 ≤ (head lead rest).width := by
  cases q with
  | nil => exact head_width_pos lead rest
  | cons b q =>
    cases h with
    | alone => cases List.prefix_nil.mp hTail
    | @more s second tail hLead hShape hLow hHigh hLength hContinuation =>
      obtain ⟨rfl, hLater⟩ := List.cons_prefix_cons.mp hTail
      obtain ⟨more, rfl⟩ := hRest
      have hShort : q.length ≤ s.length - 2 := hLength ▸ hLater.length_le
      obtain ⟨further, hTaken⟩ : q <+: (q ++ more).take (s.length - 2) :=
        List.prefix_take_iff.mpr ⟨List.prefix_append _ _, hShort⟩
      have hKept : ((q ++ more).take (s.length - 2)).takeWhile isContinuation =
          q ++ further.takeWhile isContinuation := by
        rw [← hTaken]
        exact List.takeWhile_append_of_pos fun b hb => hContinuation b (hLater.mem hb)
      have hAtLeast := length_of_shape? hShape
      rw [List.cons_append, head_within hLead hShape hLow hHigh hKept, List.length_cons]
      split
      · change q.length + 1 + 1 ≤ s.length
        omega
      · change q.length + 1 + 1 ≤ 2 + (q ++ further.takeWhile isContinuation).length
        rw [List.length_append]
        omega

theorem begins_of_shape {s : Shape} {second : UInt8} (hShape : shape? lead = some s)
    (hLow : s.low ≤ second.toNat) (hHigh : second.toNat ≤ s.high)
    (hLength : tail.length ≤ s.length - 2) (hTail : ∀ b ∈ tail, isContinuation b = true) :
    Begins (lead :: second :: tail) := by
  -- continuation bytes fill it up
  let missing := List.replicate (s.length - 2 - tail.length) (0x80 : UInt8)
  have hLong : (tail ++ missing).length = s.length - 2 := by
    rw [List.length_append, List.length_replicate]
    omega
  have hFilled : ∀ b ∈ tail ++ missing, isContinuation b = true := by
    apply List.forall_mem_append.mpr ⟨hTail, ?_⟩
    intro b hb
    rw [List.eq_of_mem_replicate hb]
    rfl
  refine ⟨assemble s.length lead (second :: (tail ++ missing)), ?_⟩
  rw [encode_assemble hShape hLow hHigh hLong hFilled]
  exact List.prefix_append (lead :: second :: tail) missing

theorem head_cases (lead : UInt8) (rest : List UInt8) :
    (∃ tail left, rest = tail ++ left ∧ Completes lead tail) ∨
      ∃ part left, rest = part ++ left ∧ head lead rest = .ill (part.length + 1) ∧
        (part = [] ∨ Begins (lead :: part)) := by
  by_cases hLead : lead.toNat < 0x80
  · exact .inl ⟨[], rest, rfl, .alone hLead⟩
  cases hShape : shape? lead with
  | none => exact .inr ⟨[], rest, rfl, head_of_none hLead hShape, .inl rfl⟩
  | some s =>
    cases rest with
    | nil => exact .inr ⟨[], [], rfl, head_nil hLead hShape, .inl rfl⟩
    | cons second more =>
      by_cases hSecond : s.low ≤ second.toNat ∧ second.toNat ≤ s.high
      · obtain ⟨left, hMore⟩ := (List.takeWhile_prefix isContinuation).trans
          (List.take_prefix (s.length - 2) more)
        generalize hTail : (more.take (s.length - 2)).takeWhile isContinuation = tail at hMore
        have hContinuation : ∀ b ∈ tail, isContinuation b = true := by
          intro b hb
          rw [← hTail] at hb
          exact List.mem_takeWhile_imp hb
        have hShort : tail.length ≤ s.length - 2 := by
          rw [← hTail]
          exact (List.takeWhile_prefix _).length_le.trans (List.length_take_le _ _)
        obtain ⟨hLow, hHigh⟩ := hSecond
        have hHead := head_within hLead hShape hLow hHigh hTail
        subst hMore
        by_cases hLength : tail.length = s.length - 2
        · exact .inl ⟨second :: tail, left, rfl,
            .more hLead hShape hLow hHigh hLength hContinuation⟩
        · rw [if_neg hLength, Nat.add_comm] at hHead
          exact .inr ⟨second :: tail, left, rfl, hHead,
            .inr (begins_of_shape hShape hLow hHigh hShort hContinuation)⟩
      · exact .inr ⟨[], second :: more, rfl, head_outside hLead hShape hSecond, .inl rfl⟩

theorem exists_encode (c : Char) : ∃ lead tail, String.utf8EncodeChar c = lead :: tail :=
  List.exists_cons_of_ne_nil String.utf8EncodeChar_ne_nil

/-- At every byte the reader takes a character or a maximal ill-formed part. -/
theorem head_spec (lead : UInt8) (rest : List UInt8) :
    (∃ c tail left, rest = tail ++ left ∧ String.utf8EncodeChar c = lead :: tail ∧
      head lead rest = ⟨c, tail.length + 1, true⟩) ∨
    ∃ part left, rest = part ++ left ∧ MaximalSubpart (lead :: part) left ∧
      head lead rest = .ill (part.length + 1) := by
  rcases head_cases lead rest with ⟨tail, left, rfl, h⟩ | ⟨part, left, rfl, hHead, hBegins⟩
  · obtain ⟨c, hEncode, hHead⟩ := h.encode left
    exact .inl ⟨c, tail, left, rfl, hEncode, hHead⟩
  · refine .inr ⟨part, left, rfl, ⟨?_, ?_, ?_⟩, hHead⟩
    · rintro c ⟨after, hText⟩
      obtain ⟨b, tail, hEncode⟩ := exists_encode c
      rw [hEncode] at hText
      obtain ⟨rfl, hRest⟩ : b = lead ∧ tail ++ after = part ++ left := List.cons.inj hText
      have hFound := head_encode hEncode after
      rw [hRest, hHead] at hFound
      exact Bool.false_ne_true (congrArg Head.wellFormed hFound)
    · rcases hBegins with rfl | hBegins
      · exact .inl ⟨lead, rfl⟩
      · exact .inr ⟨List.cons_ne_nil _ _, hBegins⟩
    · rintro q hq hLonger ⟨c, hPrefix⟩
      cases q with
      | nil => cases hLonger
      | cons b q =>
        obtain ⟨rfl, hRest⟩ : b = lead ∧ q <+: part ++ left := List.cons_prefix_cons.mp hq
        obtain ⟨after, hEncode⟩ := hPrefix
        have hCompletes := completes_of_encode hEncode.symm
        have hWidth := hCompletes.le_width (List.prefix_append q after) hRest
        rw [hHead] at hWidth
        change q.length + 1 ≤ part.length + 1 at hWidth
        rw [List.length_cons, List.length_cons] at hLonger
        omega

theorem decodes_lossy (data : List UInt8) : Decodes data (lossy data) := by
  induction hn : data.length using Nat.strongRecOn generalizing data with
  | ind n ih =>
    subst hn
    cases data with
    | nil =>
      rw [lossy]
      exact .nil
    | cons lead rest =>
      have hStep {tail left : List UInt8} (hRest : rest = tail ++ left)
          (hWidth : (head lead rest).width = tail.length + 1) :
          lossy (lead :: rest) = (head lead rest).char :: lossy left ∧
            Decodes left (lossy left) := by
        constructor
        · rw [lossy, hWidth, Nat.add_sub_cancel, hRest, List.drop_left]
        · refine ih left.length ?_ left rfl
          rw [hRest, List.length_cons, List.length_append]
          omega
      rcases head_spec lead rest with
        ⟨c, tail, left, hRest, hEncode, hHead⟩ | ⟨part, left, hRest, hPart, hHead⟩
      · obtain ⟨hLossy, hLeft⟩ := hStep hRest (by rw [hHead])
        rw [hLossy, hHead, hRest, ← List.cons_append, ← hEncode]
        exact .char hLeft
      · obtain ⟨hLossy, hLeft⟩ := hStep hRest (by rw [hHead]; rfl)
        rw [hLossy, hHead, hRest, ← List.cons_append]
        exact .ill hPart hLeft

theorem MaximalSubpart.ne_nil (h : MaximalSubpart part rest) : part ≠ [] := by
  rcases h.begins with ⟨b, rfl⟩ | ⟨hSome, -⟩
  · exact List.cons_ne_nil _ _
  · exact hSome

theorem MaximalSubpart.length_le {part' rest' : List UInt8} (h : MaximalSubpart part rest)
    (h' : MaximalSubpart part' rest') (hSame : part ++ rest = part' ++ rest') :
    part'.length ≤ part.length := by
  by_contra hLonger
  have hHere : part' <+: part ++ rest := by
    rw [hSame]
    exact List.prefix_append _ _
  rcases h'.begins with ⟨b, rfl⟩ | ⟨-, hBegins⟩
  · have hSome := List.length_pos_iff.mpr h.ne_nil
    rw [List.length_singleton] at hLonger
    omega
  · exact h.longest part' hHere (by omega) hBegins

theorem MaximalSubpart.unique {part' rest' : List UInt8} (h : MaximalSubpart part rest)
    (h' : MaximalSubpart part' rest') (hSame : part ++ rest = part' ++ rest') :
    part = part' ∧ rest = rest' :=
  List.append_inj hSame (Nat.le_antisymm (h'.length_le h hSame.symm) (h.length_le h' hSame))

theorem Decodes.eq_lossy {data : List UInt8} {t : Text} (h : Decodes data t) : t = lossy data := by
  induction h with
  | nil => rw [lossy]
  | @char c rest t hRest ih =>
    obtain ⟨lead, tail, hEncode⟩ := exists_encode c
    rw [hEncode, List.cons_append, lossy, head_encode hEncode, ih]
    simp only [Nat.add_sub_cancel, List.drop_left]
  | @ill part rest t hPart hRest ih =>
    obtain ⟨lead, tail, rfl⟩ := List.exists_cons_of_ne_nil hPart.ne_nil
    rcases head_spec lead (tail ++ rest) with
      ⟨c, tail', left, hSame, hEncode, -⟩ | ⟨part, left, hSame, hOther, hHead⟩
    · refine absurd ?_ (hPart.ill c)
      rw [hEncode, List.cons_append, hSame, ← List.cons_append]
      exact List.prefix_append _ _
    · obtain ⟨hPartEq, rfl⟩ := hPart.unique hOther (congrArg (lead :: ·) hSame)
      rw [List.cons_append, lossy, hHead, ← List.tail_eq_of_cons_eq hPartEq, ih]
      simp only [Head.ill, Nat.add_sub_cancel, List.drop_left]

theorem decodes_iff {data : List UInt8} {t : Text} : Decodes data t ↔ t = lossy data := by
  constructor
  · exact Decodes.eq_lossy
  · rintro rfl
    exact decodes_lossy data

end MarkerLex.Utf8
