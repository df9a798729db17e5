import MarkerLex.Text.Quoted

/-!
# Numerals and quoted texts are read back

A numeral gives its number away, and a quoted text its text: an escape says by its second
character whether a code point follows it, and a closing brace ends that one. A bare quote stands
only at the two ends of a quoted text.
-/

namespace MarkerLex.Text

set_option autoImplicit false

section Parting

variable {a b u v : Text} {c : Char}

/-- Where a text is parted at `c` in two ways, the one that comes first has the other behind it. -/
theorem parted_cases (h : a ++ c :: u = b ++ c :: v) : (a = b ∧ u = v) ∨
    (∃ m, b = a ++ c :: m ∧ u = m ++ c :: v) ∨ (∃ m, a = b ++ c :: m ∧ v = m ++ c :: u) := by
  obtain ⟨m, hb, hm⟩ | ⟨m, ha, hm⟩ := List.append_eq_append_iff.mp h
  · cases m with
    | nil => exact .inl ⟨by simpa using hb.symm, List.tail_eq_of_cons_eq hm⟩
    | cons d m =>
      obtain ⟨rfl, hu⟩ := List.cons.inj hm
      exact .inr (.inl ⟨m, hb, hu⟩)
  · cases m with
    | nil => exact .inl ⟨by simpa using ha, (List.tail_eq_of_cons_eq hm).symm⟩
    | cons d m =>
      obtain ⟨rfl, hv⟩ := List.cons.inj hm
      exact .inr (.inr ⟨m, ha, hv⟩)

theorem parted_first (ha : c ∉ a) (hb : c ∉ b) (h : a ++ c :: u = b ++ c :: v) : a = b ∧ u = v := by
  obtain hSame | ⟨m, rfl, -⟩ | ⟨m, rfl, -⟩ := parted_cases h
  · exact hSame
  · exact absurd (List.mem_append_right a (List.mem_cons_self ..)) hb
  · exact absurd (List.mem_append_right b (List.mem_cons_self ..)) ha

theorem parted_last (hu : c ∉ u) (hv : c ∉ v) (h : a ++ c :: u = b ++ c :: v) : a = b ∧ u = v := by
  obtain hSame | ⟨m, -, rfl⟩ | ⟨m, -, rfl⟩ := parted_cases h
  · exact hSame
  · exact absurd (List.mem_append_right m (List.mem_cons_self ..)) hu
  · exact absurd (List.mem_append_right m (List.mem_cons_self ..)) hv

end Parting

section Numerals

variable {b m n : Nat} {c : Char}

theorem digitChar_inj : ∀ m < 16, ∀ n < 16, Nat.digitChar m = Nat.digitChar n → m = n := by
  decide

theorem toDigits_eq_concat (hb : 1 < b) (n : Nat) :
    Nat.toDigits b n =
      (if n < b then [] else Nat.toDigits b (n / b)) ++ [Nat.digitChar (n % b)] := by
  rw [Nat.toDigits_eq_if hb]
  split
  · rw [Nat.mod_eq_of_lt ‹_›]
    rfl
  · rfl

theorem toDigits_inj (hb : 1 < b) (hDigits : b ≤ 16) (h : Nat.toDigits b m = Nat.toDigits b n) :
    m = n := by
  induction m using Nat.strongRecOn generalizing n with
  | ind m ih =>
    rw [toDigits_eq_concat hb m, toDigits_eq_concat hb n] at h
    obtain ⟨hFront, hLast⟩ := List.append_inj' h rfl
    have hModM : m % b < b := Nat.mod_lt m (by omega)
    have hModN : n % b < b := Nat.mod_lt n (by omega)
    have hMod : m % b = n % b := by
      apply digitChar_inj _ (by omega) _ (by omega)
      exact (List.cons.inj hLast).1
    have hDiv : m / b = n / b := by
      split at hFront
      · rename_i hm
        split at hFront
        · rename_i hn
          rw [Nat.div_eq_of_lt hm, Nat.div_eq_of_lt hn]
        · exact absurd hFront.symm Nat.toDigits_ne_nil
      · rename_i hm
        split at hFront
        · exact absurd hFront Nat.toDigits_ne_nil
        · exact ih _ (Nat.div_lt_self (by omega) hb) hFront
    rw [← Nat.div_add_mod m b, ← Nat.div_add_mod n b, hDiv, hMod]

theorem numeral_inj (h : numeral m = numeral n) : m = n := toDigits_inj (by decide) (by decide) h

theorem exists_digit_of_mem (hb : 1 < b) (hc : c ∈ Nat.toDigits b n) :
    ∃ d < b, c = Nat.digitChar d := by
  induction n using Nat.strongRecOn with
  | ind n ih =>
    rw [toDigits_eq_concat hb, List.mem_append, List.mem_singleton] at hc
    rcases hc with hc | rfl
    · split at hc
      · cases hc
      · exact ih _ (Nat.div_lt_self (by omega) hb) hc
    · exact ⟨n % b, Nat.mod_lt n (by omega), rfl⟩

theorem notMem_toDigits (hb : 1 < b) (hc : ∀ d < b, c ≠ Nat.digitChar d) (n : Nat) :
    c ∉ Nat.toDigits b n := by
  intro hMem
  obtain ⟨d, hd, rfl⟩ := exists_digit_of_mem hb hMem
  exact hc d hd rfl

theorem notMem_numeral (hc : ∀ d < 10, c ≠ Nat.digitChar d) (n : Nat) : c ∉ numeral n :=
  notMem_toDigits (by decide) hc n

theorem notMem_hexNumeral (hc : ∀ d < 16, c ≠ Nat.digitChar d) (n : Nat) : c ∉ hexNumeral n :=
  notMem_toDigits (by decide) hc n

end Numerals

/-- What a character stands for behind a backslash, unless it announces a code point. -/
def escaped? : Char → Option Char
  | '0' => some '\x00'
  | 't' => some '\t'
  | 'r' => some '\r'
  | 'n' => some '\n'
  | '\\' => some '\\'
  | '"' => some '"'
  | _ => none

/-- The ways in which `c` is written between quotes. -/
inductive WrittenAs (c : Char) : Text → Prop where
  | plain (hBackslash : c ≠ '\\') (hQuote : c ≠ '"') (hNewline : c ≠ '\n') : WrittenAs c [c]
  | short {e : Char} (h : escaped? e = some c) : WrittenAs c ['\\', e]
  | codePoint : WrittenAs c (codePointEscape c)

theorem writtenAs_quotedChar (c : Char) : WrittenAs c (quotedChar '"' c) := by
  rw [quotedChar]
  split
  · exact .short (by subst c; rfl)
  split
  · exact .short (by subst c; rfl)
  split
  · exact .short (by subst c; rfl)
  split
  · exact .short (by subst c; rfl)
  split
  · exact .short (by subst c; rfl)
  split
  · exact .short (by subst c; rfl)
  split
  · exact .codePoint
  · exact .plain ‹_› ‹_› ‹_›

theorem codePointEscape_append (c : Char) (s : Text) :
    codePointEscape c ++ s = '\\' :: 'u' :: '\x7b' :: (hexNumeral c.toNat ++ '\x7d' :: s) := by
  rw [codePointEscape, List.append_assoc, List.append_assoc]
  rfl

namespace WrittenAs

variable {c d : Char} {s t u v : Text}

/-- What is written for a character says which one it is, and where it ends. -/
theorem append_inj (hc : WrittenAs c u) (hd : WrittenAs d v) (h : u ++ s = v ++ t) :
    c = d ∧ s = t := by
  cases hc with
  | plain hc =>
    cases hd with
    | plain => simpa using h
    | short | codePoint => exact absurd (List.head_eq_of_cons_eq h) hc
  | short he =>
    cases hd with
    | plain hd => exact absurd (List.head_eq_of_cons_eq h).symm hd
    | short he' =>
      simp only [List.cons_append, List.nil_append, List.cons.injEq, true_and] at h
      obtain ⟨rfl, rfl⟩ := h
      exact ⟨Option.some.inj (he.symm.trans he'), rfl⟩
    | codePoint =>
      rw [codePointEscape_append] at h
      obtain rfl := List.head_eq_of_cons_eq (List.tail_eq_of_cons_eq h)
      cases he
  | codePoint =>
    rw [codePointEscape_append] at h
    cases hd with
    | plain hd => exact absurd (List.head_eq_of_cons_eq h).symm hd
    | short he =>
      obtain rfl := List.head_eq_of_cons_eq (List.tail_eq_of_cons_eq h)
      cases he
    | codePoint =>
      rw [codePointEscape_append] at h
      simp only [List.cons.injEq, true_and] at h
      have hBrace := notMem_hexNumeral (c := '\x7d') (by decide)
      obtain ⟨hDigits, hRest⟩ := parted_first (hBrace _) (hBrace _) h
      refine ⟨Char.toNat_inj.mp ?_, hRest⟩
      exact toDigits_inj (by decide) (by decide) hDigits

theorem ne_nil (h : WrittenAs c u) : u ≠ [] := by
  cases h <;> exact List.cons_ne_nil _ _

theorem newline_notMem (h : WrittenAs c u) : '\n' ∉ u := by
  cases h with
  | plain _ _ hNewline => simpa using hNewline.symm
  | short he =>
    rw [List.mem_cons, List.mem_singleton]
    rintro (h | rfl)
    · cases h
    · cases he
  | codePoint =>
    have hDigits := notMem_hexNumeral (c := '\n') (by decide) c.toNat
    simp [codePointEscape, hDigits]

end WrittenAs

/-- Between quotes, a text is given back by how it is written. -/
theorem quotedBody_inj {t u : Text}
    (h : t.flatMap (quotedChar '"') = u.flatMap (quotedChar '"')) : t = u := by
  induction t generalizing u with
  | nil =>
    cases u with
    | nil => rfl
    | cons d u =>
      have hNil := List.append_eq_nil_iff.mp (h.symm.trans rfl)
      exact absurd hNil.1 (writtenAs_quotedChar d).ne_nil
  | cons c t ih =>
    cases u with
    | nil =>
      have hNil := List.append_eq_nil_iff.mp (h.trans rfl)
      exact absurd hNil.1 (writtenAs_quotedChar c).ne_nil
    | cons d u =>
      rw [List.flatMap_cons, List.flatMap_cons] at h
      obtain ⟨rfl, hRest⟩ := (writtenAs_quotedChar c).append_inj (writtenAs_quotedChar d) h
      rw [ih hRest]

theorem newline_notMem_between {written : Char → Text} (h : ∀ c, '\n' ∉ written c) (t : Text) :
    '\n' ∉ '"' :: (t.flatMap written ++ ['"']) := by
  rw [List.mem_cons, List.mem_append, List.mem_flatMap, List.mem_singleton]
  rintro (hQuote | ⟨c, -, hc⟩ | hQuote)
  · cases hQuote
  · exact h c hc
  · cases hQuote

theorem newline_notMem_quoted (t : Text) : '\n' ∉ quoted t :=
  newline_notMem_between (fun c => (writtenAs_quotedChar c).newline_notMem) t

/-! A quote between the quotes stands directly behind a backslash. -/

def QuotesEscaped (t : Text) : Prop :=
  ∀ front rest, t = front ++ '"' :: rest → front.getLast? = some '\\'

namespace QuotesEscaped

variable {s t front front' rest : Text}

theorem of_notMem (h : '"' ∉ t) : QuotesEscaped t := by
  rintro front rest rfl
  exact absurd (List.mem_append_right front (List.mem_cons_self ..)) h

theorem append (hs : QuotesEscaped s) (ht : QuotesEscaped t) : QuotesEscaped (s ++ t) := by
  intro front rest h
  obtain ⟨front', rfl, hBehind⟩ | ⟨rest', rfl, hBehind⟩ := List.append_eq_append_iff.mp h
  · rw [List.getLast?_append, ht front' rest hBehind]
    rfl
  · cases rest' with
    | nil => cases ht [] rest hBehind.symm
    | cons c rest' =>
      obtain rfl := List.head_eq_of_cons_eq hBehind
      exact hs front rest' rfl

theorem of_writtenAs {c : Char} (h : WrittenAs c t) : QuotesEscaped t := by
  cases h with
  | plain _ hQuote => exact of_notMem (by simpa using hQuote.symm)
  | short =>
    intro front rest h
    cases front with
    | nil => cases h
    | cons b front =>
      obtain ⟨rfl, hBehind⟩ := List.cons.inj h
      obtain ⟨rfl, -⟩ | ⟨more, -, hMore⟩ := List.append_eq_cons_iff.mp hBehind.symm
      · rfl
      · simp at hMore
  | codePoint =>
    have hDigits := notMem_hexNumeral (c := '"') (by decide) c.toNat
    exact of_notMem (by simp [codePointEscape, hDigits])

theorem body (t : Text) : QuotesEscaped (t.flatMap (quotedChar '"')) := by
  induction t with
  | nil => exact of_notMem List.not_mem_nil
  | cons c t ih =>
    rw [List.flatMap_cons]
    exact (of_writtenAs (writtenAs_quotedChar c)).append ih

/-- Behind a bare quote no further one can be taken for it. -/
theorem parted_bare (hs : QuotesEscaped s) (ht : QuotesEscaped t)
    (hFront : front.getLast? ≠ some '\\') (hFront' : front'.getLast? ≠ some '\\')
    (h : front ++ '"' :: s = front' ++ '"' :: t) : front = front' ∧ s = t := by
  obtain hSame | ⟨m, rfl, hm⟩ | ⟨m, rfl, hm⟩ := parted_cases h
  · exact hSame
  · rw [List.getLast?_append, List.getLast?_cons, hs m t hm] at hFront'
    exact absurd rfl hFront'
  · rw [List.getLast?_append, List.getLast?_cons, ht m s hm] at hFront
    exact absurd rfl hFront

end QuotesEscaped

end MarkerLex.Text
