import Mathlib.Data.List.Infix
import MarkerLex.Proofs.Comment

/-!
# Beginnings of texts

How many beginnings of a text are of one kind: counts for two kinds or two texts are compared by
comparing the beginnings themselves. And where a marker is found behind other text: it ends that
text's last part, or it begins before it.
-/

namespace MarkerLex

set_option autoImplicit false

namespace Text

variable {kind kind' : Text → Bool} {e p q s t u v : Text} {c x : Char}

theorem suffix_append_cases (h : e <:+ s ++ t) : e <:+ t ∨ ∃ p, p <:+ s ∧ e = p ++ t := by
  obtain ⟨w, hw⟩ := h
  rcases List.append_eq_append_iff.mp hw with ⟨p, rfl, rfl⟩ | ⟨v, rfl, rfl⟩
  · exact .inr ⟨p, List.suffix_append w p, rfl⟩
  · exact .inl (List.suffix_append v e)

theorem prefix_append_cases (h : q <+: s ++ t) : q <+: s ∨ ∃ v, v <+: t ∧ q = s ++ v := by
  rcases List.prefix_or_prefix_of_prefix h (List.prefix_append s t) with hShort | ⟨v, rfl⟩
  · exact .inl hShort
  · exact .inr ⟨v, (List.prefix_append_right_inj s).mp h, rfl⟩

theorem exists_other (a b : Option Char) : ∃ x, a ≠ some x ∧ b ≠ some x := by
  by_contra h
  push Not at h
  have h0 := h '0'
  have h1 := h '1'
  have h2 := h '2'
  by_cases h0' : a = some '0' <;> by_cases h1' : a = some '1' <;> simp_all

/-- A text that still ends itself with one character added many times is made of that character. -/
theorem eq_of_suffix_append_replicate {n : Nat} (h : s <:+ s ++ List.replicate (n + 1) x) :
    ∀ c ∈ s, c = x := by
  induction s using List.reverseRecOn with
  | nil => simp
  | append_singleton s c ih =>
    have hLength : [c].length = [x].length := rfl
    rw [List.replicate_succ', ← List.append_assoc,
      List.suffix_append_inj_of_length_eq hLength, List.singleton_inj] at h
    obtain ⟨hRest, rfl⟩ := h
    rw [List.append_assoc] at hRest
    exact List.forall_mem_append.mpr ⟨ih hRest, List.forall_mem_singleton.mpr rfl⟩

theorem not_suffix_append_replicate {n : Nat} (hn : n ≠ 0) (hSome : s ≠ [])
    (hHead : s.head? ≠ some x) : ¬ s <:+ s ++ List.replicate n x := by
  intro h
  obtain ⟨n, rfl⟩ := Nat.exists_eq_succ_of_ne_zero hn
  cases s with
  | nil => exact hSome rfl
  | cons c s =>
    have hSame := eq_of_suffix_append_replicate h c List.mem_cons_self
    simp [hSame] at hHead

/-- Behind enough copies of a character that it does not begin with, a text is found where it
is found without them. -/
theorem suffix_of_filled {n : Nat} (h : e <:+ s ++ (List.replicate n x ++ v))
    (hLong : e.length ≤ n) (hHead : e.head? ≠ some x) : e <:+ v := by
  have hFilled : e <:+ List.replicate n x ++ v := by
    refine List.suffix_of_suffix_length_le h (List.suffix_append _ _) ?_
    rw [List.length_append, List.length_replicate]
    omega
  rcases suffix_append_cases hFilled with hEnds | ⟨p, hp, rfl⟩
  · exact hEnds
  · cases p with
    | nil => exact List.suffix_rfl
    | cons c p =>
      have hSame := List.eq_of_mem_replicate (hp.subset List.mem_cons_self)
      simp [hSame] at hHead

theorem beginnings_append (kind : Text → Bool) (t u : Text) :
    beginnings kind (t ++ u) = beginnings kind t + beginnings (fun v => kind (t ++ v)) u := by
  induction u using List.reverseRecOn with
  | nil =>
    rw [List.append_nil]
    rfl
  | append_singleton u c ih =>
    rw [← List.append_assoc, beginnings_concat, ih, beginnings_concat, Nat.add_assoc,
      List.append_assoc]

theorem beginnings_le_of_begins (kind : Text → Bool) (h : q <+: t) :
    beginnings kind q ≤ beginnings kind t := by
  obtain ⟨u, rfl⟩ := h
  rw [beginnings_append]
  exact Nat.le_add_right _ _

theorem beginnings_mono (h : ∀ q, q <+: t → q ≠ [] → kind q = true → kind' q = true) :
    beginnings kind t ≤ beginnings kind' t := by
  apply List.countP_mono_left
  intro i hi
  apply h _ (List.take_prefix _ _)
  have hLength := List.mem_range.mp hi
  rw [← List.length_pos_iff, List.length_take]
  omega

theorem beginnings_eq_zero (h : ∀ q, q <+: t → q ≠ [] → kind q = false) :
    beginnings kind t = 0 := by
  induction t using List.reverseRecOn with
  | nil => rfl
  | append_singleton t c ih =>
    rw [beginnings_concat, ih fun q hq => h q (hq.trans (List.prefix_append _ _)),
      h _ List.prefix_rfl (by simp)]
    rfl

theorem beginnings_pos (h : q <+: t) (hSome : q ≠ []) (hKind : kind q = true) :
    0 < beginnings kind t := by
  refine Nat.lt_of_lt_of_le ?_ (beginnings_le_of_begins kind h)
  rw [← List.dropLast_concat_getLast hSome] at hKind ⊢
  rw [beginnings_concat, if_pos hKind]
  exact Nat.succ_pos _

theorem exists_first (h : 0 < beginnings kind t) : ∃ q, q <+: t ∧ q ≠ [] ∧ kind q = true ∧
    ∀ p, p <+: q → p ≠ [] → p ≠ q → kind p = false := by
  induction t using List.reverseRecOn with
  | nil => cases h
  | append_singleton t c ih =>
    by_cases hEarlier : 0 < beginnings kind t
    · obtain ⟨q, hq, hFirst⟩ := ih hEarlier
      exact ⟨q, hq.trans (List.prefix_append _ _), hFirst⟩
    · have hHere : kind (t ++ [c]) = true := by
        by_contra hOff
        rw [beginnings_concat, if_neg hOff] at h
        exact hEarlier h
      refine ⟨t ++ [c], List.prefix_rfl, by simp, hHere, fun p hp hSome hShort => ?_⟩
      rcases List.prefix_concat_iff.mp hp with rfl | hp
      · exact absurd rfl hShort
      · by_contra hKind
        exact hEarlier (beginnings_pos hp hSome (Bool.not_eq_false _ ▸ hKind))

theorem exists_last (h : 0 < beginnings kind t) : ∃ q, q <+: t ∧ q ≠ [] ∧ kind q = true ∧
    beginnings kind q = beginnings kind t := by
  induction t using List.reverseRecOn with
  | nil => cases h
  | append_singleton t c ih =>
    by_cases hHere : kind (t ++ [c]) = true
    · exact ⟨t ++ [c], List.prefix_rfl, by simp, hHere, rfl⟩
    · rw [beginnings_concat, if_neg hHere, Nat.add_zero] at h ⊢
      obtain ⟨q, hq, hLast⟩ := ih h
      exact ⟨q, hq.trans (List.prefix_append _ _), hLast⟩

/-- Where each beginning of one kind is a beginning of another kind that `r` has been added to,
there are no more of the one than of the other. -/
theorem beginnings_le_of_moved {r : Text}
    (h : ∀ q, kind q = true → ∃ p, q = p ++ r ∧ p ≠ [] ∧ kind' p = true) (t : Text) :
    beginnings kind t ≤ beginnings kind' t := by
  suffices hShorter : ∀ a, a <+: t → t.length ≤ a.length + r.length →
      beginnings kind t ≤ beginnings kind' a from
    hShorter t List.prefix_rfl (Nat.le_add_right _ _)
  induction t using List.reverseRecOn with
  | nil => exact fun a _ _ => Nat.zero_le _
  | append_singleton t c ih =>
    intro a ha hLength
    rw [List.length_append, List.length_singleton] at hLength
    rw [beginnings_concat]
    split
    case isTrue hHere =>
      obtain ⟨p, hWhole, hSome, hKind⟩ := h _ hHere
      have hEnd := congrArg List.length hWhole
      rw [List.length_append, List.length_append, List.length_singleton] at hEnd
      have hp : p <+: t ++ [c] := ⟨r, hWhole.symm⟩
      have hBefore := List.prefix_of_prefix_length_le hp ha (by omega)
      have hBound := beginnings_le_of_begins kind' hBefore
      obtain ⟨b, d, rfl⟩ := exists_concat hSome
      rw [List.length_append, List.length_singleton] at hEnd
      have hb : b <+: t := by
        refine List.prefix_of_prefix_length_le ((List.prefix_append b [d]).trans hp)
          (List.prefix_append t [c]) ?_
        omega
      have hEarlier := ih b hb (by omega)
      rw [beginnings_concat, if_pos hKind] at hBound
      omega
    case isFalse =>
      rcases List.prefix_concat_iff.mp ha with rfl | ha
      · have hEarlier := ih t List.prefix_rfl (Nat.le_add_right _ _)
        have hBound := beginnings_le_of_begins kind' (List.prefix_append t [c])
        omega
      · exact ih a ha (by omega)

theorem inits_concat (t : Text) (c : Char) : (t ++ [c]).inits = t.inits ++ [t ++ [c]] := by
  rw [List.inits_append]
  rfl

theorem length_filter_inits (hNone : kind [] = false) (t : Text) :
    (t.inits.filter kind).length = beginnings kind t := by
  induction t using List.reverseRecOn with
  | nil => simp [hNone, beginnings]
  | append_singleton t c ih =>
    rw [inits_concat, List.filter_append, List.length_append, ih, beginnings_concat,
      List.filter_singleton]
    cases kind (t ++ [c]) <;> rfl

theorem inits_pairwise (t : Text) : t.inits.Pairwise (·.length < ·.length) := by
  induction t using List.reverseRecOn with
  | nil => simp
  | append_singleton t c ih =>
    rw [inits_concat, List.pairwise_append]
    refine ⟨ih, List.pairwise_singleton _ _, ?_⟩
    intro q hq r hr
    rw [List.mem_singleton.mp hr, List.length_append, List.length_singleton]
    exact Nat.lt_succ_of_le ((List.mem_inits _ _).mp hq).length_le

theorem longest_of_getLast? (hLast : p ∈ (t.inits.filter kind).getLast?) :
    (p <+: t ∧ kind p = true) ∧ ∀ q, q <+: t → kind q = true → q.length ≤ p.length := by
  obtain ⟨shorter, hAll⟩ := List.getLast?_eq_some_iff.mp hLast
  have hMem (q : Text) : q ∈ t.inits.filter kind ↔ q <+: t ∧ kind q = true := by
    rw [List.mem_filter, List.mem_inits]
  refine ⟨(hMem p).mp (by rw [hAll]; simp), fun q hq hKind => ?_⟩
  have hSorted := (inits_pairwise t).filter kind
  have hIn := (hMem q).mpr ⟨hq, hKind⟩
  rw [hAll, List.pairwise_append] at hSorted
  rw [hAll] at hIn
  rcases List.mem_append.mp hIn with hIn | hIn
  · exact Nat.le_of_lt (hSorted.2.2 q hIn p List.mem_cons_self)
  · rw [List.mem_singleton.mp hIn]

end Text

end MarkerLex
