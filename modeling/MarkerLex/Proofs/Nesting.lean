import Mathlib.Data.Set.Basic
import Mathlib.Order.Bounds.Defs
import MarkerLex.Proofs.TextStep
import MarkerLex.Proofs.Validity

/-!
# Nested comments

Along the text after its start marker the depth of a comment goes up and down. The
comment is read as far as the first place where its depth comes to zero, or where an
inner comment opens that is one too many, whichever is met first.
-/

namespace MarkerLex

set_option autoImplicit false

theorem Text.eq_take_of_prefix {q t : Text} {n : Nat} (h : q <+: t.take n) :
    q.length ≤ n ∧ q.length ≤ t.length ∧ q = t.take q.length := by
  have hWhole : q <+: t := h.trans (List.take_prefix n t)
  refine ⟨?_, hWhole.length_le, List.prefix_iff_eq_take.mp hWhole⟩
  exact Nat.le_trans h.length_le (List.length_take_le n t)

namespace CommentSpec

/-- After so many characters of `t` as many comments are closed as are open. -/
def closings (spec : CommentSpec) (t : Text) : Set Nat :=
  {n | n ≤ t.length ∧ spec.depth (t.take n) = 0}

/-- After so many characters of `t` a comment opens that is one too many. -/
def overflows (spec : CommentSpec) (limit : Nat) (t : Text) : Set Nat :=
  {n | 0 < n ∧ n ≤ t.length ∧ spec.opensAt (t.take n) = true ∧
    (limit : Int) < spec.depth (t.take n)}

variable {spec : CommentSpec} {limit n : Nat} {t : Text}

theorem open_take (hCloses : ∀ i ≤ n, i ∉ spec.closings t)
    (hDeepens : ∀ i ≤ n, i ∉ spec.overflows limit t) : spec.Open limit (t.take n) := by
  constructor
  · intro q hq hZero
    obtain ⟨hShort, hLength, hTake⟩ := Text.eq_take_of_prefix hq
    rw [hTake] at hZero
    exact hCloses q.length hShort ⟨hLength, hZero⟩
  · intro q hq hSome hOpens
    obtain ⟨hShort, hLength, hTake⟩ := Text.eq_take_of_prefix hq
    by_contra hDeep
    rw [hTake] at hOpens hDeep
    apply hDeepens q.length hShort
    exact ⟨List.length_pos_iff.mpr hSome, hLength, hOpens, Int.not_le.mp hDeep⟩

theorem open_of_shorter (hCloses : ∀ i < n, i ∉ spec.closings t)
    (hDeepens : ∀ i < n, i ∉ spec.overflows limit t) :
    ∀ q, q <+: t.take n → q ≠ t.take n → spec.Open limit q := by
  intro q hq hProper
  obtain ⟨hShort, -, hTake⟩ := Text.eq_take_of_prefix hq
  have hLess : q.length < n := by
    apply Nat.lt_of_le_of_ne hShort
    intro hSame
    rw [hSame] at hTake
    exact hProper hTake
  rw [hTake]
  apply open_take
  · intro i hi
    exact hCloses i (Nat.lt_of_le_of_lt hi hLess)
  · intro i hi
    exact hDeepens i (Nat.lt_of_le_of_lt hi hLess)

theorem closes_of_isLeast (hn : IsLeast (spec.closings t) n)
    (hFirst : ∀ m ∈ spec.overflows limit t, ¬ m < n) : spec.Closes limit (t.take n) where
  before := by
    apply open_of_shorter
    · intro i hi hClosing
      exact absurd (hn.2 hClosing) (Nat.not_le_of_lt hi)
    · intro i hi hDeep
      exact hFirst i hDeep hi
  closed := hn.1.2

theorem tooDeep_of_isLeast (hn : IsLeast (spec.overflows limit t) n)
    (hFirst : ∀ m ∈ spec.closings t, ¬ m < n) : spec.TooDeep limit (t.take n) := by
  obtain ⟨⟨hSome, hLength, hOpens, hDeep⟩, hLeast⟩ := hn
  constructor
  case before =>
    apply open_of_shorter
    · intro i hi hClosing
      exact hFirst i hClosing hi
    · intro i hi hAgain
      exact absurd (hLeast hAgain) (Nat.not_le_of_lt hi)
  case opens =>
    refine ⟨?_, hOpens⟩
    rw [← List.length_pos_iff, List.length_take_of_le hLength]
    exact hSome
  case deeper => exact hDeep

theorem open_of_empty (hCloses : spec.closings t = ∅) (hDeepens : spec.overflows limit t = ∅) :
    spec.Open limit t := by
  have hOpen : spec.Open limit (t.take t.length) := by
    apply open_take
    · intro i _
      rw [hCloses]
      exact Set.notMem_empty i
    · intro i _
      rw [hDeepens]
      exact Set.notMem_empty i
  rwa [List.take_length] at hOpen

end CommentSpec

namespace Mode

open Source

variable {s : Source}

/-- A comment is one token as far as it is closed, or fails where it goes too deep; where
neither comes to pass, everything is read, and the policy of the lexer decides. -/
theorem comment_takes_depth (g : Grammar) (config : Config) (spec : CommentSpec)
    (start : Position) (hUnfailing : s.Unfailing) :
    (∀ n, IsLeast (spec.closings s.unread) n →
      (∀ m ∈ spec.overflows config.maxCommentDepth s.unread, ¬ m < n) →
      (comment spec start).Takes g config s (s.unread.take n)
        (.ok (.emit (some ⟨.comment, spec.start ++ s.unread.take n, start⟩) .std))) ∧
    (∀ m, IsLeast (spec.overflows config.maxCommentDepth s.unread) m →
      (∀ n ∈ spec.closings s.unread, ¬ n < m) →
      (comment spec start).Takes g config s (s.unread.take m)
        (.error ⟨.commentTooDeep config.maxCommentDepth, start⟩)) ∧
    (spec.closings s.unread = ∅ → spec.overflows config.maxCommentDepth s.unread = ∅ →
      (comment spec start).Takes g config s s.unread
        (if config.strictComments then .error ⟨.unterminatedComment spec.stop, start⟩
        else .ok (.emit (some ⟨.comment, spec.start ++ s.unread, start⟩) .std))) := by
  refine ⟨?_, ?_, ?_⟩
  · intro n hn hFirst
    have hCloses := CommentSpec.closes_of_isLeast hn hFirst
    apply takes_of_reads hUnfailing (List.take_append_drop n _).symm
    exact .closed (d := .comment spec) hCloses
  · intro m hm hFirst
    have hTooDeep := CommentSpec.tooDeep_of_isLeast hm hFirst
    apply takes_of_reads hUnfailing (List.take_append_drop m _).symm
    exact .tooDeep hTooDeep
  · intro hCloses hDeepens
    have hOpen := CommentSpec.open_of_empty hCloses hDeepens
    apply takes_of_reads hUnfailing (List.append_nil _).symm
    cases hStrict : config.strictComments with
    | true => exact .commentCutOff hOpen hStrict
    | false => exact .lenient hOpen hStrict

theorem comment_takes_depth_sample :
    (ofText ['a', '/', '*', 'b', '*', '/', 'c', '*', '/', 'd']).Unfailing ∧
    (comment ⟨['/', '*'], ['*', '/'], true⟩ .start).Takes .sample {}
      (ofText ['a', '/', '*', 'b', '*', '/', 'c', '*', '/', 'd'])
      ['a', '/', '*', 'b', '*', '/', 'c', '*', '/']
      (.ok (.emit (some ⟨.comment,
        ['/', '*', 'a', '/', '*', 'b', '*', '/', 'c', '*', '/'], .start⟩) .std)) := by
  let spec : CommentSpec := ⟨['/', '*'], ['*', '/'], true⟩
  let t : Text := ['a', '/', '*', 'b', '*', '/', 'c', '*', '/', 'd']
  have hUnfailing := unfailing_plain t .start
  have hDeep : ∀ n < 9, spec.depth (t.take n) ≠ 0 := by decide
  have hShallow : ∀ n < 9, spec.depth (t.take n) ≤ 128 := by decide
  have hLeast : IsLeast (spec.closings t) 9 := by
    refine ⟨⟨by decide, by decide⟩, ?_⟩
    rintro n ⟨-, hZero⟩
    by_contra hLess
    exact hDeep n (Nat.lt_of_not_le hLess) hZero
  have hTakes := (comment_takes_depth .sample {} spec .start hUnfailing).1
  rw [unread_plain] at hTakes
  refine ⟨hUnfailing, hTakes 9 hLeast ?_⟩
  rintro m ⟨-, -, -, hOver⟩ hLess
  exact Int.not_le.mpr hOver (hShallow m hLess)

end Mode

end MarkerLex
