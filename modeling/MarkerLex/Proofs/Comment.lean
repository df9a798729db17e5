import MarkerLex.Proofs.Plain

/-!
# Where a comment ends

The text of a comment begins with its start marker. After each further character
it may end in the end marker, which closes a comment, or else in the start
marker, which opens one if comments of the form nest. A comment is over where as
many have been closed as opened, unless too many were open at once before.
-/

namespace MarkerLex

set_option autoImplicit false

/-- How many beginnings of a text, the empty one apart, are of one kind. -/
def Text.beginnings (kind : Text → Bool) (t : Text) : Nat :=
  (List.range t.length).countP fun i => kind (t.take (i + 1))

theorem Text.beginnings_concat (kind : Text → Bool) (t : Text) (c : Char) :
    Text.beginnings kind (t ++ [c]) =
      Text.beginnings kind t + if kind (t ++ [c]) then 1 else 0 := by
  have hShort : (List.range t.length).countP (fun i => kind ((t ++ [c]).take (i + 1))) =
      (List.range t.length).countP fun i => kind (t.take (i + 1)) := by
    apply List.countP_congr
    intro i hi
    rw [List.take_append_of_le_length (List.mem_range.mp hi)]
  have hFull : (t ++ [c]).take (t.length + 1) = t ++ [c] :=
    List.take_of_length_le (by simp)
  rw [beginnings, List.length_append, List.length_singleton, List.range_succ, List.countP_append,
    hShort, List.countP_singleton, hFull]
  rfl

namespace CommentSpec

variable (spec : CommentSpec)

def closesAt (body : Text) : Bool := decide (spec.stop <:+ spec.start ++ body)

def opensAt (body : Text) : Bool :=
  spec.nestable && decide (spec.start <:+ spec.start ++ body) && !spec.closesAt body

def depth (body : Text) : Int :=
  1 + Text.beginnings spec.opensAt body - Text.beginnings spec.closesAt body

/-- The comment goes on after `body`: nothing in it closed the comment or opened one too many. -/
structure Open (limit : Nat) (body : Text) : Prop where
  deep : ∀ q, q <+: body → spec.depth q ≠ 0
  shallow : ∀ q, q <+: body → q ≠ [] → spec.opensAt q = true → spec.depth q ≤ limit

/-- The comment is over after `body` and went on until then. -/
structure Closes (limit : Nat) (body : Text) : Prop where
  before : ∀ q, q <+: body → q ≠ body → spec.Open limit q
  closed : spec.depth body = 0

/-- After `body` there is an inner comment too many, and the comment went on until then. -/
structure TooDeep (limit : Nat) (body : Text) : Prop where
  before : ∀ q, q <+: body → q ≠ body → spec.Open limit q
  opens : body ≠ [] ∧ spec.opensAt body = true
  deeper : (limit : Int) < spec.depth body

variable {spec} {limit : Nat} {body : Text} {c : Char}

theorem depth_nil : spec.depth [] = 1 := rfl

variable (spec body c) in
theorem depth_concat : spec.depth (body ++ [c]) = spec.depth body +
    if spec.closesAt (body ++ [c]) then -1 else if spec.opensAt (body ++ [c]) then 1 else 0 := by
  rw [depth, depth, Text.beginnings_concat, Text.beginnings_concat]
  cases hClose : spec.closesAt (body ++ [c]) with
  | true =>
    have hOpen : spec.opensAt (body ++ [c]) = false := by simp [opensAt, hClose]
    simp only [hOpen, if_true, Bool.false_eq_true, if_false]
    omega
  | false =>
    cases spec.opensAt (body ++ [c]) with
    | true =>
      simp only [if_true, Bool.false_eq_true, if_false]
      omega
    | false =>
      simp only [Bool.false_eq_true, if_false]
      omega

theorem open_nil : spec.Open limit [] where
  deep q hq := by
    rw [List.prefix_nil.mp hq, depth_nil]
    decide
  shallow q hq hne := absurd (List.prefix_nil.mp hq) hne

theorem open_concat : spec.Open limit (body ++ [c]) ↔ spec.Open limit body ∧
    spec.depth (body ++ [c]) ≠ 0 ∧
      (spec.opensAt (body ++ [c]) = true → spec.depth (body ++ [c]) ≤ limit) := by
  have hne : body ++ [c] ≠ [] := List.append_ne_nil_of_right_ne_nil _ (List.cons_ne_nil _ _)
  constructor
  · intro h
    refine ⟨⟨?_, ?_⟩, h.deep _ List.prefix_rfl, h.shallow _ List.prefix_rfl hne⟩
    · intro q hq
      exact h.deep q (hq.trans (List.prefix_append _ _))
    · intro q hq
      exact h.shallow q (hq.trans (List.prefix_append _ _))
  · rintro ⟨h, hDeep, hShallow⟩
    constructor
    · intro q hq
      rcases List.prefix_concat_iff.mp hq with rfl | hq
      · exact hDeep
      · exact h.deep q hq
    · intro q hq hne
      rcases List.prefix_concat_iff.mp hq with rfl | hq
      · exact hShallow
      · exact h.shallow q hq hne

theorem Open.pos (h : spec.Open limit body) : 0 < spec.depth body := by
  induction body using List.reverseRecOn with
  | nil =>
    rw [depth_nil]
    decide
  | append_singleton body c ih =>
    obtain ⟨hBody, hDeep, -⟩ := open_concat.mp h
    have hPos := ih hBody
    have hStep := depth_concat spec body c
    split at hStep
    · omega
    · split at hStep <;> omega

theorem Open.of_before (hBefore : ∀ q, q <+: body ++ [c] → q ≠ body ++ [c] → spec.Open limit q) :
    spec.Open limit body :=
  hBefore body (List.prefix_append _ _) (by simp)

theorem Open.before (h : spec.Open limit body) :
    ∀ q, q <+: body ++ [c] → q ≠ body ++ [c] → spec.Open limit q := by
  intro q hq hne
  rcases List.prefix_concat_iff.mp hq with rfl | hq
  · exact absurd rfl hne
  · constructor
    · intro p hp
      exact h.deep p (hp.trans hq)
    · intro p hp
      exact h.shallow p (hp.trans hq)

theorem Closes.ne_nil (h : spec.Closes limit body) : body ≠ [] := by
  rintro rfl
  have hOver := h.closed
  rw [depth_nil] at hOver
  omega

theorem Closes.not_open (h : spec.Closes limit body) : ¬ spec.Open limit body :=
  fun hOpen => hOpen.deep body List.prefix_rfl h.closed

theorem TooDeep.not_open (h : spec.TooDeep limit body) : ¬ spec.Open limit body := by
  intro hOpen
  have hShallow := hOpen.shallow body List.prefix_rfl h.opens.1 h.opens.2
  have hOver := h.deeper
  omega

theorem Closes.not_tooDeep (h : spec.Closes limit body) : ¬ spec.TooDeep limit body := by
  intro hTooDeep
  have hOver := hTooDeep.deeper
  rw [h.closed] at hOver
  omega

def going (spec : CommentSpec) (body : Text) : OpenComment :=
  ⟨(spec.start ++ body).reverse, (spec.depth body).toNat⟩

theorem endsIn_going (marker : Text) :
    Text.endsIn (c :: (spec.going body).newest) marker =
      decide (marker <:+ spec.start ++ (body ++ [c])) := by
  rw [← Text.endsIn_reverse, ← List.append_assoc, List.reverse_concat]
  rfl

end CommentSpec

namespace Reader

variable {config : Config} {spec : CommentSpec} {start place : Position} {body t : Text} {c : Char}

theorem comment_react (hOpen : spec.Open config.maxCommentDepth body) (start place : Position)
    (c : Char) :
    (spec.Closes config.maxCommentDepth (body ++ [c]) ∧ ∃ events,
      (comment config spec start).react (spec.going body) place c =
        .take ⟨events, .ok (.emit (some ⟨.comment, spec.start ++ (body ++ [c]), start⟩) .std)⟩) ∨
    (spec.TooDeep config.maxCommentDepth (body ++ [c]) ∧ ∃ events,
      (comment config spec start).react (spec.going body) place c =
        .take ⟨events, .error ⟨.commentTooDeep config.maxCommentDepth, start⟩⟩) ∨
    (spec.Open config.maxCommentDepth (body ++ [c]) ∧
      ((comment config spec start).react (spec.going body) place c =
          .proceed (spec.going (body ++ [c])) ∨
        ∃ event, (comment config spec start).react (spec.going body) place c =
          .remark event (spec.going (body ++ [c])))) := by
  have hPos := hOpen.pos
  have hDepth := CommentSpec.depth_concat spec body c
  have hNewest : c :: (spec.going body).newest = (spec.start ++ (body ++ [c])).reverse := by
    rw [← List.append_assoc, List.reverse_concat]
    rfl
  have hGoing : spec.going (body ++ [c]) =
      ⟨c :: (spec.going body).newest, (spec.depth (body ++ [c])).toNat⟩ := by
    rw [hNewest]
    rfl
  have hLevel : ((spec.going body).depth : Int) = spec.depth body :=
    Int.toNat_of_nonneg (Int.le_of_lt hPos)
  rcases comment_react_cases config spec start (spec.going body) place c with
    ⟨hStop, hCases⟩ | ⟨hStop, hStart, hCases⟩ | ⟨hStop, hStart, h⟩
  · rw [CommentSpec.endsIn_going] at hStop
    have hClose : spec.closesAt (body ++ [c]) = true := hStop
    have hNotOpens : spec.opensAt (body ++ [c]) = false := by simp [CommentSpec.opensAt, hClose]
    rw [hClose, if_pos rfl] at hDepth
    rcases hCases with ⟨hZero, h⟩ | ⟨hMore, h⟩
    · refine .inl ⟨⟨hOpen.before, by omega⟩, [.commentClosed], ?_⟩
      rw [h, hNewest, List.reverse_reverse]
    · refine .inr (.inr ⟨CommentSpec.open_concat.mpr ⟨hOpen, by omega, by simp [hNotOpens]⟩, ?_⟩)
      refine .inr ⟨.innerCommentClosed ((spec.going body).depth - 1), ?_⟩
      rw [h, hGoing]
      congr 2
      omega
  · rw [CommentSpec.endsIn_going] at hStop hStart
    have hClose : spec.closesAt (body ++ [c]) = false := hStop
    have hOpens : spec.opensAt (body ++ [c]) = true := by
      rw [CommentSpec.opensAt, hStart, hClose]
      rfl
    rw [hClose, if_neg Bool.false_ne_true, hOpens, if_pos rfl] at hDepth
    have hne : body ++ [c] ≠ [] := List.append_ne_nil_of_right_ne_nil _ (List.cons_ne_nil _ _)
    rcases hCases with ⟨hOver, h⟩ | ⟨hShallow, h⟩
    · exact .inr (.inl ⟨⟨hOpen.before, ⟨hne, hOpens⟩, by omega⟩, _, h⟩)
    · refine .inr (.inr ⟨CommentSpec.open_concat.mpr ⟨hOpen, by omega, fun _ => by omega⟩, ?_⟩)
      refine .inr ⟨.innerCommentOpened ((spec.going body).depth + 1), ?_⟩
      rw [h, hGoing]
      congr 2
      omega
  · rw [CommentSpec.endsIn_going] at hStop hStart
    have hClose : spec.closesAt (body ++ [c]) = false := hStop
    have hOpens : spec.opensAt (body ++ [c]) = false := by
      rw [CommentSpec.opensAt, hStart]
      rfl
    rw [hClose, if_neg Bool.false_ne_true, hOpens, if_neg Bool.false_ne_true] at hDepth
    refine .inr (.inr ⟨CommentSpec.open_concat.mpr ⟨hOpen, by omega, by simp [hOpens]⟩, .inl ?_⟩)
    rw [h, hGoing]
    congr 2
    omega

/-- Exactly the texts after which a comment goes on are read on. -/
theorem comment_passed? (start place : Position) {s : OpenComment} :
    (comment config spec start).passed? spec.opened place body = some s ↔
      spec.Open config.maxCommentDepth body ∧ s = spec.going body := by
  induction body using List.reverseRecOn generalizing s with
  | nil =>
    have hOpened : spec.opened = spec.going [] := by
      simp [CommentSpec.opened, CommentSpec.going, CommentSpec.depth_nil]
    rw [passed?, Option.some.injEq, hOpened, eq_comm]
    exact (and_iff_right CommentSpec.open_nil).symm
  | append_singleton body c ih =>
    rw [passed?_append, Option.bind_eq_some_iff]
    constructor
    · rintro ⟨q, hq, hLast⟩
      obtain ⟨hOpen, rfl⟩ := ih.mp hq
      rcases comment_react hOpen start (place.advancedBy body) c with
        ⟨-, events, h⟩ | ⟨-, events, h⟩ | ⟨hNext, h | ⟨event, h⟩⟩
      · simp [passed?, h] at hLast
      · simp [passed?, h] at hLast
      · simp only [passed?, h, Option.some.injEq] at hLast
        exact ⟨hNext, hLast.symm⟩
      · simp only [passed?, h, Option.some.injEq] at hLast
        exact ⟨hNext, hLast.symm⟩
    · rintro ⟨hNext, rfl⟩
      have hOpen := (CommentSpec.open_concat.mp hNext).1
      refine ⟨_, ih.mpr ⟨hOpen, rfl⟩, ?_⟩
      rcases comment_react hOpen start (place.advancedBy body) c with
        ⟨hCloses, -⟩ | ⟨hTooDeep, -⟩ | ⟨-, h | ⟨event, h⟩⟩
      · exact absurd hNext hCloses.not_open
      · exact absurd hNext hTooDeep.not_open
      · simp only [passed?, h]
      · simp only [passed?, h]

end Reader

end MarkerLex
