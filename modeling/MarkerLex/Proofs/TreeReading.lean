import MarkerLex.Proofs.CommentLevels
import MarkerLex.Proofs.CommentTree

/-!
# Reading comments that nest

A comment that nests is read as the tree it is the text of: where the text has no markers but the
delimiters of the tree, its levels are those of the tree. And where no two markers in the text
overlap, each closed comment is such a text.
-/

namespace MarkerLex

set_option autoImplicit false

namespace Mark

/-- The marker ends in `t`, read after `before`; it may have begun earlier. -/
structure EndsIn (spec : CommentSpec) (before t : Text) (m : Mark) : Prop where
  stands : m.StandsIn spec (before ++ t)
  beyond : before.length < (m.through spec).length

/-- Of all markers only `m` ends in `t`, read after `before`. -/
def Alone (spec : CommentSpec) (before t : Text) (m : Mark) : Prop :=
  ∀ m' : Mark, m'.EndsIn spec before t → m' = m

variable {spec : CommentSpec} {before t u v : Text} {m : Mark}

theorem endsIn_of_through {q : Text} (hThrough : m.through spec = before ++ q) (hq : q <+: t)
    (hRead : q ≠ []) : m.EndsIn spec before t := by
  constructor
  · rw [StandsIn, hThrough]
    exact (List.prefix_append_right_inj before).mpr hq
  · have hLength := List.length_pos_iff.mpr hRead
    rw [hThrough, List.length_append]
    omega

theorem EndsIn.exists_part (h : m.EndsIn spec before t) :
    ∃ q, q <+: t ∧ q ≠ [] ∧ m.through spec = before ++ q := by
  rcases Text.prefix_append_cases h.stands with hShort | ⟨q, hq, hThrough⟩
  · exact absurd hShort.length_le (Nat.not_le_of_lt h.beyond)
  · refine ⟨q, hq, ?_, hThrough⟩
    rintro rfl
    have hBeyond := h.beyond
    rw [hThrough, List.append_nil] at hBeyond
    exact Nat.lt_irrefl _ hBeyond

theorem endsIn_append :
    m.EndsIn spec before (u ++ v) ↔ m.EndsIn spec before u ∨ m.EndsIn spec (before ++ u) v := by
  constructor
  · rintro ⟨hStands, hBeyond⟩
    rw [StandsIn, ← List.append_assoc] at hStands
    rcases Nat.lt_or_ge (before ++ u).length (m.through spec).length with hLonger | hShort
    · exact .inr ⟨hStands, hLonger⟩
    · refine .inl ⟨?_, hBeyond⟩
      exact List.prefix_of_prefix_length_le hStands (List.prefix_append _ _) hShort
  · rintro (⟨hStands, hBeyond⟩ | ⟨hStands, hBeyond⟩)
    · refine ⟨?_, hBeyond⟩
      rw [StandsIn, ← List.append_assoc]
      exact hStands.trans (List.prefix_append _ _)
    · rw [StandsIn, List.append_assoc] at hStands
      rw [List.length_append] at hBeyond
      exact ⟨hStands, by omega⟩

theorem EndsIn.not_behind {later : Text} (h : m.EndsIn spec before u)
    (hLater : before ++ u <+: later) : ¬ m.EndsIn spec later v :=
  fun hAgain => Nat.not_lt_of_le (h.stands.trans hLater).length_le hAgain.beyond

end Mark

namespace CommentSpec

variable {spec : CommentSpec} {before t u : Text} {m m' : Mark}

theorem exists_mark_of_closesAt (h : spec.closesAt (before ++ u) = true) :
    ∃ p, (Mark.mk .stop p).through spec = spec.start ++ before ++ u := by
  obtain ⟨p, hp⟩ := closesAt_iff.mp h
  exact ⟨p, hp.trans (List.append_assoc _ _ _).symm⟩

theorem exists_mark_of_opensAt (h : spec.opensAt (before ++ u) = true) :
    ∃ p, (Mark.mk .start p).through spec = spec.start ++ before ++ u := by
  obtain ⟨p, hp⟩ := (opensAt_iff.mp h).2.1
  exact ⟨p, hp.trans (List.append_assoc _ _ _).symm⟩

theorem closesAt_or_opensAt (hNests : spec.nestable = true)
    (h : m.through spec = spec.start ++ before ++ u) :
    spec.closesAt (before ++ u) = true ∨ spec.opensAt (before ++ u) = true := by
  have hEnds : spec.marker m.side <:+ spec.start ++ (before ++ u) := by
    rw [← List.append_assoc, ← h]
    exact List.suffix_append _ _
  by_cases hCloses : spec.closesAt (before ++ u) = true
  · exact .inl hCloses
  · refine .inr (opensAt_iff.mpr ⟨hNests, ?_, fun hStop => hCloses (closesAt_iff.mpr hStop)⟩)
    obtain ⟨side, p⟩ := m
    cases side with
    | start => exact hEnds
    | stop => exact absurd (closesAt_iff.mpr hEnds) hCloses

namespace MarksApart

theorem of_prefix (h : spec.MarksApart t) (hu : u <+: t) : spec.MarksApart u :=
  fun m m' hm hm' => h m m' (hm.trans hu) (hm'.trans hu)

theorem eq_of_same_end (h : spec.MarksApart t) (hStart : spec.start ≠ [])
    (hStop : spec.stop ≠ []) (hm : m.StandsIn spec t)
    (hSame : m'.through spec = m.through spec) : m' = m := by
  by_contra hOther
  have hm' : m'.StandsIn spec t := by
    rw [Mark.StandsIn, hSame]
    exact hm
  exact (h m' m hm' hm hOther).through_ne hStart hStop hSame

/-- Behind a marker, plain text comes before the next one. -/
theorem exists_plain (h : spec.MarksApart t) (hStart : spec.start ≠ []) (hStop : spec.stop ≠ [])
    (hm : m.through spec = before) (hm' : m'.through spec = before ++ u) (hRead : u ≠ [])
    (hu : before ++ u <+: t) :
    ∃ plain, u = plain ++ spec.marker m'.side ∧ m'.before = before ++ plain := by
  have hLength := List.length_pos_iff.mpr hRead
  have hOther : m ≠ m' := by
    rintro rfl
    have hSame := congrArg List.length (hm.symm.trans hm')
    rw [List.length_append] at hSame
    omega
  have hStands : m.StandsIn spec t := by
    rw [Mark.StandsIn, hm]
    exact (List.prefix_append before u).trans hu
  have hStands' : m'.StandsIn spec t := by
    rw [Mark.StandsIn, hm']
    exact hu
  rcases h m m' hStands hStands' hOther with ⟨plain, hPlain⟩ | hOver
  · rw [hm] at hPlain
    rw [Mark.through, ← hPlain, List.append_assoc] at hm'
    exact ⟨plain, (List.append_cancel_left hm').symm, hPlain.symm⟩
  · have hShort := hOver.length_le
    have hEarlier := m.length_lt_through hStart hStop
    rw [hm', List.length_append] at hShort
    rw [hm] at hEarlier
    omega

end MarksApart

theorem Quiet.alone (h : spec.Quiet before u) (hNests : spec.nestable = true)
    (hStart : spec.start ≠ []) (hStop : spec.stop ≠ []) (hApart : spec.MarksApart t)
    (hm : m.StandsIn spec t) (hThrough : m.through spec = spec.start ++ before ++ u) :
    m.Alone spec (spec.start ++ before) u := by
  intro m' hm'
  obtain ⟨q, hq, hRead, hPart⟩ := hm'.exists_part
  have hWhole : q = u := by
    by_contra hShort
    obtain ⟨hCloses, hOpens⟩ := h q hq hRead hShort
    rcases closesAt_or_opensAt hNests hPart with hEvent | hEvent
    · cases hCloses.symm.trans hEvent
    · cases hOpens.symm.trans hEvent
  subst hWhole
  exact hApart.eq_of_same_end hStart hStop hm (hPart.trans hThrough.symm)

theorem quiet_of_alone (h : m.Alone spec (spec.start ++ before) u)
    (hThrough : m.through spec = spec.start ++ before ++ u) : spec.Quiet before u := by
  intro q hq hRead hShort
  have hNone {m' : Mark} : m'.through spec ≠ spec.start ++ before ++ q := by
    intro hPart
    rw [h m' (Mark.endsIn_of_through hPart hq hRead), hThrough] at hPart
    exact hShort (List.append_cancel_left hPart).symm
  constructor
  · rw [Bool.eq_false_iff]
    intro hCloses
    obtain ⟨p, hp⟩ := exists_mark_of_closesAt hCloses
    exact hNone hp
  · rw [Bool.eq_false_iff]
    intro hOpens
    obtain ⟨p, hp⟩ := exists_mark_of_opensAt hOpens
    exact hNone hp

theorem opensAt_of_alone (hNests : spec.nestable = true) {p : Text} (hRead : u ≠ [])
    (h : (Mark.mk .start p).Alone spec (spec.start ++ before) u)
    (hThrough : (Mark.mk .start p).through spec = spec.start ++ before ++ u) :
    spec.opensAt (before ++ u) = true := by
  rcases closesAt_or_opensAt hNests hThrough with hCloses | hOpens
  · obtain ⟨q, hq⟩ := exists_mark_of_closesAt hCloses
    cases h _ (Mark.endsIn_of_through hq List.prefix_rfl hRead)
  · exact hOpens

end CommentSpec

namespace CommentTree

variable {spec : CommentSpec} {plain next before : Text} {c : CommentTree} {m : Mark}
variable {rest : List (CommentTree × Text)}

/-- The markers that end in the body, read after `before`, are its delimiters. -/
def Exact (spec : CommentSpec) (before : Text) (c : CommentTree) : Prop :=
  ∀ m : Mark, m.EndsIn spec before (c.body spec) → m ∈ c.bodyMarks spec before

theorem exact_last : (node plain []).Exact spec before ↔
    Mark.Alone spec before (plain ++ spec.stop) ⟨.stop, before ++ plain⟩ := by
  simp only [Exact, Mark.Alone, body_last, bodyMarks_last, List.mem_singleton]

theorem Clean.exact (h : c.Clean spec) : c.Exact spec spec.start := by
  intro m hm
  rcases List.mem_cons.mp (h.only m hm.stands) with rfl | hMem
  · exact absurd hm.beyond (Nat.lt_irrefl _)
  · exact hMem

variable (hStart : spec.start ≠ []) (hStop : spec.stop ≠ [])

include hStart hStop

theorem endsIn_of_mem_bodyMarks (hm : m ∈ c.bodyMarks spec before) :
    m.EndsIn spec before (c.body spec) := by
  obtain ⟨hBefore, hThrough⟩ := within_of_mem_bodyMarks hm
  exact ⟨hThrough, Nat.lt_of_le_of_lt hBefore.length_le (m.length_lt_through hStart hStop)⟩

theorem exact_inner : (node plain ((c, next) :: rest)).Exact spec before ↔
    Mark.Alone spec before (plain ++ spec.start) ⟨.start, before ++ plain⟩ ∧
      c.Exact spec (before ++ (plain ++ spec.start)) ∧
      (node next rest).Exact spec (before ++ (plain ++ spec.start) ++ c.body spec) := by
  have hHead : (Mark.mk .start (before ++ plain)).EndsIn spec before (plain ++ spec.start) :=
    Mark.endsIn_of_through (List.append_assoc _ _ _) List.prefix_rfl
      (List.append_ne_nil_of_right_ne_nil plain hStart)
  have hWhole {m : Mark} : m.EndsIn spec before
      (plain ++ spec.start ++ c.body spec ++ (node next rest).body spec) ↔
        (m.EndsIn spec before (plain ++ spec.start) ∨
          m.EndsIn spec (before ++ (plain ++ spec.start)) (c.body spec)) ∨
        m.EndsIn spec (before ++ (plain ++ spec.start) ++ c.body spec)
          ((node next rest).body spec) := by
    rw [Mark.endsIn_append, Mark.endsIn_append, List.append_assoc before]
  simp only [Exact, body_inner, bodyMarks_inner, List.mem_cons, List.mem_append, hWhole]
  constructor
  · intro h
    refine ⟨fun m hm => ?_, fun m hm => ?_, fun m hm => ?_⟩
    · rcases h m (.inl (.inl hm)) with hThis | hInner | hRest
      · exact hThis
      · exact absurd (endsIn_of_mem_bodyMarks hStart hStop hInner)
          (hm.not_behind List.prefix_rfl)
      · exact absurd (endsIn_of_mem_bodyMarks hStart hStop hRest)
          (hm.not_behind (List.prefix_append _ _))
    · rcases h m (.inl (.inr hm)) with rfl | hInner | hRest
      · exact absurd hm (hHead.not_behind List.prefix_rfl)
      · exact hInner
      · exact absurd (endsIn_of_mem_bodyMarks hStart hStop hRest)
          (hm.not_behind List.prefix_rfl)
    · rcases h m (.inr hm) with rfl | hInner | hRest
      · exact absurd hm (hHead.not_behind (List.prefix_append _ _))
      · exact absurd hm
          ((endsIn_of_mem_bodyMarks hStart hStop hInner).not_behind List.prefix_rfl)
      · exact hRest
  · rintro ⟨hAlone, hInner, hRest⟩ m ((hm | hm) | hm)
    · exact .inl (hAlone m hm)
    · exact .inr (.inl (hInner m hm))
    · exact .inr (.inr (hRest m hm))

/-- A tree whose delimiters are the only markers in its text is read level by level. -/
theorem Exact.nests (hNests : spec.nestable = true) (h : c.Exact spec (spec.start ++ before)) :
    spec.Nests before (c.body spec) c.height := by
  induction c generalizing before with
  | last plain =>
    have hThrough := List.append_assoc (spec.start ++ before) plain spec.stop
    have hCloses : spec.closesAt (before ++ (plain ++ spec.stop)) = true := by
      rw [CommentSpec.closesAt_iff, ← List.append_assoc, hThrough.symm]
      exact List.suffix_append _ _
    exact .last (CommentSpec.quiet_of_alone (exact_last.mp h) hThrough)
      (List.append_ne_nil_of_right_ne_nil plain hStop) hCloses
  | inner plain c next rest ih ihRest =>
    obtain ⟨hAlone, hInner, hRest⟩ := (exact_inner hStart hStop).mp h
    have hRead : plain ++ spec.start ≠ [] := List.append_ne_nil_of_right_ne_nil plain hStart
    have hThrough := List.append_assoc (spec.start ++ before) plain spec.start
    rw [List.append_assoc spec.start] at hInner hRest
    rw [List.append_assoc spec.start] at hRest
    rw [body_inner, height_inner]
    exact .inner (CommentSpec.quiet_of_alone hAlone hThrough) hRead
      (CommentSpec.opensAt_of_alone hNests hRead hAlone hThrough) (ih hInner) (ihRest hRest)

theorem Exact.clean (h : c.Exact spec spec.start) (hApart : spec.MarksApart (c.text spec)) :
    c.Clean spec := by
  refine ⟨fun m hm => ?_, marks_apart spec c⟩
  rcases Nat.lt_or_ge spec.start.length (m.through spec).length with hBeyond | hShort
  · exact List.mem_cons_of_mem _ (h m ⟨hm, hBeyond⟩)
  · -- no marker is over before the first one, and none overlaps with it
    have hRoot : m = ⟨.start, []⟩ := by
      by_contra hOther
      have hEarlier := m.length_lt_through hStart hStop
      rcases hApart m ⟨.start, []⟩ hm (List.prefix_append _ _) hOther with hOver | hOver
      · have hNil := hOver.length_le
        rw [List.length_nil] at hNil
        omega
      · have hLength : spec.start.length ≤ m.before.length := hOver.length_le
        omega
    rw [hRoot]
    exact List.mem_cons_self

end CommentTree

namespace CommentSpec

variable {spec : CommentSpec} {before body : Text} {n : Nat}

theorem Nests.closesAt (h : spec.Nests before body n) : spec.closesAt (before ++ body) = true := by
  induction h with
  | last hQuiet hRead hCloses => exact hCloses
  | inner hQuiet hRead hOpens hInner hRest ih ihRest =>
    rw [← List.append_assoc, ← List.append_assoc]
    exact ihRest

/-- Behind a marker, where no two markers overlap, a level is the body of a tree. -/
theorem Nests.exists_tree (hNests : spec.nestable = true) (hStart : spec.start ≠ [])
    (hStop : spec.stop ≠ []) (h : spec.Nests before body n)
    (hApart : spec.MarksApart (spec.start ++ before ++ body))
    (hBehind : ∃ m : Mark, m.through spec = spec.start ++ before) :
    ∃ c : CommentTree, c.body spec = body ∧ c.height = n ∧ c.Exact spec (spec.start ++ before) := by
  induction h with
  | last hQuiet hRead hCloses =>
    obtain ⟨m, hm⟩ := hBehind
    obtain ⟨p, hp⟩ := exists_mark_of_closesAt hCloses
    obtain ⟨plain, rfl, rfl⟩ :=
      hApart.exists_plain hStart hStop hm hp hRead List.prefix_rfl
    refine ⟨.node plain [], rfl, rfl, CommentTree.exact_last.mpr ?_⟩
    exact hQuiet.alone hNests hStart hStop hApart (by rw [Mark.StandsIn, hp]) hp
  | @inner before u v w m n hQuiet hRead hOpens hInner hRest ih ihRest =>
    obtain ⟨m, hm⟩ := hBehind
    obtain ⟨p, hp⟩ := exists_mark_of_opensAt hOpens
    obtain ⟨q, hq⟩ := exists_mark_of_closesAt hInner.closesAt
    have hBegins : spec.start ++ before ++ u <+: spec.start ++ before ++ (u ++ v ++ w) := by simp
    obtain ⟨plain, rfl, rfl⟩ := hApart.exists_plain hStart hStop hm hp hRead hBegins
    have hAlone := hQuiet.alone hNests hStart hStop hApart (by rwa [Mark.StandsIn, hp]) hp
    simp only [← List.append_assoc] at hApart hp hq ih ihRest
    obtain ⟨c, rfl, rfl, hExact⟩ := ih (hApart.of_prefix (List.prefix_append _ w)) ⟨_, hp⟩
    obtain ⟨⟨next, rest⟩, rfl, rfl, hExactRest⟩ := ihRest hApart ⟨_, hq⟩
    rw [List.append_assoc _ plain] at hExact hExactRest
    refine ⟨.node plain ((c, next) :: rest), CommentTree.body_inner, rfl, ?_⟩
    exact (CommentTree.exact_inner hStart hStop).mpr ⟨hAlone, hExact, hExactRest⟩

variable {limit : Nat}

/-- The text of a clean tree that is not too deep closes the comment at its end. -/
theorem closes_of_clean (hNests : spec.nestable = true) (hStart : spec.start ≠ [])
    (hStop : spec.stop ≠ []) {c : CommentTree} (hClean : c.Clean spec)
    (hHeight : c.height ≤ max 1 limit) : spec.Closes limit (c.body spec) := by
  have hExact : c.Exact spec (spec.start ++ []) := by
    rw [List.append_nil]
    exact hClean.exact
  exact closes_iff_nests.mpr ⟨c.height, hExact.nests hStart hStop hNests, hHeight⟩

/-- Where no two markers overlap, what closes a comment is the body of a clean tree. -/
theorem Closes.exists_tree (hNests : spec.nestable = true) (hStart : spec.start ≠ [])
    (hStop : spec.stop ≠ []) (h : spec.Closes limit body)
    (hApart : spec.MarksApart (spec.start ++ body)) :
    ∃ c : CommentTree, c.Clean spec ∧ c.body spec = body ∧ c.height ≤ max 1 limit := by
  obtain ⟨n, hLevels, hBound⟩ := closes_iff_nests.mp h
  obtain ⟨c, rfl, rfl, hExact⟩ := hLevels.exists_tree hNests hStart hStop
    (by rwa [List.append_nil]) ⟨⟨.start, []⟩, (List.append_nil _).symm⟩
  rw [List.append_nil] at hExact
  exact ⟨c, hExact.clean hStart hStop hApart, rfl, hBound⟩

end CommentSpec

namespace Mode

open Source

/-- The text of a clean tree that is not too deep is read as one comment, and nothing behind it
is; and each closed comment in which no two markers overlap is the text of exactly one such tree. -/
theorem comment_takes_tree (g : Grammar) (config : Config) (spec : CommentSpec)
    (hNests : spec.nestable = true) (hStart : spec.start ≠ []) (hStop : spec.stop ≠ []) :
    (∀ (c : CommentTree) (start : Position) (s : Source) (rest : Text), c.Clean spec →
      c.height ≤ max 1 config.maxCommentDepth → s.Unfailing → s.unread = c.body spec ++ rest →
        (comment spec start).Takes g config s (c.body spec)
          (.ok (.emit (some ⟨.comment, c.text spec, start⟩) .std)) ∧
        ((comment spec start).step g config s).value.2.unread = rest) ∧
    (∀ (start : Position) (s : Source) (taken : Text) (t : Token) (next : Mode), s.Unfailing →
      (comment spec start).Takes g config s taken (.ok (.emit (some t) next)) →
      spec.Closes config.maxCommentDepth taken → spec.MarksApart t.text →
        ∃ c : CommentTree, c.Clean spec ∧ c.text spec = t.text ∧
          c.height ≤ max 1 config.maxCommentDepth ∧
          ∀ c' : CommentTree, c'.Clean spec → c'.text spec = t.text → c' = c) := by
  have takes (start : Position) {s : Source} {taken rest : Text} (hUnfailing : s.Unfailing)
      (hUnread : s.unread = taken ++ rest) (hCloses : spec.Closes config.maxCommentDepth taken) :
      (comment spec start).Takes g config s taken
        (.ok (.emit (some ⟨.comment, spec.start ++ taken, start⟩) .std)) :=
    takes_of_reads hUnfailing hUnread (.closed (d := .comment spec) hCloses)
  constructor
  · intro c start s rest hClean hHeight hUnfailing hUnread
    have hCloses := CommentSpec.closes_of_clean hNests hStart hStop hClean hHeight
    have hTakes := takes start hUnfailing hUnread hCloses
    refine ⟨hTakes, ?_⟩
    exact List.append_cancel_left (hTakes.leaves.unread.symm.trans hUnread)
  · intro start s taken t next hUnfailing hTakes hCloses hApart
    have hToken := (takes start hUnfailing hTakes.leaves.unread hCloses).outcome_eq
    rw [hTakes.outcome_eq] at hToken
    cases hToken
    obtain ⟨c, hClean, rfl, hHeight⟩ := hCloses.exists_tree hNests hStart hStop hApart
    refine ⟨c, hClean, rfl, hHeight, fun c' hClean' hText => ?_⟩
    exact hClean'.eq_of_text hStart hStop hClean hText

theorem comment_takes_tree_sample :
    (comment ⟨['/', '*'], ['*', '/'], true⟩ .start).Takes .sample {}
      (ofText ['a', '/', '*', 'b', '*', '/', 'c', '*', '/', 'd'])
      ['a', '/', '*', 'b', '*', '/', 'c', '*', '/']
      (.ok (.emit (some ⟨.comment,
        ['/', '*', 'a', '/', '*', 'b', '*', '/', 'c', '*', '/'], .start⟩) .std)) ∧
    ∃ c : CommentTree, c.Clean ⟨['/', '*'], ['*', '/'], true⟩ ∧
      c.text ⟨['/', '*'], ['*', '/'], true⟩ =
        ['/', '*', 'a', '/', '*', 'b', '*', '/', 'c', '*', '/'] ∧
      c.height ≤ 128 ∧ ∀ c' : CommentTree, c'.Clean ⟨['/', '*'], ['*', '/'], true⟩ →
        c'.text ⟨['/', '*'], ['*', '/'], true⟩ =
          ['/', '*', 'a', '/', '*', 'b', '*', '/', 'c', '*', '/'] → c' = c := by
  let spec : CommentSpec := ⟨['/', '*'], ['*', '/'], true⟩
  let c : CommentTree := .node ['a'] [(.node ['b'] [], ['c'])]
  have hUnfailing := unfailing_plain ['a', '/', '*', 'b', '*', '/', 'c', '*', '/', 'd'] .start
  have hClean : c.Clean spec := by decide
  have hCloses := CommentSpec.closes_of_clean rfl (by decide) (by decide) hClean
    (by decide : c.height ≤ max 1 128)
  obtain ⟨hReads, hTrees⟩ := comment_takes_tree .sample {} spec rfl (by decide) (by decide)
  obtain ⟨hTakes, -⟩ := hReads c .start _ ['d'] hClean (by decide) hUnfailing rfl
  exact ⟨hTakes, hTrees .start _ _ _ .std hUnfailing hTakes hCloses hClean.marksApart⟩

end Mode

end MarkerLex
