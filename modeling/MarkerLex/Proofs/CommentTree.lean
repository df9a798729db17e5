import Mathlib.Data.List.Infix
import Mathlib.Data.List.Pairwise
import Mathlib.Data.List.Sort
import MarkerLex.Grammar.Validity

/-!
# Comments as trees

A comment with comments inside it is plain text between its start marker and its end marker, cut
by the inner comments. Written out, such a tree has its delimiters one after another, and they
say which tree it is. A tree is clean if no further marker comes about where its pieces meet.
-/

namespace MarkerLex

set_option autoImplicit false

def CommentSpec.marker (spec : CommentSpec) : MarkerSide → Text
  | .start => spec.start
  | .stop => spec.stop

theorem CommentSpec.marker_ne_nil {spec : CommentSpec} (hStart : spec.start ≠ [])
    (hStop : spec.stop ≠ []) (side : MarkerSide) : spec.marker side ≠ [] := by
  cases side with
  | start => exact hStart
  | stop => exact hStop

/-- A marker in a text: which one it is, and what stands before it. -/
structure Mark where
  side : MarkerSide
  before : Text
deriving DecidableEq, Repr

namespace Mark

variable (spec : CommentSpec)

/-- The text as far as the end of the marker. -/
def through (m : Mark) : Text := m.before ++ spec.marker m.side

def StandsIn (t : Text) (m : Mark) : Prop := m.through spec <+: t

/-- One of the two is over before the other begins. -/
def Apart (m m' : Mark) : Prop := m.through spec <+: m'.before ∨ m'.through spec <+: m.before

instance (t : Text) (m : Mark) : Decidable (m.StandsIn spec t) :=
  inferInstanceAs (Decidable (_ <+: _))

variable {spec} {m m' : Mark}

theorem length_lt_through (hStart : spec.start ≠ []) (hStop : spec.stop ≠ []) (m : Mark) :
    m.before.length < (m.through spec).length := by
  have hSome := List.length_pos_iff.mpr (spec.marker_ne_nil hStart hStop m.side)
  rw [through, List.length_append]
  omega

/-- Two markers with the same end are not apart. -/
theorem Apart.through_ne (hStart : spec.start ≠ []) (hStop : spec.stop ≠ [])
    (h : m.Apart spec m') : m.through spec ≠ m'.through spec := by
  intro hThrough
  have hLength := length_lt_through hStart hStop m
  have hLength' := length_lt_through hStart hStop m'
  rcases h with h | h
  · have hShort := h.length_le
    rw [hThrough] at hShort
    omega
  · have hShort := h.length_le
    rw [← hThrough] at hShort
    omega

end Mark

/-- No two markers in the text overlap. -/
def CommentSpec.MarksApart (spec : CommentSpec) (t : Text) : Prop :=
  ∀ m m' : Mark, m.StandsIn spec t → m'.StandsIn spec t → m ≠ m' → m.Apart spec m'

/-- A comment: plain text, and then each comment inside it with the plain text that follows. -/
inductive CommentTree where
  | node (plain : Text) (inner : List (CommentTree × Text))

namespace CommentTree

mutual

/-- What is written behind the start marker of the comment, its end marker included. -/
def body (spec : CommentSpec) : CommentTree → Text
  | .node plain inner => plain ++ bodyFrom spec inner

def bodyFrom (spec : CommentSpec) : List (CommentTree × Text) → Text
  | [] => spec.stop
  | (c, next) :: rest => spec.start ++ (c.body spec ++ (next ++ bodyFrom spec rest))

end

mutual

/-- How many comments are open where most of them are. -/
def height : CommentTree → Nat
  | .node _ inner => heightFrom inner

def heightFrom : List (CommentTree × Text) → Nat
  | [] => 1
  | (c, _) :: rest => max (c.height + 1) (heightFrom rest)

end

mutual

/-- The delimiters in the body of the comment, where `before` stands before it. -/
def bodyMarks (spec : CommentSpec) (before : Text) : CommentTree → List Mark
  | .node plain inner => bodyMarksFrom spec (before ++ plain) inner

def bodyMarksFrom (spec : CommentSpec) (before : Text) : List (CommentTree × Text) → List Mark
  | [] => [⟨.stop, before⟩]
  | (c, next) :: rest =>
    ⟨.start, before⟩ :: (c.bodyMarks spec (before ++ spec.start) ++
      bodyMarksFrom spec (before ++ spec.start ++ c.body spec ++ next) rest)

end

variable (spec : CommentSpec)

def text (c : CommentTree) : Text := spec.start ++ c.body spec

def marks (c : CommentTree) : List Mark := ⟨.start, []⟩ :: c.bodyMarks spec spec.start

/-- The only markers in the text of the comment are its delimiters, and these do not overlap. -/
structure Clean (c : CommentTree) : Prop where
  only : ∀ m : Mark, m.StandsIn spec (c.text spec) → m ∈ c.marks spec
  apart : (c.marks spec).Pairwise (Mark.Apart spec)

variable {spec} {plain next before : Text} {c c' : CommentTree} {m : Mark}
variable {rest : List (CommentTree × Text)}

theorem body_last : (node plain []).body spec = plain ++ spec.stop := rfl

theorem body_inner : (node plain ((c, next) :: rest)).body spec =
    plain ++ spec.start ++ c.body spec ++ (node next rest).body spec := by
  simp only [body, bodyFrom, List.append_assoc]

theorem height_inner : (node plain ((c, next) :: rest)).height =
    max (c.height + 1) (node next rest).height := rfl

theorem bodyMarks_last :
    (node plain []).bodyMarks spec before = [⟨.stop, before ++ plain⟩] := rfl

theorem bodyMarks_inner : (node plain ((c, next) :: rest)).bodyMarks spec before =
    ⟨.start, before ++ plain⟩ :: (c.bodyMarks spec (before ++ (plain ++ spec.start)) ++
      (node next rest).bodyMarks spec (before ++ (plain ++ spec.start) ++ c.body spec)) := by
  rw [← List.append_assoc before plain spec.start]
  rfl

/-- What follows an inner comment is made like a comment itself, so a tree is taken apart into
the first comment inside it and the rest. -/
@[elab_as_elim, induction_eliminator]
theorem induction {motive : CommentTree → Prop} (last : ∀ plain, motive (.node plain []))
    (inner : ∀ plain c next rest, motive c → motive (.node next rest) →
      motive (.node plain ((c, next) :: rest))) : ∀ c, motive c
  | .node plain [] => last plain
  | .node plain ((c, next) :: rest) =>
    inner plain c next rest (induction last inner c) (induction last inner (.node next rest))

/-- The delimiters of a body stand where it does. -/
theorem within_of_mem_bodyMarks (hm : m ∈ c.bodyMarks spec before) :
    before <+: m.before ∧ m.through spec <+: before ++ c.body spec := by
  induction c generalizing before with
  | last plain =>
    rw [bodyMarks_last, List.mem_singleton] at hm
    subst hm
    constructor
    · exact List.prefix_append before plain
    · rw [body_last, ← List.append_assoc]
      exact List.prefix_rfl
  | inner plain c next rest ih ihRest =>
    rw [bodyMarks_inner, List.mem_cons, List.mem_append] at hm
    rw [body_inner, List.append_assoc _ (c.body spec), ← List.append_assoc before]
    rcases hm with rfl | hm | hm
    · constructor
      · exact List.prefix_append before plain
      · rw [← List.append_assoc before plain]
        exact List.prefix_append _ _
    · obtain ⟨hBefore, hThrough⟩ := ih hm
      constructor
      · exact (List.prefix_append before _).trans hBefore
      · rw [← List.append_assoc]
        exact hThrough.trans (List.prefix_append _ _)
    · obtain ⟨hBefore, hThrough⟩ := ihRest hm
      rw [List.append_assoc] at hBefore hThrough
      constructor
      · exact (List.prefix_append before _).trans hBefore
      · simpa only [List.append_assoc] using hThrough

/-- The delimiters of a body stand in it one after another. -/
theorem bodyMarks_ordered (spec : CommentSpec) (before : Text) (c : CommentTree) :
    (c.bodyMarks spec before).Pairwise fun m m' => m.through spec <+: m'.before := by
  induction c generalizing before with
  | last plain => exact List.pairwise_singleton _ _
  | inner plain c next rest ih ihRest =>
    have hHead : (Mark.mk .start (before ++ plain)).through spec = before ++ (plain ++ spec.start) :=
      List.append_assoc before plain spec.start
    rw [bodyMarks_inner, List.pairwise_cons, List.pairwise_append, hHead]
    refine ⟨?_, ih _, ihRest _, ?_⟩
    · intro m hm
      rcases List.mem_append.mp hm with hm | hm
      · exact (within_of_mem_bodyMarks hm).1
      · exact (List.prefix_append _ (c.body spec)).trans (within_of_mem_bodyMarks hm).1
    · intro m hm m' hm'
      exact (within_of_mem_bodyMarks hm).2.trans (within_of_mem_bodyMarks hm').1

theorem marks_ordered (spec : CommentSpec) (c : CommentTree) :
    (c.marks spec).Pairwise fun m m' => m.through spec <+: m'.before :=
  List.pairwise_cons.mpr
    ⟨fun _ hm => (within_of_mem_bodyMarks hm).1, bodyMarks_ordered spec spec.start c⟩

theorem marks_apart (spec : CommentSpec) (c : CommentTree) :
    (c.marks spec).Pairwise (Mark.Apart spec) :=
  (marks_ordered spec c).imp .inl

theorem standsIn_of_mem_marks (hm : m ∈ c.marks spec) : m.StandsIn spec (c.text spec) := by
  rcases List.mem_cons.mp hm with rfl | hm
  · exact List.prefix_append _ _
  · exact (within_of_mem_bodyMarks hm).2

theorem Clean.marksApart (h : c.Clean spec) : spec.MarksApart (c.text spec) := by
  intro m m' hm hm' hOther
  have : Std.Symm (Mark.Apart spec) := ⟨fun _ _ => Or.symm⟩
  exact h.apart.forall (h.only m hm) (h.only m' hm') hOther

/-- The delimiters say which tree it is, and where the delimiters of what follows begin. -/
theorem eq_of_bodyMarks {l l' : List Mark}
    (h : c.bodyMarks spec before ++ l = c'.bodyMarks spec before ++ l') : c = c' ∧ l = l' := by
  induction c generalizing c' before l l' with
  | last plain =>
    match c' with
    | .node plain' [] =>
      obtain ⟨hMark, rfl⟩ := List.cons.inj h
      obtain rfl := List.append_cancel_left (Mark.mk.inj hMark).2
      exact ⟨rfl, rfl⟩
    | .node plain' ((c', next') :: rest') => cases (Mark.mk.inj (List.cons.inj h).1).1
  | inner plain c next rest ih ihRest =>
    match c' with
    | .node plain' [] => cases (Mark.mk.inj (List.cons.inj h).1).1
    | .node plain' ((c', next') :: rest') =>
      rw [bodyMarks_inner, bodyMarks_inner, List.cons_append, List.cons_append,
        List.append_assoc (c.bodyMarks spec _), List.append_assoc (c'.bodyMarks spec _)] at h
      obtain ⟨hMark, hMarks⟩ := List.cons.inj h
      obtain rfl := List.append_cancel_left (Mark.mk.inj hMark).2
      obtain ⟨rfl, hFollowing⟩ := ih hMarks
      obtain ⟨hRest, rfl⟩ := ihRest hFollowing
      obtain ⟨rfl, rfl⟩ := CommentTree.node.inj hRest
      exact ⟨rfl, rfl⟩

/-- Clean trees with the same text are the same. -/
theorem Clean.eq_of_text (hStart : spec.start ≠ []) (hStop : spec.stop ≠ []) (h : c.Clean spec)
    (h' : c'.Clean spec) (hText : c.text spec = c'.text spec) : c = c' := by
  let Earlier : Mark → Mark → Prop := fun m m' => m.before.length < m'.before.length
  have : Std.Irrefl Earlier := ⟨fun _ => Nat.lt_irrefl _⟩
  have : Std.Antisymm Earlier := ⟨fun _ _ hLess hMore => absurd hMore (Nat.lt_asymm hLess)⟩
  have hOrdered (c : CommentTree) : (c.marks spec).Pairwise Earlier :=
    (marks_ordered spec c).imp fun {m _} hBefore =>
      Nat.lt_of_lt_of_le (m.length_lt_through hStart hStop) hBefore.length_le
  have hMarks : c.marks spec = c'.marks spec := by
    refine (hOrdered c).eq_of_mem_iff (hOrdered c') fun m => ⟨fun hm => ?_, fun hm => ?_⟩
    · exact h'.only m (hText ▸ standsIn_of_mem_marks hm)
    · exact h.only m (hText ▸ standsIn_of_mem_marks hm)
  have hBodies := List.cons.inj hMarks
  rw [← List.append_nil (c.bodyMarks spec _), ← List.append_nil (c'.bodyMarks spec _)] at hBodies
  exact (eq_of_bodyMarks hBodies.2).1

theorem clean_iff : c.Clean spec ↔ ∀ side ∈ [MarkerSide.start, .stop],
    ∀ before ∈ (c.text spec).inits, (Mark.mk side before).StandsIn spec (c.text spec) →
      ⟨side, before⟩ ∈ c.marks spec := by
  constructor
  · intro h side _ before _ hStands
    exact h.only _ hStands
  · intro h
    refine ⟨fun m hStands => ?_, marks_apart spec c⟩
    have hBefore : m.before <+: c.text spec := (List.prefix_append _ _).trans hStands
    refine h m.side ?_ m.before ((List.mem_inits _ _).mpr hBefore) hStands
    cases m.side <;> simp

instance (spec : CommentSpec) (c : CommentTree) : Decidable (c.Clean spec) :=
  decidable_of_iff _ clean_iff.symm

example : ¬ (node ['/'] []).Clean ⟨['/', '*'], ['*', '/'], true⟩ := by decide

end CommentTree

end MarkerLex
