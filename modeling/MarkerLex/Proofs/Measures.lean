import MarkerLex.Proofs.Floor
import MarkerLex.Proofs.Requests
import MarkerLex.Proofs.Run

/-!
# Measures exist

A step can be made with guarded readers throughout, and it comes to the same: whatever the markers
are, empty or overlapping, every difference and every cut that it needs exists. Likewise a text
can be cut at the place of every source that is left of it, and what is behind the cut is unread.
-/

namespace MarkerLex

set_option autoImplicit false

namespace Mode

/-- A step of guarded readers. -/
def step? (g : Grammar) (config : Config) (mode : Mode) (s : Source) :
    Option (Traced (Outcome × Source)) :=
  match mode with
  | .std => (GuardedReader.std g).run? .empty s.position s.signals
  | .whitespace => (GuardedReader.whitespace g).run? () s.position s.signals
  | .comment spec start =>
    (GuardedReader.comment config spec start).run? spec.opened s.position s.signals
  | .string spec start =>
    (GuardedReader.string spec start).run? (.opened spec) s.position s.signals

theorem step?_eq (g : Grammar) (config : Config) (mode : Mode) (s : Source) :
    step? g config mode s = some (mode.step g config s) := by
  cases mode with
  | std => exact (GuardedReader.keepsTo_std g).run?_eq rfl _ _
  | whitespace => exact (GuardedReader.keepsTo_whitespace g).run?_eq rfl _ _
  | comment spec start =>
    exact (GuardedReader.keepsTo_comment config spec start).run?_eq ⟨rfl, Nat.le_refl 1⟩ _ _
  | string spec start =>
    have hOpened : StringBuffer.opened spec = .ofOpen spec.opened := by
      simp [StringBuffer.opened, StringBuffer.ofOpen, StringSpec.opened, OpenString.newest,
        Text.byteLength]
    exact (GuardedReader.keepsTo_string spec start).run?_eq hOpened _ _

end Mode

namespace Source

/-- One use of a source: a request, or a step of any lexer. -/
inductive Uses : Source → Source → Prop
  | request (s : Source) (request : Request) : Uses s (s.reply request).2
  | step (g : Grammar) (config : Config) (mode : Mode) (s : Source) :
    Uses s (mode.step g config s).value.2

/-- The source is what is left of a text whose beginning has been read. -/
def Rests (text : Text) (s : Source) : Prop :=
  ∃ read, text = read ++ s.unread ∧ s.position = Position.start.advancedBy read

variable {text taken : Text} {s left : Source}

theorem Rests.of_leaves (h : s.Rests text) (hUnread : s.unread = taken ++ left.unread)
    (hPlace : left.position = s.position.advancedBy taken) : left.Rests text := by
  obtain ⟨read, hText, hHere⟩ := h
  refine ⟨read ++ taken, ?_, ?_⟩
  · rw [hText, hUnread, List.append_assoc]
  · rw [hPlace, hHere, Position.advancedBy_append]

theorem rests_of_uses (h : Relation.ReflTransGen Uses (.ofText text) s) : s.Rests text := by
  induction h with
  | refl => exact ⟨[], (Signal.chars_map_char text).symm, rfl⟩
  | @tail here _ _ hUses ih =>
    cases hUses with
    | request _ request =>
      have hPasses := here.passes_reply request
      exact ih.of_leaves hPasses.unread hPasses.position
    | step g config mode =>
      obtain ⟨taken, hLeaves⟩ := Mode.step_leaves g config mode here
      exact ih.of_leaves hLeaves.unread hLeaves.position

theorem Rests.cut?_eq (h : s.Rests text) :
    ∃ read, Text.cut? s.position.byteOffset text = some (read, s.unread) := by
  obtain ⟨read, hText, hPlace⟩ := h
  refine ⟨read, Text.cut?_eq_some.mpr ⟨hText, ?_⟩⟩
  rw [hPlace, Position.byteOffset_start_advancedBy]

end Source

namespace Mode

/-- Whatever the markers of a grammar are and whatever a source delivers, no measure is missing in
a step. The marker that is cut off a term lies in the buffer, a comment that is read on is open
and within the limit, the floor of a string stays between two of its characters, and what an
escape has made ordinary stays below it. A text can be cut wherever a source over it stands. -/
theorem measures_exist (g : Grammar) (config : Config) :
    (∀ mode s, step? g config mode s = some (mode.step g config s)) ∧
    (∀ (p : Pending) (d : Delimiter), g.opening? p.newest = some d →
      d.start.byteLength ≤ p.text.byteLength ∧
        p.text.Boundary (p.text.byteLength - d.start.byteLength)) ∧
    (∀ spec start s, (GuardedReader.comment config spec start).Reaches spec.opened s →
      1 ≤ s.depth ∧ s.depth ≤ max 1 config.maxCommentDepth) ∧
    (∀ spec start b, (GuardedReader.string spec start).Reaches (.opened spec) b →
      b.Measured ∧ ∀ place c, b.escaped = true → ∃ next,
        (GuardedReader.string spec start).react? b place c = some (.proceed next) ∧
        next.chars = b.chars ++ [c] ∧
        ∀ later d, (GuardedReader.string spec start).Reaches next later →
          (later.push d).Spares next.chars) ∧
    ∀ text s, Relation.ReflTransGen Source.Uses (.ofText text) s →
      ∃ read, Text.cut? s.position.byteOffset text = some (read, s.unread) := by
  refine ⟨step?_eq g config, ?_, ?_, ?_, ?_⟩
  · intro p d hOpening
    obtain ⟨front, hFront⟩ := Grammar.start_suffix_of_opening? hOpening
    have hText : p.text = front ++ d.start := hFront.symm
    rw [hText, Text.byteLength_append]
    exact ⟨Nat.le_add_left _ _, front, d.start, rfl, (Nat.add_sub_cancel ..).symm⟩
  · exact fun spec start s hReaches => GuardedReader.depth_of_reaches hReaches
  · intro spec start b hReaches
    refine ⟨GuardedReader.measured_of_reaches hReaches, fun place c hEscaped => ?_⟩
    refine ⟨_, GuardedReader.string_react?_escaped hEscaped, rfl, fun later d hLater => ?_⟩
    exact GuardedReader.spares_of_settled hLater d
  · exact fun text s hUses => (Source.rests_of_uses hUses).cut?_eq

/-- With an empty escape every second character is an ordinary one, an end marker too. -/
theorem measures_exist_sample :
    let spec : StringSpec := ⟨['"'], ['"'], some [], none⟩
    (GuardedReader.string spec .start).Reaches (.opened spec) ⟨['"', 'é'], 3, true⟩ ∧
      (StringBuffer.mk ['"', 'é'] 3 true).Measured ∧ ∃ next,
        (GuardedReader.string spec .start).react? ⟨['"', 'é'], 3, true⟩ .start '"' =
          some (.proceed next) ∧
        next.chars = ['"', 'é', '"'] ∧ (next.push '"').Spares next.chars := by
  intro spec
  have hReaches : (GuardedReader.string spec .start).Reaches (.opened spec) ⟨['"', 'é'], 3, true⟩ :=
    .single ⟨.start, 'é', .inl (GuardedReader.string_react?_escape rfl rfl rfl)⟩
  obtain ⟨-, -, -, hString, -⟩ := measures_exist {} {}
  obtain ⟨hMeasured, hOrdinary⟩ := hString spec .start _ hReaches
  obtain ⟨next, hReact, hChars, hSpares⟩ := hOrdinary .start '"' rfl
  exact ⟨hReaches, hMeasured, next, hReact, hChars, hSpares next '"' .refl⟩

end Mode

end MarkerLex
