import Mathlib.Logic.Relation
import MarkerLex.Proofs.Plain
import MarkerLex.Proofs.Slice

/-!
# Guarded readers

A buffer that is measured in bytes can be asked for too much: for a difference below zero, or for
a cut inside a character. A guarded reader computes with such measures, and where one of them does
not exist it has no reaction. A guarded reader that keeps close to a reader always has one, and it
comes to the same as the reader.
-/

namespace MarkerLex

set_option autoImplicit false

def difference? (a b : Nat) : Option Nat := if b ≤ a then some (a - b) else none

theorem difference?_of_le {a b : Nat} (h : b ≤ a) : difference? a b = some (a - b) := if_pos h

namespace Text

/-- The parts in front of an offset in bytes and behind it, if it is not inside a character. -/
def cut? : Nat → Text → Option (Text × Text)
  | 0, t => some ([], t)
  | _ + 1, [] => none
  | n + 1, c :: t =>
    if c.utf8Size ≤ n + 1 then
      (cut? (n + 1 - c.utf8Size) t).map fun (before, behind) => (c :: before, behind)
    else none

/-- The offset falls between two characters, or at one of the ends. -/
def Boundary (t : Text) (offset : Nat) : Prop :=
  ∃ before behind, t = before ++ behind ∧ before.byteLength = offset

variable {t before behind marker : Text} {offset : Nat}

theorem cut?_append (before behind : Text) :
    cut? before.byteLength (before ++ behind) = some (before, behind) := by
  induction before with
  | nil => rw [byteLength, cut?]; rfl
  | cons c before ih =>
    obtain ⟨n, hSize⟩ := Nat.exists_eq_succ_of_ne_zero (Nat.ne_of_gt c.utf8Size_pos)
    have hLength : byteLength (c :: before) = n + byteLength before + 1 := by
      rw [byteLength, hSize]
      omega
    have hRest : n + byteLength before + 1 - c.utf8Size = byteLength before := by omega
    rw [hLength, List.cons_append, cut?, if_pos (by omega), hRest, ih]
    rfl

theorem cut?_eq_some : cut? offset t = some (before, behind) ↔
    t = before ++ behind ∧ before.byteLength = offset := by
  constructor
  · intro h
    fun_induction cut? offset t generalizing before behind with
    | case1 => cases h; exact ⟨rfl, rfl⟩
    | case2 => cases h
    | case3 n c t hFits ih =>
      obtain ⟨⟨first, rest⟩, hCut, hParts⟩ := Option.map_eq_some_iff.mp h
      cases hParts
      obtain ⟨rfl, hLength⟩ := ih hCut
      refine ⟨rfl, ?_⟩
      rw [byteLength, hLength]
      omega
    | case4 => cases h
  · rintro ⟨rfl, rfl⟩
    exact cut?_append before behind

theorem Boundary.le_byteLength (h : t.Boundary offset) : offset ≤ t.byteLength := by
  obtain ⟨before, behind, rfl, rfl⟩ := h
  rw [byteLength_append]
  exact Nat.le_add_right _ _

/-- A marker at the end of a text is not longer than the text, and what is left of the length
leads between two characters. -/
theorem cut?_behind (front marker : Text) :
    difference? (front ++ marker).byteLength marker.byteLength = some front.byteLength ∧
      cut? front.byteLength (front ++ marker) = some (front, marker) := by
  constructor
  · rw [byteLength_append, difference?_of_le (Nat.le_add_left _ _), Nat.add_sub_cancel]
  · exact cut?_append front marker

end Text

/-- A reader whose reactions depend on measures that may not exist. -/
structure GuardedReader (σ : Type) where
  react? : σ → Position → Char → Option (Reaction σ)
  finish : σ → Traced Outcome

namespace GuardedReader

variable {σ τ : Type}

def run? (r : GuardedReader σ) (state : σ) (place : Position) :
    List Signal → Option (Traced (Outcome × Source))
  | [] => some ((r.finish state).map (·, ⟨[], place⟩))
  | .note n :: rest => (run? r state place rest).map (Traced.after [n.event place])
  | .failure f :: rest =>
    some ⟨[.readFailed f], (.error ⟨.source (Source.errorAt place f), place⟩, ⟨rest, place⟩)⟩
  | .char c :: rest =>
    match r.react? state place c with
    | none => none
    | some (.proceed state) => run? r state (place.advance c) rest
    | some (.remark event state) => (run? r state (place.advance c) rest).map (Traced.after [event])
    | some (.leave outcome) => some (outcome.map (·, ⟨.char c :: rest, place⟩))
    | some (.take outcome) => some (outcome.map (·, ⟨rest, place.advance c⟩))

/-- The reader has come from one state to the next with one character. -/
def Moves (r : GuardedReader σ) (state next : σ) : Prop :=
  ∃ place c, r.react? state place c = some (.proceed next) ∨
    ∃ event, r.react? state place c = some (.remark event next)

/-- With some characters the reader comes from one state to the other. -/
def Reaches (r : GuardedReader σ) : σ → σ → Prop := Relation.ReflTransGen r.Moves

/-- Two reactions with the same outcome, or with states that belong together. -/
inductive Agree (R : σ → τ → Prop) : Reaction σ → Reaction τ → Prop
  | proceed {s : σ} {t : τ} (h : R s t) : Agree R (.proceed s) (.proceed t)
  | remark {s : σ} {t : τ} (event : Event) (h : R s t) :
    Agree R (.remark event s) (.remark event t)
  | leave (outcome : Traced Outcome) : Agree R (.leave outcome) (.leave outcome)
  | take (outcome : Traced Outcome) : Agree R (.take outcome) (.take outcome)

/-- From states that belong together the guarded reader has a reaction, and it is that of the
reader. -/
structure KeepsTo (guarded : GuardedReader σ) (r : Reader τ) (R : σ → τ → Prop) : Prop where
  finish : ∀ s t, R s t → guarded.finish s = r.finish t
  react : ∀ s t place c, R s t →
    ∃ reaction, guarded.react? s place c = some reaction ∧ Agree R reaction (r.react t place c)

theorem KeepsTo.run?_eq {guarded : GuardedReader σ} {r : Reader τ} {R : σ → τ → Prop}
    (h : guarded.KeepsTo r R) {s : σ} {t : τ} (hStates : R s t) (place : Position)
    (signals : List Signal) : guarded.run? s place signals = some (r.run t place signals) := by
  induction signals generalizing s t place with
  | nil => rw [run?, Reader.run, h.finish s t hStates]
  | cons signal rest ih =>
    cases signal with
    | note n => rw [run?, Reader.run, ih hStates place, Option.map_some]
    | failure f => rfl
    | char c =>
      obtain ⟨reaction, hReact, hAgree⟩ := h.react s t place c hStates
      rw [run?, Reader.run, hReact]
      generalize r.react t place c = plain at hAgree
      cases hAgree with
      | proceed hNext => exact ih hNext _
      | remark event hNext => simp only [ih hNext, Option.map_some]
      | leave outcome | take outcome => rfl

/-- A term is cut off its marker where the length of the marker, in bytes, leads. -/
def std (g : Grammar) : GuardedReader Pending where
  react? p place c :=
    if g.isWhitespace c then
      some (.leave ⟨[.whitespaceMet], .ok (.emit p.term? .whitespace)⟩)
    else
      let p := p.push place c
      match g.opening? p.newest with
      | none => some (.proceed p)
      | some d => do
        let length ← difference? p.text.byteLength d.start.byteLength
        let (kept, _) ← Text.cut? length p.text
        let before : Pending := { p with newest := kept.reverse }
        some (.take ⟨[d.openedEvent before.stop],
          .ok (.emit before.term? (.ofDelimiter before.stop d))⟩)
  finish := (Reader.std g).finish

def whitespace (g : Grammar) : GuardedReader Unit where
  react? _ place c := some ((Reader.whitespace g).react () place c)
  finish := (Reader.whitespace g).finish

/-- The depth goes down by one where there is one to take. -/
def comment (config : Config) (spec : CommentSpec) (start : Position) :
    GuardedReader OpenComment where
  react? s _ c :=
    if Text.endsIn (c :: s.newest) spec.stop then do
      let depth ← difference? s.depth 1
      if depth = 0 then
        some (.take ⟨[.commentClosed],
          .ok (.emit (some ⟨.comment, (c :: s.newest).reverse, start⟩) .std)⟩)
      else some (.remark (.innerCommentClosed depth) ⟨c :: s.newest, depth⟩)
    else if spec.nestable && Text.endsIn (c :: s.newest) spec.start then
      if config.maxCommentDepth < s.depth + 1 then
        some (.take ⟨[.nestedTooDeep config.maxCommentDepth],
          .error ⟨.commentTooDeep config.maxCommentDepth, start⟩⟩)
      else some (.remark (.innerCommentOpened (s.depth + 1)) ⟨c :: s.newest, s.depth + 1⟩)
    else some (.proceed ⟨c :: s.newest, s.depth⟩)
  finish := (Reader.comment config spec start).finish

variable {g : Grammar} {config : Config}

theorem keepsTo_std (g : Grammar) : (std g).KeepsTo (Reader.std g) Eq where
  finish := by
    rintro p _ rfl
    rfl
  react := by
    rintro p _ place c rfl
    obtain ⟨hSpace, hReact⟩ | ⟨hSolid, hNone, hReact⟩ | ⟨hSolid, d, before, hOpening, rfl, hReact⟩ :=
      Reader.std_react_cases g p place c
    · rw [hReact]
      exact ⟨_, by simp [std, hSpace], .leave _⟩
    · rw [hReact]
      exact ⟨_, by simp [std, hSolid, Pending.push, hNone], .proceed rfl⟩
    · rw [hReact]
      obtain ⟨front, hText⟩ := Grammar.start_suffix_of_opening? hOpening
      have hNewest : (p.push place c).newest = (front ++ d.start).reverse := by
        rw [hText, List.reverse_reverse]
        rfl
      have hWithout : (p.push place c).without d.start =
          { p.push place c with newest := front.reverse } := by
        rw [Pending.without, hNewest, List.reverse_append, List.drop_left' List.length_reverse]
      obtain ⟨hLength, hCut⟩ := Text.cut?_behind front d.start
      have hWhole : (p.push place c).text = front ++ d.start := by
        rw [Pending.text, hNewest, List.reverse_reverse]
      refine ⟨_, ?_, .take _⟩
      have hHere : g.opening? (p.push place c).newest = some d := hOpening
      simp [std, hSolid, hHere, hWhole, hLength, hCut, hWithout]

theorem keepsTo_whitespace (g : Grammar) : (whitespace g).KeepsTo (Reader.whitespace g) Eq where
  finish := by
    rintro _ _ rfl
    rfl
  react := by
    rintro _ _ place c rfl
    refine ⟨_, rfl, ?_⟩
    obtain ⟨-, hReact⟩ | ⟨-, hReact⟩ := Reader.whitespace_react_cases g place c
    · rw [hReact]
      exact .proceed rfl
    · rw [hReact]
      exact .leave _

/-- At the start of a step and wherever it reads on, a comment is open. -/
theorem keepsTo_comment (config : Config) (spec : CommentSpec) (start : Position) :
    (comment config spec start).KeepsTo (Reader.comment config spec start)
      (fun s t => s = t ∧ 1 ≤ t.depth) where
  finish := by
    rintro s _ ⟨rfl, -⟩
    rfl
  react := by
    rintro s _ place c ⟨rfl, hOpen⟩
    obtain ⟨hStop, ⟨hLast, hReact⟩ | ⟨hInner, hReact⟩⟩ |
        ⟨hGoesOn, hNested, ⟨hDeep, hReact⟩ | ⟨hWithin, hReact⟩⟩ | ⟨hGoesOn, hPlain, hReact⟩ :=
      Reader.comment_react_cases config spec start s place c
    · rw [hReact]
      exact ⟨_, by simp [comment, hStop, difference?_of_le hOpen, hLast], .take _⟩
    · rw [hReact]
      exact ⟨_, by simp [comment, hStop, difference?_of_le hOpen, hInner],
        .remark _ ⟨rfl, Nat.pos_of_ne_zero hInner⟩⟩
    · rw [hReact]
      exact ⟨_, by simp only [comment, hGoesOn, hNested, hDeep, Bool.false_eq_true, if_false,
        if_true], .take _⟩
    · rw [hReact]
      exact ⟨_, by simp only [comment, hGoesOn, hNested, hWithin, Bool.false_eq_true, if_false,
        if_true], .remark _ ⟨rfl, Nat.le_add_left _ _⟩⟩
    · rw [hReact]
      exact ⟨_, by simp only [comment, hGoesOn, hPlain, Bool.false_eq_true, if_false],
        .proceed ⟨rfl, hOpen⟩⟩

/-- What a character that a comment reads on with does to its depth. -/
theorem depth_of_moves {spec : CommentSpec} {start : Position} {s next : OpenComment}
    (h : (comment config spec start).Moves s next) :
    next.depth = s.depth - 1 ∧ next.depth ≠ 0 ∨
      next.depth = s.depth + 1 ∧ next.depth ≤ config.maxCommentDepth ∨ next.depth = s.depth := by
  obtain ⟨place, c, hReact⟩ := h
  simp only [comment, difference?, Option.bind_eq_bind] at hReact
  split at hReact
  case isTrue =>
    by_cases hOpen : 1 ≤ s.depth
    · by_cases hLast : s.depth - 1 = 0
      · simp [hOpen, hLast] at hReact
      · left
        obtain rfl : ⟨c :: s.newest, s.depth - 1⟩ = next := by
          simpa [hOpen, hLast] using hReact
        exact ⟨rfl, hLast⟩
    · simp [hOpen] at hReact
  case isFalse =>
    right
    split at hReact
    case isTrue =>
      left
      by_cases hDeep : config.maxCommentDepth < s.depth + 1
      · simp [hDeep] at hReact
      · obtain rfl : ⟨c :: s.newest, s.depth + 1⟩ = next := by
          simpa [hDeep] using hReact
        exact ⟨rfl, Nat.le_of_not_lt hDeep⟩
    case isFalse =>
      right
      obtain rfl : ⟨c :: s.newest, s.depth⟩ = next := by
        simpa using hReact
      rfl

/-- Wherever a comment reads on, it is open, and not deeper than the limit or than one. -/
theorem depth_of_reaches {spec : CommentSpec} {start : Position} {s : OpenComment}
    (h : (comment config spec start).Reaches spec.opened s) :
    1 ≤ s.depth ∧ s.depth ≤ max 1 config.maxCommentDepth := by
  induction h with
  | refl => exact ⟨Nat.le_refl 1, Nat.le_max_left ..⟩
  | tail _ hMoves ih =>
    obtain ⟨hLow, hHigh⟩ := ih
    obtain ⟨hDepth, hOpen⟩ | ⟨hDepth, hWithin⟩ | hDepth := depth_of_moves hMoves
    · omega
    · omega
    · omega

end GuardedReader

end MarkerLex
