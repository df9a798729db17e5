import MarkerLex.Mode.Step

/-!
# What readers take

A reader takes a beginning of what is to come and leaves the rest, whatever it
decides. Remarks among the signals change nothing but the events, and on a bare
text a reader passes over characters until one of them, or the end, decides.
-/

namespace MarkerLex

set_option autoImplicit false

namespace Signal

@[simp] theorem chars_map_char (t : Text) : chars (t.map .char) = t := by
  induction t with
  | nil => rfl
  | cons c t ih => exact congrArg (c :: ·) ih

theorem chars_append (a b : List Signal) : chars (a ++ b) = chars a ++ chars b := by
  induction a with
  | nil => rfl
  | cons signal a ih =>
    cases signal with
    | char c => exact congrArg (c :: ·) ih
    | note n => exact ih
    | failure f => exact ih

end Signal

namespace Source

def plain (t : Text) (place : Position) : Source := ⟨t.map .char, place⟩

@[simp] theorem unread_plain (t : Text) (place : Position) : (plain t place).unread = t :=
  Signal.chars_map_char t

@[simp] theorem position_plain (t : Text) (place : Position) : (plain t place).position = place :=
  rfl

/-- The place after the last character that a source can deliver. -/
def stop (s : Source) : Position := s.position.advancedBy s.unread

/-- `left` is what remains of `s` once `taken` has been taken. -/
structure Leaves (s : Source) (taken : Text) (left : Source) : Prop where
  signals : left.signals <:+ s.signals
  unread : s.unread = taken ++ left.unread
  position : left.position = s.position.advancedBy taken

namespace Leaves

variable {s left last : Source} {a b : Text}

theorem refl (s : Source) : Leaves s [] s := ⟨List.suffix_rfl, rfl, rfl⟩

theorem trans (hFirst : Leaves s a left) (hThen : Leaves left b last) : Leaves s (a ++ b) last where
  signals := hThen.signals.trans hFirst.signals
  unread := by rw [hFirst.unread, hThen.unread, List.append_assoc]
  position := by rw [hThen.position, hFirst.position, Position.advancedBy_append]

theorem stop_eq (h : Leaves s a left) : left.stop = s.stop := by
  rw [stop, stop, h.position, h.unread, Position.advancedBy_append]

end Leaves

def stripped (s : Source) : Source := plain s.unread s.position

def Unfailing (s : Source) : Prop := ∀ f, Signal.failure f ∉ s.signals

theorem unfailing_plain (t : Text) (place : Position) : (plain t place).Unfailing := by
  intro f hf
  obtain ⟨c, -, hc⟩ := List.mem_map.mp hf
  cases hc

theorem Unfailing.of_leaves {s left : Source} {taken : Text} (h : s.Unfailing)
    (hLeaves : Leaves s taken left) : left.Unfailing :=
  fun f hf => h f (hLeaves.signals.mem hf)

end Source

namespace Reader

open Source

variable {σ : Type} (r : Reader σ)

theorem run_leaves (state : σ) (place : Position) (signals : List Signal) :
    ∃ taken, Leaves ⟨signals, place⟩ taken (r.run state place signals).value.2 := by
  induction signals generalizing state place with
  | nil => exact ⟨[], Leaves.refl _⟩
  | cons signal rest ih =>
    cases signal with
    | note n =>
      obtain ⟨taken, h⟩ := ih state place
      exact ⟨taken, h.signals.trans (List.suffix_cons _ _), h.unread, h.position⟩
    | failure f => exact ⟨[], List.suffix_cons _ _, rfl, rfl⟩
    | char c =>
      have further (state : σ) : ∃ taken, Leaves ⟨.char c :: rest, place⟩ taken
          (r.run state (place.advance c) rest).value.2 := by
        obtain ⟨taken, h⟩ := ih state (place.advance c)
        exact ⟨c :: taken, h.signals.trans (List.suffix_cons _ _), congrArg (c :: ·) h.unread,
          h.position⟩
      rw [run]
      split
      · exact further _
      · exact further _
      · exact ⟨[], Leaves.refl _⟩
      · exact ⟨[c], List.suffix_cons _ _, rfl, rfl⟩

/-- A reader decides by the characters alone, or it meets a failure. -/
theorem run_stripped_or_failed (state : σ) (place : Position) (signals : List Signal) :
    (r.run state place ((Signal.chars signals).map .char)).value =
      ((r.run state place signals).value.1, (r.run state place signals).value.2.stripped) ∨
    ∃ f rest stop, .failure f ∈ signals ∧ (r.run state place signals).value =
      (.error ⟨.source (errorAt stop f), stop⟩, ⟨rest, stop⟩) := by
  induction signals generalizing state place with
  | nil => exact .inl rfl
  | cons signal rest ih =>
    have later {state : σ} {place : Position} :
        (r.run state place ((Signal.chars rest).map .char)).value =
          ((r.run state place rest).value.1, (r.run state place rest).value.2.stripped) ∨
        ∃ f left stop, .failure f ∈ signal :: rest ∧ (r.run state place rest).value =
          (.error ⟨.source (errorAt stop f), stop⟩, ⟨left, stop⟩) := by
      refine (ih state place).imp_right ?_
      rintro ⟨f, left, stop, hf, hRun⟩
      exact ⟨f, left, stop, List.mem_cons_of_mem _ hf, hRun⟩
    cases signal with
    | note n => exact later
    | failure f => exact .inr ⟨f, rest, place, List.mem_cons_self, rfl⟩
    | char c =>
      rw [Signal.chars, List.map_cons, run, run]
      split
      · exact later
      · exact later
      · exact .inl rfl
      · exact .inl rfl

/-- The state in which a reader has taken a whole text without a decision. -/
def passed? (state : σ) (place : Position) : Text → Option σ
  | [] => some state
  | c :: t =>
    match r.react state place c with
    | .proceed state => passed? state (place.advance c) t
    | .remark _ state => passed? state (place.advance c) t
    | .leave _ => none
    | .take _ => none

theorem passed?_append (state : σ) (place : Position) (a b : Text) :
    r.passed? state place (a ++ b) =
      (r.passed? state place a).bind fun s => r.passed? s (place.advancedBy a) b := by
  induction a generalizing state place with
  | nil => rfl
  | cons c a ih =>
    rw [List.cons_append, passed?, passed?]
    split
    · exact ih _ _
    · exact ih _ _
    · rfl
    · rfl

theorem run_of_passed? {state state' : σ} {place : Position} {t : Text}
    (h : r.passed? state place t = some state') (signals : List Signal) :
    (r.run state place (t.map .char ++ signals)).value =
      (r.run state' (place.advancedBy t) signals).value := by
  induction t generalizing state place with
  | nil =>
    rw [passed?, Option.some.injEq] at h
    subst h
    rfl
  | cons c t ih =>
    rw [passed?] at h
    rw [List.map_cons, List.cons_append, run]
    cases hReact : r.react state place c with
    | proceed next | remark event next =>
      rw [hReact] at h
      exact ih h
    | leave outcome | take outcome =>
      rw [hReact] at h
      cases h

inductive Decision (state : σ) (place : Position) (t : Text) : Outcome → Source → Prop
  | finish {last : σ} (hPassed : r.passed? state place t = some last) :
    Decision state place t (r.finish last).value (plain [] (place.advancedBy t))
  | leave {a rest : Text} {c : Char} {last : σ} {outcome : Traced Outcome}
    (hText : t = a ++ c :: rest) (hPassed : r.passed? state place a = some last)
    (hReact : r.react last (place.advancedBy a) c = .leave outcome) :
    Decision state place t outcome.value (plain (c :: rest) (place.advancedBy a))
  | take {a rest : Text} {c : Char} {last : σ} {outcome : Traced Outcome}
    (hText : t = a ++ c :: rest) (hPassed : r.passed? state place a = some last)
    (hReact : r.react last (place.advancedBy a) c = .take outcome) :
    Decision state place t outcome.value (plain rest (place.advancedBy (a ++ [c])))

variable {r} in
theorem Decision.after {state state' : σ} {place : Position} {c : Char} {t : Text}
    {outcome : Outcome} {left : Source}
    (hReact : ∀ t, r.passed? state place (c :: t) = r.passed? state' (place.advance c) t)
    (h : r.Decision state' (place.advance c) t outcome left) :
    r.Decision state place (c :: t) outcome left := by
  cases h with
  | finish hPassed => exact .finish ((hReact t).trans hPassed)
  | @leave a rest d last outcome hText hPassed hDecide =>
    subst hText
    exact .leave (a := c :: a) rfl ((hReact a).trans hPassed) hDecide
  | @take a rest d last outcome hText hPassed hDecide =>
    subst hText
    exact .take (a := c :: a) rfl ((hReact a).trans hPassed) hDecide

theorem run_decides (state : σ) (place : Position) (t : Text) :
    r.Decision state place t (r.run state place (t.map .char)).value.1
      (r.run state place (t.map .char)).value.2 := by
  induction t generalizing state place with
  | nil => exact .finish rfl
  | cons c t ih =>
    rw [List.map_cons, run]
    split
    case h_1 state' hReact =>
      exact (ih state' (place.advance c)).after fun t => by rw [passed?, hReact]
    case h_2 event state' hReact =>
      exact (ih state' (place.advance c)).after fun t => by rw [passed?, hReact]
    case h_3 outcome hReact => exact .leave (a := []) rfl rfl hReact
    case h_4 outcome hReact => exact .take (a := []) rfl rfl hReact

variable {r} in
theorem Decision.run_eq {state : σ} {place : Position} {t : Text} {outcome : Outcome}
    {left : Source} (h : r.Decision state place t outcome left) :
    (r.run state place (t.map .char)).value = (outcome, left) := by
  cases h with
  | @finish last hPassed =>
    have hRun := r.run_of_passed? hPassed []
    rwa [List.append_nil] at hRun
  | @leave a rest c last outcome hText hPassed hReact =>
    rw [hText, List.map_append, r.run_of_passed? hPassed _, List.map_cons, run, hReact]
    rfl
  | @take a rest c last outcome hText hPassed hReact =>
    rw [hText, List.map_append, r.run_of_passed? hPassed _, List.map_cons, run, hReact,
      Position.advancedBy_append]
    rfl

theorem run_ends {P : Outcome → Source → Prop}
    (hFinish : ∀ state place, P (r.finish state).value ⟨[], place⟩)
    (hFailure : ∀ f place rest, P (.error ⟨.source (errorAt place f), place⟩) ⟨rest, place⟩)
    (hLeave : ∀ state place c rest outcome, r.react state place c = .leave outcome →
      P outcome.value ⟨.char c :: rest, place⟩)
    (hTake : ∀ state place c rest outcome, r.react state place c = .take outcome →
      P outcome.value ⟨rest, place.advance c⟩)
    (state : σ) (place : Position) (signals : List Signal) :
    P (r.run state place signals).value.1 (r.run state place signals).value.2 := by
  induction signals generalizing state place with
  | nil => exact hFinish state place
  | cons signal rest ih =>
    cases signal with
    | note n => exact ih state place
    | failure f => exact hFailure f place rest
    | char c =>
      rw [run]
      split
      case h_1 next hReact => exact ih next _
      case h_2 event next hReact => exact ih next _
      case h_3 outcome hReact => exact hLeave state place c rest outcome hReact
      case h_4 outcome hReact => exact hTake state place c rest outcome hReact

end Reader

/-! What each reader does with a character. -/

namespace Reader

theorem std_react_cases (g : Grammar) (p : Pending) (place : Position) (c : Char) :
    (g.isWhitespace c = true ∧
      (std g).react p place c = .leave ⟨[.whitespaceMet], .ok (.emit p.term? .whitespace)⟩) ∨
    (g.isWhitespace c = false ∧ g.opening? (c :: p.newest) = none ∧
      (std g).react p place c = .proceed (p.push place c)) ∨
    (g.isWhitespace c = false ∧ ∃ d before, g.opening? (c :: p.newest) = some d ∧
      before = (p.push place c).without d.start ∧
      (std g).react p place c = .take ⟨[d.openedEvent before.stop],
        .ok (.emit before.term? (.ofDelimiter before.stop d))⟩) := by
  by_cases hSpace : g.isWhitespace c = true
  · exact .inl ⟨hSpace, by simp only [std, hSpace, if_true]⟩
  · have hSpace : g.isWhitespace c = false := by simpa using hSpace
    cases hOpening : g.opening? (c :: p.newest) with
    | none =>
      refine .inr (.inl ⟨hSpace, rfl, ?_⟩)
      simp [std, hSpace, Pending.push, hOpening]
    | some d =>
      refine .inr (.inr ⟨hSpace, d, _, rfl, rfl, ?_⟩)
      simp [std, hSpace, Pending.push, hOpening]

theorem whitespace_react_cases (g : Grammar) (place : Position) (c : Char) :
    (g.isWhitespace c = true ∧ (whitespace g).react () place c = .proceed ()) ∨
    (g.isWhitespace c = false ∧
      (whitespace g).react () place c = .leave (.silent (.ok (.emit none .std)))) := by
  cases hSpace : g.isWhitespace c with
  | true => exact .inl ⟨rfl, by simp only [whitespace, hSpace, if_true]⟩
  | false => exact .inr ⟨rfl, by simp [whitespace, hSpace]⟩

theorem comment_react_cases (config : Config) (spec : CommentSpec) (start : Position)
    (s : OpenComment) (place : Position) (c : Char) :
    (Text.endsIn (c :: s.newest) spec.stop = true ∧
      (s.depth - 1 = 0 ∧ (comment config spec start).react s place c =
          .take ⟨[.commentClosed],
            .ok (.emit (some ⟨.comment, (c :: s.newest).reverse, start⟩) .std)⟩ ∨
        s.depth - 1 ≠ 0 ∧ (comment config spec start).react s place c =
          .remark (.innerCommentClosed (s.depth - 1)) ⟨c :: s.newest, s.depth - 1⟩)) ∨
    (Text.endsIn (c :: s.newest) spec.stop = false ∧
      (spec.nestable && Text.endsIn (c :: s.newest) spec.start) = true ∧
      (config.maxCommentDepth < s.depth + 1 ∧ (comment config spec start).react s place c =
          .take ⟨[.nestedTooDeep config.maxCommentDepth],
            .error ⟨.commentTooDeep config.maxCommentDepth, start⟩⟩ ∨
        ¬ config.maxCommentDepth < s.depth + 1 ∧ (comment config spec start).react s place c =
          .remark (.innerCommentOpened (s.depth + 1)) ⟨c :: s.newest, s.depth + 1⟩)) ∨
    (Text.endsIn (c :: s.newest) spec.stop = false ∧
      (spec.nestable && Text.endsIn (c :: s.newest) spec.start) = false ∧
      (comment config spec start).react s place c = .proceed ⟨c :: s.newest, s.depth⟩) := by
  cases hStop : Text.endsIn (c :: s.newest) spec.stop with
  | true =>
    refine .inl ⟨rfl, ?_⟩
    by_cases hDepth : s.depth - 1 = 0
    · exact .inl ⟨hDepth, by simp [comment, hStop, hDepth]⟩
    · exact .inr ⟨hDepth, by simp [comment, hStop, hDepth]⟩
  | false =>
    cases hStart : spec.nestable && Text.endsIn (c :: s.newest) spec.start with
    | true =>
      refine .inr (.inl ⟨rfl, rfl, ?_⟩)
      by_cases hDepth : config.maxCommentDepth < s.depth + 1
      · refine .inl ⟨hDepth, ?_⟩
        simp only [comment, hStop, hStart, hDepth, Bool.false_eq_true, if_false, if_true]
      · refine .inr ⟨hDepth, ?_⟩
        simp only [comment, hStop, hStart, hDepth, Bool.false_eq_true, if_false, if_true]
    | false =>
      refine .inr (.inr ⟨rfl, rfl, ?_⟩)
      simp only [comment, hStop, hStart, Bool.false_eq_true, if_false]

theorem comment_finish (config : Config) (spec : CommentSpec) (start : Position) (s : OpenComment) :
    ((comment config spec start).finish s).value =
      if config.strictComments then .error ⟨.unterminatedComment spec.stop, start⟩
      else .ok (.emit (some ⟨.comment, s.newest.reverse, start⟩) .std) := by
  simp only [comment]
  split <;> rfl

theorem string_react_cases (spec : StringSpec) (start : Position) (s : OpenString)
    (place : Position) (c : Char) :
    (s.escaped = true ∧
      (string spec start).react s place c = .proceed ⟨c :: s.newest, [], false⟩) ∨
    (s.escaped = false ∧ Text.endsIn (c :: s.fresh) spec.stop = true ∧
      (string spec start).react s place c = .take ⟨[.stringClosed],
        .ok (.emit (some ⟨.string spec.name, (c :: s.newest).reverse, start⟩) .std)⟩) ∨
    (s.escaped = false ∧ Text.endsIn (c :: s.fresh) spec.stop = false ∧
      spec.escape.any (Text.endsIn (c :: s.fresh)) = true ∧
      (string spec start).react s place c = .proceed ⟨c :: s.newest, [], true⟩) ∨
    (s.escaped = false ∧ Text.endsIn (c :: s.fresh) spec.stop = false ∧
      spec.escape.any (Text.endsIn (c :: s.fresh)) = false ∧
      (string spec start).react s place c = .proceed { s with fresh := c :: s.fresh }) := by
  obtain ⟨settled, fresh, escaped⟩ := s
  cases escaped with
  | true => exact .inl ⟨rfl, rfl⟩
  | false =>
    cases hStop : Text.endsIn (c :: fresh) spec.stop with
    | true => exact .inr (.inl ⟨rfl, rfl, by simp [string, hStop, OpenString.newest]⟩)
    | false =>
      cases hEscape : spec.escape.any (Text.endsIn (c :: fresh)) with
      | true =>
        refine .inr (.inr (.inl ⟨rfl, rfl, rfl, ?_⟩))
        simp only [string, hStop, hEscape, Bool.false_eq_true, if_false, if_true]
        rfl
      | false =>
        refine .inr (.inr (.inr ⟨rfl, rfl, rfl, ?_⟩))
        simp only [string, hStop, hEscape, Bool.false_eq_true, if_false]

/-! Only between delimiters a character can be left to the next step. -/

variable {g : Grammar} {c : Char} {outcome : Traced Outcome}

theorem std_leave {p : Pending} {place : Position}
    (h : (std g).react p place c = .leave outcome) : g.isWhitespace c = true ∧
      outcome = ⟨[.whitespaceMet], .ok (.emit p.term? .whitespace)⟩ := by
  rcases std_react_cases g p place c with
    ⟨hSpace, hReact⟩ | ⟨-, -, hReact⟩ | ⟨-, d, before, -, -, hReact⟩
  · cases hReact.symm.trans h
    exact ⟨hSpace, rfl⟩
  · cases hReact.symm.trans h
  · cases hReact.symm.trans h

theorem whitespace_leave {place : Position}
    (h : (whitespace g).react () place c = .leave outcome) : g.isWhitespace c = false ∧
      outcome = .silent (.ok (.emit none .std)) := by
  rcases whitespace_react_cases g place c with ⟨-, hReact⟩ | ⟨hSolid, hReact⟩
  · cases hReact.symm.trans h
  · cases hReact.symm.trans h
    exact ⟨hSolid, rfl⟩

theorem comment_ne_leave (config : Config) (spec : CommentSpec) (start : Position)
    (s : OpenComment) (place : Position) :
    (comment config spec start).react s place c ≠ .leave outcome := by
  intro h
  rcases comment_react_cases config spec start s place c with
    ⟨-, hReact | hReact⟩ | ⟨-, -, hReact | hReact⟩ | ⟨-, -, hReact⟩
  · cases hReact.2.symm.trans h
  · cases hReact.2.symm.trans h
  · cases hReact.2.symm.trans h
  · cases hReact.2.symm.trans h
  · cases hReact.symm.trans h

theorem string_ne_leave (spec : StringSpec) (start : Position) (s : OpenString)
    (place : Position) : (string spec start).react s place c ≠ .leave outcome := by
  intro h
  rcases string_react_cases spec start s place c with
    ⟨-, hReact⟩ | ⟨-, -, hReact⟩ | ⟨-, -, -, hReact⟩ | ⟨-, -, -, hReact⟩
  · cases hReact.symm.trans h
  · cases hReact.symm.trans h
  · cases hReact.symm.trans h
  · cases hReact.symm.trans h

end Reader

end MarkerLex
