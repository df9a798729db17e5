import MarkerLex.Proofs.Closable
import MarkerLex.Proofs.NestingLimit

/-!
# The levels of a comment

Where a comment is closed, what has been read of it is nested: on each level the level is closed
at once, or an inner level is opened and closed first and then the rest of the level follows.
However the markers overlap, this is all that the counting of open comments comes to, and the
limit bounds how many levels there are.
-/

namespace MarkerLex

set_option autoImplicit false

namespace CommentSpec

/-- On the way to the end of `t`, read after `before`, nothing is closed or opened. -/
def Quiet (spec : CommentSpec) (before t : Text) : Prop :=
  ∀ q, q <+: t → q ≠ [] → q ≠ t →
    spec.closesAt (before ++ q) = false ∧ spec.opensAt (before ++ q) = false

/-- Read after `before`, the body closes the level at hand, so many levels having been open
in it. -/
inductive Nests (spec : CommentSpec) : (before body : Text) → (height : Nat) → Prop
  | last {before t : Text} (hQuiet : spec.Quiet before t) (hRead : t ≠ [])
    (hCloses : spec.closesAt (before ++ t) = true) : Nests spec before t 1
  | inner {before u v w : Text} {m n : Nat} (hQuiet : spec.Quiet before u) (hRead : u ≠ [])
    (hOpens : spec.opensAt (before ++ u) = true) (hInner : Nests spec (before ++ u) v m)
    (hRest : Nests spec (before ++ u ++ v) w n) :
    Nests spec before (u ++ v ++ w) (max (m + 1) n)

/-- The same by the depth: it does not fall below where it is, until it does so at the end. -/
structure Level (spec : CommentSpec) (limit : Nat) (before body : Text) : Prop where
  goesOn : ∀ q, q <+: body → q ≠ body →
    spec.Open limit (before ++ q) ∧ spec.depth before ≤ spec.depth (before ++ q)
  closed : spec.depth (before ++ body) = spec.depth before - 1

variable {spec : CommentSpec} {limit n : Nat} {before body q t u v w : Text}

theorem closesAt_of_opensAt (h : spec.opensAt body = true) : spec.closesAt body = false := by
  rw [Bool.eq_false_iff, ne_eq, closesAt_iff]
  exact (opensAt_iff.mp h).2.2

theorem Open.stretch (hOpen : spec.Open limit before)
    (hNone : ∀ q, q <+: t → q ≠ [] →
      spec.closesAt (before ++ q) = false ∧ spec.opensAt (before ++ q) = false) :
    spec.Open limit (before ++ t) ∧ spec.depth (before ++ t) = spec.depth before := by
  induction t using List.reverseRecOn with
  | nil =>
    rw [List.append_nil]
    exact ⟨hOpen, rfl⟩
  | append_singleton t c ih =>
    obtain ⟨hRead, hDepth⟩ := ih fun q hq => hNone q (hq.trans (List.prefix_append _ _))
    obtain ⟨hCloses, hOpens⟩ := hNone (t ++ [c]) List.prefix_rfl (by simp)
    rw [← List.append_assoc] at hCloses hOpens ⊢
    have hSame : spec.depth (before ++ t ++ [c]) = spec.depth before := by
      rw [depth_concat, hCloses, hOpens, hDepth]
      exact Int.add_zero _
    refine ⟨open_concat.mpr ⟨hRead, ?_, ?_⟩, hSame⟩
    · have hPos := hOpen.pos
      omega
    · intro hOpened
      cases hOpens.symm.trans hOpened

namespace Quiet

theorem goesOn (h : spec.Quiet before t) (hOpen : spec.Open limit before) (hq : q <+: t)
    (hShort : q ≠ t) :
    spec.Open limit (before ++ q) ∧ spec.depth (before ++ q) = spec.depth before := by
  refine hOpen.stretch fun p hp hRead => h p (hp.trans hq) hRead ?_
  rintro rfl
  exact hShort (hq.eq_of_length_le hp.length_le)

theorem depth_eq (h : spec.Quiet before t) (hOpen : spec.Open limit before) (hRead : t ≠ []) :
    spec.depth (before ++ t) = spec.depth before +
      if spec.closesAt (before ++ t) then -1 else if spec.opensAt (before ++ t) then 1 else 0 := by
  obtain ⟨a, c, rfl⟩ := Text.exists_concat hRead
  rw [← (h.goesOn hOpen (List.prefix_append a [c]) (by simp)).2, ← List.append_assoc, depth_concat]

theorem depth_of_closes (h : spec.Quiet before t) (hOpen : spec.Open limit before)
    (hRead : t ≠ []) (hCloses : spec.closesAt (before ++ t) = true) :
    spec.depth (before ++ t) = spec.depth before - 1 := by
  rw [h.depth_eq hOpen hRead, if_pos hCloses]
  rfl

theorem depth_of_opens (h : spec.Quiet before t) (hOpen : spec.Open limit before)
    (hRead : t ≠ []) (hOpens : spec.opensAt (before ++ t) = true) :
    spec.depth (before ++ t) = spec.depth before + 1 := by
  rw [h.depth_eq hOpen hRead, closesAt_of_opensAt hOpens, if_neg Bool.false_ne_true, if_pos hOpens]

theorem open_of_opens (h : spec.Quiet before t) (hOpen : spec.Open limit before)
    (hRead : t ≠ []) (hOpens : spec.opensAt (before ++ t) = true)
    (hShallow : spec.depth before < limit) : spec.Open limit (before ++ t) := by
  have hDepth := h.depth_of_opens hOpen hRead hOpens
  have hPos := hOpen.pos
  obtain ⟨a, c, rfl⟩ := Text.exists_concat hRead
  rw [← List.append_assoc] at hDepth ⊢
  have hEarlier := (h.goesOn hOpen (List.prefix_append a [c]) (by simp)).1
  exact open_concat.mpr ⟨hEarlier, by omega, fun _ => by omega⟩

end Quiet

namespace Level

theorem ne_nil (h : spec.Level limit before body) : body ≠ [] := by
  rintro rfl
  have hOver := h.closed
  rw [List.append_nil] at hOver
  omega

theorem before_open (h : spec.Level limit before body) : spec.Open limit before := by
  have hFirst := (h.goesOn [] List.nil_prefix h.ne_nil.symm).1
  rwa [List.append_nil] at hFirst

/-- Behind a level that is not the outermost one the comment goes on. -/
theorem open_after (h : spec.Level limit before body) (hInner : 1 < spec.depth before) :
    spec.Open limit (before ++ body) := by
  have hOver := h.closed
  have hBound := h.before_open.depth_le
  obtain ⟨a, c, rfl⟩ := Text.exists_concat h.ne_nil
  have hEarlier := (h.goesOn a (List.prefix_append a [c]) (by simp)).1
  rw [← List.append_assoc] at hOver ⊢
  exact open_concat.mpr ⟨hEarlier, by omega, fun _ => by omega⟩

/-- What opens an inner level, that level, and the rest of the outer one make up the outer one. -/
theorem of_opens (hQuiet : spec.Quiet before u) (hOpen : spec.Open limit before)
    (hUp : spec.depth (before ++ u) = spec.depth before + 1)
    (hInner : spec.Level limit (before ++ u) v) (hRest : spec.Level limit (before ++ u ++ v) w) :
    spec.Level limit before (u ++ v ++ w) := by
  have hDown := hInner.closed
  have hOver := hRest.closed
  constructor
  case goesOn =>
    intro q hq hShort
    rcases Text.prefix_append_cases hq with hq | ⟨p, hp, rfl⟩
    · rcases Text.prefix_append_cases hq with hq | ⟨p, hp, rfl⟩
      · by_cases hWhole : q = u
        · subst hWhole
          exact ⟨hInner.before_open, by omega⟩
        · obtain ⟨hGoesOn, hDepth⟩ := hQuiet.goesOn hOpen hq hWhole
          exact ⟨hGoesOn, Int.le_of_eq hDepth.symm⟩
      · rw [← List.append_assoc]
        by_cases hWhole : p = v
        · subst hWhole
          exact ⟨hRest.before_open, by omega⟩
        · obtain ⟨hGoesOn, hDepth⟩ := hInner.goesOn p hp hWhole
          exact ⟨hGoesOn, by omega⟩
    · rw [← List.append_assoc, ← List.append_assoc]
      obtain ⟨hGoesOn, hDepth⟩ := hRest.goesOn p hp fun hWhole => hShort (by rw [hWhole])
      exact ⟨hGoesOn, by omega⟩
  case closed =>
    rw [← List.append_assoc, ← List.append_assoc]
    omega

/-- Something is closed or opened first. -/
theorem exists_first (h : spec.Level limit before body) :
    ∃ u, u <+: body ∧ u ≠ [] ∧ spec.Quiet before u ∧
      (spec.closesAt (before ++ u) = true ∨ spec.opensAt (before ++ u) = true) := by
  let kind : Text → Bool := fun q => spec.closesAt (before ++ q) || spec.opensAt (before ++ q)
  have hSome : 0 < Text.beginnings kind body := by
    by_contra hNone
    have hSame := h.before_open.stretch (t := body) fun q hq hRead => by
      rw [← Bool.or_eq_false_iff]
      by_contra hKind
      exact hNone (Text.beginnings_pos hq hRead (Bool.not_eq_false _ ▸ hKind))
    have hOver := h.closed
    omega
  obtain ⟨u, hu, hRead, hKind, hFirst⟩ := Text.exists_first hSome
  refine ⟨u, hu, hRead, fun q hq hRead hShort => ?_, Bool.or_eq_true_iff.mp hKind⟩
  exact Bool.or_eq_false_iff.mp (hFirst q hq hRead hShort)

/-- Behind what opens an inner level the depth comes back, since it steps down one by one. -/
theorem exists_back (h : spec.Level limit before (u ++ t))
    (hUp : spec.depth (before ++ u) = spec.depth before + 1) :
    ∃ q, q <+: t ∧ q ≠ [] ∧ spec.depth (before ++ u ++ q) = spec.depth before := by
  have hOver := h.closed
  have hMore : t ≠ [] := by
    rintro rfl
    rw [List.append_nil] at hOver
    omega
  obtain ⟨a, c, rfl⟩ := Text.exists_concat hMore
  have hLast := (h.goesOn (u ++ a) (by simp) (by simp)).2
  rw [← List.append_assoc] at hLast hOver
  rw [← List.append_assoc, depth_concat] at hOver
  have hBack : spec.depth (before ++ u ++ a) = spec.depth before := by
    split at hOver
    · omega
    · split at hOver <;> omega
  refine ⟨a, List.prefix_append a [c], ?_, hBack⟩
  rintro rfl
  rw [List.append_nil] at hBack
  omega

/-- A level in which an inner one has been opened goes on with that one and with its own rest. -/
theorem exists_rest (h : spec.Level limit before (u ++ t))
    (hUp : spec.depth (before ++ u) = spec.depth before + 1) :
    ∃ v w, t = v ++ w ∧ spec.Level limit (before ++ u) v ∧
      spec.Level limit (before ++ u ++ v) w := by
  let kind : Text → Bool := fun q => decide (spec.depth (before ++ u ++ q) = spec.depth before)
  have hSome : 0 < Text.beginnings kind t := by
    obtain ⟨q, hq, hRead, hBack⟩ := h.exists_back hUp
    exact Text.beginnings_pos hq hRead (decide_eq_true hBack)
  obtain ⟨v, ⟨w, rfl⟩, -, hBack, hFirst⟩ := Text.exists_first hSome
  have hBack : spec.depth (before ++ u ++ v) = spec.depth before := of_decide_eq_true hBack
  refine ⟨v, w, rfl, ⟨fun q hq hShort => ?_, by omega⟩, ⟨fun q hq hShort => ?_, ?_⟩⟩
  · have hBegins : u ++ q <+: u ++ (v ++ w) :=
      (List.prefix_append_right_inj u).mpr (hq.trans (List.prefix_append v w))
    obtain ⟨hOpen, hDepth⟩ := h.goesOn (u ++ q) hBegins fun hWhole => by
      obtain rfl := List.append_cancel_left hWhole
      exact hShort (hq.eq_of_length_le (List.prefix_append v w).length_le)
    rw [← List.append_assoc] at hOpen hDepth
    refine ⟨hOpen, ?_⟩
    by_cases hNil : q = []
    · exact Int.le_of_eq (by rw [hNil, List.append_nil])
    · have hAway := of_decide_eq_false (hFirst q hq hNil hShort)
      omega
  · rw [hBack]
    have hGoesOn := h.goesOn (u ++ (v ++ q))
      (by simpa only [List.prefix_append_right_inj] using hq) (by simpa using hShort)
    simpa only [List.append_assoc] using hGoesOn
  · rw [hBack]
    simpa only [List.append_assoc] using h.closed

theorem exists_nests (h : spec.Level limit before body) :
    ∃ n, spec.Nests before body n ∧ spec.depth before + n ≤ (max 1 limit : Nat) + 1 := by
  generalize hLength : body.length = length
  induction length using Nat.strongRecOn generalizing before body with
  | ind length ih =>
    have hOpen := h.before_open
    obtain ⟨u, ⟨t, rfl⟩, hRead, hQuiet, hCloses | hOpens⟩ := h.exists_first
    · have hDown := hQuiet.depth_of_closes hOpen hRead hCloses
      obtain rfl : t = [] := by
        by_contra hMore
        have hGoesOn := (h.goesOn u (List.prefix_append u t) (by simpa using hMore)).2
        omega
      rw [List.append_nil]
      have hBound := hOpen.depth_le
      exact ⟨1, .last hQuiet hRead hCloses, by omega⟩
    · have hUp := hQuiet.depth_of_opens hOpen hRead hOpens
      obtain ⟨v, w, rfl, hInner, hRest⟩ := h.exists_rest hUp
      have hShorter := List.length_pos_iff.mpr hRead
      rw [List.length_append, List.length_append] at hLength
      obtain ⟨m, hNests, hBound⟩ := ih v.length (by omega) hInner rfl
      obtain ⟨n, hNestsRest, hBoundRest⟩ := ih w.length (by omega) hRest rfl
      have hDown := hInner.closed
      rw [← List.append_assoc]
      exact ⟨max (m + 1) n, .inner hQuiet hRead hOpens hNests hNestsRest, by omega⟩

end Level

theorem Nests.height_pos (h : spec.Nests before body n) : 0 < n := by
  cases h with
  | last => exact Nat.one_pos
  | inner => exact Nat.lt_of_lt_of_le (Nat.succ_pos _) (Nat.le_max_left _ _)

theorem Nests.level (h : spec.Nests before body n) (hOpen : spec.Open limit before)
    (hBound : spec.depth before + n ≤ (max 1 limit : Nat) + 1) :
    spec.Level limit before body := by
  induction h with
  | last hQuiet hRead hCloses =>
    refine ⟨fun q hq hShort => ?_, hQuiet.depth_of_closes hOpen hRead hCloses⟩
    obtain ⟨hGoesOn, hDepth⟩ := hQuiet.goesOn hOpen hq hShort
    exact ⟨hGoesOn, Int.le_of_eq hDepth.symm⟩
  | @inner before u v w m n hQuiet hRead hOpens hNests hNestsRest ih ihRest =>
    have hUp := hQuiet.depth_of_opens hOpen hRead hOpens
    have hPos := hOpen.pos
    have hHeight := hNests.height_pos
    have hInner := ih (hQuiet.open_of_opens hOpen hRead hOpens (by omega)) (by omega)
    have hDown := hInner.closed
    have hRest := ihRest (hInner.open_after (by omega)) (by omega)
    exact .of_opens hQuiet hOpen hUp hInner hRest

theorem closes_iff_level : spec.Closes limit body ↔ spec.Level limit [] body := by
  constructor
  · intro h
    refine ⟨fun q hq hShort => ?_, h.closed⟩
    have hOpen := h.before q hq hShort
    exact ⟨hOpen, hOpen.pos⟩
  · intro h
    exact ⟨fun q hq hShort => (h.goesOn q hq hShort).1, h.closed⟩

/-- What closes a comment is nested no deeper than the limit, and the outermost comment is not
held against the limit. -/
theorem closes_iff_nests :
    spec.Closes limit body ↔ ∃ n, spec.Nests [] body n ∧ n ≤ max 1 limit := by
  rw [closes_iff_level]
  constructor
  · intro h
    obtain ⟨n, hNests, hBound⟩ := h.exists_nests
    rw [depth_nil] at hBound
    exact ⟨n, hNests, by omega⟩
  · rintro ⟨n, hNests, hBound⟩
    apply hNests.level open_nil
    rw [depth_nil]
    omega

end CommentSpec

end MarkerLex
