import MarkerLex.Proofs.Beginnings
import MarkerLex.Proofs.TextStep
import MarkerLex.Proofs.Validity

/-!
# Delimiters that can be closed

Whether any text closes what a delimiter has opened can be told from its markers. On the way
through its own end marker a comment may open inner comments, and then the end marker has to
close these too without opening more. A string may meet its escape marker there, and then what
of the end marker goes before has to come from the start marker.
-/

namespace MarkerLex

set_option autoImplicit false

namespace CommentSpec

/-- An inner comment opens where so much of the end marker has been read. -/
def opensInside (spec : CommentSpec) (part : Text) : Bool :=
  spec.nestable && decide (spec.start <:+ part ∧ part ≠ spec.start ∧ part ≠ spec.stop)

/-- The beginnings of the end marker after which an inner comment opens, the longest one last. -/
def inside (spec : CommentSpec) : List Text := spec.stop.inits.filter spec.opensInside

/-- What opens inside the end marker does not go too deep, and the end marker ends in its own
beginning up to the last such place, so that the rest can be added again and again. -/
def Closable (spec : CommentSpec) (limit : Nat) : Prop :=
  ∀ part ∈ spec.inside.getLast?, spec.inside.length < limit ∧ part <:+ spec.stop

instance (spec : CommentSpec) (limit : Nat) : Decidable (spec.Closable limit) :=
  inferInstanceAs (Decidable (∀ part ∈ spec.inside.getLast?, _))

variable {spec : CommentSpec} {limit : Nat} {body part q t : Text} {c : Char}

theorem opensInside_iff : spec.opensInside part = true ↔
    spec.nestable = true ∧ spec.start <:+ part ∧ part ≠ spec.start ∧ part ≠ spec.stop := by
  rw [opensInside, Bool.and_eq_true, decide_eq_true_eq]

theorem length_lt_of_opensInside (h : spec.opensInside part = true) :
    spec.start.length < part.length := by
  obtain ⟨-, hEnds, hLonger, -⟩ := opensInside_iff.mp h
  refine Nat.lt_of_le_of_ne hEnds.length_le fun hSame => ?_
  exact hLonger (hEnds.eq_of_length hSame).symm

theorem closesAt_iff : spec.closesAt body = true ↔ spec.stop <:+ spec.start ++ body := by
  rw [closesAt, decide_eq_true_eq]

theorem opensAt_iff : spec.opensAt body = true ↔ spec.nestable = true ∧
    spec.start <:+ spec.start ++ body ∧ ¬ spec.stop <:+ spec.start ++ body := by
  rw [opensAt, Bool.and_eq_true, Bool.and_eq_true, decide_eq_true_eq, Bool.not_eq_true',
    Bool.eq_false_iff, ne_eq, closesAt_iff, and_assoc]

theorem length_inside (hRead : spec.start ≠ []) :
    spec.inside.length = Text.beginnings spec.opensInside spec.stop := by
  apply Text.length_filter_inits
  rw [Bool.eq_false_iff, ne_eq, opensInside_iff]
  rintro ⟨-, hEnds, -⟩
  exact hRead (List.suffix_nil.mp hEnds)

section Sufficient

/-! A text that closes the comment is put together from the end marker. -/

theorem open_or_closes (hShallow : ∀ q, q <+: body → q ≠ [] → spec.opensAt q = true →
    spec.depth q ≤ limit) : spec.Open limit body ∨ ∃ q, spec.Closes limit q := by
  induction body using List.reverseRecOn with
  | nil => exact .inl open_nil
  | append_singleton body c ih =>
    rcases ih fun q hq => hShallow q (hq.trans (List.prefix_append _ _)) with hOpen | hCloses
    · by_cases hZero : spec.depth (body ++ [c]) = 0
      · exact .inr ⟨body ++ [c], hOpen.before, hZero⟩
      · exact .inl (open_concat.mpr
          ⟨hOpen, hZero, hShallow (body ++ [c]) List.prefix_rfl (by simp)⟩)
    · exact .inr hCloses

/-- Where the end marker begins with the start marker, only its rest is still to be read. -/
theorem openings_rest_le (hRest : spec.start ++ body = spec.stop) :
    Text.beginnings spec.opensAt body ≤ Text.beginnings spec.opensInside spec.stop := by
  rw [← hRest, Text.beginnings_append]
  refine Nat.le_trans (Text.beginnings_mono fun v hv hSome hOpens => ?_) (Nat.le_add_left _ _)
  obtain ⟨hNests, hEnds, hOn⟩ := opensAt_iff.mp hOpens
  refine opensInside_iff.mpr ⟨hNests, hEnds, by simpa using hSome, ?_⟩
  intro hWhole
  exact hOn (by rw [hWhole])

/-- Copies of a character that the start marker does not begin with keep it apart from the end
marker. -/
theorem openings_filled_le {x : Char} (hRead : spec.start ≠ [])
    (hHead : spec.start.head? ≠ some x)
    (hBegins : ¬ (spec.start <+: spec.stop ∧ spec.start ≠ spec.stop)) :
    Text.beginnings spec.opensAt (List.replicate spec.start.length x ++ spec.stop) ≤
      Text.beginnings spec.opensInside spec.stop := by
  rw [Text.beginnings_append, Text.beginnings_eq_zero, Nat.zero_add]
  · refine Text.beginnings_mono fun v hv hSome hOpens => ?_
    obtain ⟨hNests, hEnds, hOn⟩ := opensAt_iff.mp hOpens
    have hInside := Text.suffix_of_filled hEnds (Nat.le_refl _) hHead
    have hPart : v ≠ spec.stop := by
      rintro rfl
      exact hOn (by rw [← List.append_assoc]; exact List.suffix_append _ _)
    refine opensInside_iff.mpr ⟨hNests, hInside, ?_, hPart⟩
    rintro rfl
    exact hBegins ⟨hv, hPart⟩
  · intro q hq hSome
    rw [Bool.eq_false_iff, ne_eq, opensAt_iff]
    rintro ⟨-, hEnds, -⟩
    obtain ⟨-, hCopies⟩ := List.prefix_replicate_iff.mp hq
    have hLength : q.length ≠ 0 := by simpa using hSome
    rw [hCopies] at hEnds
    exact Text.not_suffix_append_replicate hLength hRead hHead hEnds

/-- The end marker is read with no more openings than there are inside it. -/
theorem exists_ending (hRead : spec.start ≠ []) (hStop : spec.stop ≠ []) :
    ∃ body, body ≠ [] ∧ spec.stop <:+ spec.start ++ body ∧
      Text.beginnings spec.opensAt body ≤ Text.beginnings spec.opensInside spec.stop := by
  by_cases hBegins : spec.start <+: spec.stop ∧ spec.start ≠ spec.stop
  · obtain ⟨⟨body, hBody⟩, hShort⟩ := hBegins
    refine ⟨body, ?_, by rw [hBody], openings_rest_le hBody⟩
    rintro rfl
    exact hShort (by rw [← hBody, List.append_nil])
  · obtain ⟨x, hHead, -⟩ := Text.exists_other spec.start.head? none
    refine ⟨List.replicate spec.start.length x ++ spec.stop, ?_, ?_, ?_⟩
    · exact List.append_ne_nil_of_right_ne_nil _ hStop
    · rw [← List.append_assoc]
      exact List.suffix_append _ _
    · exact openings_filled_le hRead hHead hBegins

/-- Behind the last opening inside the end marker nothing opens in the rest of the marker. -/
theorem openings_behind_last {rest : Text} (hLast : part ∈ spec.inside.getLast?)
    (hRest : part ++ rest = spec.stop) (hEnds : part <:+ spec.start ++ body) :
    Text.beginnings (fun v => spec.opensAt (body ++ v)) rest = 0 := by
  obtain ⟨⟨-, hInside⟩, hLongest⟩ := Text.longest_of_getLast? hLast
  have hNests := (opensInside_iff.mp hInside).1
  have hLonger := length_lt_of_opensInside hInside
  apply Text.beginnings_eq_zero
  intro v hv hSome
  rw [Bool.eq_false_iff, ne_eq, opensAt_iff, ← List.append_assoc]
  rintro ⟨-, hOpens, hOn⟩
  have hBehind : part ++ v <:+ spec.start ++ body ++ v := List.suffix_append_self_iff.mpr hEnds
  have hLength := List.length_pos_iff.mpr hSome
  have hAhead : spec.start <:+ part ++ v := by
    apply List.suffix_of_suffix_length_le hOpens hBehind
    rw [List.length_append]
    omega
  -- an opening here is one inside the end marker too, and longer than the longest
  have hMore : spec.opensInside (part ++ v) = true := by
    refine opensInside_iff.mpr ⟨hNests, hAhead, ?_, ?_⟩
    · intro hSame
      have hSameLength := congrArg List.length hSame
      rw [List.length_append] at hSameLength
      omega
    · intro hWhole
      exact hOn (hWhole ▸ hBehind)
  have hShort := hLongest _ (hRest ▸ (List.prefix_append_right_inj part).mpr hv) hMore
  rw [List.length_append] at hShort
  omega

/-- The end marker is read as often as wanted with no more openings than there are inside it. -/
theorem exists_endings (hLast : part ∈ spec.inside.getLast?) (hAgain : part <:+ spec.stop)
    (hRead : spec.start ≠ []) (hStop : spec.stop ≠ []) (n : Nat) :
    ∃ body, spec.stop <:+ spec.start ++ body ∧ n < Text.beginnings spec.closesAt body ∧
      Text.beginnings spec.opensAt body ≤ Text.beginnings spec.opensInside spec.stop := by
  induction n with
  | zero =>
    obtain ⟨body, hSome, hEnds, hOpenings⟩ := exists_ending hRead hStop
    have hClosing := Text.beginnings_pos List.prefix_rfl hSome (closesAt_iff.mpr hEnds)
    exact ⟨body, hEnds, hClosing, hOpenings⟩
  | succ n ih =>
    obtain ⟨body, hEnds, hClosings, hOpenings⟩ := ih
    obtain ⟨⟨⟨rest, hRest⟩, hInside⟩, -⟩ := Text.longest_of_getLast? hLast
    have hPartEnds := hAgain.trans hEnds
    have hQuiet := openings_behind_last hLast hRest hPartEnds
    have hSome : rest ≠ [] := by
      rintro rfl
      exact (opensInside_iff.mp hInside).2.2.2 (by rw [← hRest, List.append_nil])
    have hEndsAgain : spec.stop <:+ spec.start ++ (body ++ rest) := by
      rw [← hRest, ← List.append_assoc]
      exact List.suffix_append_self_iff.mpr hPartEnds
    have hClosing : 0 < Text.beginnings (fun v => spec.closesAt (body ++ v)) rest :=
      Text.beginnings_pos List.prefix_rfl hSome (closesAt_iff.mpr hEndsAgain)
    refine ⟨body ++ rest, hEndsAgain, ?_, ?_⟩
    · rw [Text.beginnings_append]
      omega
    · rw [Text.beginnings_append, hQuiet]
      exact hOpenings

theorem exists_closes (hClosable : spec.Closable limit) (hRead : spec.start ≠ [])
    (hStop : spec.stop ≠ []) : ∃ body, spec.Closes limit body := by
  obtain ⟨body, hClosings, hOpenings⟩ : ∃ body,
      Text.beginnings spec.opensInside spec.stop < Text.beginnings spec.closesAt body ∧
      Text.beginnings spec.opensAt body ≤ Text.beginnings spec.opensInside spec.stop := by
    rw [← length_inside hRead]
    cases hLast : spec.inside.getLast? with
    | none =>
      obtain ⟨body, hSome, hEnds, hOpenings⟩ := exists_ending hRead hStop
      rw [← length_inside hRead] at hOpenings
      refine ⟨body, ?_, hOpenings⟩
      rw [List.getLast?_eq_none_iff.mp hLast]
      exact Text.beginnings_pos List.prefix_rfl hSome (closesAt_iff.mpr hEnds)
    | some part =>
      rw [length_inside hRead]
      obtain ⟨body, -, hEndings⟩ := exists_endings hLast (hClosable part hLast).2 hRead hStop
        (Text.beginnings spec.opensInside spec.stop)
      exact ⟨body, hEndings⟩
  have hShallow : ∀ q, q <+: body → q ≠ [] → spec.opensAt q = true → spec.depth q ≤ limit := by
    intro q hq hSome hOpens
    have hPos := Text.beginnings_pos hq hSome hOpens
    have hBound := Text.beginnings_le_of_begins spec.opensAt hq
    have hCount := length_inside hRead
    have hInside : spec.inside ≠ [] := by
      rw [← List.length_pos_iff]
      omega
    have hLimit := (hClosable _ (List.getLast?_eq_some_getLast hInside)).1
    rw [depth]
    omega
  rcases open_or_closes hShallow with hOpen | ⟨q, hCloses⟩
  · have hPos := hOpen.pos
    rw [depth] at hPos
    omega
  · exact ⟨q, hCloses⟩

end Sufficient

section Necessary

/-! Where the end marker is first met, all that opens inside it has been opened. -/

theorem inside_le_openings (hEnds : spec.stop <:+ spec.start ++ q)
    (hFirst : ∀ p, p <+: q → p ≠ [] → p ≠ q → spec.closesAt p = false) :
    Text.beginnings spec.opensInside spec.stop ≤ Text.beginnings spec.opensAt q := by
  have hOpens {v : Text} (hv : v <+: q) (hSome : v ≠ []) (hNests : spec.nestable = true)
      (hStart : spec.start <:+ spec.start ++ v) (hShort : v ≠ q) : spec.opensAt v = true := by
    refine opensAt_iff.mpr ⟨hNests, hStart, fun hStop => ?_⟩
    exact Bool.eq_false_iff.mp (hFirst v hv hSome hShort) (closesAt_iff.mpr hStop)
  obtain ⟨before, hBefore⟩ := hEnds
  rcases List.append_eq_append_iff.mp hBefore with ⟨front, hStart, hStop⟩ | ⟨front, -, rfl⟩
  · have hNone : Text.beginnings spec.opensInside front = 0 := by
      apply Text.beginnings_eq_zero
      intro v hv _
      rw [Bool.eq_false_iff]
      intro hInside
      have hLonger := length_lt_of_opensInside hInside
      have hLength := congrArg List.length hStart
      rw [List.length_append] at hLength
      have hShort := hv.length_le
      omega
    rw [hStop, Text.beginnings_append, hNone, Nat.zero_add]
    refine Text.beginnings_mono fun v hv hSome hInside => ?_
    obtain ⟨hNests, hEnds, -, hPart⟩ := opensInside_iff.mp hInside
    refine hOpens hv hSome hNests ?_ ?_
    · rw [hStart, List.append_assoc, ← hStart]
      exact hEnds.trans (List.suffix_append before _)
    · rintro rfl
      exact hPart hStop.symm
  · rw [Text.beginnings_append]
    refine Nat.le_trans (Text.beginnings_mono fun v hv hSome hInside => ?_) (Nat.le_add_left _ _)
    obtain ⟨hNests, hEnds, -, hPart⟩ := opensInside_iff.mp hInside
    refine hOpens ((List.prefix_append_right_inj front).mpr hv)
      (List.append_ne_nil_of_right_ne_nil front hSome) hNests ?_ ?_
    · rw [← List.append_assoc]
      exact hEnds.trans (List.suffix_append _ v)
    · intro hSame
      exact hPart (List.append_cancel_left hSame)

/-- Where what is read inside the end marker is not found at its end, each end marker opens a
comment before it closes one. -/
theorem closings_le_openings (hPart : part <+: spec.stop) (hInside : spec.opensInside part = true)
    (hOther : ¬ part <:+ spec.stop) (t : Text) :
    Text.beginnings spec.closesAt t ≤ Text.beginnings spec.opensAt t := by
  obtain ⟨rest, hRest⟩ := hPart
  obtain ⟨hNests, hStart, -⟩ := opensInside_iff.mp hInside
  have hLonger := length_lt_of_opensInside hInside
  apply Text.beginnings_le_of_moved
  intro q hCloses
  obtain ⟨before, hBefore⟩ := closesAt_iff.mp hCloses
  rw [← hRest, ← List.append_assoc] at hBefore
  rcases List.append_eq_append_iff.mp hBefore with ⟨a, hFront, -⟩ | ⟨p, hFront, rfl⟩
  · have hLength := congrArg List.length hFront
    rw [List.length_append, List.length_append] at hLength
    omega
  · refine ⟨p, rfl, ?_, opensAt_iff.mpr ⟨hNests, ?_, fun hStop => hOther ?_⟩⟩
    · rintro rfl
      have hLength := congrArg List.length hFront
      rw [List.length_append, List.append_nil] at hLength
      omega
    · rw [← hFront]
      exact hStart.trans (List.suffix_append before part)
    · rw [← hFront] at hStop
      apply List.suffix_of_suffix_length_le (List.suffix_append before part) hStop
      rw [← hRest]
      exact (List.prefix_append part rest).length_le

theorem Closes.ends (h : spec.Closes limit body) : spec.stop <:+ spec.start ++ body := by
  obtain ⟨a, c, rfl⟩ := Text.exists_concat h.ne_nil
  have hPos := (Open.of_before h.before).pos
  have hOver := h.closed
  rw [depth_concat] at hOver
  split at hOver
  case isTrue hCloses => exact closesAt_iff.mp hCloses
  case isFalse => split at hOver <;> omega

theorem Closes.closings_pos (h : spec.Closes limit body) :
    0 < Text.beginnings spec.closesAt body := by
  have hOver := h.closed
  rw [depth] at hOver
  omega

/-- Before the first end marker the depth is one more than the number of what opens inside it. -/
theorem Closes.openings_lt (h : spec.Closes limit body) (hPart : part <+: spec.stop)
    (hInside : spec.opensInside part = true) :
    Text.beginnings spec.opensInside spec.stop < limit := by
  obtain ⟨q, hq, -, hEnds, hFirst⟩ := Text.exists_first h.closings_pos
  have hOpenings := inside_le_openings (closesAt_iff.mp hEnds) hFirst
  have hSome : part ≠ [] := by
    rintro rfl
    exact Nat.not_lt_zero _ (length_lt_of_opensInside hInside)
  have hPos := Text.beginnings_pos hPart hSome hInside
  obtain ⟨p, hp, hSome, hOpens, hCount⟩ := Text.exists_last (Nat.lt_of_lt_of_le hPos hOpenings)
  have hProper : p ≠ q := by
    rintro rfl
    exact (opensAt_iff.mp hOpens).2.2 (closesAt_iff.mp hEnds)
  have hNone : Text.beginnings spec.closesAt p = 0 := by
    apply Text.beginnings_eq_zero
    intro v hv hSome
    refine hFirst v (hv.trans hp) hSome ?_
    rintro rfl
    exact hProper (hp.eq_of_length_le hv.length_le)
  have hOpen : spec.Open limit p := by
    refine h.before p (hp.trans hq) ?_
    rintro rfl
    exact hProper (hp.eq_of_length_le hq.length_le)
  have hShallow := hOpen.shallow p List.prefix_rfl hSome hOpens
  rw [depth] at hShallow
  omega

theorem Closes.closable (h : spec.Closes limit body) (hRead : spec.start ≠ []) :
    spec.Closable limit := by
  intro part hLast
  obtain ⟨⟨hPart, hInside⟩, -⟩ := Text.longest_of_getLast? hLast
  constructor
  · rw [length_inside hRead]
    exact h.openings_lt hPart hInside
  · by_contra hOther
    have hNever := closings_le_openings hPart hInside hOther body
    have hOver := h.closed
    rw [depth] at hOver
    omega

end Necessary

/-- Some text closes a comment exactly where its markers let it. -/
theorem closable_iff (hRead : spec.start ≠ []) (hStop : spec.stop ≠ []) :
    spec.Closable limit ↔ ∃ body, spec.Closes limit body :=
  ⟨fun h => exists_closes h hRead hStop, fun ⟨_, h⟩ => h.closable hRead⟩

/-- Each end marker opens an inner comment before it closes one. -/
example : ¬ CommentSpec.Closable ⟨['('], ['-', '(', ')'], true⟩ 128 := by decide

end CommentSpec

namespace StringSpec

/-- Behind `fresh` some beginning of the end marker has been read, and the rest of the marker is
read without an escape. -/
def Closable (spec : StringSpec) (fresh : Text) : Prop :=
  ∀ e ∈ spec.escape, ∃ p ∈ spec.stop.inits, p ≠ spec.stop ∧ p <:+ fresh ∧
    ∀ q ∈ spec.stop.inits, p.length < q.length → q ≠ spec.stop → ¬ e <:+ q

instance (spec : StringSpec) (fresh : Text) : Decidable (spec.Closable fresh) :=
  inferInstanceAs (Decidable (∀ e ∈ spec.escape, ∃ p ∈ spec.stop.inits, _))

variable {spec : StringSpec} {fresh body e p : Text}

theorem exists_closes_of_calm (hStop : spec.stop <:+ fresh ++ body) (hSome : body ≠ [])
    (hCalm : ∀ q, q <+: body → q ≠ [] → q ≠ body →
      ∀ e, spec.escape = some e → ¬ e <:+ fresh ++ q) : ∃ q, spec.Closes fresh q := by
  induction body generalizing fresh with
  | nil => exact absurd rfl hSome
  | cons c body ih =>
    by_cases hEnd : spec.stop <:+ fresh ++ [c]
    · exact ⟨[] ++ [c], .stop calm_nil hEnd⟩
    · have hMore : body ≠ [] := by
        rintro rfl
        exact hEnd hStop
      rw [List.append_cons] at hStop
      obtain ⟨q, hq⟩ := ih hStop hMore fun q hq hSome hShort e hSpec hEscape => by
        rw [← List.append_cons] at hEscape
        refine hCalm (c :: q) ((List.prefix_append_right_inj [c]).mpr hq) (List.cons_ne_nil c q)
          ?_ e hSpec hEscape
        rintro ⟨⟩
        exact hShort rfl
      have hNone : ∀ e, spec.escape = some e → ¬ e <:+ fresh ++ [c] := by
        apply hCalm [c] (List.prefix_append [c] body) (List.cons_ne_nil c [])
        rintro ⟨⟩
        exact hMore rfl
      exact ⟨c :: q, hq.cons hEnd hNone⟩

/-- Where no escape marker is met inside the end marker, the end marker closes a string behind
text that ends in none. -/
theorem exists_closes_of_clear (hSpec : spec.escape = some e) (hEscape : e ≠ [])
    (hStop : spec.stop ≠ []) (hClear : ∀ q, q <+: spec.stop → q ≠ spec.stop → ¬ e <:+ q) :
    ∃ body, spec.Closes fresh body := by
  obtain ⟨x, hHead, hEnd⟩ := Text.exists_other e.head? e.getLast?
  have hSome : List.replicate e.length x ++ spec.stop ≠ [] :=
    List.append_ne_nil_of_right_ne_nil _ hStop
  refine exists_closes_of_calm ?_ hSome fun q hq hqSome hShort f hf hEnds => ?_
  · rw [← List.append_assoc]
    exact List.suffix_append _ _
  · obtain rfl : e = f := Option.some.inj (hSpec.symm.trans hf)
    rcases Text.prefix_append_cases hq with hq | ⟨v, hv, rfl⟩
    · obtain ⟨a, c, rfl⟩ := Text.exists_concat hqSome
      have hSame : c = x := List.eq_of_mem_replicate (hq.subset (by simp))
      rw [← List.append_assoc, hSame] at hEnds
      rcases List.suffix_concat_iff.mp hEnds with hNone | ⟨t, ht, -⟩
      · exact hEscape hNone
      · exact hEnd (by rw [ht, List.getLast?_concat])
    · have hInside := Text.suffix_of_filled hEnds (Nat.le_refl _) hHead
      refine hClear v hv ?_ hInside
      rintro rfl
      exact hShort rfl

/-- Where a beginning `p` of the end marker ends the text and is as long as the escape marker, the
rest closes the string if it is read without an escape. -/
theorem exists_closes_behind {r : Text} (hSpec : spec.escape = some e) (hLength : e.length ≤ p.length)
    (hRest : p ++ r = spec.stop) (hSome : r ≠ []) (hFresh : p <:+ fresh)
    (hClear : ∀ v, v <+: r → v ≠ [] → v ≠ r → ¬ e <:+ p ++ v) :
    ∃ body, spec.Closes fresh body := by
  have hBehind (v : Text) : p ++ v <:+ fresh ++ v := List.suffix_append_self_iff.mpr hFresh
  refine exists_closes_of_calm (hRest ▸ hBehind r) hSome fun v hv hSome hProper f hf hMet => ?_
  obtain rfl : e = f := Option.some.inj (hSpec.symm.trans hf)
  apply hClear v hv hSome hProper
  apply List.suffix_of_suffix_length_le hMet (hBehind v)
  rw [List.length_append]
  omega

theorem exists_closes (hClosable : spec.Closable fresh) (hStop : spec.stop ≠ [])
    (hEscape : spec.escape ≠ some []) : ∃ body, spec.Closes fresh body := by
  cases hSpec : spec.escape with
  | none =>
    refine exists_closes_of_calm (List.suffix_append fresh spec.stop) hStop fun _ _ _ _ e he => ?_
    cases hSpec.symm.trans he
  | some e =>
    by_cases hClear : ∀ q, q <+: spec.stop → q ≠ spec.stop → ¬ e <:+ q
    · refine exists_closes_of_clear hSpec ?_ hStop hClear
      rintro rfl
      exact hEscape hSpec
    · push Not at hClear
      obtain ⟨q, hq, hPart, hEnds⟩ := hClear
      obtain ⟨p, hp, hWhole, hFresh, hRest⟩ := hClosable e hSpec
      obtain ⟨r, hr⟩ := (List.mem_inits _ _).mp hp
      -- the escape marker lies within `p`, since it is not met behind it
      have hShort : q.length ≤ p.length := by
        by_contra hLong
        exact hRest q ((List.mem_inits _ _).mpr hq) (Nat.lt_of_not_le hLong) hPart hEnds
      have hSome : r ≠ [] := by
        rintro rfl
        exact hWhole (by rw [← hr, List.append_nil])
      refine exists_closes_behind hSpec (Nat.le_trans hEnds.length_le hShort) hr hSome hFresh ?_
      intro v hv hSome hProper
      have hIn : p ++ v <+: spec.stop := hr ▸ (List.prefix_append_right_inj p).mpr hv
      refine hRest (p ++ v) ((List.mem_inits _ _).mpr hIn) ?_ ?_
      · have hMore := List.length_pos_iff.mpr hSome
        rw [List.length_append]
        omega
      · intro hAll
        exact hProper (List.append_cancel_left (hAll.trans hr.symm))

theorem Closes.ends (h : spec.Closes fresh body) : spec.stop <:+ fresh ++ body := by
  induction h with
  | stop hCalm hEnds => exact hEnds
  | @escape fresh part body f c d hCalm hOn hSpec hEnds hRest ih =>
    refine ih.trans ⟨fresh ++ (part ++ [c] ++ [d]), ?_⟩
    simp

theorem closable_of_calm {part : Text} {c : Char} (hCalm : spec.Calm fresh part)
    (hEnds : spec.stop <:+ fresh ++ (part ++ [c])) (hStop : spec.stop ≠ []) :
    spec.Closable fresh := by
  intro e hSpec
  have hMet {v : Text} (hv : v <+: part ++ [c]) (hSome : v ≠ []) (hShort : v ≠ part ++ [c]) :
      ¬ e <:+ fresh ++ v := by
    rcases List.prefix_concat_iff.mp hv with rfl | hv
    · exact absurd rfl hShort
    · exact (hCalm v hv hSome).2 e hSpec
  rcases Text.suffix_append_cases hEnds with ⟨w, hw⟩ | ⟨p, hp, hWhole⟩
  · refine ⟨[], by simp, hStop.symm, List.nil_suffix, fun q hq hSome hShort hEscape => ?_⟩
    have hPart : w ++ q <+: part ++ [c] :=
      hw ▸ (List.prefix_append_right_inj w).mpr ((List.mem_inits _ _).mp hq)
    refine hMet hPart (List.append_ne_nil_of_right_ne_nil w (List.length_pos_iff.mp hSome)) ?_ ?_
    · intro hAll
      exact hShort (List.append_cancel_left (hAll.trans hw.symm))
    · rw [← List.append_assoc]
      exact hEscape.trans (List.suffix_append _ q)
  · have hBegins : p <+: spec.stop := hWhole ▸ List.prefix_append p _
    refine ⟨p, (List.mem_inits _ _).mpr hBegins, ?_, hp, fun q hq hLong hShort hEscape => ?_⟩
    · intro hAll
      rw [hWhole] at hAll
      simp at hAll
    · rcases Text.prefix_append_cases (hWhole ▸ (List.mem_inits _ _).mp hq) with hq | ⟨v, hv, rfl⟩
      · exact Nat.not_lt_of_le hq.length_le hLong
      · refine hMet hv ?_ ?_ (hEscape.trans (List.suffix_append_self_iff.mpr hp))
        · rintro rfl
          rw [List.append_nil] at hLong
          exact Nat.lt_irrefl _ hLong
        · rintro rfl
          exact hShort hWhole.symm

theorem Closable.of_nil (h : spec.Closable []) (fresh : Text) : spec.Closable fresh := by
  intro e hSpec
  obtain ⟨p, hp, hWhole, hNone, hRest⟩ := h e hSpec
  refine ⟨p, hp, hWhole, ?_, hRest⟩
  rw [List.suffix_nil.mp hNone]
  exact List.nil_suffix

theorem Closes.closable (h : spec.Closes fresh body) (hStop : spec.stop ≠ []) :
    spec.Closable fresh := by
  induction h with
  | stop hCalm hEnds => exact closable_of_calm hCalm hEnds hStop
  | escape hCalm hOn hSpec hEnds hRest ih => exact ih.of_nil _

/-- Some text closes a string exactly where its markers let it. -/
theorem closable_iff (hStop : spec.stop ≠ []) (hEscape : spec.escape ≠ some []) :
    spec.Closable fresh ↔ ∃ body, spec.Closes fresh body :=
  ⟨fun h => exists_closes h hStop hEscape, fun ⟨_, h⟩ => h.closable hStop⟩

/-- What is before an escape marker inside the end marker is set aside. -/
example : ¬ StringSpec.Closable ⟨['\''], ['-', '#', '\''], some ['#'], none⟩ ['\''] := by decide

end StringSpec

namespace Delimiter

def Closable (limit : Nat) : Delimiter → Prop
  | comment spec => spec.Closable limit
  | string spec => spec.Closable spec.start

instance (limit : Nat) : (d : Delimiter) → Decidable (d.Closable limit)
  | comment spec => inferInstanceAs (Decidable (spec.Closable limit))
  | string spec => inferInstanceAs (Decidable (spec.Closable spec.start))

theorem Closes.ends {d : Delimiter} {limit : Nat} {body : Text} (h : d.Closes limit body) :
    d.stop <:+ d.start ++ body := by
  cases d with
  | comment spec => exact CommentSpec.Closes.ends h
  | string spec => exact StringSpec.Closes.ends h

theorem closable_iff {g : Grammar} {d : Delimiter} (hFit : d.Fit g) (limit : Nat) :
    d.Closable limit ↔ ∃ body, d.Closes limit body := by
  cases d with
  | comment spec => exact CommentSpec.closable_iff hFit.start_ne hFit.stop_ne
  | string spec => exact StringSpec.closable_iff hFit.stop_ne hFit.escape_ne

end Delimiter

end MarkerLex
