import MarkerLex.Proofs.TextStep

/-!
# What a step conserves

A step that goes on loses nothing. The start marker that it was entered with and the text that it
takes are the tokens that it emits and the start marker that the next step is entered with, and
places follow. Only whitespace is dropped. This is so for any markers, an empty one included.
-/

namespace MarkerLex

set_option autoImplicit false

namespace Mode

/-- What a step takes, with its tokens and the mode it leads to, when nothing but whitespace is
dropped. -/
structure Conserves (g : Grammar) (mode : Mode) (s : Source) (taken : Text) (tokens : List Token)
    (next : Mode) (s' : Source) : Prop where
  leaves : s.Leaves taken s'
  single : tokens.length ≤ 1
  known : next = .std ∨ next = .whitespace ∨ ∃ start, ∃ d ∈ g.delimiters, next = .ofDelimiter start d
  balanced : mode ≠ .whitespace → mode.seed ++ taken = tokens.flatMap Token.text ++ next.seed
  solid : mode = .std → ∀ c ∈ taken, g.isWhitespace c = false
  term : mode = .std → ∀ t ∈ tokens, t.kind = .term ∧ t.text ≠ [] ∧ t.start = s.position
  entered : mode = .std → ∀ start d, next = .ofDelimiter start d →
    start.advancedBy next.seed = s'.position
  gap : mode = .whitespace → tokens = [] ∧ next = .std ∧
    (∀ c ∈ taken, g.isWhitespace c = true) ∧ ∀ c ∈ s'.unread.head?, g.isWhitespace c = false
  delimited : ∀ start d, mode = .ofDelimiter start d →
    next = .std ∧ ∃ t, tokens = [t] ∧ t.kind = d.kind ∧ t.start = start

variable {g : Grammar} {config : Config} {mode next : Mode} {s s' : Source} {taken : Text}
variable {token? : Option Token}

theorem conserves_std (hLeaves : s.Leaves taken s')
    (h : Reads g config .std s.position taken s'.unread (.ok (.emit token? next))) :
    Conserves g .std s taken token?.toList next s' := by
  obtain ⟨hSolid, u, hTaken, rfl, hNext⟩ := h.of_std
  have hText : (Token.term? u s.position).toList.flatMap Token.text = u := by
    rw [Token.term?]
    split <;> simp_all
  constructor
  case leaves => exact hLeaves
  case single => exact Option.length_toList_le
  case known =>
    refine hNext.imp_right (.imp_right ?_)
    rintro ⟨d, hd, rfl⟩
    exact ⟨_, d, hd, rfl⟩
  case balanced =>
    intro _
    rw [hText]
    exact hTaken
  case solid => exact fun _ => hSolid
  case term =>
    intro _ t ht
    obtain ⟨hRead, rfl⟩ := Token.term?_eq_some.mp (Option.mem_toList.mp ht)
    exact ⟨rfl, hRead, rfl⟩
  case entered =>
    intro _ start d hEntered
    rw [hLeaves.position, hTaken, Position.advancedBy_append]
    rcases hNext with rfl | rfl | ⟨e, -, rfl⟩
    · exact absurd hEntered (std_ne_ofDelimiter start d)
    · exact absurd hEntered (whitespace_ne_ofDelimiter start d)
    · rw [(ofDelimiter_inj hEntered).1]
  case gap => rintro ⟨⟩
  case delimited => rintro start (spec | spec) ⟨⟩

theorem conserves_whitespace (hLeaves : s.Leaves taken s')
    (h : Reads g config .whitespace s.position taken s'.unread (.ok (.emit token? next))) :
    Conserves g .whitespace s taken token?.toList next s' := by
  obtain ⟨rfl, rfl, hSpace, hRest⟩ := h.of_whitespace
  constructor
  case leaves => exact hLeaves
  case single => exact Nat.zero_le 1
  case known => exact .inl rfl
  case gap => exact fun _ => ⟨rfl, rfl, hSpace, hRest⟩
  case balanced => exact fun hOther => absurd rfl hOther
  case solid | term | entered => rintro ⟨⟩
  case delimited => rintro start (spec | spec) ⟨⟩

theorem conserves_ofDelimiter {start : Position} {d : Delimiter} (hLeaves : s.Leaves taken s')
    (h : Reads g config (.ofDelimiter start d) s.position taken s'.unread
      (.ok (.emit token? next))) :
    Conserves g (.ofDelimiter start d) s taken token?.toList next s' := by
  obtain ⟨rfl, rfl⟩ := h.emit_of_ofDelimiter
  have hOther : ofDelimiter start d ≠ .std ∧ ofDelimiter start d ≠ .whitespace := by
    cases d <;> exact ⟨nofun, nofun⟩
  constructor
  case leaves => exact hLeaves
  case single => exact Nat.le_refl 1
  case known => exact .inl rfl
  case balanced =>
    intro _
    rw [seed_ofDelimiter]
    simp [seed, Delimiter.token]
  case solid | term | entered => exact fun hStd => absurd hStd hOther.1
  case gap => exact fun hSpace => absurd hSpace hOther.2
  case delimited =>
    intro start' e hSame
    obtain ⟨rfl, rfl⟩ := ofDelimiter_inj hSame
    exact ⟨rfl, _, rfl, rfl, rfl⟩

/-- Whatever the markers of the grammar are and whatever the source is, a step that goes on
conserves the text and the places in it. -/
theorem step_conserves (hStep : (mode.step g config s).value = (.ok (.emit token? next), s')) :
    ∃ taken, Conserves g mode s taken token?.toList next s' := by
  obtain ⟨taken, hLeaves, hReads⟩ := reads_of_step_ok hStep
  refine ⟨taken, ?_⟩
  cases mode with
  | std => exact conserves_std hLeaves hReads
  | whitespace => exact conserves_whitespace hLeaves hReads
  | comment spec start => exact conserves_ofDelimiter (d := .comment spec) hLeaves hReads
  | string spec start => exact conserves_ofDelimiter (d := .string spec) hLeaves hReads

/-- An empty start marker opens behind the first character. -/
theorem step_conserves_sample :
    (Mode.std.step { comments := [⟨[], ['x'], false⟩] } {} (.ofText ['a', 'b'])).value =
      (.ok (.emit (some ⟨.term, ['a'], .start⟩) (.comment ⟨[], ['x'], false⟩ ⟨1, 2, 1, 1⟩)),
        ⟨[.char 'b'], ⟨1, 2, 1, 1⟩⟩) ∧
    ∃ taken, Conserves { comments := [⟨[], ['x'], false⟩] } .std (.ofText ['a', 'b']) taken
      [⟨.term, ['a'], .start⟩] (.comment ⟨[], ['x'], false⟩ ⟨1, 2, 1, 1⟩)
      ⟨[.char 'b'], ⟨1, 2, 1, 1⟩⟩ := by
  have hStep : (Mode.std.step { comments := [⟨[], ['x'], false⟩] } {} (.ofText ['a', 'b'])).value =
      (.ok (.emit (some ⟨.term, ['a'], .start⟩) (.comment ⟨[], ['x'], false⟩ ⟨1, 2, 1, 1⟩)),
        ⟨[.char 'b'], ⟨1, 2, 1, 1⟩⟩) := rfl
  exact ⟨hStep, step_conserves hStep⟩

end Mode

end MarkerLex
