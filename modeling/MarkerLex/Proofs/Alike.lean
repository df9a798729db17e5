import Mathlib.Data.List.Find
import Mathlib.Data.List.Infix
import MarkerLex.Proofs.Shadowing

/-!
# Grammars that read a text alike

A lexer asks its grammar two things only: whether a character separates terms, and which delimiter
opens where a part of the text has been read. Grammars that agree on that for all parts of a text
cannot be told apart over it. So the order of the delimiters makes no difference as long as no
start marker ends in another one, and a delimiter whose start marker does not occur makes none.
-/

namespace MarkerLex

set_option autoImplicit false

namespace Grammar

/-- On every part of the text both grammars find the same delimiter. -/
structure Alike (g g' : Grammar) (text : Text) : Prop where
  space : g.isWhitespace = g'.isWhitespace
  opening : ∀ q, q <:+: text → g.opening? q.reverse = g'.opening? q.reverse

variable {g g' : Grammar} {text rest : Text}

theorem Alike.symm (h : g.Alike g' text) : g'.Alike g text where
  space := h.space.symm
  opening q hq := (h.opening q hq).symm

theorem Alike.trans {g'' : Grammar} (h : g.Alike g' text) (h' : g'.Alike g'' text) :
    g.Alike g'' text where
  space := h.space.trans h'.space
  opening q hq := (h.opening q hq).trans (h'.opening q hq)

theorem Alike.of_suffix (h : g.Alike g' text) (hRest : rest <:+ text) : g.Alike g' rest where
  space := h.space
  opening q hq := h.opening q (hq.trans hRest.isInfix)

end Grammar

section Alike

variable {g g' : Grammar} {text : Text}

/-- What has been read since the step began, and what is still to come, are a part of the text. -/
theorem Reader.std_run_alike (h : g.Alike g' text) {p : Pending} {place : Position}
    {signals : List Signal} (hPart : p.newest.reverse ++ Signal.chars signals <:+: text) :
    (std g).run p place signals = (std g').run p place signals := by
  induction signals generalizing p place with
  | nil => rfl
  | cons signal rest ih =>
    cases signal with
    | failure f => rfl
    | note n => exact congrArg _ (ih hPart)
    | char c =>
      have hMore : (c :: p.newest).reverse ++ Signal.chars rest <:+: text := by
        rwa [List.reverse_cons, List.append_assoc]
      have hRead := h.opening _ ((List.prefix_append _ _).isInfix.trans hMore)
      rw [List.reverse_reverse] at hRead
      have hReact : (std g).react p place c = (std g').react p place c := by
        simp only [std, h.space, Pending.push, hRead]
      rw [run, run, ← hReact]
      rcases std_react_cases g p place c with ⟨-, hHere⟩ | ⟨-, -, hHere⟩ | ⟨-, d, before, -, -, hHere⟩
      · rw [hHere]
      · rw [hHere]
        exact ih hMore
      · rw [hHere]

theorem Mode.step_alike (config : Config) (mode : Mode) {s : Source} (h : g.Alike g' s.unread) :
    mode.step g config s = mode.step g' config s := by
  cases mode with
  | std => exact Reader.std_run_alike h List.infix_rfl
  | whitespace => simp only [step, Reader.whitespace, h.space]
  | comment | string => rfl

namespace Lexer

theorem pump_alike (config : Config) (mode : Mode) (s : Source) (h : g.Alike g' s.unread) :
    (pump g config mode s).value = (pump g' config mode s).value := by
  induction mode, s using Mode.steps_induction g config with
  | hStep mode s ih =>
    obtain ⟨taken, hLeaves⟩ := Mode.step_leaves g config mode s
    rw [pump_value, pump_value mode s, ← Mode.step_alike config mode h]
    rcases hStep : (mode.step g config s).value with ⟨outcome, s'⟩
    rw [hStep] at hLeaves
    cases outcome with
    | error e => rfl
    | ok step =>
      cases step with
      | exhausted => rfl
      | emit token? next =>
        cases token? with
        | some t => rfl
        | none => exact ih none next s' hStep (h.of_suffix ⟨taken, hLeaves.unread.symm⟩)

def under (l : Lexer) (g : Grammar) : Lexer := { l with grammar := g }

theorem simulation_alike (g' : Grammar) :
    Simulation fun l l' => l.under g' = l' ∧ l.grammar.Alike g' l.source.unread where
  fill := by
    rintro ⟨source, g, config, state⟩ _ ⟨rfl, h⟩
    cases state with
    | ready r => exact ⟨rfl, rfl, h⟩
    | reading mode =>
      obtain ⟨taken, hLeaves⟩ := pump_leaves g config mode source
      have hPump := pump_alike config mode source h
      have hFound := congrArg Prod.fst hPump
      refine ⟨hFound, ?_, h.of_suffix ⟨taken, hLeaves.unread.symm⟩⟩
      simp only [fill, under, Traced.map_value, hPump]
  state := by
    rintro l _ state ⟨rfl, h⟩
    exact ⟨rfl, h⟩
  position := by
    rintro l _ ⟨rfl, -⟩
    rfl

theorem answers_alike {s : Source} {config : Config} (h : g.Alike g' s.unread)
    {here there : Traced Lexer} (hHere : create s g config = .ok here)
    (hThere : create s g' config = .ok there) (calls : List Call) :
    here.value.answers calls = there.value.answers calls := by
  rw [value_of_create hHere, value_of_create hThere]
  exact (simulation_alike g').answers ⟨rfl, h⟩ calls

end Lexer

end Alike

namespace Grammar

variable {g g' : Grammar} {text : Text}

/-- The second grammar lists the same specs as the first one, perhaps in another order. -/
structure Reorders (g g' : Grammar) : Prop where
  whitespace : g'.whitespace = g.whitespace
  comments : g'.comments.Perm g.comments
  strings : g'.strings.Perm g.strings

/-- No delimiter's start marker ends in that of another one. -/
def SuffixFree (g : Grammar) : Prop :=
  ∀ d ∈ g.delimiters, ∀ e ∈ g.delimiters, d.start <:+ e.start → d = e

instance (g : Grammar) : Decidable g.SuffixFree :=
  inferInstanceAs (Decidable (∀ d ∈ g.delimiters, ∀ e ∈ g.delimiters, d.start <:+ e.start → d = e))

theorem SuffixFree.unique (h : g.SuffixFree) (q : Text) :
    {d ∈ g.delimiters | Text.endsIn q.reverse d.start}.Subsingleton := by
  rintro d ⟨hd, hEnds⟩ e ⟨he, hEnds'⟩
  rw [Text.endsIn_reverse, decide_eq_true_eq] at hEnds hEnds'
  rcases List.suffix_or_suffix_of_suffix hEnds hEnds' with hSuffix | hSuffix
  · exact h d hd e he hSuffix
  · exact (h e he d hd hSuffix).symm

theorem Reorders.delimiters (h : g.Reorders g') : g.delimiters.Perm g'.delimiters :=
  (h.comments.symm.map _).append (h.strings.symm.map _)

theorem Reorders.isWhitespace (h : g.Reorders g') : g.isWhitespace = g'.isWhitespace := by
  funext c
  rw [Grammar.isWhitespace, Grammar.isWhitespace, h.whitespace]

theorem Reorders.alike (h : g.Reorders g') (hFree : g.SuffixFree) (text : Text) :
    g.Alike g' text where
  space := h.isWhitespace
  opening q _ := by
    rw [opening?_eq_find?, opening?_eq_find?]
    exact List.find?_eq_find?_of_perm h.delimiters (hFree.unique q)

theorem Reorders.validate (h : g.Reorders g') (hValid : g.validate = .ok ()) :
    g'.validate = .ok () := by
  rw [validate_eq_ok] at hValid ⊢
  intro d hd
  have hFit := hValid d (h.delimiters.mem_iff.mpr hd)
  refine ⟨hFit.start_ne, hFit.stop_ne, ?_, hFit.escape_ne⟩
  rw [← h.isWhitespace]
  exact hFit.solid

/-- The grammar with those specs only whose start markers occur in the text. -/
def within (g : Grammar) (text : Text) : Grammar where
  whitespace := g.whitespace
  comments := g.comments.filter (·.start <:+: text)
  strings := g.strings.filter (·.start <:+: text)

theorem delimiters_within (g : Grammar) (text : Text) :
    (g.within text).delimiters = g.delimiters.filter (·.start <:+: text) := by
  rw [delimiters, delimiters, List.filter_append, List.filter_map, List.filter_map]
  rfl

theorem alike_within (g : Grammar) (text : Text) : g.Alike (g.within text) text where
  space := rfl
  opening q hq := by
    rw [opening?_eq_find?, opening?_eq_find?, delimiters_within, List.find?_filter]
    apply List.find?_congr
    intro d _
    rw [Bool.eq_iff_iff, Text.endsIn_reverse]
    simp only [decide_eq_true_eq]
    exact ⟨fun hEnds => ⟨hEnds.isInfix.trans hq, hEnds⟩, fun h => h.2⟩

theorem alike_of_within (h : g.within text = g'.within text) : g.Alike g' text := by
  have hHere := g.alike_within text
  rw [h] at hHere
  exact hHere.trans (g'.alike_within text).symm

/-- The sample with comments that end with the line. -/
def lined : Grammar :=
  { sample with comments := sample.comments ++ [⟨['-', '-'], ['\n'], false⟩] }

def linedFirst : Grammar :=
  { sample with comments := ⟨['-', '-'], ['\n'], false⟩ :: sample.comments }

end Grammar

namespace Lexer

variable {g g' : Grammar}

/-- The order of the specs cannot be told from any answer where no start marker ends in another. -/
theorem answers_reordered (hValid : g.validate = .ok ()) (hReorders : g.Reorders g')
    (hFree : g.SuffixFree) (config : Config) (text : Text) :
    ∃ here there, create (.ofText text) g config = .ok here ∧
      create (.ofText text) g' config = .ok there ∧
      ∀ calls, here.value.answers calls = there.value.answers calls := by
  obtain ⟨here, hHere⟩ := create_of_validate hValid (.ofText text) config
  obtain ⟨there, hThere⟩ := create_of_validate (hReorders.validate hValid) (.ofText text) config
  exact ⟨here, there, hHere, hThere, answers_alike (hReorders.alike hFree _) hHere hThere⟩

theorem answers_reordered_sample : Grammar.lined.validate = .ok () ∧
    Grammar.lined.Reorders .linedFirst ∧ Grammar.lined.SuffixFree ∧
    ∃ here there, create (.ofText ['a', '-', '-', '/', '*']) .lined {} = .ok here ∧
      create (.ofText ['a', '-', '-', '/', '*']) .linedFirst {} = .ok there ∧
      ∀ calls, here.value.answers calls = there.value.answers calls := by
  have hReorders : Grammar.lined.Reorders .linedFirst := ⟨rfl, .swap _ _ _, .refl _⟩
  have hFree : Grammar.lined.SuffixFree := by decide
  exact ⟨rfl, hReorders, hFree, answers_reordered rfl hReorders hFree {} _⟩

/-! Where one start marker ends in another, the first spec in order takes the text. -/

example : (Grammar.mk .usual [⟨['/'], ['\n'], false⟩, ⟨['x', '/'], ['\n'], false⟩] []).opening?
      ['/', 'x'] = some (.comment ⟨['/'], ['\n'], false⟩) ∧
    (Grammar.mk .usual [⟨['x', '/'], ['\n'], false⟩, ⟨['/'], ['\n'], false⟩] []).opening?
      ['/', 'x'] = some (.comment ⟨['x', '/'], ['\n'], false⟩) := by decide

/-- A text is read by those specs only whose start markers occur in it. -/
theorem answers_within (hValid : g.validate = .ok ()) (hValid' : g'.validate = .ok ())
    (text : Text) (hSame : g.within text = g'.within text) (config : Config) :
    ∃ here there, create (.ofText text) g config = .ok here ∧
      create (.ofText text) g' config = .ok there ∧
      ∀ calls, here.value.answers calls = there.value.answers calls := by
  obtain ⟨here, hHere⟩ := create_of_validate hValid (.ofText text) config
  obtain ⟨there, hThere⟩ := create_of_validate hValid' (.ofText text) config
  have hAlike : g.Alike g' (Source.ofText text).unread := by
    rw [Source.ofText, Source.unread, Signal.chars_map_char]
    exact Grammar.alike_of_within hSame
  exact ⟨here, there, hHere, hThere, answers_alike hAlike hHere hThere⟩

theorem answers_within_sample : Grammar.sample.validate = .ok () ∧
    Grammar.linedFirst.validate = .ok () ∧
    Grammar.sample.within ['a', '\'', '-', '\''] =
      Grammar.linedFirst.within ['a', '\'', '-', '\''] ∧
    ∃ here there, create (.ofText ['a', '\'', '-', '\'']) .sample {} = .ok here ∧
      create (.ofText ['a', '\'', '-', '\'']) .linedFirst {} = .ok there ∧
      ∀ calls, here.value.answers calls = there.value.answers calls := by
  have hSame : Grammar.sample.within ['a', '\'', '-', '\''] =
      Grammar.linedFirst.within ['a', '\'', '-', '\''] := by decide
  exact ⟨rfl, rfl, hSame, answers_within rfl rfl _ hSame {}⟩

end Lexer

end MarkerLex
