import MarkerLex.Mode.Step

/-!
# Lexers

A lexer delivers the tokens of a source one at a time. It reads ahead by one
token at most, and only when it is asked; what it finds, a token, the end or an
error, it holds until that has been delivered. The end and an error stay.
-/

namespace MarkerLex

set_option autoImplicit false

namespace Lexer

inductive Ready where
  /-- A token that is not delivered yet, and the mode that follows it. -/
  | token (t : Token) (next : Mode)
  | ended
  /-- An error, and whether iteration has delivered it. -/
  | failed (error : LexError) (reported : Bool)
deriving DecidableEq, Repr

inductive State where
  | reading (mode : Mode)
  | ready (r : Ready)
deriving DecidableEq, Repr

end Lexer

structure Lexer where
  source : Source
  grammar : Grammar
  config : Config
  state : Lexer.State
deriving DecidableEq, Repr

namespace Lexer

/-- A lexer at the front of a source. An invalid grammar is refused where the source stands. -/
def create (source : Source) (grammar : Grammar) (config : Config) :
    Except LexError (Traced Lexer) :=
  match grammar.error? with
  | some e => .error ⟨.invalidGrammar e, source.position⟩
  | none =>
    .ok ⟨[.lexerCreated grammar.comments.length grammar.strings.length config.strictComments],
      ⟨source, grammar, config, .reading .std⟩⟩

def pump (g : Grammar) (config : Config) (mode : Mode) (s : Source) : Traced (Ready × Source) :=
  match h : mode.step g config s with
  | ⟨events, (.error e, s')⟩ =>
    ⟨.stepRequested mode :: events ++ [.lexFailed e], (.failed e false, s')⟩
  | ⟨events, (.ok .exhausted, s')⟩ =>
    ⟨.stepRequested mode :: events ++ [.inputEnded], (.ended, s')⟩
  | ⟨events, (.ok (.emit (some t) next), s')⟩ =>
    ⟨.stepRequested mode :: events ++ [.tokenProduced t], (.token t next, s')⟩
  | ⟨events, (.ok (.emit none next), s')⟩ =>
    (pump g config next s').after (.stepRequested mode :: events)
termination_by mode.potential g s
decreasing_by exact Mode.potential_lt_of_step (congrArg Traced.value h)

def fill (l : Lexer) : Traced (Ready × Lexer) :=
  match l.state with
  | .ready r => .silent (r, l)
  | .reading mode =>
    (pump l.grammar l.config mode l.source).map fun (r, s) =>
      (r, { l with source := s, state := .ready r })

def hasNext (l : Lexer) : Traced (Except LexError Bool × Lexer) :=
  l.fill.map fun
    | (.token _ _, l) => (.ok true, l)
    | (.ended, l) => (.ok false, l)
    | (.failed e _, l) => (.error e, l)

def advance (l : Lexer) : Traced (Except LexError Token × Lexer) :=
  l.fill.map fun
    | (.token t next, l) => (.ok t, { l with state := .reading next })
    | (.ended, l) => (.error ⟨.exhausted, l.source.position⟩, l)
    | (.failed e _, l) => (.error e, l)

/-- Iteration: the next token, or an error once, or nothing. -/
def next? (l : Lexer) : Traced (Option (Except LexError Token) × Lexer) :=
  l.fill.map fun
    | (.token t next, l) => (some (.ok t), { l with state := .reading next })
    | (.ended, l) => (none, l)
    | (.failed e false, l) => (some (.error e), { l with state := .ready (.failed e true) })
    | (.failed _ true, l) => (none, l)

def position (l : Lexer) : Position := l.source.position

/-- A bound on the number of tokens that can follow. -/
def potential (l : Lexer) : Nat :=
  match l.state with
  | .reading mode => mode.potential l.grammar l.source
  | .ready (.token _ next) => next.potential l.grammar l.source + 1
  | .ready _ => 0

theorem potential_lt_of_pump {g : Grammar} {config : Config} {mode next : Mode} {s s' : Source}
    {t : Token} (hPump : (pump g config mode s).value = (.token t next, s')) :
    next.potential g s' < mode.potential g s := by
  fun_induction pump g config mode s with
  | case1 | case2 => simp at hPump
  | case3 mode s events u following s'' hStep =>
    simp only [Prod.mk.injEq, Ready.token.injEq] at hPump
    obtain ⟨⟨-, rfl⟩, rfl⟩ := hPump
    exact Mode.potential_lt_of_step (congrArg Traced.value hStep)
  | case4 mode s events following s'' hStep ih =>
    exact Nat.lt_trans (ih hPump) (Mode.potential_lt_of_step (congrArg Traced.value hStep))

theorem potential_lt_of_next? {l l' : Lexer} {t : Token}
    (hNext : l.next?.value = (some (.ok t), l')) : l'.potential < l.potential := by
  obtain ⟨source, g, config, state⟩ := l
  cases state with
  | ready r =>
    cases r with
    | token u next =>
      simp only [next?, fill, Traced.map_value, Traced.silent, Prod.mk.injEq, Option.some.injEq,
        Except.ok.injEq] at hNext
      obtain ⟨-, rfl⟩ := hNext
      exact Nat.lt_succ_self _
    | ended => simp [next?, fill, Traced.silent] at hNext
    | failed e reported => cases reported <;> simp [next?, fill, Traced.silent] at hNext
  | reading mode =>
    simp only [next?, fill, Traced.map_value] at hNext
    rcases hPump : (pump g config mode source).value with ⟨r, s⟩
    rw [hPump] at hNext
    cases r with
    | token u next =>
      simp only [Prod.mk.injEq, Option.some.injEq, Except.ok.injEq] at hNext
      obtain ⟨-, rfl⟩ := hNext
      exact potential_lt_of_pump hPump
    | ended => simp at hNext
    | failed e reported => cases reported <;> simp at hNext

def collect (l : Lexer) : Traced (List (Except LexError Token) × Lexer) :=
  match _h : l.next? with
  | ⟨events, (none, l')⟩ => ⟨events, ([], l')⟩
  | ⟨events, (some (.error e), l')⟩ => ⟨events, ([.error e], l')⟩
  | ⟨events, (some (.ok t), l')⟩ =>
    ((collect l').map fun (items, l) => (.ok t :: items, l)).after events
termination_by l.potential
decreasing_by exact potential_lt_of_next? (congrArg Traced.value _h)

end Lexer

def allTokens : List (Except LexError Token) → Except LexError (List Token)
  | [] => .ok []
  | .error e :: _ => .error e
  | .ok t :: rest => (allTokens rest).map (t :: ·)

def tokenize (t : Text) (g : Grammar) : Except LexError (List Token) :=
  match Lexer.create (.ofText t) g {} with
  | .error e => .error e
  | .ok created => allTokens created.value.collect.value.1

end MarkerLex
