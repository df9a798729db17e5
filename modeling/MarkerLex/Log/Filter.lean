import MarkerLex.Log.Level

/-!
# Log filters

Events belong to phases, and every phase has a target, a path of names. A filter
gives levels to targets. The rule with the longest target that begins the target
of an event decides about it; without one the general level does.
-/

namespace MarkerLex.Log

set_option autoImplicit false

inductive Phase where
  | lexer
  | reader
  | source
  | cli
deriving DecidableEq, Repr

namespace Phase

def all : List Phase := [lexer, reader, source, cli]

def name : Phase → String
  | lexer => "lexer"
  | reader => "reader"
  | source => "source"
  | cli => "cli"

def target : Phase → Text
  | lexer => "komparse::lexer".toList
  | reader => "komparse::lexer::reader".toList
  | source => "komparse::lexer::source".toList
  | cli => "komparse::cli".toList

end Phase

structure Levels where
  general : Level := .warn
  lexer : Option Level := none
  reader : Option Level := none
  source : Option Level := none
deriving DecidableEq, Repr

def Levels.forPhase (levels : Levels) : Phase → Level
  | .lexer => levels.lexer.getD levels.general
  | .reader => levels.reader.getD levels.general
  | .source => levels.source.getD levels.general
  | .cli => levels.general

structure Filter where
  rules : List (Text × Level)
  general : Level
deriving DecidableEq, Repr

namespace Filter

def ofLevels (levels : Levels) : Filter :=
  ⟨Phase.all.map fun phase => (phase.target, levels.forPhase phase), levels.general⟩

/-- The longer of two rules, the earlier one if they are equally long. -/
def longer (best : Option (Text × Level)) (rule : Text × Level) : Option (Text × Level) :=
  match best with
  | some other => if other.1.length < rule.1.length then some rule else best
  | none => some rule

def levelFor (filter : Filter) (target : Text) : Level :=
  match (filter.rules.filter fun rule => rule.1.isPrefixOf target).foldl longer none with
  | some rule => rule.2
  | none => filter.general

def admits (filter : Filter) (target : Text) (level : Level) : Bool :=
  level.verbosity ≤ (filter.levelFor target).verbosity

end Filter

end MarkerLex.Log
