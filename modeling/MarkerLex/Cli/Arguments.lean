import MarkerLex.Log.Filter
import MarkerLex.Report.TokenLine

/-!
# Command lines

The words of a command line are read from left to right. The first word that
asks for help or for the version, or that is in error, decides.
-/

namespace MarkerLex.Cli

set_option autoImplicit false

inductive LogFormat where
  | pretty
  | compact
  | json
deriving DecidableEq, Repr

structure Arguments where
  input : Text
  grammar : Option Text
  format : Report.TokenFormat
  lenientComments : Bool
  levels : Log.Levels
  logFormat : LogFormat
deriving DecidableEq, Repr

inductive Quit where
  | help
  | version
  | misuse
deriving DecidableEq, Repr

inductive Setting where
  | grammar
  | format
  | logLevel
  | logLexer
  | logReader
  | logSource
  | logFormat
deriving DecidableEq, Repr

def Setting.byName : List (Text × Setting) :=
  [("grammar".toList, grammar), ("format".toList, format), ("log-level".toList, logLevel),
    ("log-lexer".toList, logLexer), ("log-reader".toList, logReader),
    ("log-source".toList, logSource), ("log-format".toList, logFormat)]

structure Given where
  input : Option Text := none
  grammar : Option Text := none
  format : Option Report.TokenFormat := none
  lenientComments : Bool := false
  logLevel : Option Log.Level := none
  logLexer : Option Log.Level := none
  logReader : Option Log.Level := none
  logSource : Option Log.Level := none
  logFormat : Option LogFormat := none

/-- A path, which may not be empty. -/
def path? (t : Text) : Option Text := if t.isEmpty then none else some t

def tokenFormat? (t : Text) : Option Report.TokenFormat :=
  [("text".toList, Report.TokenFormat.text), ("json".toList, .json)].lookup t

def logFormat? (t : Text) : Option LogFormat :=
  [("pretty".toList, LogFormat.pretty), ("compact".toList, .compact), ("json".toList, .json)].lookup t

def level? (t : Text) : Option Log.Level := (Log.Level.ofText t).toOption

/-- A value that is given for the first time and makes sense. -/
def once {α : Type} (old : Option α) (new : Option α) : Except Quit (Option α) :=
  if old.isSome || new.isNone then .error .misuse else .ok new

namespace Given

def set (g : Given) (setting : Setting) (value : Text) : Except Quit Given :=
  match setting with
  | .grammar => (once g.grammar (path? value)).map fun v => { g with grammar := v }
  | .format => (once g.format (tokenFormat? value)).map fun v => { g with format := v }
  | .logLevel => (once g.logLevel (level? value)).map fun v => { g with logLevel := v }
  | .logLexer => (once g.logLexer (level? value)).map fun v => { g with logLexer := v }
  | .logReader => (once g.logReader (level? value)).map fun v => { g with logReader := v }
  | .logSource => (once g.logSource (level? value)).map fun v => { g with logSource := v }
  | .logFormat => (once g.logFormat (logFormat? value)).map fun v => { g with logFormat := v }

def setInput (g : Given) (word : Text) : Except Quit Given :=
  (once g.input (path? word)).map fun v => { g with input := v }

def inputs (g : Given) : List Text → Except Quit Given
  | [] => .ok g
  | word :: rest => (g.setInput word).bind (inputs · rest)

def flag (g : Given) (name : Text) : Except Quit Given :=
  if name = "help".toList then .error .help
  else if name = "version".toList then .error .version
  else if name = "lenient-comments".toList && !g.lenientComments then
    .ok { g with lenientComments := true }
  else .error .misuse

def letter (c : Char) : Quit :=
  if c = 'h' then .help else if c = 'V' then .version else .misuse

def isOptionLike : Text → Bool
  | '-' :: _ :: _ => true
  | _ => false

def words (g : Given) : List Text → Except Quit Given
  | [] => .ok g
  | ['-', '-'] :: rest => g.inputs rest
  | ('-' :: '-' :: option) :: rest =>
    let name := option.takeWhile (· ≠ '=')
    match Setting.byName.lookup name, option.dropWhile (· ≠ '=') with
    | some setting, _ :: value => (g.set setting value).bind (words · rest)
    | none, _ :: _ => .error .misuse
    | none, [] => (g.flag name).bind (words · rest)
    | some setting, [] =>
      match rest with
      | [] => .error .misuse
      | value :: rest =>
        if isOptionLike value then .error .misuse
        else (g.set setting value).bind (words · rest)
  | ('-' :: c :: _) :: _ => .error (letter c)
  | word :: rest => (g.setInput word).bind (words · rest)

end Given

def Arguments.parse (words : List Text) : Except Quit Arguments :=
  match Given.words {} words with
  | .error quit => .error quit
  | .ok g =>
    match g.input with
    | none => .error .misuse
    | some input =>
      .ok
        { input := input
          grammar := g.grammar
          format := g.format.getD .text
          lenientComments := g.lenientComments
          levels :=
            { general := g.logLevel.getD .warn
              lexer := g.logLexer
              reader := g.logReader
              source := g.logSource }
          logFormat := g.logFormat.getD .compact }

end MarkerLex.Cli
