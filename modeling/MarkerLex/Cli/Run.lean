import MarkerLex.Cli.Arguments
import MarkerLex.Cli.Files
import MarkerLex.Grammar.Json
import MarkerLex.Lexer
import MarkerLex.Log.Line
import MarkerLex.Report.Context
import MarkerLex.Source.Reads

/-!
# Runs of the program

A run prints one line for each token. An error ends it: the tokens before it
have been printed, and the lines around its place are shown.
-/

namespace MarkerLex.Cli

set_option autoImplicit false

/-- What a run leaves behind. Lines are without their ends. -/
structure Run where
  exitCode : Nat
  output : List Text := []
  /-- Events and errors, in the order in which they arose. -/
  messages : List Text := []
deriving DecidableEq, Repr

namespace Run

def ended (lines : List Text) : Text := lines.flatMap (· ++ ['\n'])

def stdout (r : Run) : Text := ended r.output

def stderr (r : Run) : Text := ended r.messages

def refused (message : String) : Run :=
  { exitCode := 1, messages := [s!"Error: {message}".toList] }

end Run

def isWellFormed : List UInt8 → Bool
  | [] => true
  | lead :: rest =>
    let first := Utf8.head lead rest
    first.wellFormed && isWellFormed (rest.drop (first.width - 1))
termination_by data => data.length
decreasing_by
  simp only [List.length_drop, List.length_cons]
  omega

def Entry.text : Entry → Except String Text
  | .absent reason => .error reason
  | .directory => .error isDirectoryReason
  | .file data =>
    if isWellFormed data then .ok (Utf8.lossy data)
    else .error "stream did not contain valid UTF-8"

def readGrammar (files : Text → Entry) : Option Text → Except String Grammar
  | none => .ok {}
  | some path =>
    match (files path).text with
    | .error reason => .error s!"Cannot read grammar '{String.ofList path}': {reason}"
    | .ok t =>
      match Grammar.ofJson t with
      | .error e => .error s!"Invalid grammar '{String.ofList path}': {e.message}"
      | .ok g => .ok g

/-- The characters of what stands under a path, or why it cannot be opened. A directory opens,
and then fails to be read. -/
def Entry.source : Entry → Except String Source
  | .absent reason => .error reason
  | .directory => .ok (.ofReads [.failed ⟨.isDirectory, isDirectoryReason⟩])
  | .file data => .ok (.ofBytes data)

def Entry.shownText : Entry → Text
  | .file data => Utf8.lossy data
  | _ => []

def LogFormat.line : LogFormat → Event → Text
  | .compact, e => e.line.toList
  | .pretty, e =>
    let fields := e.fields.map fun (name, value) => s!", {name}: {value.shown}"
    s!"  {e.level.name} {String.ofList e.phase.target}: {e.message}{String.join fields}".toList
  | .json, e =>
    let fields := ("message", { text := e.message }) :: e.fields
    Json.Compact.map
      [("level".toList, Json.string e.level.name.toList),
        ("fields".toList, Json.Compact.map (fields.map fun (name, value) =>
          (name.toList, Json.string value.text.toList))),
        ("target".toList, Json.string e.phase.target)]

def errorLines (shown : Text) (e : LexError) : List Text :=
  s!"❌ {e.message}".toList :: Report.context shown e.position.line e.position.column

def deliveredTokens (items : List (Except LexError Token)) : List Token :=
  items.filterMap Except.toOption

def finalError? (items : List (Except LexError Token)) : Option LexError :=
  items.findSome? fun
    | .error e => some e
    | .ok _ => none

def tokens (a : Arguments) (g : Grammar) (source : Source) (shown : Text) : Run :=
  let filter := Log.Filter.ofLevels a.levels
  let told (events : List Event) : List Text :=
    (events.filter (Event.passes filter)).map a.logFormat.line
  let config : Config := if a.lenientComments then .lenient else {}
  let started := Event.runStarted a.input
  match Lexer.create source g config with
  | .error e =>
    { exitCode := 1, messages := told [started] ++ [s!"❌ {e.message}".toList] }
  | .ok created =>
    let items := created.andThen Lexer.collect
    let delivered := deliveredTokens items.value.1
    let output := delivered.map (Report.tokenLine a.format)
    let events := started :: items.events
    match finalError? items.value.1 with
    | some e => { exitCode := 1, output, messages := told events ++ errorLines shown e }
    | none =>
      { exitCode := 0, output, messages := told (events ++ [.runDone delivered.length]) }

def Arguments.run (a : Arguments) (files : Text → Entry) : Run :=
  match readGrammar files a.grammar with
  | .error message => .refused message
  | .ok g =>
    let entry := files a.input
    match entry.source with
    | .error reason =>
      .refused s!"Cannot read input file '{String.ofList a.input}': {reason}"
    | .ok source => tokens a g source entry.shownText

def helpLines : List String :=
  ["Tokenize a file with a configurable lexical grammar",
    "",
    "Usage: komparse [OPTIONS] <INPUT>",
    "",
    "Arguments:",
    "  <INPUT>  File to tokenize",
    "",
    "Options:",
    "      --grammar <FILE>       Lexical grammar (JSON); defaults to plain whitespace splitting",
    "      --format <FORMAT>      Token output format [default: text] [possible values: text, json]",
    "      --lenient-comments     Emit a comment cut off by end of input instead of failing",
    "      --log-level <LEVEL>    Global log level [default: warn]",
    "      --log-lexer <LEVEL>    Log level override for the token driver",
    "      --log-reader <LEVEL>   Log level override for the reader states",
    "      --log-source <LEVEL>   Log level override for the character source",
    "      --log-format <FORMAT>  Log output format [default: compact]",
    "  -h, --help                 Print help",
    "  -V, --version              Print version"]

def Quit.run : Quit → Run
  | help => { exitCode := 0, output := helpLines.map String.toList }
  | version => { exitCode := 0, output := ["komparse 0.1.0".toList] }
  | misuse =>
    { exitCode := 2
      messages := ["error: the command line cannot be understood".toList,
        "For more information, try '--help'.".toList] }

def run (words : List Text) (files : Text → Entry) : Run :=
  match Arguments.parse words with
  | .error quit => quit.run
  | .ok a => a.run files

end MarkerLex.Cli
