import MarkerLex.Cli.Run
import MarkerLex.Proofs.PullOrder
import MarkerLex.Proofs.TextStep
import MarkerLex.Proofs.TokenLine

/-!
# The output of a run

A run of the program prints the lines of the tokens that are delivered, in order. Read line by
line, the output gives them back exactly when no line is broken. In the JSON format none is; in
the text format a name that holds a line end breaks the lines of its strings, and nothing else does.
-/

namespace MarkerLex

set_option autoImplicit false

section Kinds

variable {g : Grammar} {config : Config}

/-- A mode that a lexer over the grammar can be in: what is being read is a delimiter of it. -/
def Mode.Belongs (g : Grammar) (mode : Mode) : Prop :=
  ∀ start d, mode = ofDelimiter start d → d ∈ g.delimiters

theorem Mode.belongs_std (g : Grammar) : std.Belongs g := by
  intro start d h
  exact absurd h (std_ne_ofDelimiter start d)

theorem Mode.belongs_whitespace (g : Grammar) : whitespace.Belongs g := by
  intro start d h
  exact absurd h (whitespace_ne_ofDelimiter start d)

/-- The category of a token is that of plain text or one that the grammar gives. -/
def Token.Belongs (g : Grammar) (t : Token) : Prop :=
  t.kind = .term ∨ ∃ d ∈ g.delimiters, t.kind = d.kind

theorem Token.belongs_term? {u : Text} {place : Position} : ∀ t ∈ term? u place, t.Belongs g := by
  intro t ht
  obtain ⟨-, rfl⟩ := term?_eq_some.mp ht
  exact .inl rfl

theorem Mode.Reads.emits_belonging {mode next : Mode} {place : Position} {taken rest : Text}
    {token? : Option Token} (h : Reads g config mode place taken rest (.ok (.emit token? next)))
    (hMode : mode.Belongs g) : (∀ t ∈ token?, t.Belongs g) ∧ next.Belongs g := by
  cases h with
  | lastTerm =>
    refine ⟨?_, belongs_std g⟩
    rintro t ⟨⟩
    exact .inl rfl
  | space => exact ⟨Token.belongs_term?, belongs_whitespace g⟩
  | @opening _ u _ d hOpens =>
    refine ⟨Token.belongs_term?, fun start e hSame => ?_⟩
    obtain ⟨-, rfl⟩ := ofDelimiter_inj hSame
    exact Grammar.mem_of_opening? hOpens.first
  | gap => exact ⟨nofun, belongs_std g⟩
  | @closed _ start d =>
    refine ⟨?_, belongs_std g⟩
    rintro t ⟨⟩
    exact .inr ⟨d, hMode start d rfl, rfl⟩
  | @lenient _ start spec =>
    refine ⟨?_, belongs_std g⟩
    rintro t ⟨⟩
    exact .inr ⟨.comment spec, hMode start (.comment spec) rfl, rfl⟩

theorem Run.belongs_of_ofMode (mode : Mode) (s : Source)
    (hMode : mode.Belongs g) : ∀ t ∈ (ofMode g config mode s).tokens, t.Belongs g := by
  induction mode, s using Mode.steps_induction g config with
  | hStep mode s ih =>
    rcases hStep : (mode.step g config s).value with ⟨outcome, s'⟩
    cases outcome with
    | error e =>
      rw [ofMode_of_error hStep]
      simp
    | ok step =>
      cases step with
      | exhausted =>
        rw [ofMode_of_exhausted hStep]
        simp
      | emit token? next =>
        obtain ⟨taken, -, hReads⟩ := Mode.reads_of_step_ok hStep
        obtain ⟨hToken, hNext⟩ := hReads.emits_belonging hMode
        rw [ofMode_of_emit hStep]
        intro t ht
        obtain ht | ht := List.mem_append.mp ht
        · exact hToken t (Option.mem_toList.mp ht)
        · exact ih _ _ _ hStep hNext t ht

theorem Run.name_of_ofMode (s : Source) {t : Token} (ht : t ∈ (ofMode g config .std s).tokens)
    {name : Text} (hName : t.kind = .string (some name)) :
    ∃ spec ∈ g.strings, spec.name = some name := by
  obtain hTerm | ⟨d, hMember, hKind⟩ := belongs_of_ofMode .std s (Mode.belongs_std g) t ht
  · cases hName.symm.trans hTerm
  · cases d with
    | comment => cases hName.symm.trans hKind
    | string spec =>
      refine ⟨spec, ?_, (TokenKind.string.inj (hName.symm.trans hKind)).symm⟩
      simpa [Grammar.delimiters] using hMember

end Kinds

namespace Report

/-- No token line is broken, except by a name in the text format. -/
theorem newline_notMem_tokenLines (format : TokenFormat) (tokens : List Token) :
    (∀ line ∈ tokens.map (tokenLine format), '\n' ∉ line) ↔
      format = .json ∨ ∀ t ∈ tokens, ∀ name, t.kind = .string (some name) → '\n' ∉ name := by
  rw [List.forall_mem_map]
  cases format with
  | text =>
    constructor
    · intro h
      refine .inr fun t ht name hName hBroken => h t ht ?_
      exact (newline_mem_textLine t).mpr ⟨name, hName, hBroken⟩
    · rintro (h | h) t ht hBroken
      · cases h
      · obtain ⟨name, hName, hBroken⟩ := (newline_mem_textLine t).mp hBroken
        exact h t ht name hName hBroken
  | json => exact ⟨fun _ => .inl rfl, fun _ t _ => newline_notMem_jsonLine t⟩

end Report

theorem Text.newline_notMem_of_mem_splitOn {t line : Text} (h : line ∈ t.splitOn '\n') :
    '\n' ∉ line := by
  induction t generalizing line with
  | nil =>
    rw [List.splitOn_nil, List.mem_singleton] at h
    rw [h]
    exact List.not_mem_nil
  | cons c t ih =>
    rw [List.splitOn_cons_eq_if_modifyHead] at h
    split at h
    · obtain rfl | h := List.mem_cons.mp h
      · exact List.not_mem_nil
      · exact ih h
    · rename_i hc
      obtain ⟨first, more, hMore⟩ := List.exists_cons_of_ne_nil (List.splitOn_ne_nil '\n' t)
      rw [hMore] at h ih
      obtain rfl | h := List.mem_cons.mp h
      · rw [List.mem_cons, not_or]
        exact ⟨fun hSame => hc (beq_iff_eq.mpr hSame.symm), ih (List.mem_cons_self ..)⟩
      · exact ih (List.mem_cons_of_mem _ h)

theorem Grammar.validate_of_ofJson {t : Text} {g : Grammar} (h : ofJson t = .ok g) :
    g.validate = .ok () := by
  rw [ofJson] at h
  split at h
  case h_1 => cases h
  case h_2 g' _ =>
    cases hValid : g'.validate with
    | error e =>
      rw [hValid] at h
      cases h
    | ok =>
      rw [hValid] at h
      cases h
      exact hValid

namespace Cli

theorem splitOn_ended (lines : List Text) :
    (Run.ended lines).splitOn '\n' = lines ++ [[]] ↔ ∀ line ∈ lines, '\n' ∉ line := by
  constructor
  · intro h line hLine
    apply Text.newline_notMem_of_mem_splitOn (t := Run.ended lines)
    rw [h]
    exact List.mem_append_left _ hLine
  · intro h
    induction lines with
    | nil => rfl
    | cons line lines ih =>
      obtain ⟨hLine, hLines⟩ := List.forall_mem_cons.mp h
      have hEnded : Run.ended (line :: lines) = line ++ '\n' :: Run.ended lines := by
        rw [Run.ended, List.flatMap_cons, List.append_assoc]
        rfl
      rw [hEnded, List.splitOn_append_cons_self_of_not_mem hLine, ih hLines]
      rfl

theorem validate_of_readGrammar {files : Text → Entry} {path? : Option Text} {g : Grammar}
    (h : readGrammar files path? = .ok g) : g.validate = .ok () := by
  cases path? with
  | none =>
    cases h
    rfl
  | some path =>
    simp only [readGrammar] at h
    split at h
    case h_1 => cases h
    case h_2 t _ =>
      split at h
      case h_1 => cases h
      case h_2 g' hRead =>
        cases h
        exact Grammar.validate_of_ofJson hRead

theorem deliveredTokens_eq (run : MarkerLex.Run) :
    deliveredTokens (run.tokens.map .ok ++ (run.error?.map .error).toList) = run.tokens := by
  have hTokens : (run.tokens.map .ok).filterMap (@Except.toOption LexError Token) = run.tokens := by
    rw [List.filterMap_map]
    exact List.filterMap_some
  rw [deliveredTokens, List.filterMap_append, hTokens]
  cases run.error? <;> exact List.append_nil _

def Arguments.config (a : Arguments) : Config := if a.lenientComments then .lenient else {}

theorem output_run {files : Text → Entry} {a : Arguments} {g : Grammar} {source : Source}
    (hGrammar : readGrammar files a.grammar = .ok g)
    (hSource : (files a.input).source = .ok source) :
    (a.run files).output =
      (MarkerLex.Run.ofMode g a.config .std source).tokens.map (Report.tokenLine a.format) := by
  have hValid := validate_of_readGrammar hGrammar
  obtain ⟨created, hCreate⟩ := Lexer.create_of_validate hValid source a.config
  have hItems := Lexer.collect_of_stands (Lexer.stands_create hCreate)
  generalize MarkerLex.Run.ofMode g a.config .std source = run at hItems
  rw [Arguments.config] at hCreate
  simp only [Arguments.run, hGrammar, hSource, tokens, hCreate, Traced.andThen_value, hItems,
    deliveredTokens_eq]
  split <;> rfl

theorem stdout_run {files : Text → Entry} {words : List Text} {a : Arguments} {g : Grammar}
    {source : Source} (hWords : Arguments.parse words = .ok a)
    (hGrammar : readGrammar files a.grammar = .ok g)
    (hSource : (files a.input).source = .ok source) :
    (run words files).stdout = Run.ended
      ((MarkerLex.Run.ofMode g a.config .std source).tokens.map (Report.tokenLine a.format)) := by
  rw [run]
  simp only [hWords]
  rw [Run.stdout, output_run hGrammar hSource]

/-- Read line by line, the output of a run gives back the lines of the tokens that were delivered
exactly when no name has brought a line end into the text format. -/
theorem splitOn_stdout {files : Text → Entry} {words : List Text} {a : Arguments} {g : Grammar}
    {source : Source} (hWords : Arguments.parse words = .ok a)
    (hGrammar : readGrammar files a.grammar = .ok g)
    (hSource : (files a.input).source = .ok source) :
    ∃ delivered, Lexer.Performs source g a.config delivered ∧
      ((run words files).stdout.splitOn '\n' =
          delivered.tokens.map (Report.tokenLine a.format) ++ [[]] ↔
        a.format = .json ∨
          ∀ t ∈ delivered.tokens, ∀ name, t.kind = .string (some name) → '\n' ∉ name) := by
  have hValid := validate_of_readGrammar hGrammar
  refine ⟨_, Lexer.performs_ofMode hValid source a.config, ?_⟩
  rw [stdout_run hWords hGrammar hSource, splitOn_ended]
  exact Report.newline_notMem_tokenLines _ _

/-- A file with two texts between quotes, and a grammar that gives such texts the name. -/
def quotedFiles (name : String) : Text → Entry :=
  FileTree.entry <| FileTree.ofPaths
    [("in.txt".toList, "'x' 'y'".toList.flatMap String.utf8EncodeChar),
      ("g.json".toList,
        ("\x7b\"strings\":[\x7b\"start\":\"'\",\"end\":\"'\",\"name\":\"" ++ name ++
          "\"\x7d]\x7d").toList.flatMap String.utf8EncodeChar)]

def quotedWords : List Text := ["in.txt".toList, "--grammar".toList, "g.json".toList]

def quotedArguments : Arguments :=
  ⟨"in.txt".toList, some "g.json".toList, .text, false, ⟨.warn, none, none, none⟩, .compact⟩

def quotedGrammar (name : Text) : Grammar := ⟨.usual, [], [⟨['\''], ['\''], none, some name⟩]⟩

def quotedSource : Source := .ofBytes [0x27, 0x78, 0x27, 0x20, 0x27, 0x79, 0x27]

theorem splitOn_stdout_sample :
    Arguments.parse quotedWords = .ok quotedArguments ∧
    readGrammar (quotedFiles "Q") quotedArguments.grammar = .ok (quotedGrammar ['Q']) ∧
    (quotedFiles "Q" quotedArguments.input).source = .ok quotedSource ∧
    ∃ delivered, Lexer.Performs quotedSource (quotedGrammar ['Q']) {} delivered ∧
      ((run quotedWords (quotedFiles "Q")).stdout.splitOn '\n' =
          delivered.tokens.map Report.textLine ++ [[]] ↔
        quotedArguments.format = .json ∨
          ∀ t ∈ delivered.tokens, ∀ name, t.kind = .string (some name) → '\n' ∉ name) := by
  have hWords : Arguments.parse quotedWords = .ok quotedArguments := by decide +kernel
  have hGrammar : readGrammar (quotedFiles "Q") quotedArguments.grammar =
      .ok (quotedGrammar ['Q']) := by
    decide +kernel
  have hSource : (quotedFiles "Q" quotedArguments.input).source = .ok quotedSource := by
    decide +kernel
  exact ⟨hWords, hGrammar, hSource, splitOn_stdout hWords hGrammar hSource⟩

/-- A name with a line end tears the lines of two tokens apart into four. -/
theorem exists_torn_line :
    Arguments.parse quotedWords = .ok quotedArguments ∧
    readGrammar (quotedFiles "a\\nb") quotedArguments.grammar =
      .ok (quotedGrammar ['a', '\n', 'b']) ∧
    (quotedFiles "a\\nb" quotedArguments.input).source = .ok quotedSource ∧
    ∃ delivered,
      Lexer.Performs quotedSource (quotedGrammar ['a', '\n', 'b']) quotedArguments.config
        delivered ∧
      delivered.tokens.length = 2 ∧
      (run quotedWords (quotedFiles "a\\nb")).stdout.splitOn '\n' =
        ["STRING|a".toList, "b  1:1  \"'x'\"".toList, "STRING|a".toList, "b  1:5  \"'y'\"".toList,
          []] := by
  refine ⟨by decide +kernel, by decide +kernel, by decide +kernel, _,
    Lexer.performs_ofMode (by decide +kernel) _ _, ?_, ?_⟩
  · decide +kernel
  · decide +kernel

/-- A grammar without a line end in its names gives one line for each token in both formats. -/
theorem splitOn_stdout_of_names {files : Text → Entry} {words : List Text} {a : Arguments}
    {g : Grammar} {source : Source} (hWords : Arguments.parse words = .ok a)
    (hGrammar : readGrammar files a.grammar = .ok g)
    (hSource : (files a.input).source = .ok source)
    (hNames : ∀ spec ∈ g.strings, ∀ name ∈ spec.name, '\n' ∉ name) :
    ∃ delivered, Lexer.Performs source g a.config delivered ∧
      (run words files).stdout.splitOn '\n' =
        delivered.tokens.map (Report.tokenLine a.format) ++ [[]] := by
  have hValid := validate_of_readGrammar hGrammar
  refine ⟨_, Lexer.performs_ofMode hValid source a.config, ?_⟩
  rw [stdout_run hWords hGrammar hSource, splitOn_ended, Report.newline_notMem_tokenLines]
  right
  intro t ht name hName
  obtain ⟨spec, hSpec, hSpecName⟩ := MarkerLex.Run.name_of_ofMode source ht hName
  exact hNames spec hSpec name hSpecName

end Cli

end MarkerLex
