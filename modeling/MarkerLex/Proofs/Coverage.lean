import MarkerLex.Proofs.PullOrder
import MarkerLex.Proofs.Slice
import MarkerLex.Proofs.TextStep

/-!
# Coverage

A run over a text loses nothing: the tokens stand in the text one after the other
with nothing but whitespace between them, and what a run ends in stands after
whitespace too. Every place follows from the text before it.
-/

namespace MarkerLex

set_option autoImplicit false

namespace Token

/-- From a place on, a text consists of tokens, each with whitespace before it. -/
inductive Laid (g : Grammar) : Position → Text → List Token → Prop
  | nil {place : Position} : Laid g place [] []
  | cons {place : Position} {gap text : Text} {t : Token} {tokens : List Token}
    (hGap : ∀ c ∈ gap, g.isWhitespace c = true) (hStart : t.start = place.advancedBy gap)
    (hRead : t.text ≠ []) (hLater : Laid g t.stop text tokens) :
    Laid g place (gap ++ t.text ++ text) (t :: tokens)

def stopAfter (place : Position) : List Token → Position
  | [] => place
  | t :: tokens => stopAfter t.stop tokens

theorem stop_eq (t : Token) : t.stop = t.start.advancedBy t.text := rfl

variable {g : Grammar} {place : Position} {text : Text} {tokens : List Token}

theorem Laid.stopAfter_eq (h : Laid g place text tokens) :
    stopAfter place tokens = place.advancedBy text := by
  induction h with
  | nil => rfl
  | @cons place gap text t tokens hGap hStart hRead hLater ih =>
    rw [stopAfter, ih, stop_eq, hStart, Position.advancedBy_append, Position.advancedBy_append]

theorem Laid.split {earlier later : List Token} {t : Token}
    (h : Laid g place text (earlier ++ t :: later)) :
    ∃ before gap after, text = before ++ gap ++ t.text ++ after ∧ Laid g place before earlier ∧
      (∀ c ∈ gap, g.isWhitespace c = true) ∧ t.start = place.advancedBy (before ++ gap) ∧
      t.text ≠ [] ∧ Laid g t.stop after later := by
  induction earlier generalizing place text with
  | nil =>
    cases h with
    | @cons _ gap after _ _ hGap hStart hRead hLater =>
      exact ⟨[], gap, after, rfl, .nil, hGap, hStart, hRead, hLater⟩
  | cons u earlier ih =>
    cases h with
    | @cons _ first rest _ _ hFirst hPlace hFull hRest =>
      obtain ⟨before, gap, after, rfl, hBefore, hGap, hStart, hRead, hLater⟩ := ih hRest
      refine ⟨first ++ u.text ++ before, gap, after, by simp only [List.append_assoc],
        .cons hFirst hPlace hFull hBefore, hGap, ?_, hRead, hLater⟩
      rw [hStart, stop_eq, hPlace]
      simp only [Position.advancedBy_append]

/-- A token has its places from what stands before it. -/
theorem Laid.around (h : Laid g place text tokens) {t : Token} (ht : t ∈ tokens) :
    ∃ before after, text = before ++ t.text ++ after ∧ t.text ≠ [] ∧
      t.start = place.advancedBy before ∧ t.stop = place.advancedBy (before ++ t.text) := by
  obtain ⟨earlier, later, rfl⟩ := List.append_of_mem ht
  obtain ⟨before, gap, after, hText, -, -, hStart, hRead, -⟩ := h.split
  refine ⟨before ++ gap, after, hText, hRead, hStart, ?_⟩
  rw [stop_eq, hStart, ← Position.advancedBy_append]

theorem Laid.le_start (h : Laid g place text tokens) :
    ∀ t ∈ tokens, place.byteOffset ≤ t.start.byteOffset := by
  intro t ht
  obtain ⟨before, after, -, -, hStart, -⟩ := h.around ht
  rw [hStart, Position.byteOffset_advancedBy]
  omega

theorem Laid.ordered (h : Laid g place text tokens) :
    tokens.Pairwise fun a b => a.stop.byteOffset ≤ b.start.byteOffset := by
  induction h with
  | nil => exact .nil
  | cons hGap hStart hRead hLater ih => exact List.pairwise_cons.mpr ⟨hLater.le_start, ih⟩

end Token

theorem Delimiter.token_stop (d : Delimiter) (start : Position) (body : Text) :
    (d.token start body).stop = (start.advancedBy d.start).advancedBy body :=
  Position.advancedBy_append ..

open Token

/-- From a place on, a run accounts for a whole text. At an error, after whitespace, there
stands the start marker of the delimiter whose reading fails. -/
inductive Run.Covers (g : Grammar) (config : Config) : Position → Text → Run → Prop
  | ended {place : Position} {gap : Text} (hGap : ∀ c ∈ gap, g.isWhitespace c = true) :
    Covers g config place gap ⟨[], none⟩
  | failed {place : Position} {gap taken rest : Text} {d : Delimiter} {e : LexError}
    (hGap : ∀ c ∈ gap, g.isWhitespace c = true) (hMember : d ∈ g.delimiters)
    (hPlace : e.position = place.advancedBy gap)
    (hFails : Mode.Reads g config (.ofDelimiter e.position d) (e.position.advancedBy d.start)
      taken rest (.error e)) :
    Covers g config place (gap ++ d.start ++ (taken ++ rest)) ⟨[], some e⟩
  | token {place : Position} {gap text : Text} {t : Token} {run : Run}
    (hGap : ∀ c ∈ gap, g.isWhitespace c = true) (hStart : t.start = place.advancedBy gap)
    (hRead : t.text ≠ []) (hLater : Covers g config t.stop text run) :
    Covers g config place (gap ++ t.text ++ text) (run.push (some t))

namespace Mode

/-- How a mode stands at a place when the last token ended at `origin` and only whitespace
and the marker that the mode was entered with came after it. -/
structure Entered (g : Grammar) (origin : Position) (gap : Text) (mode : Mode) (place : Position) :
    Prop where
  place_eq : place = (origin.advancedBy gap).advancedBy mode.seed
  delimited : ∀ d start, mode = .ofDelimiter start d →
    d ∈ g.delimiters ∧ start = origin.advancedBy gap

variable {g : Grammar} {config : Config} {origin place : Position} {gap : Text}

theorem entered_std (hPlace : origin.advancedBy gap = place) : Entered g origin gap .std place where
  place_eq := hPlace.symm
  delimited d start h := absurd h (std_ne_ofDelimiter start d)

theorem entered_whitespace (hPlace : origin.advancedBy gap = place) :
    Entered g origin gap .whitespace place where
  place_eq := hPlace.symm
  delimited d start h := absurd h (whitespace_ne_ofDelimiter start d)

theorem entered_ofDelimiter {d : Delimiter} {start : Position} (hMember : d ∈ g.delimiters)
    (hPlace : origin.advancedBy gap = start) :
    Entered g origin gap (.ofDelimiter start d) (start.advancedBy d.start) where
  place_eq := by rw [seed_ofDelimiter, hPlace]
  delimited d' start' h := by
    obtain ⟨rfl, rfl⟩ := ofDelimiter_inj h
    exact ⟨hMember, hPlace.symm⟩

theorem Reads.eq_ofDelimiter_of_error {mode : Mode} {taken rest : Text} {e : LexError}
    (h : Reads g config mode place taken rest (.error e)) :
    ∃ d, mode = .ofDelimiter e.position d := by
  cases h with
  | @tooDeep _ _ spec | @commentCutOff _ _ spec => exact ⟨.comment spec, rfl⟩
  | @stringCutOff _ _ spec => exact ⟨.string spec, rfl⟩

end Mode

namespace Run

variable {g : Grammar} {config : Config} {origin place : Position} {gap text : Text} {run : Run}

theorem Covers.of_term {u rest : Text} (hGap : ∀ c ∈ gap, g.isWhitespace c = true)
    (hNext : ∀ origin' gap', (∀ c ∈ gap', g.isWhitespace c = true) →
      origin'.advancedBy gap' = (origin.advancedBy gap).advancedBy u →
        Covers g config origin' (gap' ++ rest) run) :
    Covers g config origin (gap ++ (u ++ rest))
      (run.push (Token.term? u (origin.advancedBy gap))) := by
  by_cases hEmpty : u = []
  · subst hEmpty
    exact hNext origin gap hGap rfl
  · have hLater : Covers g config ((origin.advancedBy gap).advancedBy u) rest run :=
      hNext _ [] (fun _ hc => nomatch hc) rfl
    rw [Token.term?, if_neg hEmpty, ← List.append_assoc]
    exact .token (t := ⟨.term, u, origin.advancedBy gap⟩) hGap rfl hEmpty hLater

theorem Covers.of_token {start : Position} {d : Delimiter} {body rest : Text}
    (hValid : g.validate = .ok ()) (hGap : ∀ c ∈ gap, g.isWhitespace c = true)
    (hMember : d ∈ g.delimiters) (hStart : start = origin.advancedBy gap)
    (hLater : Covers g config ((start.advancedBy d.start).advancedBy body) rest run) :
    Covers g config origin (gap ++ (d.start ++ (body ++ rest)))
      (run.push (some (d.token start body))) := by
  have hRead : d.start ++ body ≠ [] :=
    List.append_ne_nil_of_left_ne_nil (Grammar.start_of_validate hValid hMember).1 body
  rw [← List.append_assoc d.start, ← List.append_assoc gap]
  rw [← Delimiter.token_stop] at hLater
  exact .token (t := d.token start body) hGap hStart hRead hLater

theorem Covers.of_emit {mode next : Mode} {taken rest : Text} {token? : Option Token}
    (hValid : g.validate = .ok ()) (hEntered : mode.Entered g origin gap place)
    (hGap : ∀ c ∈ gap, g.isWhitespace c = true)
    (h : mode.Reads g config place taken rest (.ok (.emit token? next)))
    (hLater : ∀ origin' gap', next.Entered g origin' gap' (place.advancedBy taken) →
      (∀ c ∈ gap', g.isWhitespace c = true) →
        Covers g config origin' (gap' ++ (next.seed ++ rest)) run) :
    Covers g config origin (gap ++ (mode.seed ++ (taken ++ rest))) (run.push token?) := by
  cases h with
  | lastTerm hPlain hRead =>
    obtain rfl : place = origin.advancedBy gap := hEntered.place_eq
    have hTerm := Covers.of_term hGap fun origin' gap' hGap' hMoved =>
      hLater origin' gap' (Mode.entered_std hMoved) hGap'
    rwa [Token.term?, if_neg hRead] at hTerm
  | space hPlain hSpace =>
    obtain rfl : place = origin.advancedBy gap := hEntered.place_eq
    exact .of_term hGap fun origin' gap' hGap' hMoved =>
      hLater origin' gap' (Mode.entered_whitespace hMoved) hGap'
  | @opening _ u rest d hOpens =>
    obtain rfl : place = origin.advancedBy gap := hEntered.place_eq
    have hMember := Grammar.mem_of_opening? hOpens.first
    rw [Position.advancedBy_append] at hLater
    have hTerm := Covers.of_term hGap fun origin' gap' hGap' hMoved =>
      hLater origin' gap' (Mode.entered_ofDelimiter hMember hMoved) hGap'
    rwa [Mode.seed_ofDelimiter, ← List.append_assoc u] at hTerm
  | gap hSpace hRest =>
    obtain rfl : place = origin.advancedBy gap := hEntered.place_eq
    have hMoved := Position.advancedBy_append origin gap taken
    have hLonger := hLater origin (gap ++ taken) (Mode.entered_std hMoved)
      (List.forall_mem_append.mpr ⟨hGap, hSpace⟩)
    rwa [List.append_assoc] at hLonger
  | @closed _ start d _ _ hCloses =>
    obtain ⟨hMember, hStart⟩ := hEntered.delimited d start rfl
    obtain rfl := hEntered.place_eq
    rw [Mode.seed_ofDelimiter, ← hStart] at hLater
    rw [Mode.seed_ofDelimiter]
    exact .of_token hValid hGap hMember hStart (hLater _ [] (Mode.entered_std rfl) (by simp))
  | @lenient _ start spec _ hOpen hLenient =>
    obtain ⟨hMember, hStart⟩ := hEntered.delimited (.comment spec) start rfl
    obtain rfl := hEntered.place_eq
    rw [← hStart] at hLater
    exact .of_token hValid hGap hMember hStart (hLater _ [] (Mode.entered_std rfl) (by simp))

/-- From every mode that a lexer can be in, what follows is accounted for. -/
theorem covers_ofMode (hValid : g.validate = .ok ()) (mode : Mode) (place : Position) (t : Text)
    (origin : Position) (gap : Text) (hEntered : mode.Entered g origin gap place)
    (hGap : ∀ c ∈ gap, g.isWhitespace c = true) :
    Covers g config origin (gap ++ (mode.seed ++ t)) (ofMode g config mode (.plain t place)) := by
  induction mode, place, t using Mode.reads_induction g config
    generalizing origin gap with
  | hReads mode place taken rest outcome h ih =>
    have hStep := Mode.step_of_reads h
    cases outcome with
    | error e =>
      rw [ofMode_of_error hStep]
      obtain ⟨d, rfl⟩ := h.eq_ofDelimiter_of_error
      obtain ⟨hMember, hStart⟩ := hEntered.delimited d e.position rfl
      obtain rfl := hEntered.place_eq
      rw [Mode.seed_ofDelimiter] at h ⊢
      rw [← hStart] at h
      rw [← List.append_assoc]
      exact .failed hGap hMember hStart h
    | ok step =>
      cases step with
      | exhausted =>
        rw [ofMode_of_exhausted hStep]
        cases h
        rw [Mode.seed, List.append_nil, List.append_nil, List.append_nil]
        exact .ended hGap
      | emit token? next =>
        rw [ofMode_of_emit hStep]
        exact .of_emit hValid hEntered hGap h (ih token? next rfl)

/-- A run over a whole text accounts for it. -/
theorem covers_text (hValid : g.validate = .ok ()) (config : Config) (t : Text) :
    Covers g config .start t (ofMode g config .std (.ofText t)) := by
  apply covers_ofMode hValid .std .start t .start [] (Mode.entered_std rfl)
  simp

theorem Covers.split {earlier : List Token} (h : Covers g config place text run)
    {later : Run} (hRun : run = ⟨earlier ++ later.tokens, later.error?⟩) :
    ∃ taken rest, text = taken ++ rest ∧ Token.Laid g place taken earlier ∧
      Covers g config (Token.stopAfter place earlier) rest later := by
  induction earlier generalizing place text run with
  | nil =>
    subst hRun
    exact ⟨[], text, rfl, .nil, h⟩
  | cons t earlier ih =>
    cases h with
    | ended | failed => cases hRun
    | @token _ gap rest u run hGap hStart hRead hLater =>
      obtain ⟨rfl, hRest⟩ : u = t ∧ run = ⟨earlier ++ later.tokens, later.error?⟩ := by
        obtain ⟨tokens, error?⟩ := run
        cases hRun
        exact ⟨rfl, rfl⟩
      obtain ⟨taken, rest, rfl, hLaid, hCovers⟩ := ih hLater hRest
      exact ⟨gap ++ u.text ++ taken, rest, by simp only [List.append_assoc],
        .cons hGap hStart hRead hLaid, hCovers⟩

end Run

/-- Tokens lie in a text in order. Each is the slice between its own offsets, its places are
those of a walk from the front of the text, and there is only whitespace before it. -/
structure Token.Spread (g : Grammar) (text : Text) (tokens : List Token) : Prop where
  sliced : ∀ t ∈ tokens, t.text = text.slice t.start.byteOffset t.stop.byteOffset ∧ t.text ≠ []
  placed : ∀ t ∈ tokens, t.start = Position.start.advancedBy (text.upTo t.start.byteOffset) ∧
    t.stop = Position.start.advancedBy (text.upTo t.stop.byteOffset)
  forward : ∀ t ∈ tokens, t.start.byteOffset < t.stop.byteOffset
  ordered : tokens.Pairwise fun a b => a.stop.byteOffset ≤ b.start.byteOffset
  gaps : ∀ earlier t later, tokens = earlier ++ t :: later →
    ∀ c ∈ text.slice (stopAfter .start earlier).byteOffset t.start.byteOffset,
      g.isWhitespace c = true

namespace Token

variable {g : Grammar} {taken rest : Text} {tokens : List Token}

theorem Laid.stopAfter_byteOffset (h : Laid g .start taken tokens) :
    (stopAfter .start tokens).byteOffset = taken.byteLength := by
  rw [h.stopAfter_eq, Position.byteOffset_start_advancedBy]

theorem Laid.spread (h : Laid g .start taken tokens) : Spread g (taken ++ rest) tokens := by
  have hWhere {t : Token} (ht : t ∈ tokens) : ∃ before after,
      taken ++ rest = before ++ t.text ++ after ∧ t.text ≠ [] ∧
      t.start = Position.start.advancedBy before ∧
      t.stop = Position.start.advancedBy (before ++ t.text) := by
    obtain ⟨before, after, rfl, hToken⟩ := h.around ht
    exact ⟨before, after ++ rest, List.append_assoc .., hToken⟩
  constructor
  case sliced =>
    intro t ht
    obtain ⟨before, after, hText, hRead, hStart, hStop⟩ := hWhere ht
    rw [hText, hStart, hStop, Position.byteOffset_start_advancedBy,
      Position.byteOffset_start_advancedBy, Text.slice_append]
    exact ⟨rfl, hRead⟩
  case placed =>
    intro t ht
    obtain ⟨before, after, hText, hRead, hStart, hStop⟩ := hWhere ht
    constructor
    · rw [hStart, Position.byteOffset_start_advancedBy, hText, List.append_assoc, Text.upTo_append]
    · rw [hStop, Position.byteOffset_start_advancedBy, hText, Text.upTo_append]
  case forward =>
    intro t ht
    obtain ⟨before, after, hText, hRead, hStart, hStop⟩ := hWhere ht
    have hBytes := Text.byteLength_pos hRead
    rw [hStart, hStop, Position.byteOffset_start_advancedBy, Position.byteOffset_start_advancedBy,
      Text.byteLength_append]
    omega
  case ordered => exact h.ordered
  case gaps =>
    rintro earlier t later rfl
    obtain ⟨before, gap, after, rfl, hBefore, hGap, hStart, -, -⟩ := h.split
    rw [hBefore.stopAfter_byteOffset, hStart, Position.byteOffset_start_advancedBy,
      List.append_assoc, List.append_assoc (before ++ gap), Text.slice_append]
    exact hGap

end Token

/-- An error is placed exactly, after whitespace, where the start marker of a delimiter stands
whose reading fails with it. -/
structure LexError.Placed (g : Grammar) (config : Config) (text : Text) (stop : Nat)
    (e : LexError) : Prop where
  placed : e.position = Position.start.advancedBy (text.upTo e.position.byteOffset)
  later : stop ≤ e.position.byteOffset
  gap : ∀ c ∈ text.slice stop e.position.byteOffset, g.isWhitespace c = true
  opened : ∃ d ∈ g.delimiters, ∃ taken rest,
    text.slice e.position.byteOffset text.byteLength = d.start ++ (taken ++ rest) ∧
      Mode.Reads g config (.ofDelimiter e.position d) (e.position.advancedBy d.start) taken rest
        (.error e)

namespace Run.Covers

variable {g : Grammar} {config : Config} {taken rest : Text} {tokens : List Token}

theorem gap_of_ended (hLaid : Token.Laid g .start taken tokens)
    (h : Covers g config (stopAfter .start tokens) rest ⟨[], none⟩) :
    ∀ c ∈ (taken ++ rest).slice (stopAfter .start tokens).byteOffset (taken ++ rest).byteLength,
      g.isWhitespace c = true := by
  have hSlice := Text.slice_append taken rest []
  rw [List.append_nil] at hSlice
  rw [hLaid.stopAfter_byteOffset, hSlice]
  cases h with
  | ended hGap => exact hGap

theorem placed_of_failed {e : LexError} (hLaid : Token.Laid g .start taken tokens)
    (h : Covers g config (stopAfter .start tokens) rest ⟨[], some e⟩) :
    e.Placed g config (taken ++ rest) (stopAfter .start tokens).byteOffset := by
  cases h with
  | @failed _ gap body rest d _ hGap hMember hPlace hFails =>
    rw [hLaid.stopAfter_eq, ← Position.advancedBy_append] at hPlace
    have hOffset : e.position.byteOffset = (taken ++ gap).byteLength := by
      rw [hPlace, Position.byteOffset_start_advancedBy]
    have hText : taken ++ (gap ++ d.start ++ (body ++ rest)) =
        taken ++ gap ++ (d.start ++ (body ++ rest)) := by simp only [List.append_assoc]
    have hSlice := Text.slice_append (taken ++ gap) (d.start ++ (body ++ rest)) []
    rw [List.append_nil] at hSlice
    rw [hLaid.stopAfter_byteOffset, hText]
    refine ⟨?_, ?_, ?_, d, hMember, body, rest, ?_, hFails⟩
    · rw [hOffset, Text.upTo_append, hPlace]
    · rw [hOffset, Text.byteLength_append]
      omega
    · rw [hOffset, Text.slice_append]
      exact hGap
    · rw [hOffset, hSlice]

end Run.Covers

namespace Lexer

/-- Whatever has been asked of a lexer over a text, the tokens it has delivered cover the text
as far as the last of them, and whitespace is all that stands between them and the end or the
error that it finds. -/
theorem delivered_cover {g : Grammar} (hValid : g.validate = .ok ()) (text : Text)
    (config : Config) :
    ∃ created, create (.ofText text) g config = .ok created ∧ ∀ calls,
      Token.Spread g text (created.value.delivered calls) ∧
      ((created.value.after calls).hasNext.value.1 = .ok false →
        ∀ c ∈ text.slice (stopAfter .start (created.value.delivered calls)).byteOffset
          text.byteLength, g.isWhitespace c = true) ∧
      (∀ e, (created.value.after calls).hasNext.value.1 = .error e →
        e.Placed g config text (stopAfter .start (created.value.delivered calls)).byteOffset) := by
  obtain ⟨created, hCreate⟩ := create_of_validate hValid (.ofText text) config
  refine ⟨created, hCreate, fun calls => ?_⟩
  have hCovers := Run.covers_text hValid config text
  obtain ⟨later, hRun, hLater⟩ := stands_after (stands_create hCreate) calls
  obtain ⟨taken, rest, rfl, hLaid, hRest⟩ := hCovers.split hRun
  have hAnswer := (stands_answer hLater .hasNext).1
  change _ = _ at hAnswer
  refine ⟨hLaid.spread, ?_, ?_⟩
  · intro hEnd
    rw [hEnd] at hAnswer
    obtain ⟨tokens, error?⟩ := later
    cases tokens with
    | cons t tokens => cases hAnswer
    | nil =>
      cases error? with
      | some e => cases hAnswer
      | none => exact hRest.gap_of_ended hLaid
  · intro e hError
    rw [hError] at hAnswer
    obtain ⟨tokens, error?⟩ := later
    cases tokens with
    | cons t tokens => cases hAnswer
    | nil =>
      cases error? with
      | some e' =>
        cases hAnswer
        exact hRest.placed_of_failed hLaid
      | none => cases hAnswer

theorem delivered_cover_sample : Grammar.sample.validate = .ok () ∧
    ∃ created, create (.ofText ['a', ' ', '\'', 'b', '\'']) .sample {} = .ok created ∧
      Token.Spread .sample ['a', ' ', '\'', 'b', '\'']
        (created.value.delivered [.advance, .hasNext, .next]) := by
  obtain ⟨created, hCreate, hCover⟩ :=
    delivered_cover (g := .sample) rfl ['a', ' ', '\'', 'b', '\''] {}
  exact ⟨rfl, created, hCreate, (hCover _).1⟩

end Lexer

end MarkerLex
