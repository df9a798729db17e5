import MarkerLex.Proofs.CutOff
import MarkerLex.Proofs.Pieces

/-!
# Offsets and the bytes that were read

The byte offset of a place counts the bytes of the text that was decoded. Bytes that were read
are counted by it too as long as every piece in front of the place is exact. Behind an
ill-formed piece of one or two bytes it runs ahead of them.
-/

namespace MarkerLex

set_option autoImplicit false

open Utf8

namespace Mode

variable {g : Grammar} {config : Config} {mode : Mode}

theorem Reads.cause_ne_source {place : Position} {taken rest : Text} {e : LexError}
    (h : Reads g config mode place taken rest (.error e)) (cause : SourceError) :
    e.cause ≠ .source cause := by
  cases h <;> exact LexCause.noConfusion

/-- A failure is reported at the place where it is met. -/
theorem offset_of_step_error {s s' : Source} {cause : SourceError} {place : Position}
    (hStep : (mode.step g config s).value = (.error ⟨.source cause, place⟩, s')) :
    cause.offset = s'.position.byteOffset := by
  rcases step_stripped_or_failed g config mode s with hSame | ⟨f, rest, stop, -, hFailed⟩
  · obtain ⟨taken, rest, -, -, hReads⟩ := step_reads g config mode s.position s.unread
    change (mode.step g config (.plain s.unread s.position)).value = _ at hSame
    rw [hSame, hStep] at hReads
    exact absurd rfl (hReads.cause_ne_source cause)
  · cases hStep.symm.trans hFailed
    rfl

end Mode

/-- If the error is a failure of the source, it has the offset where the source stands. -/
def LexError.At (s : Source) (e : LexError) : Prop :=
  ∀ cause place, e = ⟨.source cause, place⟩ → cause.offset = s.position.byteOffset

namespace Lexer

variable {g : Grammar} {config : Config} {l : Lexer}

def Ready.At (s : Source) : Ready → Prop
  | failed e _ => e.At s
  | token _ _ | ended => True

theorem at_pump (mode : Mode) (s : Source) :
    (pump g config mode s).value.1.At (pump g config mode s).value.2 := by
  induction mode, s using Mode.steps_induction g config with
  | hStep mode s ih =>
    rw [pump_value]
    split
    case h_1 hStep =>
      rintro cause place rfl
      exact Mode.offset_of_step_error hStep
    case h_2 | h_3 => trivial
    case h_4 hStep => exact ih _ _ _ hStep

/-- What is left of `origin` when a lexer reads on. -/
def LeftOf (origin : Source) (_mode : Mode) (s : Source) : Prop := ∃ taken, origin.Leaves taken s

def Ready.LeftOf (origin s : Source) (r : Ready) : Prop :=
  (∃ taken, origin.Leaves taken s) ∧ r.At s

theorem leftOf_invariant (origin : Source) : Invariant g config (LeftOf origin)
    (fun r s => r.LeftOf origin s) where
  pump := by
    rintro mode s ⟨taken, hTaken⟩
    obtain ⟨further, hFurther⟩ := pump_leaves g config mode s
    exact ⟨⟨taken ++ further, hTaken.trans hFurther⟩, at_pump mode s⟩
  token := by
    rintro t next s ⟨hLeaves, -⟩
    exact hLeaves
  reported _ _ h := h

/-- Every failure that a lexer answers has the offset where its source stands, and the source is
what is left of the one that the lexer was created over. -/
theorem leaves_of_error {s : Source} {created : Traced Lexer} {call : Call} {cause : SourceError}
    {place : Position} (hCreate : create s g config = .ok created) (calls : List Call)
    (hError : ((created.value.after calls).answer call).1.error? = some ⟨.source cause, place⟩) :
    ∃ taken, s.Leaves taken ((created.value.after calls).answer call).2.source ∧
      cause.offset = ((created.value.after calls).answer call).2.source.position.byteOffset := by
  have hInvariant : Invariant g config (LeftOf s) (fun r left => r.LeftOf s left) :=
    leftOf_invariant s
  have hFront : LeftOf s .std s := ⟨[], .refl s⟩
  have hKeeps : created.value.Keeps g config (LeftOf s) (fun r left => r.LeftOf s left) :=
    value_of_create hCreate ▸ keeps_reading hFront
  rcases (hKeeps.after hInvariant calls).of_error hInvariant hError with
    ⟨reported, ⟨taken, hLeaves⟩, hAt⟩ | ⟨hExhausted, -⟩
  · exact ⟨taken, hLeaves, hAt cause place rfl⟩
  · cases hExhausted

/-- Whatever the source, what a lexer delivers lies in the text that the source can deliver. -/
theorem laid_delivered (hValid : g.validate = .ok ()) {s : Source} (hFront : s.position = .start)
    {created : Traced Lexer} (hCreate : create s g config = .ok created) (calls : List Call) :
    ∃ taken rest, s.unread = taken ++ rest ∧
      Token.Laid g .start taken (created.value.delivered calls) := by
  obtain ⟨later, hRun, -⟩ := stands_after (stands_create hCreate) calls
  obtain ⟨rest, hTokens⟩ := Run.tokens_prefix_stripped g config .std s
  rw [hRun, List.append_assoc] at hTokens
  have hCovers : (Run.ofMode g config .std s.stripped).Covers g config .start s.unread := by
    rw [Source.stripped, hFront]
    exact Run.covers_text hValid config s.unread
  obtain ⟨beyond, hBeyond⟩ : ∃ beyond : Run, Run.ofMode g config .std s.stripped =
      ⟨created.value.delivered calls ++ beyond.tokens, beyond.error?⟩ :=
    ⟨⟨later.tokens ++ rest, _⟩, by rw [hTokens]⟩
  obtain ⟨taken, left, hText, hLaid, -⟩ := hCovers.split hBeyond
  exact ⟨taken, left, hText, hLaid⟩

end Lexer

/-- A token was decoded from the pieces `within`. Its offsets count the pieces in front by their
bytes and by their excess. -/
structure Token.DecodedFrom (before within : List Piece) (t : Token) : Prop where
  text : t.text = Piece.text within
  start : t.start.byteOffset = (Piece.data before).length + Piece.excess before
  stop : t.stop.byteOffset =
    (Piece.data (before ++ within)).length + Piece.excess (before ++ within)

/-- The offsets of a token are those of the bytes that it was decoded from. -/
structure Token.Indexes (before within : List Piece) (t : Token) : Prop where
  start : t.start.byteOffset = (Piece.data before).length
  stop : t.stop.byteOffset = (Piece.data (before ++ within)).length

section Pieces

variable {bytes : List UInt8} {before within after : List Piece} {t : Token}

theorem Token.DecodedFrom.indexes_iff (h : t.DecodedFrom before within)
    (hPieces : pieces bytes = before ++ within ++ after) :
    t.Indexes before within ↔ ∀ p ∈ before ++ within, p.Exact := by
  have hLengths := Piece.length_le_of_pieces hPieces
  have hFront := List.forall_mem_append.mp hLengths
  constructor
  · rintro ⟨-, hStop⟩
    rw [h.stop, Nat.add_eq_left] at hStop
    exact (Piece.excess_eq_zero hLengths).mp hStop
  · intro hExact
    have hBefore := (Piece.excess_eq_zero hFront.1).mpr (List.forall_mem_append.mp hExact).1
    have hWithin := (Piece.excess_eq_zero hLengths).mpr hExact
    constructor
    · rw [h.start, hBefore, Nat.add_zero]
    · rw [h.stop, hWithin, Nat.add_zero]

/-- Cut out of the bytes, what is between the offsets is what the token was decoded from. -/
theorem Token.Indexes.slice (h : t.Indexes before within)
    (hPieces : pieces bytes = before ++ within ++ after) :
    (bytes.take t.stop.byteOffset).drop t.start.byteOffset = Piece.data within := by
  have hBytes : bytes = Piece.data (before ++ within) ++ Piece.data after := by
    rw [← data_pieces bytes, hPieces, Piece.data_append]
  rw [h.start, h.stop, hBytes, List.take_left, Piece.data_append, List.drop_left]

theorem Token.exists_decodedFrom {a b : Text} (hText : lossy bytes = a ++ t.text ++ b)
    (hStart : t.start = Position.start.advancedBy a)
    (hStop : t.stop = Position.start.advancedBy (a ++ t.text)) :
    ∃ before within after, pieces bytes = before ++ within ++ after ∧
      t.DecodedFrom before within := by
  obtain ⟨front, after, hPieces, hFront, -⟩ := Piece.exists_pieces_append hText
  obtain ⟨before, within, rfl, hBefore, hWithin⟩ := List.map_eq_append_iff.mp hFront
  have hLengths := Piece.length_le_of_pieces hPieces
  refine ⟨before, within, after, hPieces, hWithin.symm, ?_, ?_⟩
  · rw [hStart, Position.byteOffset_start_advancedBy, ← hBefore]
    exact Piece.byteLength_text (List.forall_mem_append.mp hLengths).1
  · rw [hStop, Position.byteOffset_start_advancedBy, ← hFront]
    exact Piece.byteLength_text hLengths

end Pieces

namespace Lexer

/-- The offsets of tokens and of failures count the bytes that were read and, on top of them, the
excess of the pieces in front. So they index these bytes exactly when each of those pieces is
exact. -/
theorem offsets_ofReads {g : Grammar} (hValid : g.validate = .ok ()) (config : Config)
    (reads : List Read) :
    ∃ created, create (.ofReads reads) g config = .ok created ∧ ∀ calls,
      (∀ t ∈ created.value.delivered calls, ∃ before within after,
        pieces (Read.data reads) = before ++ within ++ after ∧ t.DecodedFrom before within ∧
          (t.Indexes before within ↔ ∀ p ∈ before ++ within, p.Exact)) ∧
      ∀ call cause place,
        ((created.value.after calls).answer call).1.error? = some ⟨.source cause, place⟩ →
          ∃ before after, pieces (Read.data reads) = before ++ after ∧
            ((created.value.after calls).answer call).2.source.unread = Piece.text after ∧
            cause.offset = (Piece.data before).length + Piece.excess before ∧
            (cause.offset = (Piece.data before).length ↔ ∀ p ∈ before, p.Exact) := by
  obtain ⟨created, hCreate⟩ := create_of_validate hValid (.ofReads reads) config
  refine ⟨created, hCreate, fun calls => ⟨?_, ?_⟩⟩
  · intro t ht
    obtain ⟨taken, rest, hText, hLaid⟩ := laid_delivered hValid rfl hCreate calls
    obtain ⟨a, b, rfl, -, hStart, hStop⟩ := hLaid.around ht
    rw [Source.unread_ofReads, List.append_assoc] at hText
    obtain ⟨before, within, after, hPieces, hDecoded⟩ :=
      Token.exists_decodedFrom hText hStart hStop
    exact ⟨before, within, after, hPieces, hDecoded, hDecoded.indexes_iff hPieces⟩
  · intro call cause place hError
    obtain ⟨taken, hLeaves, hOffset⟩ := leaves_of_error hCreate calls hError
    have hText := hLeaves.unread
    rw [Source.unread_ofReads] at hText
    obtain ⟨before, after, hPieces, rfl, hAfter⟩ := Piece.exists_pieces_append hText
    have hLengths := Piece.length_le_of_pieces hPieces
    have hCount : cause.offset = (Piece.data before).length + Piece.excess before := by
      rw [hOffset, hLeaves.position, ← Piece.byteLength_text hLengths]
      exact Position.byteOffset_start_advancedBy _
    refine ⟨before, after, hPieces, hAfter.symm, hCount, ?_⟩
    rw [hCount, Nat.add_eq_left]
    exact Piece.excess_eq_zero hLengths

/-- What is left of an ill-formed beginning may be as long as what replaces it. -/
theorem offsets_ofReads_sample : Grammar.sample.validate = .ok () ∧
    ∃ created, create (.ofReads [.bytes [0xF0, 0x9F, 0x92, 0x61]]) .sample {} = .ok created ∧
      ∀ t ∈ created.value.delivered [.advance], ∃ within, t.text = Piece.text within ∧
        ([0xF0, 0x9F, 0x92, 0x61].take t.stop.byteOffset).drop t.start.byteOffset =
          Piece.data within := by
  obtain ⟨created, hCreate, hOffsets⟩ :=
    offsets_ofReads (g := .sample) rfl {} [.bytes [0xF0, 0x9F, 0x92, 0x61]]
  refine ⟨rfl, created, hCreate, fun t ht => ?_⟩
  obtain ⟨before, within, after, hPieces, hDecoded, hIndexes⟩ := (hOffsets [.advance]).1 t ht
  have hWhole : pieces [0xF0, 0x9F, 0x92, 0x61] = before ++ within ++ after := hPieces
  have hExact : ∀ p ∈ pieces [0xF0, 0x9F, 0x92, 0x61], p.Exact := by decide +kernel
  rw [hWhole] at hExact
  have hHere := hIndexes.mpr (List.forall_mem_append.mp hExact).1
  exact ⟨within, hDecoded.text, hHere.slice hWhole⟩

/-- One byte that begins no character is replaced by three, and from then on all offsets are
behind the end of the bytes that were read. -/
theorem exists_offset_apart : ∃ created,
    create (.ofReads [.bytes [0xFF, 0x20, 0x61, 0x20], .failed ⟨.timedOut, "timed out"⟩]) {} {} =
      .ok created ∧
    (∃ t ∈ created.value.delivered [.advance, .advance], ∀ before within after,
      pieces [0xFF, 0x20, 0x61, 0x20] = before ++ within ++ after → ¬ t.Indexes before within) ∧
    ∃ cause place, ((created.value.after [.advance, .advance]).answer .advance).1.error? =
        some ⟨.source cause, place⟩ ∧
      ∀ before after, pieces [0xFF, 0x20, 0x61, 0x20] = before ++ after →
        cause.offset ≠ (Piece.data before).length := by
  refine ⟨_, rfl, ⟨⟨.term, ['a'], ⟨1, 3, 4, 2⟩⟩, by decide +kernel, ?_⟩,
    ⟨⟨.timedOut, "timed out"⟩, 6⟩, ⟨1, 5, 6, 4⟩, by decide +kernel, ?_⟩
  · rintro before within after hPieces ⟨-, hStop⟩
    have hLength := Piece.length_data_le hPieces
    rw [← hStop] at hLength
    exact absurd hLength (by decide)
  · intro before after hPieces hOffset
    have hLength := Piece.length_data_le hPieces
    rw [← hOffset] at hLength
    exact absurd hLength (by decide)

end Lexer

end MarkerLex
