import MarkerLex.Proofs.Phases
import MarkerLex.Proofs.Pieces
import MarkerLex.Proofs.Requests

/-!
# Warnings about bytes

A source of bytes remarks on every ill-formed part of them right before it brings the character
that replaces the part, and on nothing else. So wherever a source is left, the warnings that it
has given are those about the replacements it has brought until then. A replacement character that
the bytes spell out themselves is no replacement.
-/

namespace MarkerLex

set_option autoImplicit false

/-- The bytes that an event warns about, and where. -/
def Event.illFormed? : Event → Option (List UInt8 × Position)
  | badLeadByte byte place => some ([byte], place)
  | badBytes bytes place => some (bytes, place)
  | _ => none

theorem Event.filterMap_illFormed? (events : List Event) :
    events.filterMap illFormed? = (events.filter (isOf .source)).filterMap illFormed? := by
  rw [List.filterMap_filter]
  congr
  funext e
  cases e <;> rfl

def Note.illFormed? : Note → Option (List UInt8)
  | ended => none
  | badLead byte => some [byte]
  | badBytes bytes => some bytes

theorem Note.illFormed?_event (n : Note) (place : Position) :
    (n.event place).illFormed? = n.illFormed?.map (·, place) := by
  cases n <;> rfl

namespace Utf8.Piece

theorem Sound.own_or_ill {p : Piece} {rest : List UInt8} (h : p.Sound rest) :
    p.bytes = String.utf8EncodeChar p.char ∨
      p.char = replacement ∧ ∀ c, p.bytes ≠ String.utf8EncodeChar c := by
  obtain hOwn | ⟨hChar, hPart⟩ := h
  · exact .inl hOwn
  · refine .inr ⟨hChar, fun c hBytes => hPart.ill c ?_⟩
    rw [hBytes]
    exact List.prefix_append _ _

/-- The parts of the bytes that are not those of the character they are decoded to, each with the
place of that character. -/
def replaced (place : Position) : List Piece → List (List UInt8 × Position)
  | [] => []
  | p :: ps =>
    if p.bytes = String.utf8EncodeChar p.char then replaced (place.advance p.char) ps
    else (p.bytes, place) :: replaced (place.advance p.char) ps

end Utf8.Piece

open Utf8 (Piece)

namespace Note

variable {lead : UInt8} {rest : List UInt8}

theorem remarks_of_wellFormed (h : (Utf8.head lead rest).wellFormed = true) :
    remarks lead rest = [] := by
  rw [remarks]
  split
  case h_1 hNone =>
    rw [Utf8.head_of_not_announced hNone] at h
    cases h
  case h_2 => rw [if_pos h]

theorem remarks_of_ill (h : (Utf8.head lead rest).wellFormed = false) :
    ∃ n, remarks lead rest = [n] ∧
      n.illFormed? = some (lead :: rest.take ((Utf8.head lead rest).width - 1)) := by
  rw [remarks]
  split
  case h_1 hNone =>
    rw [Utf8.head_of_not_announced hNone]
    exact ⟨.badLead lead, rfl, rfl⟩
  case h_2 =>
    rw [h]
    exact ⟨_, rfl, rfl⟩

end Note

namespace Signal

/-- Signals that stand for pieces. A character stands for bytes of its own, or right behind a
remark for those that it replaces. -/
inductive StandFor : List Signal → List Piece → Prop
  | nil : StandFor [] []
  | failure {f : ReadFailure} {signals : List Signal} {ps : List Piece}
    (hRest : StandFor signals ps) : StandFor (.failure f :: signals) ps
  | ended {signals : List Signal} {ps : List Piece} (hRest : StandFor signals ps) :
    StandFor (.note .ended :: signals) ps
  | own {c : Char} {signals : List Signal} {ps : List Piece} (hRest : StandFor signals ps) :
    StandFor (.char c :: signals) (⟨String.utf8EncodeChar c, c⟩ :: ps)
  | replacing {n : Note} {bytes : List UInt8} {c : Char} {signals : List Signal}
    {ps : List Piece} (hRemark : n.illFormed? = some bytes)
    (hIll : bytes ≠ String.utf8EncodeChar c) (hRest : StandFor signals ps) :
    StandFor (.note n :: .char c :: signals) (⟨bytes, c⟩ :: ps)

/-- The character in front, once whatever stood before it has been told. -/
def shown : List Signal → Text
  | .char c :: _ => [c]
  | _ => []

variable {signals passed left : List Signal} {ps : List Piece}

theorem StandFor.failures (h : StandFor signals ps) (lost : List ReadFailure) :
    StandFor (lost.map .failure ++ signals) ps := by
  induction lost with
  | nil => exact h
  | cons f lost ih => exact .failure ih

theorem StandFor.atEnd (h : StandFor signals ps) {notes : List Note}
    (hEnded : ∀ n ∈ notes, n = .ended) : StandFor (notes.map .note ++ signals) ps := by
  induction notes with
  | nil => exact h
  | cons n notes ih =>
    obtain ⟨rfl, hLater⟩ := List.forall_mem_cons.mp hEnded
    exact .ended (ih hLater)

theorem StandFor.remarks (h : StandFor signals ps) (lead : UInt8) (rest : List UInt8) :
    StandFor ((Note.remarks lead rest).map .note ++ .char (Utf8.head lead rest).char :: signals)
      (⟨lead :: rest.take ((Utf8.head lead rest).width - 1), (Utf8.head lead rest).char⟩ ::
        ps) := by
  obtain ⟨c, tail, left, rfl, hEncode, hHead⟩ | ⟨part, left, rfl, hPart, hHead⟩ :=
    Utf8.head_spec lead rest
  · rw [Note.remarks_of_wellFormed (by rw [hHead]), hHead]
    simpa [hEncode] using h.own (c := c)
  · obtain ⟨n, hRemarks, hRemark⟩ := Note.remarks_of_ill (by rw [hHead]; rfl)
    have hPiece : (part ++ left).take ((Utf8.head lead (part ++ left)).width - 1) = part := by
      simp [hHead, Utf8.Head.ill]
    rw [hPiece] at hRemark ⊢
    rw [hRemarks, hHead]
    refine .replacing hRemark ?_ h
    intro hOwn
    apply hPart.ill Utf8.replacement
    rw [hOwn]
    exact List.prefix_append _ _

theorem standFor_decode (ended : Bool) (items : List ReadItem) :
    StandFor (decode ended items) (Utf8.pieces (ReadItem.bytes items)) := by
  induction hn : items.length using Nat.strongRecOn generalizing ended items with
  | ind n ih =>
    subst hn
    cases items with
    | nil =>
      change StandFor (decode ended []) (Utf8.pieces [])
      rw [decode, Utf8.pieces]
      cases ended with
      | true => exact .nil
      | false => exact .ended .nil
    | cons item rest =>
      cases item with
      | failure f =>
        rw [decode]
        exact .failure (ih rest.length (Nat.lt_succ_self _) ended rest rfl)
      | byte lead =>
        have hShorter := Nat.lt_succ_of_le (ReadItem.leftover_length_le lead rest)
        obtain ⟨atEnd, later, hEnded, hDecode⟩ := decode_byte_remarks ended lead rest
        have hRest := ih _ hShorter later _ rfl
        rw [ReadItem.bytes_leftover] at hRest
        change StandFor _ (Utf8.pieces (lead :: ReadItem.bytes rest))
        rw [hDecode, List.map_append, List.append_assoc, Utf8.pieces]
        exact ((hRest.remarks lead _).atEnd hEnded).failures _

/-- However far signals have been passed, what has been remarked on are the parts replaced by
characters that have been brought. -/
theorem StandFor.cut (h : StandFor signals ps) (place : Position)
    (hSignals : signals = passed ++ left) :
    ∃ seen ahead, ps = seen ++ ahead ∧ Piece.text seen = chars passed ++ shown left ∧
      (told place passed).filterMap Event.illFormed? = Piece.replaced place seen := by
  induction h generalizing passed place with
  | nil =>
    obtain ⟨rfl, rfl⟩ := List.nil_eq_append_iff.mp hSignals
    exact ⟨[], [], rfl, rfl, rfl⟩
  | failure hRest ih =>
    obtain ⟨rfl, rfl⟩ | ⟨passed, rfl, hLeft⟩ := List.cons_eq_append_iff.mp hSignals
    · exact ⟨[], _, rfl, rfl, rfl⟩
    · have hLater := ih place hLeft
      exact hLater
  | ended hRest ih =>
    obtain ⟨rfl, rfl⟩ | ⟨passed, rfl, hLeft⟩ := List.cons_eq_append_iff.mp hSignals
    · exact ⟨[], _, rfl, rfl, rfl⟩
    · have hLater := ih place hLeft
      exact hLater
  | @own c signals ps hRest ih =>
    obtain ⟨rfl, rfl⟩ | ⟨passed, rfl, hLeft⟩ := List.cons_eq_append_iff.mp hSignals
    · exact ⟨[_], ps, rfl, rfl, by simp [told, Piece.replaced]⟩
    · obtain ⟨seen, ahead, rfl, hText, hTold⟩ := ih (place.advance c) hLeft
      refine ⟨_ :: seen, ahead, rfl, congrArg (c :: ·) hText, ?_⟩
      simpa [told, Piece.replaced] using hTold
  | @replacing n bytes c signals ps hRemark hIll hRest ih =>
    have hTelling := (n.illFormed?_event place).trans (congrArg _ hRemark)
    obtain ⟨rfl, rfl⟩ | ⟨passed, rfl, hLater⟩ := List.cons_eq_append_iff.mp hSignals
    · exact ⟨[], _, rfl, rfl, rfl⟩
    -- between the remark and the replacement, the replacement has been brought already
    obtain ⟨rfl, rfl⟩ | ⟨passed, rfl, hLeft⟩ := List.cons_eq_append_iff.mp hLater
    · refine ⟨[_], ps, rfl, rfl, ?_⟩
      simp [told, Piece.replaced, hTelling, hIll]
    · obtain ⟨seen, ahead, rfl, hText, hTold⟩ := ih (place.advance c) hLeft
      refine ⟨_ :: seen, ahead, rfl, congrArg (c :: ·) hText, ?_⟩
      simp [told, Piece.replaced, hTelling, hIll, hTold]

end Signal

namespace Source

/-- A source of reads has been left with these events behind it. The pieces that have been brought
are those of the characters that have been taken and of the one in front. The events warn of the
replaced ones among them, of each once, and of nothing else. -/
structure Warns (reads : List Read) (events : List Event) (taken : Text) (left : Source) :
    Prop where
  substituted : ∀ p ∈ Utf8.pieces (Read.data reads), p.bytes = String.utf8EncodeChar p.char ∨
    p.char = Utf8.replacement ∧ ∀ c, p.bytes ≠ String.utf8EncodeChar c
  unread : Utf8.lossy (Read.data reads) = taken ++ left.unread
  position : left.position = Position.start.advancedBy taken
  warned : ∃ seen ahead, Utf8.pieces (Read.data reads) = seen ++ ahead ∧
    Piece.text seen = taken ++ Signal.shown left.signals ∧
    events.filterMap Event.illFormed? = Piece.replaced .start seen

theorem Tells.warns {reads : List Read} {events : List Event} {left : Source}
    (h : (ofReads reads).Tells events left) : ∃ taken, Warns reads events taken left := by
  obtain ⟨passed, hSignals, hPlace, hEvents⟩ := h
  have hStand := Signal.standFor_decode false (Read.items reads)
  rw [Read.bytes_items] at hStand
  obtain ⟨seen, ahead, hPieces, hText, hTold⟩ := hStand.cut .start hSignals
  refine ⟨Signal.chars passed, fun p hp => ?_, ?_, hPlace, seen, ahead, hPieces, hText, ?_⟩
  · obtain ⟨before, after, hAround⟩ := List.append_of_mem hp
    exact (Utf8.sound_of_pieces hAround).own_or_ill
  · rw [← unread_ofReads, unread, hSignals, Signal.chars_append]
    rfl
  · rw [Event.filterMap_illFormed?, hEvents]
    exact hTold

/-- What a source tells when it is asked. -/
def told (s : Source) : Request → List Event
  | .peek => s.peek.events
  | .hasNext => s.hasNext.events
  | .advance => s.advance.events

def events (s : Source) : List Request → List Event
  | [] => []
  | request :: requests => s.told request ++ events (s.reply request).2 requests

theorem tells_front (place : Position) (signals : List Signal) :
    Tells ⟨signals, place⟩ (front place signals).events
      (match (front place signals).value with
        | .ended => ⟨[], place⟩
        | .char c rest => ⟨.char c :: rest, place⟩
        | .failure _ rest => ⟨rest, place⟩) := by
  induction signals with
  | nil => exact tells_nothing _ rfl
  | cons signal rest ih =>
    cases signal with
    | char c => exact tells_nothing _ rfl
    | failure f => exact tells_failure f rest place
    | note n => exact (tells_note n rest place).trans ih

theorem tells_reply (s : Source) (request : Request) :
    s.Tells (s.told request) (s.reply request).2 := by
  have hFront := tells_front s.position s.signals
  have hPeek : s.Tells s.peek.events s.peek.value.2 := by
    simp only [peek, Traced.map]
    split <;> rename_i hValue <;> rw [hValue] at hFront <;> exact hFront
  cases request with
  | peek | hasNext => exact hPeek
  | advance =>
    simp only [told, reply, advance, Traced.map]
    split
    case h_1 hValue | h_3 hValue =>
      rw [hValue] at hFront
      exact hFront
    case h_2 c rest hValue =>
      rw [hValue] at hFront
      simpa using hFront.trans (tells_char_silent c rest s.position)

theorem tells_after (s : Source) (requests : List Request) :
    s.Tells (s.events requests) (s.after requests) := by
  induction requests generalizing s with
  | nil => exact tells_nothing s rfl
  | cons request requests ih => exact (s.tells_reply request).trans (ih _)

/-- However often a source is asked for the same character, it warns of its bytes once. -/
theorem warns_after (reads : List Read) (requests : List Request) :
    Warns reads ((ofReads reads).events requests) ((ofReads reads).delivered requests)
      ((ofReads reads).after requests) := by
  obtain ⟨taken, hWarns⟩ := ((ofReads reads).tells_after requests).warns
  have hUnread := ((ofReads reads).passes_after requests).unread
  rw [unread_ofReads, hWarns.unread] at hUnread
  rwa [← List.append_cancel_right hUnread]

example : ((ofReads [.bytes [0xFF, 0xEF, 0xBF, 0xBD]]).events
    [.peek, .peek, .advance, .advance, .advance]).filterMap Event.illFormed? =
      [([0xFF], .start)] := by cbv

end Source

end MarkerLex
