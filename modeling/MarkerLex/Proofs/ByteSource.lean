import MarkerLex.Proofs.Gathering
import MarkerLex.Proofs.Stripped

/-!
# Sources of bytes deliver decoded text

A source of bytes asks for as many bytes as the first one of a character announces,
which is enough to decode as if all bytes were at hand. So only the bytes matter and
not how reads bring them, and a lexer answers as over the decoded text.
-/

namespace MarkerLex

set_option autoImplicit false

/-- Ways in which reads bring bytes and then come to the end without a failure. -/
inductive Read.Splits : List UInt8 → List Read → Prop
  | nothing : Splits [] []
  | ended {reads : List Read} : Splits [] (.bytes [] :: reads)
  | bytes {piece rest : List UInt8} {reads : List Read} (hSome : piece ≠ [])
    (hRest : Splits rest reads) : Splits (piece ++ rest) (.bytes piece :: reads)
  | interrupted {data : List UInt8} {reads : List Read} (hRest : Splits data reads) :
    Splits data (.interrupted :: reads)

theorem Read.items_of_splits {data : List UInt8} {reads : List Read} (h : Splits data reads) :
    items reads = data.map .byte := by
  induction h with
  | nothing => rfl
  | ended => rfl
  | @bytes piece rest reads hSome hRest ih =>
    cases piece with
    | nil => exact absurd rfl hSome
    | cons b piece => rw [items, ih, List.map_append]; exact List.cons_ne_nil _ _
  | interrupted hRest ih => exact ih

namespace Source

theorem ofReads_stripped {data : List UInt8} {reads : List Read} (h : Read.Splits data reads) :
    (ofReads reads).stripped = ofText (Utf8.lossy data) ∧ (ofReads reads).Unfailing := by
  rw [ofReads, Read.items_of_splits h]
  constructor
  · rw [stripped, unread, Signal.chars_decode, ReadItem.bytes_map_byte]
    rfl
  · apply Signal.failures_eq_nil.mp
    rw [Signal.failures_decode, ReadItem.failures_map_byte]

end Source

namespace Lexer

/-- Over bytes, however they are read, a lexer gives the answers that it gives over the text to
which they are decoded, and there is one such text. -/
theorem answers_ofReads {g : Grammar} (hValid : g.validate = .ok ()) (config : Config)
    {data : List UInt8} {reads : List Read} (hReads : Read.Splits data reads) :
    (∃! text, Utf8.Decodes data text) ∧ ∀ text, Utf8.Decodes data text →
      ∃ overReads overText, create (.ofReads reads) g config = .ok overReads ∧
        create (.ofText text) g config = .ok overText ∧
        ∀ calls, overReads.value.answers calls = overText.value.answers calls := by
  refine ⟨⟨Utf8.lossy data, Utf8.decodes_lossy data, fun text h => Utf8.decodes_iff.mp h⟩, ?_⟩
  intro text hText
  obtain rfl := Utf8.decodes_iff.mp hText
  obtain ⟨hStripped, hUnfailing⟩ := Source.ofReads_stripped hReads
  have hCreate (s : Source) : ∃ events, create s g config =
      .ok ⟨events, ⟨s, g, config, .reading .std⟩⟩ := by
    rw [create, Grammar.error?_of_validate hValid]
    exact ⟨_, rfl⟩
  obtain ⟨events, hOverReads⟩ := hCreate (.ofReads reads)
  obtain ⟨events', hOverText⟩ := hCreate (.ofText (Utf8.lossy data))
  refine ⟨_, _, hOverReads, hOverText, fun calls => ?_⟩
  have hSame := answers_stripped (l := ⟨.ofReads reads, g, config, .reading .std⟩) hUnfailing calls
  rw [stripped, hStripped] at hSame
  exact hSame.symm

theorem answers_ofReads_sample : Grammar.sample.validate = .ok () ∧
    Read.Splits [0xE2, 0x82, 0xAC] [.bytes [0xE2], .interrupted, .bytes [0x82, 0xAC], .bytes []] ∧
    ∀ text, Utf8.Decodes [0xE2, 0x82, 0xAC] text →
      ∃ overReads overText,
        create (.ofReads [.bytes [0xE2], .interrupted, .bytes [0x82, 0xAC], .bytes []]) .sample {} =
          .ok overReads ∧
        create (.ofText text) .sample {} = .ok overText ∧
        ∀ calls, overReads.value.answers calls = overText.value.answers calls := by
  have hLast : Read.Splits ([0x82, 0xAC] ++ []) [.bytes [0x82, 0xAC], .bytes []] :=
    .bytes (List.cons_ne_nil _ _) .ended
  have hReads : Read.Splits ([0xE2] ++ [0x82, 0xAC])
      [.bytes [0xE2], .interrupted, .bytes [0x82, 0xAC], .bytes []] :=
    .bytes (List.cons_ne_nil _ _) (.interrupted hLast)
  exact ⟨rfl, hReads, (answers_ofReads rfl {} hReads).2⟩

end Lexer

end MarkerLex
