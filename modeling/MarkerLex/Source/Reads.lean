import MarkerLex.Source.Basic

/-!
# Sources of bytes

A provider of bytes is the list of what its reads bring. An interrupted read is
tried again, and a read that brings no byte is the last one. For each character
as many bytes are asked for as its first byte announces, so a failure that
stands between the bytes of one character is delivered before that character.
-/

namespace MarkerLex

set_option autoImplicit false

inductive Read where
  | bytes (data : List UInt8)
  | interrupted
  | failed (failure : ReadFailure)
deriving DecidableEq, Repr

inductive ReadItem where
  | byte (b : UInt8)
  | failure (f : ReadFailure)
deriving DecidableEq, Repr

/-- Everything that reads bring before the first one without a byte. -/
def Read.items : List Read → List ReadItem
  | [] => []
  | .bytes [] :: _ => []
  | .bytes data :: rest => data.map .byte ++ items rest
  | .interrupted :: rest => items rest
  | .failed f :: rest => .failure f :: items rest

structure Gathered where
  bytes : List UInt8
  failures : List ReadFailure
  rest : List ReadItem
  ended : Bool
deriving DecidableEq, Repr

def gather : Nat → List ReadItem → Gathered
  | 0, items => ⟨[], [], items, false⟩
  | _ + 1, [] => ⟨[], [], [], true⟩
  | n + 1, .byte b :: rest =>
    let g := gather n rest
    { g with bytes := b :: g.bytes }
  | n + 1, .failure f :: rest =>
    let g := gather (n + 1) rest
    { g with failures := f :: g.failures }

theorem gather_length_le (n : Nat) (items : List ReadItem) :
    (gather n items).bytes.length + (gather n items).rest.length ≤ items.length := by
  fun_induction gather n items with
  | case1 => simp
  | case2 => simp
  | case3 n b rest g ih =>
    change g.bytes.length + g.rest.length ≤ rest.length at ih
    simp only [List.length_cons]
    omega
  | case4 n f rest g ih =>
    change g.bytes.length + g.rest.length ≤ rest.length at ih
    simp only [List.length_cons]
    omega

namespace Signal

/-- The remark that the items ran out, made once. -/
def endNote (announced : Bool) : List Signal := if announced then [] else [.note .ended]

/-- The signals that items are decoded to. `ended` tells that their end has been remarked on. -/
def decode (ended : Bool) : List ReadItem → List Signal
  | [] => endNote ended
  | .failure f :: rest => .failure f :: decode ended rest
  | .byte lead :: rest =>
    match Utf8.announced? lead with
    | none => .note (.badLead lead) :: .char Utf8.replacement :: decode ended rest
    | some count =>
      let g := gather (count - 1) rest
      let first := Utf8.head lead g.bytes
      let remarks :=
        if first.wellFormed then []
        else [.note (.badBytes ((lead :: g.bytes).take first.width))]
      g.failures.map .failure ++ (if g.ended then endNote ended else []) ++ remarks ++
        .char first.char ::
          decode (ended || g.ended) ((g.bytes.drop (first.width - 1)).map .byte ++ g.rest)
termination_by items => items.length
decreasing_by
  · simp
  · simp
  · have := gather_length_le (count - 1) rest
    simp only [List.length_append, List.length_map, List.length_drop, List.length_cons]
    omega

end Signal

namespace Source

def ofReads (reads : List Read) : Source := ⟨Signal.decode false (Read.items reads), .start⟩

def ofBytes (data : List UInt8) : Source := ofReads [.bytes data]

end Source

end MarkerLex
