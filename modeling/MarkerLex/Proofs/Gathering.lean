import MarkerLex.Proofs.Decoding
import MarkerLex.Proofs.Reading
import MarkerLex.Source.Reads

/-!
# Bytes and failures

Reads bring bytes and, between them, failures. What they are decoded to brings the text
of all the bytes and all the failures, both in order. A failure comes ahead of every
character for which bytes after it are needed, and behind all others.
-/

namespace MarkerLex

set_option autoImplicit false

namespace ReadItem

def byte? : ReadItem → Option UInt8
  | byte b => some b
  | failure _ => none

def failure? : ReadItem → Option ReadFailure
  | byte _ => none
  | failure f => some f

def bytes (items : List ReadItem) : List UInt8 := items.filterMap byte?

def failures (items : List ReadItem) : List ReadFailure := items.filterMap failure?

theorem bytes_append (a b : List ReadItem) : bytes (a ++ b) = bytes a ++ bytes b :=
  List.filterMap_append

theorem failures_append (a b : List ReadItem) : failures (a ++ b) = failures a ++ failures b :=
  List.filterMap_append

theorem bytes_map_byte (data : List UInt8) : bytes (data.map .byte) = data := by
  induction data with
  | nil => rfl
  | cons b data ih => exact congrArg (b :: ·) ih

theorem failures_map_byte (data : List UInt8) : failures (data.map .byte) = [] := by
  induction data with
  | nil => rfl
  | cons b data ih => exact ih

end ReadItem

namespace Read

/-- All bytes that reads bring before the first one without a byte. -/
def data : List Read → List UInt8
  | [] => []
  | .bytes [] :: _ => []
  | .bytes piece :: rest => piece ++ data rest
  | .interrupted :: rest => data rest
  | .failed _ :: rest => data rest

/-- All failures of reads before the first one without a byte, interruptions apart. -/
def failures : List Read → List ReadFailure
  | [] => []
  | .bytes [] :: _ => []
  | .bytes _ :: rest => failures rest
  | .interrupted :: rest => failures rest
  | .failed f :: rest => f :: failures rest

theorem bytes_items (reads : List Read) : ReadItem.bytes (items reads) = data reads := by
  fun_induction items reads with
  | case1 => rfl
  | case2 => rfl
  | case3 piece rest hSome ih =>
    rw [ReadItem.bytes_append, ReadItem.bytes_map_byte, ih, data]
    exact hSome
  | case4 rest ih => exact ih
  | case5 f rest ih => exact ih

theorem failures_items (reads : List Read) : ReadItem.failures (items reads) = failures reads := by
  fun_induction items reads with
  | case1 => rfl
  | case2 => rfl
  | case3 piece rest hSome ih =>
    rw [ReadItem.failures_append, ReadItem.failures_map_byte, ih, failures]
    · rfl
    · exact hSome
  | case4 rest ih => exact ih
  | case5 f rest ih => exact congrArg (f :: ·) ih

theorem items_append {earlier : List Read} (hOn : .bytes [] ∉ earlier) (later : List Read) :
    items (earlier ++ later) = items earlier ++ items later := by
  fun_induction items earlier with
  | case1 => rfl
  | case2 rest => exact absurd List.mem_cons_self hOn
  | case3 piece rest hSome ih =>
    rw [List.cons_append, items, ih (fun h => hOn (List.mem_cons_of_mem _ h)), List.append_assoc]
    exact hSome
  | case4 rest ih => exact ih (fun h => hOn (List.mem_cons_of_mem _ h))
  | case5 f rest ih =>
    exact congrArg (ReadItem.failure f :: ·) (ih (fun h => hOn (List.mem_cons_of_mem _ h)))

end Read

/-! What is gathered for a character. -/

section Gather

open ReadItem

theorem gather_bytes (n : Nat) (items : List ReadItem) :
    (gather n items).bytes = (bytes items).take n := by
  fun_induction gather n items with
  | case1 => rfl
  | case2 => rfl
  | case3 n b rest g ih => exact congrArg (b :: ·) ih
  | case4 n f rest g ih => exact ih

theorem bytes_gather_rest (n : Nat) (items : List ReadItem) :
    bytes (gather n items).rest = (bytes items).drop n := by
  fun_induction gather n items with
  | case1 => rfl
  | case2 => rfl
  | case3 n b rest g ih => exact ih
  | case4 n f rest g ih => exact ih

theorem gather_failures (n : Nat) (items : List ReadItem) :
    (gather n items).failures ++ failures (gather n items).rest = failures items := by
  fun_induction gather n items with
  | case1 => rfl
  | case2 => rfl
  | case3 n b rest g ih => exact ih
  | case4 n f rest g ih => exact congrArg (f :: ·) ih

theorem gather_append {n : Nat} {items : List ReadItem} (hEnough : n ≤ (bytes items).length)
    (more : List ReadItem) :
    gather n (items ++ more) =
      { gather n items with rest := (gather n items).rest ++ more } := by
  fun_induction gather n items with
  | case1 items => rw [gather]
  | case2 n => exact absurd hEnough (Nat.not_succ_le_zero n)
  | case3 n b rest g ih =>
    have hRest := ih (Nat.le_of_succ_le_succ hEnough)
    rw [List.cons_append, gather, hRest]
  | case4 n f rest g ih =>
    have hRest := ih hEnough
    rw [List.cons_append, gather, hRest]

/-- Where the bytes before a failure are not enough, the failure is met. -/
theorem gather_failures_prefix {n : Nat} {items : List ReadItem}
    (hShort : (bytes items).length < n) (f : ReadFailure) (more : List ReadItem) :
    failures items ++ [f] <+: (gather n (items ++ .failure f :: more)).failures := by
  fun_induction gather n items with
  | case1 items => exact absurd hShort (Nat.not_lt_zero _)
  | case2 n =>
    rw [List.nil_append, gather]
    exact ⟨_, rfl⟩
  | case3 n b rest g ih =>
    rw [List.cons_append, gather]
    exact ih (Nat.lt_of_succ_lt_succ hShort)
  | case4 n e rest g ih =>
    rw [List.cons_append, gather]
    exact List.cons_prefix_cons.mpr ⟨rfl, ih hShort⟩

end Gather

namespace Utf8

variable {lead : UInt8} {count : Nat}

theorem announced?_of_shape? {s : Shape} (h : shape? lead = some s) :
    announced? lead = some s.length := by
  rw [shape?] at h
  rw [announced?]
  repeat' split at h
  all_goals cases h
  all_goals repeat' split
  all_goals first | rfl | omega

theorem head_take_of_announced (h : announced? lead = some count) (rest : List UInt8) :
    head lead (rest.take (count - 1)) = head lead rest := by
  by_cases hLead : lead.toNat < 0x80
  · rw [head_alone hLead, head_alone hLead]
  cases hShape : shape? lead with
  | none => rw [head_of_none hLead hShape, head_of_none hLead hShape]
  | some s =>
    obtain rfl : s.length = count := Option.some.inj ((announced?_of_shape? hShape).symm.trans h)
    cases rest with
    | nil => rw [List.take_nil]
    | cons second more =>
      have hLength := length_of_shape? hShape
      have hTake : (second :: more).take (s.length - 1) = second :: more.take (s.length - 2) := by
        obtain ⟨n, hn⟩ : ∃ n, s.length = n + 2 := ⟨s.length - 2, by omega⟩
        rw [hn]
        rfl
      rw [hTake]
      by_cases hSecond : s.low ≤ second.toNat ∧ second.toNat ≤ s.high
      · obtain ⟨hLow, hHigh⟩ := hSecond
        rw [head_within hLead hShape hLow hHigh rfl, head_within hLead hShape hLow hHigh rfl,
          List.take_take, Nat.min_self]
      · rw [head_outside hLead hShape hSecond, head_outside hLead hShape hSecond]

theorem head_of_not_announced (h : announced? lead = none) (rest : List UInt8) :
    head lead rest = .ill 1 := by
  have hLead : ¬ lead.toNat < 0x80 := by
    intro hLead
    rw [announced?, if_pos hLead] at h
    cases h
  cases hShape : shape? lead with
  | none => exact head_of_none hLead hShape
  | some s => cases (announced?_of_shape? hShape).symm.trans h

theorem head_width_le (lead : UInt8) (rest : List UInt8) :
    (head lead rest).width ≤ rest.length + 1 := by
  rcases head_spec lead rest with ⟨c, tail, left, rfl, -, hHead⟩ | ⟨part, left, rfl, -, hHead⟩
  · rw [hHead, List.length_append]
    change tail.length + 1 ≤ _
    omega
  · rw [hHead, List.length_append]
    change part.length + 1 ≤ _
    omega

/-- How many bytes are looked at after the first one. -/
def lookahead (lead : UInt8) : Nat := (announced? lead).elim 0 (· - 1)

theorem head_take (lead : UInt8) (rest : List UInt8) :
    head lead (rest.take (lookahead lead)) = head lead rest := by
  rw [lookahead]
  cases hAnnounced : announced? lead with
  | none => rw [head_of_not_announced hAnnounced, head_of_not_announced hAnnounced]
  | some count => exact head_take_of_announced hAnnounced rest

theorem head_width_le_lookahead (lead : UInt8) (rest : List UInt8) :
    (head lead rest).width - 1 ≤ lookahead lead := by
  have hWidth := head_width_le lead (rest.take (lookahead lead))
  rw [head_take, List.length_take] at hWidth
  omega

theorem lossy_cons (lead : UInt8) (rest : List UInt8) :
    lossy (lead :: rest) =
      (head lead rest).char :: lossy (rest.drop ((head lead rest).width - 1)) := by
  rw [lossy]

/-- There are too few bytes for the character that the first of them announces. -/
def Unfinished (bytes : List UInt8) : Prop :=
  ∀ lead rest, bytes = lead :: rest → rest.length < lookahead lead

/-- Whatever bytes follow `data`, it stands for `text` up to an unfinished character. -/
def Settles (data : List UInt8) (text : Text) : Prop :=
  ∃ tail, tail <:+ data ∧ Unfinished tail ∧ ∀ more decoded rest,
    Decodes (data ++ more) decoded → Decodes (tail ++ more) rest → decoded = text ++ rest

variable {data tail : List UInt8} {text : Text}

theorem settles_of_lossy (hTail : tail <:+ data) (hUnfinished : Unfinished tail)
    (h : ∀ more, lossy (data ++ more) = text ++ lossy (tail ++ more)) : Settles data text := by
  refine ⟨tail, hTail, hUnfinished, ?_⟩
  intro more decoded rest hDecoded hRest
  rw [decodes_iff.mp hDecoded, decodes_iff.mp hRest, h]

theorem Settles.prefix_lossy (h : Settles data text) (more : List UInt8) :
    text <+: lossy (data ++ more) := by
  obtain ⟨tail, -, -, hDecodes⟩ := h
  rw [hDecodes more _ _ (decodes_lossy _) (decodes_lossy _)]
  exact List.prefix_append _ _

end Utf8

namespace Signal

open ReadItem

def failure? : Signal → Option ReadFailure
  | char _ => none
  | note _ => none
  | failure f => some f

def failures (signals : List Signal) : List ReadFailure := signals.filterMap failure?

theorem failures_append (a b : List Signal) : failures (a ++ b) = failures a ++ failures b :=
  List.filterMap_append

theorem failures_eq_nil {signals : List Signal} :
    failures signals = [] ↔ ∀ f, .failure f ∉ signals := by
  rw [failures, List.filterMap_eq_nil_iff]
  constructor
  · intro h f hf
    cases h _ hf
  · intro h signal hSignal
    cases signal with
    | char c => rfl
    | note n => rfl
    | failure f => exact absurd hSignal (h f)

theorem failures_map_failure (lost : List ReadFailure) : failures (lost.map .failure) = lost := by
  induction lost with
  | nil => rfl
  | cons f lost ih => exact congrArg (f :: ·) ih

theorem failures_map_note (notes : List Note) : failures (notes.map .note) = [] := by
  induction notes with
  | nil => rfl
  | cons n notes ih => exact ih

theorem chars_map_failure (lost : List ReadFailure) : chars (lost.map .failure) = [] := by
  induction lost with
  | nil => rfl
  | cons f lost ih => exact ih

theorem chars_map_note (notes : List Note) : chars (notes.map .note) = [] := by
  induction notes with
  | nil => rfl
  | cons n notes ih => exact ih

end Signal

namespace ReadItem

/-- What is still to be decoded after the character that begins with `lead`. -/
def leftover (lead : UInt8) (rest : List ReadItem) : List ReadItem :=
  let g := gather (Utf8.lookahead lead) rest
  (g.bytes.drop ((Utf8.head lead g.bytes).width - 1)).map .byte ++ g.rest

variable (lead : UInt8) (rest : List ReadItem)

theorem leftover_length_le : (leftover lead rest).length ≤ rest.length := by
  have hGather := gather_length_le (Utf8.lookahead lead) rest
  simp only [leftover, List.length_append, List.length_map, List.length_drop]
  omega

theorem bytes_leftover : bytes (leftover lead rest) =
    (bytes rest).drop ((Utf8.head lead (bytes rest)).width - 1) := by
  have hWidth := Utf8.head_width_le lead ((bytes rest).take (Utf8.lookahead lead))
  rw [Utf8.head_take] at hWidth
  rw [leftover, gather_bytes, Utf8.head_take, bytes_append, bytes_map_byte, bytes_gather_rest,
    ← List.drop_append_of_le_length (by omega), List.take_append_drop]

theorem failures_leftover : (gather (Utf8.lookahead lead) rest).failures ++
    failures (leftover lead rest) = failures rest := by
  rw [leftover, failures_append, failures_map_byte, List.nil_append, gather_failures]

variable {lead rest} in
theorem leftover_append (hEnough : Utf8.lookahead lead ≤ (bytes rest).length)
    (more : List ReadItem) : leftover lead (rest ++ more) = leftover lead rest ++ more := by
  rw [leftover, leftover, gather_append hEnough, List.append_assoc]

end ReadItem

/-- What is remarked on the bytes at whose front a character is to be found. -/
def Note.remarks (lead : UInt8) (rest : List UInt8) : List Note :=
  match Utf8.announced? lead with
  | none => [.badLead lead]
  | some _ =>
    if (Utf8.head lead rest).wellFormed then []
    else [.badBytes (lead :: rest.take ((Utf8.head lead rest).width - 1))]

theorem Note.remarks_take (lead : UInt8) (rest : List UInt8) :
    remarks lead (rest.take (Utf8.lookahead lead)) = remarks lead rest := by
  rw [remarks, remarks, Utf8.head_take, List.take_take,
    Nat.min_eq_left (Utf8.head_width_le_lookahead lead rest)]

namespace Signal

open ReadItem

variable (ended : Bool)

/-- One character, after the failures that were met while its bytes were gathered, and right
after what is remarked on its bytes. -/
theorem decode_byte_remarks (lead : UInt8) (rest : List ReadItem) :
    ∃ (atEnd : List Note) (later : Bool), (∀ n ∈ atEnd, n = .ended) ∧
      decode ended (.byte lead :: rest) =
        (gather (Utf8.lookahead lead) rest).failures.map .failure ++
          ((atEnd ++ Note.remarks lead (bytes rest)).map .note ++
            .char (Utf8.head lead (bytes rest)).char :: decode later (leftover lead rest)) := by
  rw [decode, leftover, ← Utf8.head_take lead (bytes rest), ← Note.remarks_take, ← gather_bytes,
    Note.remarks]
  cases hAnnounced : Utf8.announced? lead with
  | none =>
    have hNone : Utf8.lookahead lead = 0 := by rw [Utf8.lookahead, hAnnounced, Option.elim_none]
    rw [hNone, gather, Utf8.head_of_not_announced hAnnounced]
    exact ⟨[], ended, List.forall_mem_nil _, rfl⟩
  | some count =>
    have hSome : Utf8.lookahead lead = count - 1 := by
      rw [Utf8.lookahead, hAnnounced, Option.elim_some]
    rw [hSome]
    dsimp only
    generalize gather (count - 1) rest = g
    have hTake : (lead :: g.bytes).take (Utf8.head lead g.bytes).width =
        lead :: g.bytes.take ((Utf8.head lead g.bytes).width - 1) := by
      rw [← List.take_succ_cons,
        Nat.sub_add_cancel (Utf8.head_width_pos lead g.bytes)]
    refine ⟨if g.ended && !ended then [.ended] else [], ended || g.ended, ?_, ?_⟩
    · cases g.ended <;> cases ended <;> simp
    · simp only [endNote, List.map_append, List.append_assoc, hTake]
      cases g.ended <;> cases ended <;> cases (Utf8.head lead g.bytes).wellFormed <;> rfl

theorem decode_byte (lead : UInt8) (rest : List ReadItem) :
    ∃ (notes : List Note) (later : Bool), decode ended (.byte lead :: rest) =
      (gather (Utf8.lookahead lead) rest).failures.map .failure ++ (notes.map .note ++
        .char (Utf8.head lead (bytes rest)).char :: decode later (leftover lead rest)) := by
  obtain ⟨atEnd, later, -, hDecode⟩ := decode_byte_remarks ended lead rest
  exact ⟨_, later, hDecode⟩

theorem chars_decode (items : List ReadItem) :
    chars (decode ended items) = Utf8.lossy (bytes items) := by
  induction hn : items.length using Nat.strongRecOn generalizing ended items with
  | ind n ih =>
    subst hn
    cases items with
    | nil =>
      change chars (decode ended []) = Utf8.lossy []
      rw [decode, Utf8.lossy]
      cases ended <;> rfl
    | cons item rest =>
      cases item with
      | failure f =>
        rw [decode]
        exact ih rest.length (Nat.lt_succ_self _) ended rest rfl
      | byte lead =>
        have hShorter := Nat.lt_succ_of_le (leftover_length_le lead rest)
        obtain ⟨notes, later, hDecode⟩ := decode_byte ended lead rest
        rw [hDecode, chars_append, chars_append, chars_map_failure, chars_map_note, chars,
          ih _ hShorter later _ rfl, bytes_leftover, List.nil_append, List.nil_append]
        exact (Utf8.lossy_cons lead (bytes rest)).symm

theorem failures_decode (items : List ReadItem) :
    failures (decode ended items) = ReadItem.failures items := by
  induction hn : items.length using Nat.strongRecOn generalizing ended items with
  | ind n ih =>
    subst hn
    cases items with
    | nil =>
      rw [decode]
      cases ended <;> rfl
    | cons item rest =>
      cases item with
      | failure f =>
        rw [decode]
        exact congrArg (f :: ·) (ih rest.length (Nat.lt_succ_self _) ended rest rfl)
      | byte lead =>
        have hShorter := Nat.lt_succ_of_le (leftover_length_le lead rest)
        obtain ⟨notes, later, hDecode⟩ := decode_byte ended lead rest
        have hLater : failures (.char (Utf8.head lead (bytes rest)).char ::
            decode later (leftover lead rest)) = ReadItem.failures (leftover lead rest) :=
          ih _ hShorter later _ rfl
        rw [hDecode, failures_append, failures_append, failures_map_failure, failures_map_note,
          List.nil_append, hLater, failures_leftover]
        rfl

/-- Where a failure stands, the failures before it have come, and those characters which the
bytes before it settle. -/
theorem decode_failure (taken : List ReadItem) (f : ReadFailure) (rest : List ReadItem) :
    ∃ before after tail, decode ended (taken ++ .failure f :: rest) =
        before ++ .failure f :: after ∧ failures before = ReadItem.failures taken ∧
      tail <:+ bytes taken ∧ Utf8.Unfinished tail ∧
      ∀ more, Utf8.lossy (bytes taken ++ more) = chars before ++ Utf8.lossy (tail ++ more) := by
  induction hn : taken.length using Nat.strongRecOn generalizing ended taken with
  | ind n ih =>
    subst hn
    cases taken with
    | nil =>
      rw [List.nil_append, decode]
      exact ⟨[], _, [], rfl, rfl, List.suffix_rfl, fun _ _ h => (List.cons_ne_nil _ _ h.symm).elim,
        fun _ => rfl⟩
    | cons item taken =>
      cases item with
      | failure e =>
        obtain ⟨before, after, tail, hDecode, hFailures, hTail, hUnfinished, hChars⟩ :=
          ih taken.length (Nat.lt_succ_self _) ended taken rfl
        rw [List.cons_append, decode, hDecode]
        exact ⟨.failure e :: before, after, tail, rfl, congrArg (e :: ·) hFailures, hTail,
          hUnfinished, hChars⟩
      | byte lead =>
        obtain ⟨notes, later, hByte⟩ := decode_byte ended lead (taken ++ .failure f :: rest)
        rw [List.cons_append, hByte]
        by_cases hEnough : Utf8.lookahead lead ≤ (bytes taken).length
        · have hShorter := Nat.lt_succ_of_le (leftover_length_le lead taken)
          obtain ⟨before, after, tail, hDecode, hFailures, hTail, hUnfinished, hChars⟩ :=
            ih _ hShorter later _ rfl
          have hHead (more : List UInt8) :
              Utf8.head lead (bytes taken ++ more) = Utf8.head lead (bytes taken) := by
            rw [← Utf8.head_take, List.take_append_of_le_length hEnough, Utf8.head_take]
          rw [leftover_append hEnough, hDecode, gather_append hEnough, bytes_append, hHead]
          refine ⟨(gather (Utf8.lookahead lead) taken).failures.map .failure ++
            (notes.map .note ++ .char (Utf8.head lead (bytes taken)).char :: before), after, tail,
            by simp only [List.append_assoc, List.cons_append], ?_, ?_, hUnfinished, ?_⟩
          · have hLater : failures (.char (Utf8.head lead (bytes taken)).char :: before) =
                ReadItem.failures (leftover lead taken) := hFailures
            rw [failures_append, failures_append, failures_map_failure, failures_map_note,
              List.nil_append, hLater, failures_leftover]
            rfl
          · rw [bytes_leftover] at hTail
            exact (hTail.trans (List.drop_suffix _ _)).trans (List.suffix_cons _ _)
          · intro more
            have hWidth : (Utf8.head lead (bytes taken)).width - 1 ≤ (bytes taken).length :=
              Nat.le_trans (Utf8.head_width_le_lookahead lead _) hEnough
            have hRest := hChars more
            rw [bytes_leftover, ← List.drop_append_of_le_length hWidth] at hRest
            rw [chars_append, chars_append, chars_map_failure, chars_map_note]
            change Utf8.lossy (lead :: (bytes taken ++ more)) = _
            rw [Utf8.lossy_cons, hHead, hRest]
            rfl
        · obtain ⟨lost, hLost⟩ := gather_failures_prefix (Nat.lt_of_not_le hEnough) f rest
          rw [← hLost]
          generalize notes.map Signal.note ++ Signal.char _ :: _ = tail
          refine ⟨(ReadItem.failures taken).map .failure, lost.map .failure ++ tail,
            lead :: bytes taken, ?_, failures_map_failure _, List.suffix_rfl, ?_, ?_⟩
          · simp only [List.map_append, List.append_assoc, List.map_cons,
              List.cons_append, List.nil_append]
          · rintro _ _ ⟨⟩
            exact Nat.lt_of_not_le hEnough
          · intro more
            rw [chars_map_failure]
            rfl

end Signal

namespace Source

theorem unread_ofReads (reads : List Read) :
    (ofReads reads).unread = Utf8.lossy (Read.data reads) := by
  rw [unread, ofReads, Signal.chars_decode, Read.bytes_items]

theorem failures_ofReads (reads : List Read) :
    Signal.failures (ofReads reads).signals = Read.failures reads := by
  rw [ofReads, Signal.failures_decode, Read.failures_items]

/-- In front of a failure there stand the failures before it, and what the bytes before it
settle. -/
theorem signals_ofReads_failed {earlier : List Read} (hOn : .bytes [] ∉ earlier) (f : ReadFailure)
    (later : List Read) : ∃ before rest,
      (ofReads (earlier ++ .failed f :: later)).signals = before ++ .failure f :: rest ∧
        Signal.failures before = Read.failures earlier ∧
        Utf8.Settles (Read.data earlier) (Signal.chars before) := by
  obtain ⟨before, rest, tail, hDecode, hFailures, hTail, hUnfinished, hChars⟩ :=
    Signal.decode_failure false (Read.items earlier) f (Read.items later)
  rw [Read.failures_items] at hFailures
  rw [Read.bytes_items] at hTail hChars
  refine ⟨before, rest, ?_, hFailures, Utf8.settles_of_lossy hTail hUnfinished hChars⟩
  rw [ofReads, Read.items_append hOn]
  exact hDecode

end Source

end MarkerLex
