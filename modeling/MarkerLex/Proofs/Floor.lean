import MarkerLex.Proofs.Guarded

/-!
# Strings with a floor

A string may be held in one buffer with a floor, an offset in bytes below which no marker is looked
for any more. An escape raises the floor to the end of the buffer, and so does the character that
it makes ordinary. The floor never leaves the buffer or cuts a character, and what is below it is
in no marker. So the buffer tells the same as a string that keeps the two parts by themselves.
-/

namespace MarkerLex

set_option autoImplicit false

namespace Text

variable {a b marker : Text}

/-- A marker at the end of a text that fits into its second part is at the end of that. -/
theorem suffix_append_iff : (a.byteLength + marker.byteLength ≤ (a ++ b).byteLength ∧
    marker <:+ a ++ b) ↔ marker <:+ b := by
  constructor
  · rintro ⟨hLength, front, hFront⟩
    obtain ⟨part, rfl, rfl⟩ | ⟨part, rfl, rfl⟩ := List.append_eq_append_iff.mp hFront
    · simp only [byteLength_append] at hLength
      by_cases hPart : part = []
      · simp [hPart]
      · have hPositive := byteLength_pos hPart
        omega
    · exact List.suffix_append part marker
  · intro hSuffix
    refine ⟨?_, hSuffix.trans (List.suffix_append a b)⟩
    obtain ⟨front, rfl⟩ := hSuffix
    simp only [byteLength_append]
    omega

/-- Of two beginnings of one text the one that is not longer in bytes begins the other. -/
theorem prefix_of_byteLength_le {t : Text} (ha : a <+: t) (hb : b <+: t)
    (hLength : a.byteLength ≤ b.byteLength) : a <+: b := by
  obtain hFirst | ⟨more, rfl⟩ := List.prefix_or_prefix_of_prefix ha hb
  · exact hFirst
  · rw [byteLength_append] at hLength
    by_cases hMore : more = []
    · simp [hMore]
    · have hPositive := byteLength_pos hMore
      omega

end Text

/-- A string that is being read, oldest character first. The floor counts bytes. -/
structure StringBuffer where
  chars : Text
  floor : Nat
  escaped : Bool
deriving DecidableEq, Repr

namespace StringBuffer

def opened (spec : StringSpec) : StringBuffer := ⟨spec.start, 0, false⟩

def push (b : StringBuffer) (c : Char) : StringBuffer := { b with chars := b.chars ++ [c] }

def settle (b : StringBuffer) (escaped : Bool) : StringBuffer :=
  ⟨b.chars, b.chars.byteLength, escaped⟩

/-- Whether the marker ends the buffer without reaching below the floor. -/
def meets (b : StringBuffer) (marker : Text) : Bool :=
  decide (b.floor + marker.byteLength ≤ b.chars.byteLength) && marker.isSuffixOf b.chars

def ofOpen (s : OpenString) : StringBuffer :=
  ⟨s.newest.reverse, Text.byteLength s.settled.reverse, s.escaped⟩

/-- The floor is within the buffer and between two characters of it, and at its end when the next
character will be an ordinary one. -/
structure Measured (b : StringBuffer) : Prop where
  floor_le : b.floor ≤ b.chars.byteLength
  boundary : b.chars.Boundary b.floor
  full : b.escaped = true → b.floor = b.chars.byteLength

/-- Every marker that is met begins behind `t`, with which the buffer begins. -/
def Spares (b : StringBuffer) (t : Text) : Prop :=
  ∀ marker, b.meets marker = true → ∃ front, b.chars = front ++ marker ∧ t <+: front

variable {b next : StringBuffer} {marker : Text}

theorem meets_iff : b.meets marker = true ↔
    b.floor + marker.byteLength ≤ b.chars.byteLength ∧ marker <:+ b.chars := by
  rw [meets, Bool.and_eq_true, decide_eq_true_eq, List.isSuffixOf_iff_suffix]

theorem measured_opened (spec : StringSpec) : (opened spec).Measured where
  floor_le := Nat.zero_le _
  boundary := ⟨[], spec.start, rfl, rfl⟩
  full := nofun

theorem measured_settle (b : StringBuffer) (escaped : Bool) : (b.settle escaped).Measured where
  floor_le := Nat.le_refl _
  boundary := ⟨b.chars, [], (List.append_nil _).symm, rfl⟩
  full _ := rfl

theorem Measured.push (h : b.Measured) (hPlain : b.escaped = false) (c : Char) :
    (b.push c).Measured := by
  obtain ⟨before, behind, hChars, hFloor⟩ := h.boundary
  have hBoundary : (b.push c).chars.Boundary (b.push c).floor :=
    ⟨before, behind ++ [c], by rw [StringBuffer.push, hChars, List.append_assoc], hFloor⟩
  exact ⟨hBoundary.le_byteLength, hBoundary, fun hEscaped => by cases hPlain.symm.trans hEscaped⟩

theorem spares_of_le {t : Text} (hChars : t <+: b.chars) (hFloor : t.byteLength ≤ b.floor) :
    b.Spares t := by
  intro marker hMeets
  obtain ⟨hLength, front, hFront⟩ := meets_iff.mp hMeets
  refine ⟨front, hFront.symm, ?_⟩
  apply Text.prefix_of_byteLength_le hChars ⟨marker, hFront⟩
  rw [← hFront, Text.byteLength_append] at hLength
  omega

/-! The buffer of an open string. -/

variable {s : OpenString}

theorem push_ofOpen (s : OpenString) (c : Char) :
    (ofOpen s).push c = ofOpen { s with fresh := c :: s.fresh } := by
  simp [ofOpen, push, OpenString.newest]

theorem settle_ofOpen (s : OpenString) (escaped : Bool) :
    (ofOpen s).settle escaped = ofOpen (s.settle escaped) := by
  simp [ofOpen, settle, OpenString.settle, OpenString.newest]

theorem meets_ofOpen (s : OpenString) (marker : Text) :
    (ofOpen s).meets marker = Text.endsIn s.fresh marker := by
  rw [Bool.eq_iff_iff, meets_iff, Text.endsIn_iff]
  simp only [ofOpen, OpenString.newest, List.reverse_append]
  exact Text.suffix_append_iff

end StringBuffer

namespace GuardedReader

open StringBuffer

def string (spec : StringSpec) (start : Position) : GuardedReader StringBuffer where
  react? b _ c :=
    let b := b.push c
    if b.escaped then some (.proceed (b.settle false))
    else if b.meets spec.stop then
      some (.take ⟨[.stringClosed], .ok (.emit (some ⟨.string spec.name, b.chars, start⟩) .std)⟩)
    else if spec.escape.any b.meets then some (.proceed (b.settle true))
    else some (.proceed b)
  finish _ := ⟨[.stringUnterminated start], .error ⟨.unterminatedString spec.stop, start⟩⟩

section String

variable {spec : StringSpec} {start place : Position} {b next later : StringBuffer} {c : Char}

theorem string_react?_escaped (hEscaped : b.escaped = true) :
    (string spec start).react? b place c = some (.proceed ((b.push c).settle false)) :=
  if_pos hEscaped

theorem string_react?_stop (hPlain : b.escaped = false)
    (hStop : (b.push c).meets spec.stop = true) : (string spec start).react? b place c =
      some (.take ⟨[.stringClosed],
        .ok (.emit (some ⟨.string spec.name, (b.push c).chars, start⟩) .std)⟩) := by
  have hSame : (b.push c).escaped = false := hPlain
  simp [string, hSame, hStop]

theorem string_react?_escape (hPlain : b.escaped = false)
    (hStop : (b.push c).meets spec.stop = false)
    (hEscape : spec.escape.any (b.push c).meets = true) :
    (string spec start).react? b place c = some (.proceed ((b.push c).settle true)) := by
  have hSame : (b.push c).escaped = false := hPlain
  simp [string, hSame, hStop, hEscape]

theorem string_react?_plain (hPlain : b.escaped = false)
    (hStop : (b.push c).meets spec.stop = false)
    (hEscape : spec.escape.any (b.push c).meets = false) :
    (string spec start).react? b place c = some (.proceed (b.push c)) := by
  have hSame : (b.push c).escaped = false := hPlain
  simp [string, hSame, hStop, hEscape]

theorem keepsTo_string (spec : StringSpec) (start : Position) :
    (string spec start).KeepsTo (Reader.string spec start) (fun b s => b = ofOpen s) where
  finish := by
    rintro _ s rfl
    rfl
  react := by
    rintro _ s place c rfl
    have hMeets : ((ofOpen s).push c).meets = Text.endsIn (c :: s.fresh) := by
      funext marker
      rw [push_ofOpen, meets_ofOpen]
    have hSettled (escaped : Bool) :
        ((ofOpen s).push c).settle escaped = ofOpen ⟨c :: s.newest, [], escaped⟩ := by
      rw [push_ofOpen, settle_ofOpen]
      rfl
    obtain ⟨hHere, hReact⟩ | ⟨hHere, hStop, hReact⟩ | ⟨hHere, hStop, hEscape, hReact⟩ |
        ⟨hHere, hStop, hEscape, hReact⟩ := Reader.string_react_cases spec start s place c
    · rw [hReact]
      exact ⟨_, string_react?_escaped hHere, .proceed (hSettled false)⟩
    · rw [hReact]
      rw [← hMeets] at hStop
      have hChars : ((ofOpen s).push c).chars = (c :: s.newest).reverse :=
        List.reverse_cons.symm
      exact ⟨_, hChars ▸ string_react?_stop hHere hStop, .take _⟩
    · rw [hReact]
      rw [← hMeets] at hStop hEscape
      exact ⟨_, string_react?_escape hHere hStop hEscape, .proceed (hSettled true)⟩
    · rw [hReact]
      rw [← hMeets] at hStop hEscape
      exact ⟨_, string_react?_plain hHere hStop hEscape, .proceed (push_ofOpen s c)⟩

/-- A character that a string reads on with is settled, or it is added where none is escaped. -/
theorem push_of_moves (h : (string spec start).Moves b next) :
    ∃ c, (b.push c).settle false = next ∨
      b.escaped = false ∧ ((b.push c).settle true = next ∨ b.push c = next) := by
  obtain ⟨place, c, hReact⟩ := h
  refine ⟨c, ?_⟩
  cases hEscaped : b.escaped with
  | true =>
    left
    rw [string_react?_escaped hEscaped] at hReact
    simpa using hReact
  | false =>
    right
    refine ⟨rfl, ?_⟩
    cases hStop : (b.push c).meets spec.stop with
    | true => simp [string_react?_stop hEscaped hStop] at hReact
    | false =>
      cases hEscape : spec.escape.any (b.push c).meets with
      | true =>
        left
        rw [string_react?_escape hEscaped hStop hEscape] at hReact
        simpa using hReact
      | false =>
        right
        rw [string_react?_plain hEscaped hStop hEscape] at hReact
        simpa using hReact

theorem measured_of_moves (hMoves : (string spec start).Moves b next) (h : b.Measured) :
    next.Measured := by
  obtain ⟨c, rfl | ⟨hPlain, rfl | rfl⟩⟩ := push_of_moves hMoves
  · exact measured_settle _ _
  · exact measured_settle _ _
  · exact h.push hPlain c

theorem measured_of_reaches (h : (string spec start).Reaches (.opened spec) b) : b.Measured := by
  induction h with
  | refl => exact measured_opened spec
  | tail _ hMoves ih => exact measured_of_moves hMoves ih

/-- What a buffer begins with below its floor, it begins with below its floor ever after. -/
theorem settled_of_reaches (h : (string spec start).Reaches b later) {t : Text}
    (hChars : t <+: b.chars) (hFloor : t.byteLength ≤ b.floor) :
    t <+: later.chars ∧ t.byteLength ≤ later.floor := by
  induction h with
  | refl => exact ⟨hChars, hFloor⟩
  | @tail here next _ hMoves ih =>
    obtain ⟨c, hNext⟩ := push_of_moves hMoves
    have hLonger : t <+: (here.push c).chars := ih.1.trans (List.prefix_append _ _)
    have hLength : t.byteLength ≤ (here.push c).chars.byteLength := by
      obtain ⟨more, hMore⟩ := hLonger
      rw [← hMore, Text.byteLength_append]
      exact Nat.le_add_right _ _
    obtain rfl | ⟨-, rfl | rfl⟩ := hNext
    · exact ⟨hLonger, hLength⟩
    · exact ⟨hLonger, hLength⟩
    · exact ⟨hLonger, ih.2⟩

/-- What has been settled is in no marker that is met later on. -/
theorem spares_of_settled {escaped : Bool} (h : (string spec start).Reaches (b.settle escaped) later)
    (d : Char) : (later.push d).Spares b.chars := by
  obtain ⟨hChars, hFloor⟩ := settled_of_reaches h (List.prefix_refl b.chars) (Nat.le_refl _)
  exact spares_of_le (hChars.trans (List.prefix_append _ _)) hFloor

end String

end GuardedReader

end MarkerLex
