import MarkerLex.Proofs.Json.Values

/-!
# Written lists and records are read back

Over several lines the items of a list or a record stand each behind a line end and blanks, and
behind a comma but for the first. A list gives the list of what its items give. A record gives
what its fields make, one after the other, of the blank draft.
-/

namespace MarkerLex.Json

set_option autoImplicit false

namespace Pretty

theorem newLine_blank (level : Nat) : ∀ c ∈ newLine level, Cursor.isBlank c = true := by
  intro c hc
  rcases List.mem_cons.mp hc with rfl | hc
  · decide
  · rw [List.eq_of_mem_replicate hc]
    decide

/-- What follows an item of a block: the other items, each behind a comma, and the end. -/
def following (level : Nat) (closing : Char) (items : List Text) : Text :=
  items.flatMap (fun item => ',' :: (newLine (level + 1) ++ item)) ++ (newLine level ++ [closing])

theorem block_cons (level : Nat) (opening closing : Char) (item : Text) (items : List Text) :
    block level opening closing (item :: items) =
      opening :: (newLine (level + 1) ++ (item ++ following level closing items)) := by
  have hJoined (items : List Text) (item : Text) :
      Text.joined [','] ((item :: items).map (newLine (level + 1) ++ ·)) =
        newLine (level + 1) ++ item ++
          items.flatMap (fun item => ',' :: (newLine (level + 1) ++ item)) := by
    induction items generalizing item with
    | nil => simp [Text.joined]
    | cons next items ih =>
      rw [List.map_cons, List.map_cons, Text.joined_cons_cons, ← List.map_cons, ih]
      simp
  simp only [block, List.isEmpty_cons, Bool.false_eq_true, if_false, hJoined, following,
    List.append_assoc]

theorem following_nil (level : Nat) (closing : Char) :
    following level closing [] = newLine level ++ [closing] := rfl

theorem following_cons (level : Nat) (closing : Char) (item : Text) (items : List Text) :
    following level closing (item :: items) =
      ',' :: (newLine (level + 1) ++ (item ++ following level closing items)) := by
  simp [following]

theorem length_le_following (level : Nat) (closing : Char) (items : List Text) :
    items.length ≤ (following level closing items).length := by
  induction items with
  | nil => exact Nat.zero_le _
  | cons item items ih =>
    rw [following_cons]
    simp only [List.length_cons, List.length_append]
    omega

theorem length_lt_first (level : Nat) (closing : Char) (item : Text) (items : List Text)
    (rest : Text) : items.length <
      (newLine (level + 1) ++ (item ++ (following level closing items ++ rest))).length := by
  have hItems := length_le_following level closing items
  rw [newLine]
  simp only [List.length_append, List.length_cons]
  omega

end Pretty

/-- The written form begins with a character that a reader of items can tell from their end. -/
def Begins (closing : Char) (written : Text) : Prop :=
  ∃ c rest, written = c :: rest ∧ Cursor.isBlank c = false ∧ c ≠ closing

theorem begins_map (level : Nat) (members : List (Text × Text)) :
    Begins ']' (Pretty.map level members) := by
  rw [Pretty.map]
  cases members with
  | nil => exact ⟨_, _, rfl, by decide, by decide⟩
  | cons member members =>
    rw [List.map_cons, Pretty.block_cons]
    exact ⟨_, _, rfl, by decide, by decide⟩

namespace Cursor

open Pretty

variable {cur : Cursor} {blanks rest : Text}

theorem skipBlanks_past {c : Char} (hBlanks : ∀ c ∈ blanks, isBlank c = true)
    (hRest : cur.rest = blanks ++ c :: rest) (hSolid : isBlank c = false) :
    cur.skipBlanks.rest = c :: rest ∧ cur.skipBlanks.advance.rest = rest := by
  have hFront := skipBlanks_rest hBlanks hRest hSolid
  exact ⟨hFront, by rw [advance_rest, hFront, List.tail_cons]⟩

theorem nextElement_end (first : Bool) (hBlanks : ∀ c ∈ blanks, isBlank c = true)
    (hRest : cur.rest = blanks ++ ']' :: rest) : cur.nextElement first = .ok none := by
  have hFront := skipBlanks_rest hBlanks hRest (by decide)
  rw [nextElement]
  simp only [hFront, if_true]

theorem nextElement_first {written : Text} (hBlanks : ∀ c ∈ blanks, isBlank c = true)
    (hRest : cur.rest = blanks ++ (written ++ rest)) (hBegins : Begins ']' written) :
    ∃ next, cur.nextElement true = .ok (some next) ∧ next.rest = written ++ rest := by
  obtain ⟨c, more, rfl, hSolid, hInside⟩ := hBegins
  have hFront := skipBlanks_rest hBlanks hRest hSolid
  refine ⟨cur.skipBlanks, ?_, hFront⟩
  rw [nextElement]
  simp only [hFront, hInside, if_true, if_false]

theorem nextElement_comma {written : Text} (hBlanks : ∀ c ∈ blanks, isBlank c = true)
    (hRest : cur.rest = ',' :: (blanks ++ (written ++ rest))) (hBegins : Begins ']' written) :
    ∃ next, cur.nextElement false = .ok (some next) ∧ next.rest = written ++ rest := by
  obtain ⟨c, more, rfl, hSolid, hInside⟩ := hBegins
  obtain ⟨hComma, hAdvanced⟩ := skipBlanks_past (List.forall_mem_nil _) hRest (by decide)
  have hFront := skipBlanks_rest hBlanks hAdvanced hSolid
  refine ⟨cur.skipBlanks.advance.skipBlanks, ?_, hFront⟩
  rw [nextElement]
  simp only [hComma, hFront, hInside, Bool.false_eq_true, if_true, if_false]
  rfl

theorem leaveList_rest (hBlanks : ∀ c ∈ blanks, isBlank c = true)
    (hRest : cur.rest = blanks ++ ']' :: rest) :
    ∃ next, cur.leaveList = (next, none) ∧ next.rest = rest := by
  obtain ⟨hFront, hBehind⟩ := skipBlanks_past hBlanks hRest (by decide)
  refine ⟨cur.skipBlanks.advance, ?_, hBehind⟩
  rw [leaveList]
  simp only [hFront, if_true]

section List

variable {α : Type} {element : Cursor → Reading α} {write : α → Text} {fuel : Nat}

theorem elements_cons {first : Bool} {start behind next : Cursor} {x : α} {xs : List α}
    (hStart : cur.nextElement first = .ok (some start)) (hRead : element start = .ok (x, behind))
    (hOthers : elements element fuel false behind = .ok (xs, next)) :
    elements element (fuel + 1) first cur = .ok (x :: xs, next) := by
  rw [elements, hStart]
  change (element start).bind _ = _
  rw [hRead]
  change (elements element fuel false behind).bind _ = _
  rw [hOthers]
  rfl

/-- Behind an element the others are read as long as there is fuel for each of them. -/
theorem elements_following (hGives : ∀ x, Gives element (write x) x)
    (hBegins : ∀ x, Begins ']' (write x)) (level : Nat) (xs : List α) (hFuel : xs.length < fuel)
    (hRest : cur.rest = following level ']' (xs.map write) ++ rest) :
    ∃ next, elements element fuel false cur = .ok (xs, next) ∧
      next.rest = newLine level ++ ']' :: rest := by
  obtain ⟨fuel, rfl⟩ : ∃ n, fuel = n + 1 := ⟨fuel - 1, by omega⟩
  induction xs generalizing cur fuel with
  | nil =>
    have hEnd : cur.rest = newLine level ++ ']' :: rest := by
      rw [hRest, List.map_nil, following_nil]
      simp
    refine ⟨cur, ?_, hEnd⟩
    rw [elements, nextElement_end false (newLine_blank level) hEnd]
    rfl
  | cons x xs ih =>
    have hLeft : xs.length < fuel := Nat.lt_of_succ_lt_succ hFuel
    obtain ⟨fuel, rfl⟩ : ∃ n, fuel = n + 1 := ⟨fuel - 1, by omega⟩
    have hFront : cur.rest = ',' :: (newLine (level + 1) ++
        (write x ++ (following level ']' (xs.map write) ++ rest))) := by
      rw [hRest, List.map_cons, following_cons]
      simp
    obtain ⟨start, hStart, hItem⟩ := nextElement_comma (newLine_blank _) hFront (hBegins x)
    obtain ⟨behind, hRead, hBehind⟩ := hGives x start [] _ (List.forall_mem_nil _) hItem
    obtain ⟨next, hOthers, hNext⟩ := ih hBehind fuel hLeft
    exact ⟨next, elements_cons hStart hRead hOthers, hNext⟩

theorem list_eq {start last next : Cursor} {xs : List α} (hValue : cur.valueStart = .ok ('[', start))
    (hElements : start.advance.elements element (start.advance.rest.length + 1) true =
      .ok (xs, last)) (hLeave : last.leaveList = (next, none)) :
    cur.list element = .ok (xs, next) := by
  rw [list, hValue]
  change (elements element _ true start.advance).bind _ = _
  rw [hElements]
  simp only [Except.bind, hLeave]
  rfl

end List

end Cursor

open Pretty in
/-- A list is given back if its elements are. -/
theorem gives_list {α : Type} {element : Cursor → Reading α} {write : α → Text}
    (hGives : ∀ x, Gives element (write x) x) (hBegins : ∀ x, Begins ']' (write x))
    (level : Nat) (xs : List α) :
    Gives (Cursor.list element) (Pretty.list level (xs.map write)) xs := by
  intro cur blanks rest hBlanks hRest
  rw [Pretty.list] at hRest
  cases xs with
  | nil =>
    obtain ⟨start, hValue, hStart⟩ := Cursor.valueStart_eq hBlanks hRest (by decide)
    have hInside : start.advance.rest = [] ++ ']' :: rest := by
      rw [Cursor.advance_rest, hStart]
      rfl
    obtain ⟨next, hLeave, hNext⟩ := Cursor.leaveList_rest (List.forall_mem_nil _) hInside
    have hNone : start.advance.elements element (start.advance.rest.length + 1) true =
        .ok ([], start.advance) := by
      rw [Cursor.elements, Cursor.nextElement_end true (List.forall_mem_nil _) hInside]
      rfl
    exact ⟨next, Cursor.list_eq hValue hNone hLeave, hNext⟩
  | cons x xs =>
    rw [List.map_cons, block_cons] at hRest
    obtain ⟨start, hValue, hStart⟩ := Cursor.valueStart_eq hBlanks hRest (by decide)
    have hInside : start.advance.rest = newLine (level + 1) ++
        (write x ++ (following level ']' (xs.map write) ++ rest)) := by
      rw [Cursor.advance_rest, hStart]
      simp
    have hFuel : xs.length < start.advance.rest.length := by
      have hItems := length_lt_first level ']' (write x) (xs.map write) rest
      rwa [List.length_map, ← hInside] at hItems
    obtain ⟨first, hFirst, hItem⟩ :=
      Cursor.nextElement_first (newLine_blank _) hInside (hBegins x)
    obtain ⟨behind, hRead, hBehind⟩ := hGives x first [] _ (List.forall_mem_nil _) hItem
    obtain ⟨last, hOthers, hLast⟩ :=
      Cursor.elements_following hGives hBegins level xs hFuel hBehind
    obtain ⟨next, hLeave, hNext⟩ := Cursor.leaveList_rest (newLine_blank level) hLast
    exact ⟨next, Cursor.list_eq hValue (Cursor.elements_cons hFirst hRead hOthers) hLeave, hNext⟩

/-! Records are read member by member, each into the field of its key. -/

def Pretty.member (m : Text × Text) : Text := string m.1 ++ ([':', ' '] ++ m.2)

theorem Pretty.map_eq (level : Nat) (members : List (Text × Text)) :
    Pretty.map level members = block level '\x7b' '\x7d' (members.map member) := by
  simp only [Pretty.map, List.append_assoc]
  rfl

theorem Pretty.member_append (m : Text × Text) (rest : Text) : member m ++ rest =
    '"' :: (m.1.flatMap writtenChar ++ '"' :: ':' :: ([' '] ++ (m.2 ++ rest))) := by
  simp [member, string]

namespace Cursor

variable {cur : Cursor} {blanks rest : Text}

theorem nextKey_end (first : Bool) (hBlanks : ∀ c ∈ blanks, isBlank c = true)
    (hRest : cur.rest = blanks ++ '\x7d' :: rest) : cur.nextKey first = .ok none := by
  have hFront := skipBlanks_rest hBlanks hRest (by decide)
  rw [nextKey]
  simp only [hFront, if_true]

theorem nextKey_first (hBlanks : ∀ c ∈ blanks, isBlank c = true)
    (hRest : cur.rest = blanks ++ '"' :: rest) :
    ∃ next, cur.nextKey true = .ok (some next) ∧ next.rest = '"' :: rest := by
  have hFront := skipBlanks_rest hBlanks hRest (by decide)
  refine ⟨cur.skipBlanks, ?_, hFront⟩
  rw [nextKey]
  simp only [hFront]
  rfl

theorem nextKey_comma (hBlanks : ∀ c ∈ blanks, isBlank c = true)
    (hRest : cur.rest = ',' :: (blanks ++ '"' :: rest)) :
    ∃ next, cur.nextKey false = .ok (some next) ∧ next.rest = '"' :: rest := by
  obtain ⟨hComma, hAdvanced⟩ := skipBlanks_past (List.forall_mem_nil _) hRest (by decide)
  have hFront := skipBlanks_rest hBlanks hAdvanced (by decide)
  refine ⟨cur.skipBlanks.advance.skipBlanks, ?_, hFront⟩
  rw [nextKey]
  simp only [hComma, hFront]
  rfl

theorem colon_eq (hRest : cur.rest = ':' :: rest) :
    ∃ next, cur.colon = .ok next ∧ next.rest = rest := by
  obtain ⟨hFront, hBehind⟩ := skipBlanks_past (List.forall_mem_nil _) hRest (by decide)
  refine ⟨cur.skipBlanks.advance, ?_, hBehind⟩
  rw [colon]
  simp only [hFront, if_true]

theorem leaveMap_rest (hBlanks : ∀ c ∈ blanks, isBlank c = true)
    (hRest : cur.rest = blanks ++ '\x7d' :: rest) :
    ∃ next, cur.leaveMap = (next, none) ∧ next.rest = rest := by
  obtain ⟨hFront, hBehind⟩ := skipBlanks_past hBlanks hRest (by decide)
  refine ⟨cur.skipBlanks.advance, ?_, hBehind⟩
  rw [leaveMap]
  simp only [hFront, if_true]

end Cursor

namespace Schema

open Pretty

variable {δ : Type} {schema : Schema δ} {draft final : δ} {members : List (Text × Text)}
variable {cur : Cursor} {rest : Text} {fuel : Nat}

/-- One after the other the members set fields that are not set yet, and lead from one draft of
the record to another. -/
inductive Fills (schema : Schema δ) : δ → List (Text × Text) → δ → Prop
  | nil {draft : δ} : Fills schema draft [] draft
  | cons {draft next final : δ} {key value : Text} {members : List (Text × Text)}
    {field : Field δ} (hField : schema.fields.find? (·.name == key) = some field)
    (hUnset : field.isSet draft = false) (hValue : Gives (field.read draft) value next)
    (hLater : Fills schema next members final) : Fills schema draft ((key, value) :: members) final

theorem Fills.of {α : Type} {name : String} {required : Bool} {get : δ → Option α}
    {set : δ → α → δ} {value : Cursor → Reading α} {key written : Text} {a : α}
    (hField : schema.fields.find? (·.name == key) = some (.of name required get set value))
    (hUnset : (get draft).isSome = false) (hValue : Gives value written a)
    (hLater : schema.Fills (set draft a) members final) :
    schema.Fills draft ((key, written) :: members) final :=
  .cons hField hUnset (hValue.map (set draft)) hLater

/-- No field that a record must have is missing. -/
def Complete (schema : Schema δ) (draft : δ) : Prop :=
  schema.fields.find? (fun field => field.required && !field.isSet draft) = none

theorem keyed_end {first : Bool} (hEnd : cur.nextKey first = .ok none)
    (hComplete : schema.Complete draft) :
    schema.keyed (fuel + 1) first draft cur = .ok (draft, cur) := by
  have hNone : schema.fields.find? (fun field => field.required && !field.isSet draft) = none :=
    hComplete
  rw [keyed, hEnd]
  change (Except.ok none).bind _ = _
  simp only [Except.bind, hNone]

theorem keyed_cons {first : Bool} {start behindKey behindColon behind : Cursor} {key : Text}
    {next : δ} {field : Field δ} (hStart : cur.nextKey first = .ok (some start))
    (hKey : start.advance.stringBody = .ok (key, behindKey))
    (hField : schema.fields.find? (·.name == key) = some field)
    (hUnset : field.isSet draft = false) (hColon : behindKey.colon = .ok behindColon)
    (hValue : field.read draft behindColon = .ok (next, behind)) :
    schema.keyed (fuel + 1) first draft cur = schema.keyed fuel false next behind := by
  rw [keyed, hStart]
  change (placed start.advance.stringBody).bind _ = _
  rw [hKey]
  simp only [placed, Except.bind]
  rw [hField]
  simp only [hUnset, Bool.false_eq_true, if_false, hColon, hValue]
  rfl

/-- A member sets its field, and reading goes on behind it. -/
theorem keyed_member {first : Bool} {start : Cursor} {key value : Text} {next : δ}
    {field : Field δ} (hStart : cur.nextKey first = .ok (some start))
    (hRest : start.rest = member (key, value) ++ rest)
    (hField : schema.fields.find? (·.name == key) = some field)
    (hUnset : field.isSet draft = false) (hValue : Gives (field.read draft) value next) :
    ∃ behind : Cursor, behind.rest = rest ∧
      schema.keyed (fuel + 1) first draft cur = schema.keyed fuel false next behind := by
  rw [member_append] at hRest
  have hInside : start.advance.rest =
      key.flatMap writtenChar ++ '"' :: ':' :: ([' '] ++ (value ++ rest)) := by
    rw [Cursor.advance_rest, hRest, List.tail_cons]
  obtain ⟨behindKey, hKey, hColonRest⟩ := Cursor.stringBody_eq key hInside
  obtain ⟨behindColon, hColon, hValueRest⟩ := Cursor.colon_eq hColonRest
  have hBlank : ∀ c ∈ [' '], Cursor.isBlank c = true := List.forall_mem_singleton.mpr rfl
  obtain ⟨behind, hRead, hBehind⟩ := hValue behindColon [' '] rest hBlank hValueRest
  exact ⟨behind, hBehind, keyed_cons hStart hKey hField hUnset hColon hRead⟩

theorem keyed_following (hFills : schema.Fills draft members final)
    (hComplete : schema.Complete final) (level : Nat) (hFuel : members.length < fuel)
    (hRest : cur.rest = following level '\x7d' (members.map member) ++ rest) :
    ∃ next, schema.keyed fuel false draft cur = .ok (final, next) ∧
      next.rest = newLine level ++ '\x7d' :: rest := by
  obtain ⟨fuel, rfl⟩ : ∃ n, fuel = n + 1 := ⟨fuel - 1, by omega⟩
  induction hFills generalizing cur fuel with
  | nil =>
    have hEnd : cur.rest = newLine level ++ '\x7d' :: rest := by
      rw [hRest, List.map_nil, following_nil]
      simp
    exact ⟨cur, keyed_end (Cursor.nextKey_end false (newLine_blank level) hEnd) hComplete, hEnd⟩
  | @cons draft next final key value members field hField hUnset hValue hLater ih =>
    have hLeft : members.length < fuel := Nat.lt_of_succ_lt_succ hFuel
    obtain ⟨fuel, rfl⟩ : ∃ n, fuel = n + 1 := ⟨fuel - 1, by omega⟩
    rw [List.map_cons, following_cons, List.cons_append, List.append_assoc, List.append_assoc]
      at hRest
    have hFront := hRest
    rw [member_append] at hFront
    obtain ⟨start, hStart, hItem⟩ := Cursor.nextKey_comma (newLine_blank _) hFront
    rw [← member_append] at hItem
    obtain ⟨behind, hBehind, hKeyed⟩ := keyed_member hStart hItem hField hUnset hValue
    rw [hKeyed]
    exact ih hComplete hBehind fuel hLeft

theorem read_eq {start last next : Cursor} (hValue : cur.valueStart = .ok ('\x7b', start))
    (hKeyed : schema.keyed (start.advance.rest.length + 1) true draft start.advance =
      .ok (final, last)) (hLeave : last.leaveMap = (next, none)) :
    schema.read draft cur = .ok (final, next) := by
  rw [read, hValue]
  change left Cursor.leaveMap (schema.keyed _ true draft start.advance) = _
  rw [hKeyed, left, hLeave]

end Schema

open Pretty in
/-- A record is given back if its members set all that it must have. -/
theorem gives_map {δ : Type} {schema : Schema δ} {blank final : δ} {members : List (Text × Text)}
    (hFills : schema.Fills blank members final) (hComplete : schema.Complete final) (level : Nat) :
    Gives (schema.read blank) (Pretty.map level members) final := by
  intro cur blanks rest hBlanks hRest
  rw [Pretty.map_eq] at hRest
  cases hFills with
  | nil =>
    obtain ⟨start, hValue, hStart⟩ := Cursor.valueStart_eq hBlanks hRest (by decide)
    have hInside : start.advance.rest = [] ++ '\x7d' :: rest := by
      rw [Cursor.advance_rest, hStart]
      rfl
    have hEnd := Cursor.nextKey_end true (List.forall_mem_nil _) hInside
    obtain ⟨next, hLeave, hNext⟩ := Cursor.leaveMap_rest (List.forall_mem_nil _) hInside
    exact ⟨next, Schema.read_eq hValue (Schema.keyed_end hEnd hComplete) hLeave, hNext⟩
  | @cons _ draft _ key value members field hField hUnset hGives hLater =>
    rw [List.map_cons, block_cons] at hRest
    obtain ⟨start, hValue, hStart⟩ := Cursor.valueStart_eq hBlanks hRest (by decide)
    have hInside : start.advance.rest = newLine (level + 1) ++
        (member (key, value) ++ (following level '\x7d' (members.map member) ++ rest)) := by
      rw [Cursor.advance_rest, hStart]
      simp
    have hFuel : members.length < start.advance.rest.length := by
      have hItems := length_lt_first level '\x7d' (member (key, value)) (members.map member) rest
      rwa [List.length_map, ← hInside] at hItems
    rw [member_append] at hInside
    obtain ⟨first, hFirst, hItem⟩ := Cursor.nextKey_first (newLine_blank _) hInside
    rw [← member_append] at hItem
    obtain ⟨behind, hBehind, hKeyed⟩ := Schema.keyed_member hFirst hItem hField hUnset hGives
    obtain ⟨last, hOthers, hLast⟩ :=
      Schema.keyed_following hLater hComplete level hFuel hBehind
    obtain ⟨next, hLeave, hNext⟩ := Cursor.leaveMap_rest (newLine_blank level) hLast
    exact ⟨next, Schema.read_eq hValue (hKeyed.trans hOthers) hLeave, hNext⟩

end MarkerLex.Json
