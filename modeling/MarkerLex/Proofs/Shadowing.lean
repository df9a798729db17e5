import Mathlib.Data.List.Infix
import Mathlib.Logic.Relation
import MarkerLex.Proofs.Rejoining
import MarkerLex.Proofs.Validity

/-!
# Delimiters that are never selected

A lexer selects an entry of its grammar where the entry's start marker ends what has been read
since the last step. Whether that ever happens can be told from the start markers alone: it
happens on the marker itself or on no text at all, and an entry that is never selected can be
left out of a grammar.
-/

namespace MarkerLex

set_option autoImplicit false

namespace Mode

/-- A step leads from a mode and a source to the next ones. -/
def Moves (g : Grammar) (config : Config) (here there : Mode × Source) : Prop :=
  ∃ token?, (here.1.step g config here.2).value = (.ok (.emit token? there.1), there.2)

variable {g : Grammar} {config : Config}

theorem plain_of_moves {here there : Mode × Source}
    (h : Relation.ReflTransGen (Moves g config) here there) {t : Text} {place : Position}
    (hHere : here.2 = .plain t place) : ∃ rest stop, there.2 = .plain rest stop := by
  induction h with
  | refl => exact ⟨t, place, hHere⟩
  | @tail last there _ hMoves ih =>
    obtain ⟨token?, hStep⟩ := hMoves
    obtain ⟨rest, stop, hLast⟩ := ih
    obtain ⟨taken, left, -, hLeft, -⟩ := step_reads g config last.1 stop rest
    rw [← hLast, hStep] at hLeft
    exact ⟨left, _, hLeft⟩

end Mode

namespace Grammar

variable {g : Grammar} {config : Config} {t u newest : Text} {d : Delimiter} {i : Nat}

/-- The place in the grammar of the delimiter that opens. -/
def openingIndex? (g : Grammar) (newest : Text) : Option Nat :=
  g.delimiters.findIdx? fun d => Text.endsIn newest d.start

theorem opening?_eq_openingIndex? (g : Grammar) (newest : Text) :
    g.opening? newest = (g.openingIndex? newest).bind (g.delimiters[·]?) := by
  rw [opening?_eq_find?, List.find?_eq_bind_findIdx?_getElem?]
  rfl

theorem openingIndex?_eq_some (hEntry : g.delimiters[i]? = some d) :
    g.openingIndex? t.reverse = some i ↔
      d.start <:+ t ∧ ∀ e ∈ g.delimiters.take i, ¬ e.start <:+ t := by
  obtain ⟨hi, hAt⟩ := List.getElem?_eq_some_iff.mp hEntry
  simp only [openingIndex?, List.findIdx?_eq_some_iff_getElem, Text.endsIn_reverse,
    decide_eq_true_eq, hi, exists_true_left, hAt]
  refine and_congr_right fun _ => ⟨fun hFirst e he => ?_, fun hFirst j hj => ?_⟩
  · obtain ⟨j, hj, rfl⟩ := List.mem_take_iff_getElem.mp he
    exact hFirst j (Nat.lt_of_lt_of_le hj (Nat.min_le_left ..))
  · exact hFirst _ (List.mem_take_iff_getElem.mpr ⟨j, by omega, rfl⟩)

/-- A step between delimiters finds the entry `i` in what it has read and goes on in the mode of
the delimiter `d` that stands there. -/
structure Selects (g : Grammar) (config : Config) (i : Nat) (d : Delimiter) (start : Position)
    (s s' : Source) : Prop where
  entry : g.delimiters[i]? = some d
  found : ∃ read, s.unread = read ++ s'.unread ∧ g.openingIndex? read.reverse = some i
  enters : ∃ token?, (Mode.std.step g config s).value =
    (.ok (.emit token? (.ofDelimiter start d)), s')

/-- There is a text on which a lexer selects the entry `i` at some time. -/
def Live (g : Grammar) (config : Config) (i : Nat) : Prop :=
  ∃ text s d start s', Relation.ReflTransGen (Mode.Moves g config) (.std, .ofText text) (.std, s) ∧
    g.Selects config i d start s s'

/-- No other entry gets in the way of the entry `i` with this start marker. -/
structure Unshadowed (g : Grammar) (i : Nat) (marker : Text) : Prop where
  solid : ∀ c ∈ marker, g.isWhitespace c = false
  early : ∀ q, q <+: marker → q ≠ [] → q ≠ marker → ∀ e ∈ g.delimiters, ¬ e.start <:+ q
  first : ∀ e ∈ g.delimiters.take i, ¬ e.start <:+ marker

theorem unshadowed_iff {marker : Text} : g.Unshadowed i marker ↔
    marker.find? g.isWhitespace = none ∧
    (∀ q ∈ marker.inits, q ≠ [] → q ≠ marker → ∀ e ∈ g.delimiters, ¬ e.start <:+ q) ∧
    ∀ e ∈ g.delimiters.take i, ¬ e.start <:+ marker := by
  simp only [List.find?_eq_none, List.mem_inits, Bool.not_eq_true]
  exact ⟨fun ⟨hSolid, hEarly, hFirst⟩ => ⟨hSolid, hEarly, hFirst⟩,
    fun ⟨hSolid, hEarly, hFirst⟩ => ⟨hSolid, hEarly, hFirst⟩⟩

instance (g : Grammar) (i : Nat) (marker : Text) : Decidable (g.Unshadowed i marker) :=
  decidable_of_iff' _ unshadowed_iff

/-- Two comments, the first of which takes every text away from the second. -/
def overlapping : Grammar where
  comments := [⟨['-'], ['\n'], false⟩, ⟨['-', '-'], ['\n'], false⟩]

theorem overlapping_shadowed : ¬ overlapping.Unshadowed 1 ['-', '-'] := by
  decide

theorem Unshadowed.opens (h : g.Unshadowed i d.start) (hEntry : g.delimiters[i]? = some d)
    (hRead : d.start ≠ []) : g.Opens [] d where
  solid := h.solid
  early q hq hne hShort := opening?_eq_none.mpr (h.early q hq hne hShort)
  first := by
    have hIndex := (openingIndex?_eq_some hEntry).mpr ⟨List.suffix_rfl, h.first⟩
    rw [List.nil_append, opening?_eq_openingIndex?, hIndex]
    exact hEntry
  read := hRead

theorem unshadowed_of_opens (hOpens : g.Opens u d) (hEntry : g.delimiters[i]? = some d)
    (hRead : d.start ≠ []) (hIndex : g.openingIndex? (u ++ d.start).reverse = some i) :
    g.Unshadowed i d.start where
  solid := (hOpens.alone hRead).solid
  early q hq hne hShort := opening?_eq_none.mp ((hOpens.alone hRead).early q hq hne hShort)
  first e he hEnds := by
    have hFirst := ((openingIndex?_eq_some hEntry).mp hIndex).2
    exact hFirst e he (hEnds.trans (List.suffix_append u d.start))

/-- Over a text a delimiter's mode is entered only where the delimiter opens. -/
theorem opens_of_enters {token? : Option Token} {start place : Position} {s' : Source}
    (hStep : (Mode.std.step g config (.plain t place)).value =
      (.ok (.emit token? (.ofDelimiter start d)), s')) :
    ∃ u rest, t = u ++ d.start ++ rest ∧ s' = .plain rest (place.advancedBy (u ++ d.start)) ∧
      g.Opens u d := by
  obtain ⟨taken, rest, rfl, hLeft, hReads⟩ := Mode.step_reads g config .std place t
  rw [hStep] at hLeft hReads
  generalize hMode : Mode.std = mode, hNext : Mode.ofDelimiter start d = next at hReads
  cases hReads with
  | lastTerm | space => cases d <;> cases hNext
  | @opening _ u _ e hOpens =>
    obtain ⟨-, rfl⟩ := Mode.ofDelimiter_inj hNext
    exact ⟨u, rest, rfl, hLeft, hOpens⟩
  | gap => cases hMode
  | @closed _ _ e => cases e <;> cases hMode
  | lenient => cases hMode

theorem Selects.opens {start place : Position} {s' : Source}
    (h : g.Selects config i d start (.plain t place) s') :
    ∃ u, g.Opens u d ∧ g.openingIndex? (u ++ d.start).reverse = some i := by
  obtain ⟨-, ⟨read, hUnread, hIndex⟩, token?, hStep⟩ := h
  obtain ⟨u, rest, rfl, rfl, hOpens⟩ := opens_of_enters hStep
  rw [Source.unread_plain, Source.unread_plain, List.append_cancel_right_eq] at hUnread
  exact ⟨u, hOpens, hUnread ▸ hIndex⟩

theorem Unshadowed.selects (h : g.Unshadowed i d.start) (hEntry : g.delimiters[i]? = some d)
    (hRead : d.start ≠ []) (config : Config) (rest : Text) (place : Position) :
    g.Selects config i d place (.plain (d.start ++ rest) place)
      (.plain rest (place.advancedBy d.start)) where
  entry := hEntry
  found := ⟨d.start, by rw [Source.unread_plain, Source.unread_plain],
    (openingIndex?_eq_some hEntry).mpr ⟨List.suffix_rfl, h.first⟩⟩
  enters := ⟨none, Mode.step_of_opens (h.opens hEntry hRead) place rest⟩

theorem live_iff (hEntry : g.delimiters[i]? = some d) (hRead : d.start ≠ []) (config : Config) :
    g.Live config i ↔ g.Unshadowed i d.start := by
  constructor
  · rintro ⟨text, s, e, start, s', hMoves, hSelects⟩
    obtain rfl : d = e := Option.some.inj (hEntry.symm.trans hSelects.entry)
    have hText : Source.ofText text = .plain text .start := rfl
    obtain ⟨rest, place, rfl⟩ := Mode.plain_of_moves hMoves hText
    obtain ⟨u, hOpens, hIndex⟩ := hSelects.opens
    exact unshadowed_of_opens hOpens hEntry hRead hIndex
  · intro h
    exact ⟨d.start ++ [], _, d, .start, _, .refl, h.selects hEntry hRead config [] .start⟩

/-- In no order of its entries does a grammar select the longer of two markers that begin alike. -/
theorem not_live_of_begins {e : Delimiter} (hEntry : g.delimiters[i]? = some d)
    (he : e ∈ g.delimiters) (hRead : e.start ≠ []) (hBegins : e.start <+: d.start)
    (hShorter : e.start ≠ d.start) (config : Config) : ¬ g.Live config i := by
  have hSome : d.start ≠ [] := by
    intro hNone
    rw [hNone] at hBegins
    exact hRead (List.prefix_nil.mp hBegins)
  rw [live_iff hEntry hSome]
  intro h
  exact h.early e.start hBegins hRead hShorter e he List.suffix_rfl

/-- The grammar without its entry `i`. -/
def without (g : Grammar) (i : Nat) : Grammar where
  whitespace := g.whitespace
  comments := g.comments.eraseIdx i
  strings := if i < g.comments.length then g.strings else g.strings.eraseIdx (i - g.comments.length)

theorem delimiters_without (g : Grammar) (i : Nat) :
    (g.without i).delimiters = g.delimiters.eraseIdx i := by
  have hMap {α β : Type} (f : α → β) (l : List α) (k : Nat) :
      (l.map f).eraseIdx k = (l.eraseIdx k).map f := by
    simp only [List.eraseIdx_eq_take_drop_succ, List.map_append, List.map_take, List.map_drop]
  rw [delimiters, delimiters, without]
  by_cases hi : i < g.comments.length
  · rw [if_pos hi, List.eraseIdx_append_of_lt_length (by simpa using hi), hMap]
  · have hAll : g.comments.eraseIdx i = g.comments := List.eraseIdx_of_length_le (by omega)
    rw [if_neg hi, hAll, List.eraseIdx_append_of_length_le (by simpa using hi), hMap,
      List.length_map]

theorem validate_without (hValid : g.validate = .ok ()) (i : Nat) :
    (g.without i).validate = .ok () := by
  rw [validate_eq_ok, delimiters_without]
  intro e he
  have hFit := validate_eq_ok.mp hValid e (List.mem_of_mem_eraseIdx he)
  exact ⟨hFit.start_ne, hFit.stop_ne, hFit.solid, hFit.escape_ne⟩

theorem find?_eraseIdx {α : Type} {p : α → Bool} {l : List α} {i : Nat}
    (h : l.findIdx? p ≠ some i) : (l.eraseIdx i).find? p = l.find? p := by
  induction l generalizing i with
  | nil => rfl
  | cons a l ih =>
    rw [List.findIdx?_cons] at h
    cases hFound : p a with
    | true =>
      cases i with
      | zero => simp [hFound] at h
      | succ i => rw [List.eraseIdx_cons_succ, List.find?_cons_of_pos hFound,
          List.find?_cons_of_pos hFound]
    | false =>
      have hOff : ¬ p a = true := Bool.eq_false_iff.mp hFound
      cases i with
      | zero => rw [List.eraseIdx_cons_zero, List.find?_cons_of_neg hOff]
      | succ i =>
        have hRest : l.findIdx? p ≠ some i := by
          rintro hSame
          simp [hFound, hSame] at h
        rw [List.eraseIdx_cons_succ, List.find?_cons_of_neg hOff, List.find?_cons_of_neg hOff,
          ih hRest]

theorem opening?_without (h : g.openingIndex? newest ≠ some i) :
    (g.without i).opening? newest = g.opening? newest := by
  rw [opening?_eq_find?, opening?_eq_find?, delimiters_without]
  exact find?_eraseIdx h

theorem opening?_without_of_none (h : g.opening? newest = none) (i : Nat) :
    (g.without i).opening? newest = none := by
  rw [opening?_eq_find?, List.find?_eq_none] at h ⊢
  rw [delimiters_without]
  intro e he
  exact h e (List.mem_of_mem_eraseIdx he)

theorem Plain.without (h : g.Plain t) (i : Nat) : (g.without i).Plain t where
  solid := h.solid
  quiet q hq hne := opening?_without_of_none (h.quiet q hq hne) i

theorem Opens.without (h : g.Opens u d) (hOther : g.openingIndex? (u ++ d.start).reverse ≠ some i) :
    (g.without i).Opens u d where
  solid := h.solid
  early q hq hne hShort := opening?_without_of_none (h.early q hq hne hShort) i
  first := (opening?_without hOther).trans h.first
  read := h.read

end Grammar

section Removal

variable {g : Grammar} {config : Config} {d : Delimiter} {i : Nat}

/-- Without an entry that is shadowed, every step comes to what it comes to with it. -/
theorem Mode.Reads.without {mode : Mode} {place : Position} {taken rest : Text} {outcome : Outcome}
    (h : Reads g config mode place taken rest outcome) (hEntry : g.delimiters[i]? = some d)
    (hRead : d.start ≠ []) (hShadowed : ¬ g.Unshadowed i d.start) :
    Reads (g.without i) config mode place taken rest outcome := by
  cases h with
  | exhausted => exact .exhausted
  | lastTerm hPlain hSome => exact .lastTerm (hPlain.without i) hSome
  | space hPlain hSpace => exact .space (hPlain.without i) hSpace
  | @opening _ u _ e hOpens =>
    refine .opening (hOpens.without fun hIndex => hShadowed ?_)
    have hSame := hOpens.first
    rw [Grammar.opening?_eq_openingIndex?, hIndex] at hSame
    obtain rfl : d = e := Option.some.inj (hEntry.symm.trans hSame)
    exact Grammar.unshadowed_of_opens hOpens hEntry hRead hIndex
  | gap hSpace hRest => exact .gap hSpace hRest
  | closed hCloses => exact .closed hCloses
  | tooDeep hTooDeep => exact .tooDeep hTooDeep
  | commentCutOff hOpen hStrict => exact .commentCutOff hOpen hStrict
  | lenient hOpen hLenient => exact .lenient hOpen hLenient
  | stringCutOff hOpen => exact .stringCutOff hOpen

theorem Run.ofMode_without (hEntry : g.delimiters[i]? = some d) (hRead : d.start ≠ [])
    (hShadowed : ¬ g.Unshadowed i d.start) (config : Config) (mode : Mode) (place : Position)
    (t : Text) :
    ofMode (g.without i) config mode (.plain t place) = ofMode g config mode (.plain t place) := by
  induction mode, place, t using Mode.reads_induction g config with
  | hReads mode place taken rest outcome h ih =>
    have hHere := Mode.step_of_reads h
    have hThere := Mode.step_of_reads (h.without hEntry hRead hShadowed)
    cases outcome with
    | error e => rw [ofMode_of_error hHere, ofMode_of_error hThere]
    | ok step =>
      cases step with
      | exhausted => rw [ofMode_of_exhausted hHere, ofMode_of_exhausted hThere]
      | emit token? next =>
        rw [ofMode_of_emit hHere, ofMode_of_emit hThere, ih token? next rfl]

theorem tokenize_without (hValid : g.validate = .ok ()) (hEntry : g.delimiters[i]? = some d)
    (hShadowed : ¬ g.Unshadowed i d.start) (text : Text) :
    tokenize text (g.without i) = tokenize text g := by
  have hRead := (Grammar.validate_eq_ok.mp hValid d (List.mem_of_getElem? hEntry)).start_ne
  rw [Lexer.tokenize_eq hValid, Lexer.tokenize_eq (Grammar.validate_without hValid i)]
  exact congrArg Run.result (Run.ofMode_without hEntry hRead hShadowed {} .std .start text)

/-- An entry is selected on some text exactly when its start marker holds no whitespace, has no
start marker in a shorter beginning, and ends in none that comes first. In a valid grammar an
entry for which that fails makes no difference to any text. -/
theorem Grammar.live_or_redundant (hEntry : g.delimiters[i]? = some d) (hRead : d.start ≠ [])
    (config : Config) :
    (g.Live config i ↔ g.Unshadowed i d.start) ∧
      (g.validate = .ok () → ¬ g.Unshadowed i d.start →
        ∀ text, tokenize text (g.without i) = tokenize text g) :=
  ⟨live_iff hEntry hRead config, fun hValid hShadowed => tokenize_without hValid hEntry hShadowed⟩

theorem Grammar.live_or_redundant_sample :
    overlapping.delimiters[1]? = some (.comment ⟨['-', '-'], ['\n'], false⟩) ∧
    overlapping.validate = .ok () ∧ ¬ overlapping.Live {} 1 ∧
    ∀ text, tokenize text (overlapping.without 1) = tokenize text overlapping := by
  have hEntry : overlapping.delimiters[1]? = some (.comment ⟨['-', '-'], ['\n'], false⟩) := rfl
  have hValid : overlapping.validate = .ok () := rfl
  obtain ⟨hLive, hRedundant⟩ := live_or_redundant hEntry (List.cons_ne_nil _ _) {}
  refine ⟨hEntry, hValid, fun h => overlapping_shadowed (hLive.mp h), ?_⟩
  exact hRedundant hValid overlapping_shadowed

end Removal

end MarkerLex
