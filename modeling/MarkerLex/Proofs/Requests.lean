import MarkerLex.Proofs.Gathering

/-!
# Requests to a source

A source is asked for its next character, to look at it or to take it, or whether there
is one. Whatever is asked and in whatever order, and wherever failures fall, what is
taken is the decoded text from its front on. A failure is an answer of its own, and
the text goes on after it.
-/

namespace MarkerLex

set_option autoImplicit false

namespace Source

inductive Request where
  | peek
  | hasNext
  | advance
deriving DecidableEq, Repr

inductive Reply where
  | peek (answer : Except SourceError (Option Char))
  | hasNext (answer : Except SourceError Bool)
  | advance (answer : Except SourceError (Option Char))

namespace Reply

def taken : Reply → Text
  | advance (.ok (some c)) => [c]
  | _ => []

def error? : Reply → Option SourceError
  | peek (.error e) => some e
  | hasNext (.error e) => some e
  | advance (.error e) => some e
  | _ => none

/-- There is no further character. -/
def ends : Reply → Bool
  | peek (.ok none) => true
  | hasNext (.ok false) => true
  | advance (.ok none) => true
  | _ => false

end Reply

def reply (s : Source) : Request → Reply × Source
  | .peek => (.peek s.peek.value.1, s.peek.value.2)
  | .hasNext => (.hasNext s.hasNext.value.1, s.hasNext.value.2)
  | .advance => (.advance s.advance.value.1, s.advance.value.2)

def replies (s : Source) : List Request → List Reply
  | [] => []
  | request :: requests => (s.reply request).1 :: replies (s.reply request).2 requests

def after (s : Source) : List Request → Source
  | [] => s
  | request :: requests => after (s.reply request).2 requests

def delivered (s : Source) (requests : List Request) : Text :=
  (s.replies requests).flatMap Reply.taken

def returned (s : Source) (requests : List Request) : List SourceError :=
  (s.replies requests).filterMap Reply.error?

theorem after_append (s : Source) (a b : List Request) :
    s.after (a ++ b) = (s.after a).after b := by
  induction a generalizing s with
  | nil => rfl
  | cons request a ih => exact ih _

def Request.reply (found : Except SourceError (Option Char)) : Request → Reply
  | peek => .peek found
  | hasNext => .hasNext (found.map Option.isSome)
  | advance => .advance found

theorem front_cases (place : Position) (signals : List Signal) :
    ∃ skipped, Signal.chars skipped = [] ∧ Signal.failures skipped = [] ∧
      ((signals = skipped ∧ (front place signals).value = .ended) ∨
      (∃ c rest, signals = skipped ++ .char c :: rest ∧
        (front place signals).value = .char c rest) ∨
      ∃ f rest, signals = skipped ++ .failure f :: rest ∧
        (front place signals).value = .failure f rest) := by
  induction signals with
  | nil => exact ⟨[], rfl, rfl, .inl ⟨rfl, rfl⟩⟩
  | cons signal rest ih =>
    cases signal with
    | char c => exact ⟨[], rfl, rfl, .inr (.inl ⟨c, rest, rfl, rfl⟩)⟩
    | failure f => exact ⟨[], rfl, rfl, .inr (.inr ⟨f, rest, rfl, rfl⟩)⟩
    | note n =>
      obtain ⟨skipped, hChars, hFailures, hCases⟩ := ih
      refine ⟨.note n :: skipped, hChars, hFailures, ?_⟩
      rcases hCases with ⟨rfl, hFront⟩ | ⟨c, rest, rfl, hFront⟩ | ⟨f, rest, rfl, hFront⟩
      · exact .inl ⟨rfl, hFront⟩
      · exact .inr (.inl ⟨c, rest, rfl, hFront⟩)
      · exact .inr (.inr ⟨f, rest, rfl, hFront⟩)

/-- What stands in front settles the answer to every request and what it leaves. -/
theorem reply_cases (s : Source) :
    ∃ skipped, Signal.chars skipped = [] ∧ Signal.failures skipped = [] ∧
      ((s.signals = skipped ∧ ∀ request, s.reply request =
        (request.reply (.ok none), ⟨[], s.position⟩)) ∨
      (∃ c rest, s.signals = skipped ++ .char c :: rest ∧ ∀ request, s.reply request =
        (request.reply (.ok (some c)),
          if request = .advance then ⟨rest, s.position.advance c⟩
          else ⟨.char c :: rest, s.position⟩)) ∨
      ∃ f rest, s.signals = skipped ++ .failure f :: rest ∧ ∀ request, s.reply request =
        (request.reply (.error (errorAt s.position f)), ⟨rest, s.position⟩)) := by
  obtain ⟨skipped, hChars, hFailures, hCases⟩ := front_cases s.position s.signals
  refine ⟨skipped, hChars, hFailures, ?_⟩
  rcases hCases with ⟨hSignals, hFront⟩ | ⟨c, rest, hSignals, hFront⟩ | ⟨f, rest, hSignals, hFront⟩
  · refine .inl ⟨hSignals, fun request => ?_⟩
    cases request <;> simp only [reply, peek, hasNext, advance, Traced.map_value, hFront] <;> rfl
  · refine .inr (.inl ⟨c, rest, hSignals, fun request => ?_⟩)
    cases request <;> simp only [reply, peek, hasNext, advance, Traced.map_value, hFront] <;> rfl
  · refine .inr (.inr ⟨f, rest, hSignals, fun request => ?_⟩)
    cases request <;> simp only [reply, peek, hasNext, advance, Traced.map_value, hFront] <;> rfl

/-- From `s` to `left` this text has been taken and these failures have been returned. -/
structure Passes (s : Source) (taken : Text) (lost : List ReadFailure) (left : Source) : Prop where
  signals : ∃ passed, s.signals = passed ++ left.signals ∧
    Signal.chars passed = taken ∧ Signal.failures passed = lost
  position : left.position = s.position.advancedBy taken

namespace Passes

variable {s left last : Source} {a b : Text} {lost more : List ReadFailure}

theorem refl (s : Source) : s.Passes [] [] s := ⟨⟨[], rfl, rfl, rfl⟩, rfl⟩

theorem trans (hFirst : s.Passes a lost left) (hThen : left.Passes b more last) :
    s.Passes (a ++ b) (lost ++ more) last := by
  obtain ⟨⟨passed, hSignals, rfl, rfl⟩, hPlace⟩ := hFirst
  obtain ⟨⟨further, hLater, rfl, rfl⟩, hLast⟩ := hThen
  constructor
  · exact ⟨passed ++ further, by rw [hSignals, hLater, List.append_assoc],
      Signal.chars_append .., Signal.failures_append ..⟩
  · rw [hLast, hPlace, Position.advancedBy_append]

theorem unread (h : s.Passes a lost left) : s.unread = a ++ left.unread := by
  obtain ⟨⟨passed, hSignals, rfl, -⟩, -⟩ := h
  rw [Source.unread, hSignals, Signal.chars_append]
  rfl

theorem failures (h : s.Passes a lost left) :
    Signal.failures s.signals = lost ++ Signal.failures left.signals := by
  obtain ⟨⟨passed, hSignals, -, rfl⟩, -⟩ := h
  rw [hSignals, Signal.failures_append]

end Passes

theorem passes_reply (s : Source) (request : Request) :
    s.Passes (s.reply request).1.taken
      ((s.reply request).1.error?.map SourceError.failure).toList (s.reply request).2 := by
  obtain ⟨skipped, hChars, hFailures, hCases⟩ := s.reply_cases
  rcases hCases with ⟨hSignals, hReply⟩ | ⟨c, rest, hSignals, hReply⟩ | ⟨f, rest, hSignals, hReply⟩
  · rw [hReply]
    have hNone : s.Passes [] [] ⟨[], s.position⟩ :=
      ⟨⟨skipped, by rw [hSignals, List.append_nil], hChars, hFailures⟩, rfl⟩
    cases request <;> exact hNone
  · rw [hReply]
    have hKept : s.Passes [] [] ⟨.char c :: rest, s.position⟩ :=
      ⟨⟨skipped, hSignals, hChars, hFailures⟩, rfl⟩
    have hNext : Passes ⟨.char c :: rest, s.position⟩ [c] [] ⟨rest, s.position.advance c⟩ :=
      ⟨⟨[.char c], rfl, rfl, rfl⟩, rfl⟩
    have hTaken : s.Passes [c] [] ⟨rest, s.position.advance c⟩ := hKept.trans hNext
    cases request
    case peek | hasNext => exact hKept
    case advance => exact hTaken
  · rw [hReply]
    have hLost : s.Passes [] [f] ⟨rest, s.position⟩ := by
      refine ⟨⟨skipped ++ [.failure f], by rw [hSignals, List.append_assoc]; rfl, ?_, ?_⟩, rfl⟩
      · rw [Signal.chars_append, hChars]
        rfl
      · rw [Signal.failures_append, hFailures]
        rfl
    cases request <;> exact hLost

theorem passes_after (s : Source) (requests : List Request) :
    s.Passes (s.delivered requests) ((s.returned requests).map SourceError.failure)
      (s.after requests) := by
  induction requests generalizing s with
  | nil => exact .refl s
  | cons request requests ih =>
    have hBoth := (s.passes_reply request).trans (ih (s.reply request).2)
    rw [delivered, returned, replies, List.flatMap_cons, List.filterMap_cons]
    cases hError : (s.reply request).1.error? with
    | none =>
      rw [hError] at hBoth
      exact hBoth
    | some e =>
      rw [hError] at hBoth
      exact hBoth

/-- What is next has been found out: a character, or the end. -/
def Shows (s : Source) (found : Option Char) : Prop := s.signals.head? = found.map .char

variable {s : Source} {found : Option Char}

theorem shows_of_reply {request : Request} (hIdle : request ≠ .advance)
    (hReply : (s.reply request).1.error? = none) :
    ∃ found, (s.reply request).1 = request.reply (.ok found) ∧ (s.reply request).2.Shows found := by
  obtain ⟨skipped, -, -, ⟨-, hHere⟩ | ⟨c, rest, -, hHere⟩ | ⟨f, rest, -, hHere⟩⟩ := s.reply_cases
  · rw [hHere]
    exact ⟨none, rfl, rfl⟩
  · rw [hHere, if_neg hIdle]
    exact ⟨some c, rfl, rfl⟩
  · rw [hHere] at hReply
    cases request <;> cases hReply

theorem Shows.reply (h : s.Shows found) (request : Request) :
    (s.reply request).1 = request.reply (.ok found) ∧
      (request ≠ .advance ∨ found = none → (s.reply request).2.Shows found) := by
  obtain ⟨signals, place⟩ := s
  cases found with
  | none =>
    obtain rfl : signals = [] := List.head?_eq_none_iff.mp h
    cases request <;> exact ⟨rfl, fun _ => rfl⟩
  | some c =>
    obtain ⟨rest, rfl⟩ : ∃ rest, signals = .char c :: rest := List.head?_eq_some_iff.mp h
    cases request with
    | peek | hasNext => exact ⟨rfl, fun _ => rfl⟩
    | advance =>
      refine ⟨rfl, fun hKept => ?_⟩
      rcases hKept with hIdle | hNone
      · exact absurd rfl hIdle
      · cases hNone

theorem Shows.after (h : s.Shows found) {idle : List Request} (hIdle : .advance ∉ idle) :
    (s.after idle).Shows found := by
  induction idle generalizing s with
  | nil => exact h
  | cons request idle ih =>
    have hFirst : request ≠ .advance := by
      rintro rfl
      exact hIdle List.mem_cons_self
    exact ih ((h.reply request).2 (.inl hFirst)) fun hLater => hIdle (List.mem_cons_of_mem _ hLater)

/-- Looking does not move the source, and what it finds is what is taken next. -/
theorem advance_of_reply {request : Request} (hRequest : request ≠ .advance)
    (hReply : (s.reply request).1.error? = none) {idle : List Request} (hIdle : .advance ∉ idle) :
    ∃ found, (s.reply request).1 = request.reply (.ok found) ∧
      (s.after (request :: idle)).advance.value.1 = .ok found := by
  obtain ⟨found, hFound, hShows⟩ := shows_of_reply hRequest hReply
  have hAdvance := ((hShows.after hIdle).reply .advance).1
  exact ⟨found, hFound, Reply.advance.inj hAdvance⟩

theorem advance_of_peek (hPeek : s.peek.value.1 = .ok found) {idle : List Request}
    (hIdle : .advance ∉ idle) : (s.after (.peek :: idle)).advance.value.1 = .ok found := by
  have hNone : (s.reply .peek).1.error? = none := by
    change Reply.error? (.peek _) = none
    rw [hPeek]
    rfl
  obtain ⟨found', hFound, hAdvance⟩ := advance_of_reply (by decide) hNone hIdle
  rw [hAdvance, ← hPeek]
  exact (Reply.peek.inj hFound).symm

theorem advance_of_hasNext {more : Bool} (hAsk : s.hasNext.value.1 = .ok more)
    {idle : List Request} (hIdle : .advance ∉ idle) :
    ∃ found, (s.after (.hasNext :: idle)).advance.value.1 = .ok found ∧ found.isSome = more := by
  have hNone : (s.reply .hasNext).1.error? = none := by
    change Reply.error? (.hasNext _) = none
    rw [hAsk]
    rfl
  obtain ⟨found, hFound, hAdvance⟩ := advance_of_reply (by decide) hNone hIdle
  exact ⟨found, hAdvance, Except.ok.inj ((Reply.hasNext.inj hFound).symm.trans hAsk)⟩

theorem shows_of_ends {request : Request} (hEnds : (s.reply request).1.ends = true) :
    (s.reply request).2.Shows none := by
  obtain ⟨skipped, -, -, ⟨-, hHere⟩ | ⟨c, rest, -, hHere⟩ | ⟨f, rest, -, hHere⟩⟩ := s.reply_cases
  · rw [hHere]
    rfl
  · rw [hHere] at hEnds
    cases request <;> cases hEnds
  · rw [hHere] at hEnds
    cases request <;> cases hEnds

theorem shows_after_of_ends {requests : List Request}
    (hEnds : ∃ answer ∈ s.replies requests, answer.ends = true) :
    (s.after requests).Shows none := by
  have hStays (s : Source) (requests : List Request) (h : s.Shows none) :
      (s.after requests).Shows none := by
    induction requests generalizing s with
    | nil => exact h
    | cons request requests ih => exact ih _ ((h.reply request).2 (.inr rfl))
  induction requests generalizing s with
  | nil =>
    obtain ⟨answer, hAnswer, -⟩ := hEnds
    cases hAnswer
  | cons request requests ih =>
    obtain ⟨answer, hAnswer, hHere⟩ := hEnds
    rcases List.mem_cons.mp hAnswer with rfl | hLater
    · exact hStays _ requests (shows_of_ends hHere)
    · exact ih ⟨answer, hLater, hHere⟩

/-- A failure is returned between what is taken before and what is taken after it. -/
theorem Passes.around_failure {s left : Source} {taken : Text} {lost : List ReadFailure}
    (h : s.Passes taken lost left) {before later : List Signal} {f : ReadFailure}
    (hSignals : s.signals = before ++ .failure f :: later) :
    (lost.length ≤ (Signal.failures before).length → taken <+: Signal.chars before) ∧
      ((Signal.failures before).length < lost.length → Signal.chars before <+: taken) := by
  obtain ⟨⟨passed, hPassed, rfl, rfl⟩, -⟩ := h
  rw [hSignals] at hPassed
  rcases List.append_eq_append_iff.mp hPassed with ⟨more, rfl, hMore⟩ | ⟨more, rfl, -⟩
  · rw [Signal.chars_append, Signal.failures_append, List.length_append]
    refine ⟨fun hLost => ?_, fun _ => List.prefix_append _ _⟩
    cases more with
    | nil => simp only [Signal.chars, List.append_nil, List.prefix_rfl]
    | cons signal more =>
      obtain ⟨rfl, -⟩ := List.cons.inj hMore
      change _ + ((Signal.failures more).length + 1) ≤ _ at hLost
      omega
  · rw [Signal.chars_append, Signal.failures_append, List.length_append]
    refine ⟨fun _ => List.prefix_append _ _, fun hLost => ?_⟩
    omega

theorem reply_of_error {request : Request} {e : SourceError}
    (hError : (s.reply request).1.error? = some e) :
    e.offset = s.position.byteOffset ∧ (s.reply request).2.position = s.position ∧
      (s.reply request).2.unread = s.unread := by
  obtain ⟨skipped, hChars, -, ⟨-, hHere⟩ | ⟨c, rest, -, hHere⟩ | ⟨f, rest, hSignals, hHere⟩⟩ :=
    s.reply_cases
  · rw [hHere] at hError
    cases request <;> cases hError
  · rw [hHere] at hError
    cases request <;> cases hError
  · rw [hHere] at hError ⊢
    have hUnread : Signal.chars rest = s.unread := by
      rw [unread, hSignals, Signal.chars_append, hChars]
      rfl
    cases request <;> cases hError <;> exact ⟨rfl, rfl, hUnread⟩

theorem position_of_reply {request : Request} (hIdle : request ≠ .advance) :
    (s.reply request).2.position = s.position := by
  have hPlace := (s.passes_reply request).position
  cases request with
  | peek | hasNext => exact hPlace
  | advance => exact absurd rfl hIdle

/-- What a source of reads, whose bytes stand for `text`, keeps to after some requests. -/
structure Faithful (s : Source) (reads : List Read) (text : Text) (requests : List Request) :
    Prop where
  /-- Nothing is lost, repeated or decoded differently. -/
  whole : text = s.delivered requests ++ (s.after requests).unread
  position : (s.after requests).position = Position.start.advancedBy (s.delivered requests)
  still : ∀ request, request ≠ .advance →
    ((s.after requests).reply request).2.position = (s.after requests).position
  peeked : ∀ found idle, .advance ∉ idle → (s.after requests).peek.value.1 = .ok found →
    (s.after (requests ++ .peek :: idle)).advance.value.1 = .ok found
  asked : ∀ more idle, .advance ∉ idle → (s.after requests).hasNext.value.1 = .ok more →
    ∃ found, (s.after (requests ++ .hasNext :: idle)).advance.value.1 = .ok found ∧
      found.isSome = more
  /-- Failures are returned in order, and each once. -/
  returned : (s.returned requests).map SourceError.failure <+: Read.failures reads
  /-- A failure is returned where it is reached: behind what the bytes before it settle, and
  before anything else. -/
  reached : ∀ earlier f later, reads = earlier ++ .failed f :: later → .bytes [] ∉ earlier →
    ∃ settled, Utf8.Settles (Read.data earlier) settled ∧
      ((s.returned requests).length ≤ (Read.failures earlier).length →
        s.delivered requests <+: settled) ∧
      ((Read.failures earlier).length < (s.returned requests).length →
        settled <+: s.delivered requests)
  failed : ∀ request e, ((s.after requests).reply request).1.error? = some e →
    e.offset = (s.after requests).position.byteOffset ∧
    ((s.after requests).reply request).2.position = (s.after requests).position ∧
    ((s.after requests).reply request).2.unread = (s.after requests).unread
  ended : (∃ answer ∈ s.replies requests, answer.ends = true) →
    s.delivered requests = text ∧
    (s.returned requests).map SourceError.failure = Read.failures reads ∧
    ∀ request, ((s.after requests).reply request).1.ends = true

/-- Whatever is asked of a source of bytes, and however its reads fail, it keeps to the one text
that its bytes stand for. -/
theorem faithful_ofReads (reads : List Read) :
    ∃! text, Utf8.Decodes (Read.data reads) text ∧
      ∀ requests, (ofReads reads).Faithful reads text requests := by
  refine ⟨Utf8.lossy (Read.data reads), ⟨Utf8.decodes_lossy _, fun requests => ?_⟩,
    fun text h => Utf8.decodes_iff.mp h.1⟩
  have hPasses := (ofReads reads).passes_after requests
  have hUnread := hPasses.unread
  rw [unread_ofReads] at hUnread
  have hFailures := hPasses.failures
  rw [failures_ofReads] at hFailures
  constructor
  case whole => exact hUnread
  case position => exact hPasses.position
  case peeked =>
    intro found idle hIdle hPeek
    rw [after_append]
    exact advance_of_peek hPeek hIdle
  case asked =>
    intro more idle hIdle hAsk
    rw [after_append]
    exact advance_of_hasNext hAsk hIdle
  case still => exact fun request hIdle => position_of_reply hIdle
  case returned =>
    rw [hFailures]
    exact List.prefix_append _ _
  case reached =>
    intro earlier f later hReads hOn
    subst hReads
    obtain ⟨before, rest, hSignals, hBefore, hSettles⟩ := signals_ofReads_failed hOn f later
    have hAround := hPasses.around_failure hSignals
    rw [List.length_map, hBefore] at hAround
    exact ⟨Signal.chars before, hSettles, hAround⟩
  case failed => exact fun request e hError => reply_of_error hError
  case ended =>
    intro hEnds
    have hShows := shows_after_of_ends hEnds
    have hNothing : ((ofReads reads).after requests).signals = [] :=
      List.head?_eq_none_iff.mp hShows
    refine ⟨?_, ?_, fun request => ?_⟩
    · rw [hUnread, unread, hNothing, Signal.chars, List.append_nil]
    · rw [hFailures, hNothing]
      exact (List.append_nil _).symm
    · rw [(hShows.reply request).1]
      cases request <;> rfl

example : (ofReads [.bytes [0xE2], .failed ⟨.timedOut, "late"⟩, .bytes [0x82, 0xAC]]).delivered
    [.peek, .advance, .advance] = ['€'] := by cbv

end Source

end MarkerLex
