import MarkerLex.Json.Cursor

/-!
# Strings in JSON documents

The reading of strings behind their opening quote, either for their text or
only to get past them; in the second case surrogates need not pair up.
-/

namespace MarkerLex.Json

set_option autoImplicit false

def hexDigit? (c : Char) : Option Nat :=
  if '0' ≤ c ∧ c ≤ '9' then some (c.toNat - '0'.toNat)
  else if 'a' ≤ c ∧ c ≤ 'f' then some (c.toNat - 'a'.toNat + 10)
  else if 'A' ≤ c ∧ c ≤ 'F' then some (c.toNat - 'A'.toNat + 10)
  else none

def hexQuad? (a b c d : Char) : Option Nat := do
  return (((← hexDigit? a) * 16 + (← hexDigit? b)) * 16 + (← hexDigit? c)) * 16 + (← hexDigit? d)

def shortEscape? (c : Char) : Option Char :=
  if c = '"' then some '"'
  else if c = '\\' then some '\\'
  else if c = '/' then some '/'
  else if c = 'b' then some '\x08'
  else if c = 'f' then some '\x0c'
  else if c = 'n' then some '\n'
  else if c = 'r' then some '\r'
  else if c = 't' then some '\t'
  else none

namespace Cursor

/-- The four digits of an escape; they are taken by bytes. -/
def hexQuad (cur : Cursor) : Reading Nat :=
  let invalid : Reading Nat := .error (cur.afterBytes .invalidEscape 4)
  if Text.byteLength (cur.rest.take 4) < 4 then .error (cur.afterBytes .endInString 4)
  else
    match cur.rest with
    | a :: b :: c :: d :: rest =>
      match hexQuad? a b c d with
      | some n => .ok (n, ⟨rest, cur.line, cur.column + 4⟩)
      | none => invalid
    | _ => invalid

theorem hexQuad_length_lt {cur next : Cursor} {n : Nat} (hQuad : cur.hexQuad = .ok (n, next)) :
    next.rest.length < cur.rest.length := by
  obtain ⟨rest, line, column⟩ := cur
  simp only [hexQuad] at hQuad
  split at hQuad
  · simp at hQuad
  · split at hQuad
    · split at hQuad
      · simp only [Except.ok.injEq, Prod.mk.injEq] at hQuad
        obtain ⟨-, rfl⟩ := hQuad
        simp
        omega
      · simp at hQuad
    · simp at hQuad

def pairPart (cur : Cursor) (wanted : Char) : Except Fault Cursor :=
  match cur.rest with
  | [] => .error (cur.here .endInString)
  | c :: _ => if c = wanted then .ok cur.advance else .error (cur.ahead .unfinishedSurrogatePair)

theorem pairPart_length_le {cur next : Cursor} {wanted : Char}
    (hPart : cur.pairPart wanted = .ok next) : next.rest.length ≤ cur.rest.length := by
  simp only [pairPart] at hPart
  split at hPart
  · simp at hPart
  · split at hPart
    · simp only [Except.ok.injEq] at hPart
      subst hPart
      simp
    · simp at hPart

def numberEscape (cur : Cursor) : Reading Char :=
  match cur.hexQuad with
  | .error f => .error f
  | .ok (n, cur) =>
    if 0xDC00 ≤ n ∧ n ≤ 0xDFFF then .error (cur.here .loneSurrogate)
    else if n < 0xD800 ∨ 0xDBFF < n then .ok (Char.ofNat n, cur)
    else
      match (cur.pairPart '\\').bind (·.pairPart 'u') with
      | .error f => .error f
      | .ok cur =>
        match cur.hexQuad with
        | .error f => .error f
        | .ok (m, cur) =>
          if m < 0xDC00 ∨ 0xDFFF < m then .error (cur.here .loneSurrogate)
          else .ok (Char.ofNat (0x10000 + (n - 0xD800) * 0x400 + (m - 0xDC00)), cur)

theorem numberEscape_length_lt {cur next : Cursor} {c : Char}
    (hEscape : cur.numberEscape = .ok (c, next)) : next.rest.length < cur.rest.length := by
  simp only [numberEscape] at hEscape
  split at hEscape
  · simp at hEscape
  · rename_i n first hFirst
    have hShorter := hexQuad_length_lt hFirst
    split at hEscape
    · simp at hEscape
    · split at hEscape
      · simp only [Except.ok.injEq, Prod.mk.injEq] at hEscape
        exact hEscape.2 ▸ hShorter
      · split at hEscape
        · simp at hEscape
        · rename_i second hSecond
          split at hEscape
          · simp at hEscape
          · rename_i m third hThird
            have hThirdShorter := hexQuad_length_lt hThird
            split at hEscape
            · simp at hEscape
            · simp only [Except.ok.injEq, Prod.mk.injEq] at hEscape
              rw [← hEscape.2]
              cases hPart : first.pairPart '\\' with
              | error f => simp [hPart, Except.bind] at hSecond
              | ok middle =>
                have hMiddle := pairPart_length_le hPart
                have hLast : middle.pairPart 'u' = .ok second := by
                  simpa [hPart, Except.bind] using hSecond
                have hSecondLe := pairPart_length_le hLast
                omega

def escape (cur : Cursor) : Reading Char :=
  match cur.rest with
  | [] => .error (cur.here .endInString)
  | c :: _ =>
    match shortEscape? c with
    | some plain => .ok (plain, cur.advance)
    | none => if c = 'u' then cur.advance.numberEscape else .error (cur.ahead .invalidEscape)

theorem escape_length_lt {cur next : Cursor} {c : Char} (hEscape : cur.escape = .ok (c, next)) :
    next.rest.length < cur.rest.length := by
  simp only [escape] at hEscape
  split at hEscape
  · simp at hEscape
  · rename_i d rest hRest
    have hAdvance := advance_length_lt hRest
    split at hEscape
    · simp only [Except.ok.injEq, Prod.mk.injEq] at hEscape
      exact hEscape.2 ▸ hAdvance
    · split at hEscape
      · exact Nat.lt_trans (numberEscape_length_lt hEscape) hAdvance
      · simp at hEscape

def stringBody (cur : Cursor) : Reading Text :=
  match _hRest : cur.rest with
  | [] => .error (cur.here .endInString)
  | c :: _ =>
    if c = '"' then .ok ([], cur.advance)
    else if c = '\\' then
      match _hEscape : cur.advance.escape with
      | .error f => .error f
      | .ok (plain, next) => (stringBody next).map fun (t, cur) => (plain :: t, cur)
    else if c.toNat < 0x20 then .error (cur.ahead .controlCharacter)
    else (stringBody cur.advance).map fun (t, cur) => (c :: t, cur)
termination_by cur.rest.length
decreasing_by
  · exact Nat.lt_trans (escape_length_lt _hEscape) (advance_length_lt _hRest)
  · exact advance_length_lt _hRest

def skipEscape (cur : Cursor) : Except Fault Cursor :=
  match cur.rest with
  | [] => .error (cur.here .endInString)
  | c :: _ =>
    if (shortEscape? c).isSome then .ok cur.advance
    else if c = 'u' then cur.advance.hexQuad.map Prod.snd
    else .error (cur.ahead .invalidEscape)

theorem skipEscape_length_lt {cur next : Cursor} (hEscape : cur.skipEscape = .ok next) :
    next.rest.length < cur.rest.length := by
  simp only [skipEscape] at hEscape
  split at hEscape
  · simp at hEscape
  · rename_i d rest hRest
    have hAdvance := advance_length_lt hRest
    split at hEscape
    · simp only [Except.ok.injEq] at hEscape
      exact hEscape ▸ hAdvance
    · split at hEscape
      · cases hQuad : cur.advance.hexQuad with
        | error f => simp [hQuad, Except.map] at hEscape
        | ok r =>
          obtain ⟨n, last⟩ := r
          simp only [hQuad, Except.map, Except.ok.injEq] at hEscape
          exact hEscape ▸ Nat.lt_trans (hexQuad_length_lt hQuad) hAdvance
      · simp at hEscape

def skipString (cur : Cursor) : Except Fault Cursor :=
  match _hRest : cur.rest with
  | [] => .error (cur.here .endInString)
  | c :: _ =>
    if c = '"' then .ok cur.advance
    else if c = '\\' then
      match _hEscape : cur.advance.skipEscape with
      | .error f => .error f
      | .ok next => skipString next
    else if c.toNat < 0x20 then .error (cur.here .controlCharacter)
    else skipString cur.advance
termination_by cur.rest.length
decreasing_by
  · exact Nat.lt_trans (skipEscape_length_lt _hEscape) (advance_length_lt _hRest)
  · exact advance_length_lt _hRest

end Cursor

end MarkerLex.Json
