import MarkerLex.Text.CaseTable

/-!
# Lower case

The full lower case of a text: one code point may become two, and a capital
sigma takes its final form where a cased code point stands before it and none
after it, code points that case rules look through left aside.
-/

namespace MarkerLex.Text

set_option autoImplicit false

def isCased (c : Char) : Bool := inRanges casedRanges c

def isCaseIgnorable (c : Char) : Bool := inRanges caseIgnorableRanges c

def lowerOf (c : Char) : Text :=
  if c = 'İ' then ['i', '\u0307']
  else
    match capitalRuns.find? (fun run =>
        run.1 ≤ c.toNat && c.toNat ≤ run.2.1 && (c.toNat - run.1) % run.2.2.1 == 0) with
    | some run => [Char.ofNat (Int.toNat (c.toNat + run.2.2.2))]
    | none => [c]

/-- Whether the first code point that case rules do not look through is cased. -/
def meetsCased (t : Text) : Bool :=
  match t.dropWhile isCaseIgnorable with
  | [] => false
  | c :: _ => isCased c

/-- The lower case of the second text, the first standing before it newest character first. -/
def lowerAfter (before : Text) : Text → Text
  | [] => []
  | c :: rest =>
    let small :=
      if c = 'Σ' then
        if meetsCased before && !meetsCased rest then ['ς'] else ['σ']
      else lowerOf c
    small ++ lowerAfter (c :: before) rest

def lower (t : Text) : Text := lowerAfter [] t

end MarkerLex.Text
