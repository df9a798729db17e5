import MarkerLex.Mode.Reader

/-!
# Reading between two markers

A comment ends where its end marker closes the outermost open comment; the end
marker is tried before the start marker of an inner comment. A string ends at an
end marker that no escape reaches into: what an escape has made ordinary is set
aside and takes part in no marker any more.
-/

namespace MarkerLex

set_option autoImplicit false

/-- A comment that is being read, newest character first, and how many comments are open. -/
structure OpenComment where
  newest : Text
  depth : Nat
deriving DecidableEq, Repr

def CommentSpec.opened (spec : CommentSpec) : OpenComment := ⟨spec.start.reverse, 1⟩

/-- A string that is being read. Both parts hold the newest character first. -/
structure OpenString where
  /-- Everything up to the last escape, or up to the last character made ordinary by one. -/
  settled : Text
  /-- Everything since then; markers are looked for here only. -/
  fresh : Text
  escaped : Bool
deriving DecidableEq, Repr

def StringSpec.opened (spec : StringSpec) : OpenString := ⟨[], spec.start.reverse, false⟩

namespace OpenString

def newest (s : OpenString) : Text := s.fresh ++ s.settled

def settle (s : OpenString) (escaped : Bool) : OpenString := ⟨s.newest, [], escaped⟩

end OpenString

namespace Reader

def comment (config : Config) (spec : CommentSpec) (start : Position) : Reader OpenComment where
  react s _ c :=
    let newest := c :: s.newest
    if Text.endsIn newest spec.stop then
      let depth := s.depth - 1
      if depth = 0 then
        .take ⟨[.commentClosed], .ok (.emit (some ⟨.comment, newest.reverse, start⟩) .std)⟩
      else .remark (.innerCommentClosed depth) ⟨newest, depth⟩
    else if spec.nestable && Text.endsIn newest spec.start then
      let depth := s.depth + 1
      if config.maxCommentDepth < depth then
        .take ⟨[.nestedTooDeep config.maxCommentDepth],
          .error ⟨.commentTooDeep config.maxCommentDepth, start⟩⟩
      else .remark (.innerCommentOpened depth) ⟨newest, depth⟩
    else .proceed ⟨newest, s.depth⟩
  finish s :=
    if config.strictComments then
      ⟨[.commentUnterminated start], .error ⟨.unterminatedComment spec.stop, start⟩⟩
    else
      ⟨[.commentCutOff start], .ok (.emit (some ⟨.comment, s.newest.reverse, start⟩) .std)⟩

def string (spec : StringSpec) (start : Position) : Reader OpenString where
  react s _ c :=
    let s : OpenString := { s with fresh := c :: s.fresh }
    if s.escaped then .proceed (s.settle false)
    else if Text.endsIn s.fresh spec.stop then
      .take ⟨[.stringClosed],
        .ok (.emit (some ⟨.string spec.name, s.newest.reverse, start⟩) .std)⟩
    else if spec.escape.any (Text.endsIn s.fresh) then .proceed (s.settle true)
    else .proceed s
  finish _ := ⟨[.stringUnterminated start], .error ⟨.unterminatedString spec.stop, start⟩⟩

end Reader

end MarkerLex
