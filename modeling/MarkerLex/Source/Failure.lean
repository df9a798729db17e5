import MarkerLex.Text.Basic

/-!
# Failures of a reader of bytes
-/

namespace MarkerLex

set_option autoImplicit false

/-- Why a read failed. The list of kinds is open, and every kind is passed on as it is, except that
an interrupted read has not failed: it is tried again. -/
inductive FailureKind where
  | brokenPipe
  | unexpectedEnd
  | permissionDenied
  | notFound
  | timedOut
  | invalidData
  | wouldBlock
  | isDirectory
  | other
  /-- Any further kind, told by its standard description. -/
  | further (description : String)
deriving DecidableEq, Repr

namespace FailureKind

def describe : FailureKind → String
  | brokenPipe => "broken pipe"
  | unexpectedEnd => "unexpected end of file"
  | permissionDenied => "permission denied"
  | notFound => "entity not found"
  | timedOut => "timed out"
  | invalidData => "invalid data"
  | wouldBlock => "operation would block"
  | isDirectory => "is a directory"
  | other => "other error"
  | further description => description

end FailureKind

structure ReadFailure where
  kind : FailureKind
  description : String
deriving DecidableEq, Repr

structure SourceError where
  failure : ReadFailure
  offset : Nat
deriving DecidableEq, Repr

def SourceError.message (e : SourceError) : String :=
  s!"I/O error at byte offset {e.offset}: {e.failure.description}"

end MarkerLex
