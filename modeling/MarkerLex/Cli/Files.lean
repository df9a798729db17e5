import MarkerLex.Text.Basic

/-!
# Files by path

What a program finds under a path. A directory may be given as the list of its
files, each by the names on the way to it.
-/

namespace MarkerLex.Cli

set_option autoImplicit false

inductive Entry where
  | file (data : List UInt8)
  | directory
  | absent (reason : String)
deriving DecidableEq, Repr

namespace Entry

def notFound : Entry := absent "No such file or directory (os error 2)"

def notDirectory : Entry := absent "Not a directory (os error 20)"

def nameTooLong : Entry := absent "File name too long (os error 36)"

end Entry

def isDirectoryReason : String := "Is a directory (os error 21)"

def nameLimit : Nat := 255

def pathLimit : Nat := 4095

/-- The names in a path, empty ones included. -/
def pathNames : Text → List Text
  | [] => [[]]
  | '/' :: rest => [] :: pathNames rest
  | c :: rest =>
    match pathNames rest with
    | [] => [[c]]
    | name :: more => (c :: name) :: more

def staysInPlace (name : Text) : Bool := name = [] || name = ['.']

def leadsUp (name : Text) : Bool := name = ['.', '.']

/-- Files by the names on the way to them. -/
abbrev FileTree := List (List Text × List UInt8)

namespace FileTree

def ofPaths (files : List (Text × List UInt8)) : FileTree :=
  files.map fun (path, data) => ((pathNames path).filter (!staysInPlace ·), data)

def missing (name : Text) : Entry :=
  if nameLimit < Text.byteLength name then .nameTooLong else .notFound

def entryAt (tree : FileTree) (way : List Text) : Entry :=
  match tree.lookup way with
  | some data => .file data
  | none =>
    if way.isEmpty || tree.any fun (other, _) => way.isPrefixOf other then .directory
    else missing (way.getLastD [])

/-- What stands outside of the tree, of which only the directories above it are known. -/
def outside (names : List Text) : Entry :=
  match names.find? fun name => !staysInPlace name && !leadsUp name with
  | none => .directory
  | some name => missing name

/-- Follows names from the end of a way, where every further name needs a directory. -/
def follow (tree : FileTree) (way : List Text) : List Text → Entry
  | [] => tree.entryAt way
  | name :: rest =>
    match tree.entryAt way with
    | .directory =>
      if staysInPlace name then follow tree way rest
      else if leadsUp name then
        if way.isEmpty then outside rest else follow tree way.dropLast rest
      else follow tree (way ++ [name]) rest
    | .file _ => .notDirectory
    | .absent reason => .absent reason

/-- What stands under a path. A path that is too long is not followed at all. -/
def entry (tree : FileTree) (path : Text) : Entry :=
  if pathLimit < Text.byteLength path then .nameTooLong
  else
    match path with
    | '/' :: rest => outside (pathNames rest)
    | _ => tree.follow [] (pathNames path)

end FileTree

end MarkerLex.Cli
