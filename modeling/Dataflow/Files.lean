/-!
Files in a directory tree, as reading from the root of the tree by a relative path finds them.
-/

namespace Dataflow

inductive Entry where
  | file (content : ByteArray)
  | directory
deriving Inhabited

/-- Entries by the names on the way to them. A directory is also there if something is in it. -/
structure Files where
  entries : List (List String × Entry)

inductive ReadFault where
  | notFound
  | notDirectory
  | isDirectory
  | nameTooLong
  | nulInPath
  | notText
deriving DecidableEq

/-- The words of the system for it. -/
def ReadFault.message : ReadFault → String
  | notFound => "No such file or directory (os error 2)"
  | notDirectory => "Not a directory (os error 20)"
  | isDirectory => "Is a directory (os error 21)"
  | nameTooLong => "File name too long (os error 36)"
  | nulInPath => "file name contained an unexpected NUL byte"
  | notText => "stream did not contain valid UTF-8"

namespace Files

def empty : Files := ⟨[]⟩

/-- The names on a path. A piece that is empty or a single dot leads nowhere. -/
def namesOf (path : String) : List String :=
  (path.splitOn "/").filter fun piece => piece ≠ "" ∧ piece ≠ "."

def insert (f : Files) (path : String) (e : Entry) : Files :=
  ⟨f.entries ++ [(namesOf path, e)]⟩

/-- What is at the end of some names. -/
def entry? (f : Files) (names : List String) : Option Entry :=
  if names = [] then some .directory
  else
    match f.entries.lookup names with
    | some e => some e
    | none =>
      if f.entries.any fun (ns, _) => names.isPrefixOf ns then some .directory else none

/-- Goes on from `names` by the pieces of a path. Every piece, also an empty one, needs a directory
to start from; nothing above the root is known. -/
def walk (f : Files) (names : List String) : List String → Except ReadFault (List String)
  | [] => .ok names
  | piece :: rest =>
    match f.entry? names with
    | none => .error .notFound
    | some (.file _) => .error .notDirectory
    | some .directory =>
      if piece = "" ∨ piece = "." then walk f names rest
      else if piece = ".." then
        if names = [] then .error .notFound else walk f names.dropLast rest
      else if 255 < piece.utf8ByteSize then .error .nameTooLong
      else walk f (names ++ [piece]) rest

def read (f : Files) (path : String) : Except ReadFault String :=
  if path.contains '\x00' then .error .nulInPath
  else if 4096 ≤ path.utf8ByteSize then .error .nameTooLong
  else if path = "" ∨ path.startsWith "/" then .error .notFound
  else do
    let names ← f.walk [] (path.splitOn "/")
    match f.entry? names with
    | none => .error .notFound
    | some .directory => .error .isDirectory
    | some (.file content) =>
      match String.fromUTF8? content with
      | some text => .ok text
      | none => .error .notText

end Files

end Dataflow
