import Stencil.PathName

/-!
# Files

The files below a working directory, by the names of the directories that lead to them. Writing a
file makes the directories that lead to it, and these stay when the file is deleted. A path is
followed piece by piece, and each piece needs a directory before it.
-/

set_option autoImplicit false

namespace Stencil

/-- Why a file is not read. -/
inductive FileError where
  | notFound
  | notDirectory
  | isDirectory
  /-- The path, or a name in it, is longer than the system allows. -/
  | nameTooLong
  /-- The bytes are not UTF-8. -/
  | notText
  /-- Another error of the system, in its words. -/
  | other (message : Text)
deriving DecidableEq, Repr

/-- The error in words. -/
def FileError.message : FileError → Text
  | .notFound => "No such file or directory (os error 2)".toList
  | .notDirectory => "Not a directory (os error 20)".toList
  | .isDirectory => "Is a directory (os error 21)".toList
  | .nameTooLong => "File name too long (os error 36)".toList
  | .notText => "stream did not contain valid UTF-8".toList
  | .other message => message

/-- Files and directories by the names that lead to them. -/
structure FileTree where
  /-- Each file with its text, or without one if its bytes are not UTF-8. -/
  files : List (List Text × Option Text) := []
  /-- The directories besides the working directory. -/
  directories : List (List Text) := []

namespace FileTree

/-- Is there a directory of these names? -/
def hasDirectory (tree : FileTree) (names : List Text) : Bool :=
  names.isEmpty || tree.directories.contains names

/-- The file of these names. -/
def file? (tree : FileTree) (names : List Text) : Option (Option Text) :=
  (tree.files.find? fun file => file.1 == names).map (·.2)

/-! ## Reading -/

/-- The bytes that a name between slashes can have. -/
def nameLimit : Nat := 255

/-- The bytes of the shortest path that is too long. -/
def pathLimit : Nat := 4096

/-- The names that pieces of a path lead to from a directory; above the working directory nothing
is known. -/
def follow (tree : FileTree) : Option (List Text) → List Text →
    Except FileError (Option (List Text))
  | place, [] => .ok place
  -- above the working directory every name is unknown, and the way back down too
  | none, piece :: rest =>
    if piece = [] ∨ piece = ['.'] ∨ piece = ['.', '.'] then follow tree none rest
    else if nameLimit < byteSize piece then .error .nameTooLong
    else .error .notFound
  | some names, piece :: rest =>
    if !tree.hasDirectory names then .error .notDirectory
    else if piece = [] ∨ piece = ['.'] then follow tree (some names) rest
    else if piece = ['.', '.'] then
      follow tree (if names.isEmpty then none else some names.dropLast) rest
    else if nameLimit < byteSize piece then .error .nameTooLong
    else
      let names := names ++ [piece]
      if tree.hasDirectory names || (tree.file? names).isSome then follow tree (some names) rest
      else .error .notFound

/-- The names that a path leads to. -/
def locate (tree : FileTree) (path : PathName) : Except FileError (Option (List Text)) :=
  if path = [] then .error .notFound
  else if pathLimit ≤ byteSize path then .error .nameTooLong
  else follow tree (if PathName.isAbsolute path then none else some []) (splitText '/' path)

/-- The text of the file that a path leads to. -/
def read (tree : FileTree) (path : PathName) : Except FileError Text :=
  match tree.locate path with
  | .error error => .error error
  | .ok none => .error .isDirectory
  | .ok (some names) =>
    match tree.file? names with
    | none => .error .isDirectory
    | some none => .error .notText
    | some (some content) => .ok content

/-! ## Changes -/

/-- The names that components of a path below the working directory lead to. A name goes away with
the `..` after it. -/
def namesOf (components : List Component) : List Text :=
  (components.foldl (fun names component => match component with
    | .normal name => name :: names
    | .above => names.drop 1
    | _ => names) []).reverse

/-- Is there a file that a path leads to? -/
def hasFile (tree : FileTree) (path : PathName) : Bool :=
  match tree.locate path with
  | .ok (some names) => (tree.file? names).isSome
  | _ => false

/-- The tree without the file that a path leads to. The directories stay. -/
def delete (tree : FileTree) (path : PathName) : FileTree :=
  match tree.locate path with
  | .ok (some names) => { tree with files := tree.files.filter fun file => file.1 != names }
  | _ => tree

/-- The tree with a file written, in directories that are made for it. Nothing is written where a
directory is, or where a file stands in the way. -/
def write (tree : FileTree) (path : PathName) (content : Option Text) : FileTree :=
  let components := PathName.components path
  let names := namesOf components
  let before := (List.range components.length).map fun n => namesOf (components.take n)
  if tree.hasDirectory names || before.any fun names => (tree.file? names).isSome then tree
  else
    { files := (names, content) :: tree.files.filter fun file => file.1 != names
      directories := tree.directories ++ before.filter fun names => !tree.hasDirectory names }

end FileTree

end Stencil
