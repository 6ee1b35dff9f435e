import Stencil.Text

/-!
# Path names

Path names are read lexically: their components are what stands between slashes. Empty components
and `.` mean nothing and are left out, except for a `.` at the very beginning; a slash at the
beginning is the root of the file system.
-/

set_option autoImplicit false

namespace Stencil

/-- A component of a path. -/
inductive Component where
  /-- The root of the file system. -/
  | root
  /-- The directory itself: a `.` at the beginning. -/
  | current
  /-- The directory above. -/
  | above
  | normal (name : Text)
deriving DecidableEq, Repr

/-- A path name. -/
abbrev PathName := Text

namespace PathName

/-- The component that a piece between slashes is; nothing for the pieces that mean nothing. -/
def componentOf (piece : Text) : Option Component :=
  if piece = [] ∨ piece = ['.'] then none
  else if piece = ['.', '.'] then some .above
  else some (.normal piece)

/-- Does the path begin at the root of the file system? -/
def isAbsolute (path : PathName) : Bool := path.head? == some '/'

/-- The components of a path. -/
def components (path : PathName) : List Component :=
  let pieces := splitText '/' path
  let start : List Component :=
    if isAbsolute path then [.root]
    else if pieces.head? = some ['.'] then [.current] else []
  start ++ pieces.filterMap componentOf

/-- A path that leads on from another. An absolute path leads away from it. -/
def join (base path : PathName) : PathName :=
  if isAbsolute path then path
  else if base = [] ∨ base.getLast? = some '/' then base ++ path
  else base ++ '/' :: path

/-- The name of the file that a path leads to: its last component, if that is a name. -/
def fileName? (path : PathName) : Option Text :=
  match (components path).getLast? with
  | some (.normal name) => some name
  | _ => none

/-- A name cut at its last dot; there is nothing to cut if the only dot stands first. -/
def cutExtension (name : Text) : Text × Option Text :=
  let extension := (name.reverse.takeWhile (· != '.')).reverse
  match name.reverse.dropWhile (· != '.') with
  | [] => (name, none)
  | ['.'] => (name, none)
  | _ :: stem => (stem.reverse, some extension)

/-- The extension of the file name, if it has one. It can be empty. -/
def extension? (path : PathName) : Option Text :=
  match fileName? path with
  | some name => (cutExtension name).2
  | none => none

/-- A path, written backwards, without the slashes and the `/.` that follow its last name. -/
def dropTailBackwards : Text → Text
  | '/' :: rest => dropTailBackwards rest
  | '.' :: '/' :: rest => dropTailBackwards rest
  | rest => rest

/-- A path without the slashes and the `/.` that follow its last name. -/
def dropTail (path : PathName) : PathName := (dropTailBackwards path.reverse).reverse

/-- The path with an extension for its file name in place of the one it has; what follows the file
name is dropped. A path without a file name stays as it is. -/
def withExtension (path : PathName) (extension : Text) : PathName :=
  match fileName? path with
  | none => path
  | some name =>
    let kept := dropTail path
    -- the file name is what the rest of the path ends with
    kept.take (kept.length - name.length) ++ (cutExtension name).1
      ++ (if extension = [] then [] else '.' :: extension)

/-- The path without its last component, if it has one besides the root. -/
def parent? (path : PathName) : Option PathName :=
  match (components path).getLast? with
  | none => none
  | some .root => none
  | some _ =>
    match (dropTail path).reverse.dropWhile (· != '/') with
    | [] => some []
    | before =>
      match dropTailBackwards before with
      -- nothing but slashes is left of an absolute path
      | [] => some ['/']
      | kept => some kept.reverse

end PathName

end Stencil
