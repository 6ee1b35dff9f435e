import Stencil.FileTree
import Stencil.Json.Reader
import Stencil.Toml.Tables
import Stencil.Value.OfToml
import Stencil.Value.Printing

/-!
# Data files

Data is read from files of JSON or TOML. The extension of the file name says which, in letters of
either case.
-/

set_option autoImplicit false

namespace Stencil

/-- The forms of data files. -/
inductive DataFormat where
  | json
  | toml
deriving DecidableEq, Repr

/-- Why no data is read from a file. -/
inductive DataError where
  | unreadable (error : FileError)
  | malformed (format : DataFormat)
  | unsupported (path : PathName)
deriving DecidableEq, Repr

/-- The error in words. -/
def DataError.message : DataError → Text
  | .unreadable error => "Failed to read data file: ".toList ++ error.message
  | .malformed .json => "Failed to parse JSON data: the text is not JSON".toList
  | .malformed .toml => "Failed to parse TOML data: the text is not TOML".toList
  | .unsupported path => "Unsupported data file format: ".toList ++ path

/-- How deep arrays and objects of JSON data may stand inside one another. -/
def jsonDepth : Nat := 127

/-- The form that the name of a file tells of. -/
def DataFormat.ofPath? (path : PathName) : Option DataFormat :=
  match (PathName.extension? path).map (·.map Char.toLower) with
  | some ['j', 's', 'o', 'n'] => some .json
  | some ['t', 'o', 'm', 'l'] => some .toml
  | _ => none

namespace Value

variable {κ : Type}

/-- The value that a text in some form is. -/
def parse? (format : DataFormat) (t : Text) : Option (Value κ) :=
  match format with
  | .json => (Json.read? jsonDepth t).map ofJson
  | .toml => (Toml.read? t).bind ofTomlDocument?

/-- The value in a file. -/
def ofFile {m : Type → Type} [Monad m] (read : PathName → m (Except FileError Text))
    (path : PathName) : m (Except DataError (Value κ)) := do
  match DataFormat.ofPath? path with
  | none => return .error (.unsupported path)
  | some format =>
    match ← read path with
    | .error error => return .error (.unreadable error)
    | .ok t =>
      match parse? format t with
      | some value => return .ok value
      | none => return .error (.malformed format)

end Value

end Stencil
