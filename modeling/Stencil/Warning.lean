import Stencil.Tag.Grammar

/-!
# Warnings

Parsing a template never fails: a tag that cannot be placed stays in the output as literal text.
A warning tells of such a tag, by the defect and the stretch of source that the tag covers.
-/

set_option autoImplicit false

namespace Stencil

/-- What is wrong with a tag. -/
inductive Defect where
  /-- The tag is no tag. -/
  | malformed (cause : Rejection)
  /-- A block or slot is opened and never closed. -/
  | unclosed (name : Text)
  /-- Nothing is open that the tag could close. -/
  | unmatchedClose (name : Option Text)
  /-- The innermost block is of another key, or is parted already. -/
  | unmatchedElse (key : Text)
  /-- The parent of the template is named after its beginning. -/
  | misplacedParent (name : Text)
deriving DecidableEq, Repr

/-- A defect and the tag it was found in. -/
structure Warning where
  defect : Defect
  span : Span
deriving DecidableEq, Repr

/-- The kind of the defect in one word. -/
def Defect.category : Defect → Text
  | .malformed _ => "malformed".toList
  | .unclosed _ => "unclosed".toList
  | .unmatchedClose _ => "unmatched-close".toList
  | .unmatchedElse _ => "unmatched-else".toList
  | .misplacedParent _ => "misplaced-extend".toList

/-- A name between apostrophes. -/
def apostrophes (name : Text) : Text := '\x27' :: name ++ ['\x27']

/-- The defect in words. -/
def Defect.message : Defect → Text
  | .malformed cause => cause.describe
  | .unclosed name => apostrophes name ++ " is never closed".toList
  | .unmatchedClose (some name) => "No open directive named ".toList ++ apostrophes name
  | .unmatchedClose none => "No open directive to close".toList
  | .unmatchedElse key => "No open block for ".toList ++ apostrophes key
  | .misplacedParent name =>
    apostrophes name ++ " is only a parent when it opens the template".toList

end Stencil
