import Stencil.Segment

/-!
# The directive reference

The summary of all directives that the command line prints on request.
-/

set_option autoImplicit false

namespace Stencil

namespace Reference

/-- A tag in its braces. -/
def tag (inner : String) : Text := (Segment.tag inner.toList).source

/-- Tags with something between them. -/
def tags (between : String) (inners : List String) : Text :=
  joinTexts between.toList (inners.map tag)

/-- A row that explains a form of one or more tags. The explanations of forms with the same number
of tags begin in one column. -/
def row (inners : List String) (explanation : String) : Text :=
  let form := tags ".." inners
  let width := 23 + 2 * inners.length
  [' ', ' '] ++ form ++ List.replicate (width - form.length) ' ' ++ explanation.toList

/-- The rows of the reference. -/
def rows : List Text := [
  "tplus directive reference".toList,
  List.replicate 25 '=',
  [],
  "VALUES".toList,
  row ["=key"] "Insert a value",
  row ["%key"] "Insert a value, HTML-escaped",
  "  Keys are dotted paths: ".toList
    ++ tags ", " ["=user.address.city", "=list.0", "=list.length"],
  [],
  "BLOCKS".toList,
  row ["key", "/key"] "Render when key is truthy",
  row ["key", ":key", "/key"] "..with an else branch",
  row ["!key", "/key"] "Render when key is falsy",
  row ["@key", "/key"] "Repeat per element (i, n, val) or entry (key, val)",
  row [">key", "/key"] "Render with key as the current context",
  row ["/"] "Closes the innermost open directive",
  [],
  "TEMPLATES".toList,
  row ["^name"] "Extend a parent; must be the first directive",
  row ["#name", "/name"] "Section a child may override",
  row ["+name"] "Include another template",
  [],
  "MACROS".toList,
  row ["name(a, 'b')"] "Call a macro with keys or quoted strings",
  row ["name(a)", "/name"] "..rendering the body if the macro fails",
  [],
  "Falsy values: missing keys, null, false, 0, NaN, empty strings.".toList]

/-- The reference. -/
def content : Text := rows.flatMap fun line => line ++ ['\n']

end Reference

end Stencil
