import Stencil.Text.Letter

/-!
# Tokens

The words of a tag: signs of one character, paths (keys and names), and quoted texts.
-/

set_option autoImplicit false

namespace Stencil

/-- The signs a tag is written with. -/
inductive Sign where
  | atSign
  | bang
  | angle
  | hash
  | caret
  | plus
  | equals
  | percent
  | colon
  | slash
  | openParen
  | closeParen
  | comma
deriving DecidableEq, Repr

/-- The character of a sign. -/
def Sign.char : Sign → Char
  | .atSign => '@'
  | .bang => '!'
  | .angle => '>'
  | .hash => '#'
  | .caret => '^'
  | .plus => '+'
  | .equals => '='
  | .percent => '%'
  | .colon => ':'
  | .slash => '/'
  | .openParen => '('
  | .closeParen => ')'
  | .comma => ','

/-- The sign a character is, if it is one. -/
def Sign.ofChar? : Char → Option Sign
  | '@' => some .atSign
  | '!' => some .bang
  | '>' => some .angle
  | '#' => some .hash
  | '^' => some .caret
  | '+' => some .plus
  | '=' => some .equals
  | '%' => some .percent
  | ':' => some .colon
  | '/' => some .slash
  | '(' => some .openParen
  | ')' => some .closeParen
  | ',' => some .comma
  | _ => none

theorem Sign.ofChar?_char (s : Sign) : Sign.ofChar? s.char = some s := by
  cases s <;> rfl

/-- A word of a tag. -/
inductive Token where
  | sign (sign : Sign)
  /-- A dotted key or a template name. -/
  | path (name : Text)
  /-- A quoted text, without its quotes. -/
  | quoted (content : Text)
deriving DecidableEq, Repr

/-! ## Characters of a path -/

/-- May a path begin with the character? -/
def isPathStart (c : Char) : Bool := isLetterOrNumber c || c == '_' || c == '$'

/-- May a path go on with the character? -/
def isPathPart (c : Char) : Bool := isPathStart c || c == '.' || c == '-' || c == '/'

/-- Is the text a path: a first character that may begin one, then characters that may go on? -/
def isPath : Text → Bool
  | [] => false
  | c :: rest => isPathStart c && rest.all isPathPart

/-- The characters that separate tokens and mean nothing else. -/
def isSpacing (c : Char) : Bool :=
  c == ' ' || c == '\t' || c == '\n' || c == '\r' || c == '\x0c'

/-- The two quotes. -/
def isQuote (c : Char) : Bool := c == '"' || c == '\x27'

end Stencil
