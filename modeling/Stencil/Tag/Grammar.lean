import Stencil.Tag
import Stencil.Token.Lexer

/-!
# The grammar of tags

`Tag.parse` reads the inside of a tag. A tag that is no tag is rejected at the first token with
which it stops being the beginning of any tag, or at its end when it is only incomplete, and the
rejection says what could have stood there.
-/

set_option autoImplicit false

namespace Stencil

/-! ## Rejections -/

/-- What could have stood at the place of a rejection. -/
inductive Expectation where
  | sign (sign : Sign)
  | finish
deriving DecidableEq, Repr

/-- Why the inside of a tag is rejected. -/
inductive RejectionCause where
  /-- A character that begins no token. -/
  | strayCharacter
  /-- A token, or the end of the tag, that cannot stand where it does. -/
  | unexpected (found : Option Token) (expected : List Expectation)
deriving DecidableEq, Repr

/-- A rejected tag, with the stretch of its inside that is to blame. -/
structure Rejection where
  span : Span
  cause : RejectionCause
deriving DecidableEq, Repr

/-- The token in words. -/
def Token.describe : Token → Text
  | .path name => "name '".toList ++ name ++ ['\x27']
  | .quoted content => "string \"".toList ++ content ++ ['"']
  | .sign s => ['\x27', s.char, '\x27']

/-- The expectation in words. -/
def Expectation.describe : Expectation → Text
  | .sign s => (Token.sign s).describe
  | .finish => "end of directive".toList

/-- What the rejection found, in words. -/
def Rejection.message (r : Rejection) : Text :=
  match r.cause with
  | .strayCharacter => "Unexpected character".toList
  | .unexpected (some token) _ => "Unexpected ".toList ++ token.describe
  | .unexpected none _ => "Unexpected end of directive".toList

/-- What could have stood there instead, in words. -/
def Rejection.expected (r : Rejection) : List Text :=
  match r.cause with
  | .strayCharacter => []
  | .unexpected _ expected => expected.map Expectation.describe

/-- The message, and what was expected if anything is known of it. -/
def Rejection.describe (r : Rejection) : Text :=
  match r.expected with
  | [] => r.message
  | expected => r.message ++ ", expected ".toList ++ joinTexts " or ".toList expected

/-- The message with the place it is about. -/
def Rejection.display (r : Rejection) : Text :=
  "Parse error at ".toList ++ natText r.span.start ++ "..".toList ++ natText r.span.stop
    ++ ": ".toList ++ r.message

/-! ## Parsing -/

namespace Tag

/-- The span of a rejection at the end of a tag of some size: it goes from the end of the tag back
to the end of the last token, so what follows that token is between the two. -/
def endSpan (size : Nat) (tokens : List (Located Token)) : Span :=
  match tokens.getLast? with
  | some token => ⟨size, token.span.stop⟩
  | none => ⟨size, size⟩

/-- Rejects the tag at the next token; `ending` is the span of its end. -/
def reject {α : Type} (ending : Span) (expected : List Expectation) :
    List (Located Token) → Except Rejection α
  | [] => .error ⟨ending, .unexpected none expected⟩
  | token :: _ => .error ⟨token.span, .unexpected (some token.item) expected⟩

/-- The tag, if no token is left. -/
def finish (ending : Span) (expected : List Expectation) (tag : Tag) :
    List (Located Token) → Except Rejection Tag
  | [] => .ok tag
  | tokens => reject ending expected tokens

/-- A tag that ends with a path. -/
def onePath (ending : Span) (tag : Text → Tag) : List (Located Token) → Except Rejection Tag
  | ⟨.path name, _⟩ :: rest => finish ending [.finish] (tag name) rest
  | tokens => reject ending [] tokens

/-- The end of a closer: an empty pair of parentheses may follow the name. -/
def closerEnd (ending : Span) (name : Option Text) : List (Located Token) → Except Rejection Tag
  | ⟨.sign .openParen, _⟩ :: ⟨.sign .closeParen, _⟩ :: rest =>
    finish ending [.finish] (.closer name) rest
  | ⟨.sign .openParen, _⟩ :: rest => reject ending [.sign .closeParen] rest
  | tokens => finish ending [.sign .openParen, .finish] (.closer name) tokens

/-- A closer after its slash and the sign of what it closes. -/
def closerName (ending : Span) : List (Located Token) → Except Rejection Tag
  | ⟨.path name, _⟩ :: rest => closerEnd ending (some name) rest
  | tokens => closerEnd ending none tokens

/-- May the sign stand between the slash and the name of a closer? -/
def closerSign : Sign → Bool
  | .atSign | .bang | .angle | .hash => true
  | _ => false

/-- A closer after its slash. The sign of what it closes may follow and means nothing. -/
def closerRest (ending : Span) : List (Located Token) → Except Rejection Tag
  | ⟨.sign sign, span⟩ :: rest =>
    if closerSign sign then closerName ending rest
    -- a closer without a name can have parentheses too
    else if sign = .openParen then closerEnd ending none (⟨.sign sign, span⟩ :: rest)
    else reject ending
      [.sign .atSign, .sign .bang, .sign .angle, .sign .hash, .sign .openParen, .finish]
      (⟨.sign sign, span⟩ :: rest)
  | ⟨.path name, _⟩ :: rest => closerEnd ending (some name) rest
  | [] => .ok (.closer none)
  | tokens => reject ending
      [.sign .atSign, .sign .bang, .sign .angle, .sign .hash, .sign .openParen, .finish] tokens

/-- The argument a token is, if it is one. -/
def argument? : Token → Option Argument
  | .quoted content => some (.literal content)
  | .path key => some (.key key)
  | .sign _ => none

/-- The arguments of a call after its opening parenthesis or a comma, those read before given in
reverse. A comma may stand after the last argument. -/
def callArguments (ending : Span) (name : Text) (before : List Argument) :
    List (Located Token) → Except Rejection Tag
  | [] => reject ending [.sign .closeParen] []
  | ⟨.sign .closeParen, _⟩ :: rest => finish ending [.finish] (.call name before.reverse) rest
  | token :: rest =>
    match argument? token.item with
    -- only the closing parenthesis is expected here: the forms of arguments have no sign to name
    | none => reject ending [.sign .closeParen] (token :: rest)
    | some argument =>
      match rest with
      | ⟨.sign .comma, _⟩ :: more => callArguments ending name (argument :: before) more
      | ⟨.sign .closeParen, _⟩ :: more =>
        finish ending [.finish] (.call name (argument :: before).reverse) more
      | tokens => reject ending [.sign .comma, .sign .closeParen] tokens

/-- A tag that begins with a path: a call if a parenthesis follows, else a conditional block. -/
def afterPath (ending : Span) (name : Text) : List (Located Token) → Except Rejection Tag
  | ⟨.sign .openParen, _⟩ :: rest => callArguments ending name [] rest
  | tokens => finish ending [.sign .openParen, .finish] (.opener .conditional name) tokens

/-- The signs a tag can begin with. -/
def firstSigns : List Expectation :=
  [.sign .equals, .sign .percent, .sign .plus, .sign .caret, .sign .colon, .sign .hash,
    .sign .slash, .sign .atSign, .sign .bang, .sign .angle]

/-- The tag that tokens are; `ending` is the span of their end. -/
def ofTokens (ending : Span) : List (Located Token) → Except Rejection Tag
  | ⟨.sign .equals, _⟩ :: rest => onePath ending (.value false) rest
  | ⟨.sign .percent, _⟩ :: rest => onePath ending (.value true) rest
  | ⟨.sign .plus, _⟩ :: rest => onePath ending .inclusion rest
  | ⟨.sign .caret, _⟩ :: rest => onePath ending .parent rest
  | ⟨.sign .colon, _⟩ :: rest => onePath ending .otherwise rest
  | ⟨.sign .hash, _⟩ :: rest => onePath ending .slot rest
  | ⟨.sign .slash, _⟩ :: rest => closerRest ending rest
  | ⟨.sign .atSign, _⟩ :: rest => onePath ending (.opener .enumerate) rest
  | ⟨.sign .bang, _⟩ :: rest => onePath ending (.opener .negated) rest
  | ⟨.sign .angle, _⟩ :: rest => onePath ending (.opener .scopeShift) rest
  | ⟨.path name, _⟩ :: rest => afterPath ending name rest
  | tokens => reject ending firstSigns tokens

/-- The tag whose inside is the text. -/
def parse (input : Text) : Except Rejection Tag :=
  match lex input with
  | .error span => .error ⟨span, .strayCharacter⟩
  | .ok tokens => ofTokens (endSpan (byteSize input) tokens) tokens

end Tag

end Stencil
