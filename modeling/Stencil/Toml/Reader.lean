import Stencil.Json.Reader
import Stencil.Number.Reading
import Stencil.Toml
import Stencil.Toml.Moment

/-!
# Reading keys and values of TOML

Each reader takes the text from some place on and gives what it read with the rest, or nothing if
the text is not well formed there. Readers that repeat something take a number of steps, which
the text's length bounds.
-/

set_option autoImplicit false

namespace Stencil

namespace Toml

/-! ## Blanks and comments -/

/-- Does the character separate words on a line? -/
def isSpace (c : Char) : Bool := c == ' ' || c == '\t'

/-- The text without the spaces it begins with. -/
def skipSpaces (t : Text) : Text := t.dropWhile isSpace

/-- May the character stand in a comment, a literal string, or unescaped in a string? -/
def isPrintable (c : Char) : Bool := c == '\t' || (0x20 ≤ c.toNat && c.toNat ≠ 0x7F)

/-- The rest of a text after the line end it begins with. -/
def skipLineEnd? : Text → Option Text
  | '\n' :: rest => some rest
  | '\r' :: '\n' :: rest => some rest
  | _ => none

/-- The text without the comment it begins with. -/
def skipComment : Text → Text
  | '#' :: rest => rest.dropWhile isPrintable
  | t => t

/-- The rest after spaces, a comment or none, and the end of the line or of the text. -/
def skipToNextLine? (t : Text) : Option Text :=
  match skipComment (skipSpaces t) with
  | [] => some []
  | rest => skipLineEnd? rest

/-- The text without the spaces, line ends and comments it begins with. -/
def skipFiller : Nat → Text → Text
  | 0, t => t
  | steps + 1, t =>
    let rest := skipSpaces t
    match rest with
    | '#' :: _ => skipFiller steps (skipComment rest)
    | rest =>
      match skipLineEnd? rest with
      | some rest => skipFiller steps rest
      | none => rest

/-! ## Strings -/

/-- The character that a one-letter escape stands for. -/
def shortEscape? : Char → Option Char
  | 'b' => some '\x08'
  | 't' => some '\t'
  | 'n' => some '\n'
  | 'f' => some '\x0c'
  | 'r' => some '\r'
  | '"' => some '"'
  | '\\' => some '\\'
  | _ => none

/-- Reads an escape after its backslash. -/
def readEscape? : Text → Option (Char × Text)
  | 'u' :: rest => do
    let n ← hexOf? (rest.take 4)
    if rest.length < 4 then none else return (← charOf? n, rest.drop 4)
  | 'U' :: rest => do
    let n ← hexOf? (rest.take 8)
    if rest.length < 8 then none else return (← charOf? n, rest.drop 8)
  | c :: rest => (shortEscape? c).map fun char => (char, rest)
  | [] => none

/-- A reading with a text before it. -/
def prepend (before : Text) (reading : Option (Text × Text)) : Option (Text × Text) :=
  reading.map fun r => (before ++ r.1, r.2)

/-- Reads a string of one line after its opening quote. -/
def readBasic? : Nat → Text → Option (Text × Text)
  | 0, _ => none
  | steps + 1, t =>
    match t with
    | '"' :: rest => some ([], rest)
    | '\\' :: rest =>
      match readEscape? rest with
      | some (c, rest) => prepend [c] (readBasic? steps rest)
      | none => none
    | c :: rest => if isPrintable c then prepend [c] (readBasic? steps rest) else none
    | [] => none

/-- Reads a literal string of one line after its opening quote. -/
def readLiteral? : Text → Option (Text × Text)
  | [] => none
  | '\x27' :: rest => some ([], rest)
  | c :: rest => if isPrintable c then prepend [c] (readLiteral? rest) else none

/-- Reads a run of quotes in a string of several lines: three close the string, and one or two more
before them belong to it. -/
def readQuotes (quote : Char) (t : Text) : Text × Option Text :=
  let run := (t.takeWhile (· == quote)).length
  if run < 3 then (List.replicate run quote, none)
  else
    -- at most two quotes can stand before the three that close
    let inside := min (run - 3) 2
    (List.replicate inside quote, some (t.drop (inside + 3)))

/-- Reads a string of several lines after its opening quotes. -/
def readMultiBasic? : Nat → Text → Option (Text × Text)
  | 0, _ => none
  | steps + 1, t =>
    match t with
    | '"' :: _ =>
      match readQuotes '"' t with
      | (inside, some rest) => some (inside, rest)
      | (inside, none) => prepend inside (readMultiBasic? steps (t.drop inside.length))
    | '\\' :: rest =>
      -- a backslash at the end of a line joins it to the next text
      match skipLineEnd? (skipSpaces rest) with
      | some rest => readMultiBasic? steps (skipFillerLines steps rest)
      | none =>
        match readEscape? rest with
        | some (c, rest) => prepend [c] (readMultiBasic? steps rest)
        | none => none
    | c :: rest =>
      match skipLineEnd? t with
      | some rest => prepend ['\n'] (readMultiBasic? steps rest)
      | none => if isPrintable c then prepend [c] (readMultiBasic? steps rest) else none
    | [] => none
where
  /-- Drops spaces and whole line ends. -/
  skipFillerLines : Nat → Text → Text
    | 0, t => t
    | steps + 1, t =>
      match skipLineEnd? (skipSpaces t) with
      | some rest => skipFillerLines steps rest
      | none => skipSpaces t

/-- Reads a literal string of several lines after its opening quotes. -/
def readMultiLiteral? : Nat → Text → Option (Text × Text)
  | 0, _ => none
  | steps + 1, t =>
    match t with
    | '\x27' :: _ =>
      match readQuotes '\x27' t with
      | (inside, some rest) => some (inside, rest)
      | (inside, none) => prepend inside (readMultiLiteral? steps (t.drop inside.length))
    | c :: rest =>
      match skipLineEnd? t with
      | some rest => prepend ['\n'] (readMultiLiteral? steps rest)
      | none => if isPrintable c then prepend [c] (readMultiLiteral? steps rest) else none
    | [] => none

/-- The text without the line end that may follow opening quotes. -/
def skipFirstLineEnd (t : Text) : Text := (skipLineEnd? t).getD t

/-- Reads a string of any kind. -/
def readString? (steps : Nat) : Text → Option (Text × Text)
  | '"' :: '"' :: '"' :: rest => readMultiBasic? steps (skipFirstLineEnd rest)
  | '"' :: rest => readBasic? steps rest
  | '\x27' :: '\x27' :: '\x27' :: rest => readMultiLiteral? steps (skipFirstLineEnd rest)
  | '\x27' :: rest => readLiteral? rest
  | _ => none

/-! ## Keys -/

/-- May the character stand in a key without quotes? -/
def isBareKeyChar (c : Char) : Bool := c.isAlphanum || c == '_' || c == '-'

/-- Reads one part of a key. -/
def readKeyPart? (steps : Nat) (t : Text) : Option (Text × Text) :=
  match t with
  | '"' :: rest => readBasic? steps rest
  | '\x27' :: rest => readLiteral? rest
  | t =>
    match t.takeWhile isBareKeyChar with
    | [] => none
    | part => some (part, t.dropWhile isBareKeyChar)

/-- Reads a dotted key: its parts, and the rest after the spaces that follow. -/
def readKey? : Nat → Text → Option (List Text × Text)
  | 0, _ => none
  | steps + 1, t =>
    match readKeyPart? (steps + 1) (skipSpaces t) with
    | none => none
    | some (part, rest) =>
      match skipSpaces rest with
      | '.' :: rest => (readKey? steps rest).map fun r => (part :: r.1, r.2)
      | rest => some ([part], rest)

/-- The most parts of a key, and one more than the most arrays and inline tables inside one
another. -/
def nestingLimit : Nat := 80

/-! ## Numbers and words -/

/-- Digits without the underscores between them, if underscores stand only there. -/
def plainDigits? (isDigit : Char → Bool) : Text → Option Text
  | [] => none
  | [c] => if isDigit c then some [c] else none
  | c :: '_' :: rest => if isDigit c then (plainDigits? isDigit rest).map (c :: ·) else none
  | c :: rest => if isDigit c then (plainDigits? isDigit rest).map (c :: ·) else none

/-- The largest integer, and the magnitude of the smallest one. -/
def integerLimit (negative : Bool) : Nat :=
  if negative then 9223372036854775808 else 9223372036854775807

/-- The digits of a decimal integer: no zero before other digits. -/
def decimalDigits? (t : Text) : Option Text :=
  match plainDigits? Char.isDigit t with
  | some ('0' :: _ :: _) => none
  | digits => digits

/-- The natural number that digits to a base spell. -/
def digitsToBase (base : Nat) (digits : Text) : Nat :=
  digits.foldl (fun n c => n * base + (hexValue? c).getD 0) 0

/-- Is the character a digit to the base? -/
def isDigitToBase (base : Nat) (c : Char) : Bool :=
  match hexValue? c with
  | some n => n < base
  | none => false

/-- The integer that a text after its sign is. -/
def unsignedInteger? (negative : Bool) (t : Text) : Option Toml := do
  let digits ← decimalDigits? t
  let n := digitsValue digits
  if n ≤ integerLimit negative then some (.integer (if negative then -n else n)) else none

/-- The integer to a base that digits are. -/
def integerToBase? (base : Nat) (t : Text) : Option Toml := do
  let digits ← plainDigits? (isDigitToBase base) t
  let n := digitsToBase base digits
  if n ≤ integerLimit false then some (.integer n) else none

/-- The digits of an exponent with its letter and sign, if they are one. -/
def plainExponent? : Text → Option Text
  | [] => some []
  | e :: t =>
    if e = 'e' ∨ e = 'E' then
      match t with
      | '-' :: digits => (plainDigits? Char.isDigit digits).map fun d => e :: '-' :: d
      | '+' :: digits => (plainDigits? Char.isDigit digits).map fun d => e :: d
      | digits => (plainDigits? Char.isDigit digits).map (e :: ·)
    else none

/-- Does the character begin an exponent? -/
def isExponentLetter (c : Char) : Bool := c == 'e' || c == 'E'

/-- The floating-point number that a text after its sign is. What is too large is refused, unless
it is negative. -/
def unsignedFloat? (negative : Bool) (t : Text) : Option Toml :=
  if t = "inf".toList then some (.float (.infinity negative))
  else if t = "nan".toList then some (.float .nan)
  else do
    let whole ← decimalDigits? (t.takeWhile fun c => c != '.' && !isExponentLetter c)
    let rest := t.dropWhile fun c => c != '.' && !isExponentLetter c
    let (fraction, rest) ← match rest with
      | '.' :: rest =>
        (plainDigits? Char.isDigit (rest.takeWhile fun c => !isExponentLetter c)).map fun f =>
          ('.' :: f, rest.dropWhile fun c => !isExponentLetter c)
      | rest => some ([], rest)
    let exponent ← plainExponent? rest
    if fraction.isEmpty && exponent.isEmpty then none
    else
      let x ← Binary64.readUnsigned? negative (whole ++ fraction ++ exponent)
      if x.isInfinite && !negative then none else some (.float x)

/-- The number that a text after its sign is. -/
def unsignedNumber? (negative : Bool) (t : Text) : Option Toml :=
  match unsignedInteger? negative t with
  | some value => some value
  | none => unsignedFloat? negative t

/-- The value that a word is: a truth value, a number, or a date-time. -/
def ofWord? (word : Text) : Option Toml :=
  match word with
  | '0' :: 'x' :: digits => integerToBase? 16 digits
  | '0' :: 'o' :: digits => integerToBase? 8 digits
  | '0' :: 'b' :: digits => integerToBase? 2 digits
  | '+' :: rest => unsignedNumber? false rest
  | '-' :: rest => unsignedNumber? true rest
  | word =>
    if word = "true".toList then some (.bool true)
    else if word = "false".toList then some (.bool false)
    else match readMoment? word with
      | some written => some (.moment written)
      | none => unsignedNumber? false word

/-- May the character stand in a word? -/
def isWordChar (c : Char) : Bool :=
  isBareKeyChar c || c == '+' || c == '.' || c == ':'

/-- Reads a word. A time may follow a date after a space. -/
def readWord? (t : Text) : Option (Toml × Text) :=
  let word := t.takeWhile isWordChar
  let rest := t.dropWhile isWordChar
  let alone := (ofWord? word).map fun value => (value, rest)
  match readDate? word, rest with
  | some (_, []), ' ' :: more =>
    let time := more.takeWhile isWordChar
    -- the space may also end the line or come before a comment
    if time.isEmpty then alone
    else (readMoment? (word ++ ' ' :: time)).map fun written =>
      (.moment written, more.dropWhile isWordChar)
  | _, _ => alone

end Toml

end Stencil
