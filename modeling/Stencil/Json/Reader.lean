import Stencil.Json
import Stencil.Number.Reading

/-!
# Reading JSON

`Json.read?` reads a text that holds one value, in two steps: the text is cut into words, and the
words are put together with a stack of the arrays and objects that are still open. A key that is
repeated keeps its first place and takes the last value. Numbers that no floating-point number is
near to are refused, and so is nesting deeper than a limit.

A number with a fraction or an exponent is read as the reading of its leading digits, as far as 64
bits hold them, multiplied or divided by a power of ten.
-/

set_option autoImplicit false

namespace Stencil

/-! ## Numbers -/

/-- The digits of a number read into 64 bits, and the power of ten they are to be multiplied by. -/
structure Mantissa where
  significand : Nat
  exponent : Int

/-- The largest number that 64 bits hold. -/
def maxWord : Nat := 18446744073709551615

/-- Reads digits before the point. Digits that 64 bits have no room for are dropped and counted in
the exponent, all from the first one on. -/
def readWhole (digits : Text) : Mantissa :=
  digits.foldl (fun m c =>
    if m.exponent = 0 ∧ m.significand * 10 + digitValue c ≤ maxWord then
      ⟨m.significand * 10 + digitValue c, 0⟩
    else ⟨m.significand, m.exponent + 1⟩) ⟨0, 0⟩

/-- Reads digits after the point, up to the first that 64 bits have no room for. -/
def readFraction (m : Mantissa) : Text → Mantissa
  | [] => m
  | c :: rest =>
    if m.significand * 10 + digitValue c ≤ maxWord then
      readFraction ⟨m.significand * 10 + digitValue c, m.exponent - 1⟩ rest
    else m

/-- The power of ten as a floating-point number. -/
def powerOfTen (e : Nat) : Binary64 := Binary64.ofNat (tenTo e)

/-- A significand divided by a power of ten, by the largest power of ten again and again while the
exponent is out of range. -/
def divideByPower : Nat → Binary64 → Nat → Binary64
  | 0, x, _ => x
  | steps + 1, x, e =>
    if e ≤ 308 then x.div (powerOfTen e)
    else if x.isZero then x
    else divideByPower steps (x.div (powerOfTen 308)) (e - 308)

/-- A significand times a power of ten, if that is not infinite. -/
def Mantissa.toBinary64? (m : Mantissa) : Option Binary64 :=
  let x := Binary64.ofNat m.significand
  if 0 ≤ m.exponent then
    if m.exponent ≤ 308 then
      let product := x.mul (powerOfTen m.exponent.natAbs)
      if product.isInfinite then none else some product
    else if x.isZero then some x else none
  else some (divideByPower (m.exponent.natAbs / 308 + 1) x m.exponent.natAbs)

/-- The largest exponent that is computed with. -/
def maxExponent : Nat := 2147483647

/-- A number with a fraction or an exponent part, if one is near to it. -/
def floatOf? (negative : Bool) (m : Mantissa) (exponentNegative : Bool) (exponent : Nat) :
    Option Binary64 :=
  let magnitude : Option Binary64 :=
    -- an exponent that is too large to compute with still leaves zero as it is
    if maxExponent < exponent then
      if m.significand ≠ 0 ∧ exponentNegative = false then none else some (Binary64.zero false)
    else
      Mantissa.toBinary64?
        ⟨m.significand, if exponentNegative then m.exponent - exponent else m.exponent + exponent⟩
  magnitude.map fun x => if negative then x.neg else x

/-- A number without a fraction and an exponent part. Negative zero, and integers beyond 64 bits,
are floating-point numbers. -/
def integerOf? (negative : Bool) (digits : Text) : Option JsonNumber :=
  let m := readWhole digits
  if m.exponent ≠ 0 then (floatOf? negative m false 0).map .float
  else if !negative then some (.integer m.significand)
  else if m.significand = 0 ∨ 9223372036854775808 < m.significand then
    some (.float (Binary64.ofNat m.significand).neg)
  else some (.integer (-m.significand))

/-- The digits that a text begins with, and the rest. -/
def cutDigits (t : Text) : Text × Text := (t.takeWhile Char.isDigit, t.dropWhile Char.isDigit)

/-- Reads an exponent part after its letter: its sign, its digits and the rest. -/
def readExponent? (t : Text) : Option (Bool × Nat × Text) :=
  let (negative, t) := match t with
    | '-' :: rest => (true, rest)
    | '+' :: rest => (false, rest)
    | t => (false, t)
  match cutDigits t with
  | ([], _) => none
  | (digits, rest) => some (negative, digitsValue digits, rest)

/-- Reads what follows the whole part of a number. -/
def readNumberTail? (negative : Bool) (whole rest : Text) : Option (JsonNumber × Text) :=
  let withExponent (m : Mantissa) (rest : Text) : Option (JsonNumber × Text) := do
    let (exponentNegative, exponent, rest) ← readExponent? rest
    let x ← floatOf? negative m exponentNegative exponent
    return (.float x, rest)
  match rest with
  | '.' :: rest =>
    match cutDigits rest with
    | ([], _) => none
    | (fraction, rest) =>
      let m := readFraction (readWhole whole) fraction
      match rest with
      | 'e' :: rest => withExponent m rest
      | 'E' :: rest => withExponent m rest
      | rest => (floatOf? negative m false 0).map fun x => (.float x, rest)
  | 'e' :: rest => withExponent (readWhole whole) rest
  | 'E' :: rest => withExponent (readWhole whole) rest
  | rest => (integerOf? negative whole).map fun n => (n, rest)

/-- Reads a number. A whole part of several digits does not begin with zero. -/
def readNumber? (t : Text) : Option (JsonNumber × Text) :=
  let (negative, t) := match t with
    | '-' :: rest => (true, rest)
    | t => (false, t)
  match cutDigits t with
  | ([], _) => none
  | ('0' :: _ :: _, _) => none
  | (whole, rest) => readNumberTail? negative whole rest

/-! ## Strings -/

/-- The value of a digit to base sixteen. -/
def hexValue? (c : Char) : Option Nat :=
  if '0' ≤ c ∧ c ≤ '9' then some (c.toNat - 48)
  else if 'a' ≤ c ∧ c ≤ 'f' then some (c.toNat - 87)
  else if 'A' ≤ c ∧ c ≤ 'F' then some (c.toNat - 55)
  else none

/-- The value of digits to base sixteen. -/
def hexOf? (digits : Text) : Option Nat :=
  digits.foldl (fun n c => do return (← n) * 16 + (← hexValue? c)) (some 0)

/-- The character of a code point, if there is one. -/
def charOf? (n : Nat) : Option Char := if n.isValidChar then some (Char.ofNat n) else none

/-- The character that follows a backslash, if it stands for one character. -/
def shortEscape? : Char → Option Char
  | '"' => some '"'
  | '\\' => some '\\'
  | '/' => some '/'
  | 'b' => some '\x08'
  | 'f' => some '\x0c'
  | 'n' => some '\n'
  | 'r' => some '\r'
  | 't' => some '\t'
  | _ => none

/-- Reads a string after its opening quote: its content, and what follows the closing quote. Code
points above U+FFFF are escaped as pairs of surrogates, and no surrogate stands alone. -/
def readString? : Text → Option (Text × Text)
  | [] => none
  | '"' :: rest => some ([], rest)
  | '\\' :: 'u' :: a :: b :: c :: d :: rest =>
    match hexOf? [a, b, c, d] with
    | none => none
    | some high =>
      -- the first half of a pair needs the second right after it
      if 0xD800 ≤ high ∧ high < 0xDC00 then
        match rest with
        | '\\' :: 'u' :: e :: f :: g :: h :: rest =>
          match hexOf? [e, f, g, h] with
          | none => none
          | some low =>
            if 0xDC00 ≤ low ∧ low < 0xE000 then
              (readString? rest).map fun r =>
                (Char.ofNat (0x10000 + (high - 0xD800) * 0x400 + (low - 0xDC00)) :: r.1, r.2)
            else none
        | _ => none
      else
        match charOf? high with
        | none => none
        | some char => (readString? rest).map fun r => (char :: r.1, r.2)
  | '\\' :: c :: rest =>
    match shortEscape? c with
    | none => none
    | some char => (readString? rest).map fun r => (char :: r.1, r.2)
  | c :: rest =>
    if c.toNat < 0x20 ∨ c = '\\' then none
    else (readString? rest).map fun r => (c :: r.1, r.2)

/-! ## Words -/

/-- A word of a JSON text. -/
inductive JsonWord where
  | openArray
  | closeArray
  | openObject
  | closeObject
  | comma
  | colon
  /-- A value that is neither an array nor an object. -/
  | scalar (value : Json)

/-- The characters that separate words. -/
def isJsonSpace (c : Char) : Bool := c == ' ' || c == '\n' || c == '\t' || c == '\r'

/-- The rest of a text after a text it begins with. -/
def after? (start : Text) (t : Text) : Option Text :=
  match start, t with
  | [], t => some t
  | a :: start, b :: t => if a = b then after? start t else none
  | _ :: _, [] => none

/-- Reads the word at a character, with `rest` after that character. -/
def readWord? (c : Char) (rest : Text) : Option (JsonWord × Text) :=
  match c with
  | '[' => some (.openArray, rest)
  | ']' => some (.closeArray, rest)
  | '{' => some (.openObject, rest)
  | '}' => some (.closeObject, rest)
  | ',' => some (.comma, rest)
  | ':' => some (.colon, rest)
  | '"' => (readString? rest).map fun r => (.scalar (.text r.1), r.2)
  | 'n' => (after? "ull".toList rest).map fun r => (.scalar .null, r)
  | 't' => (after? "rue".toList rest).map fun r => (.scalar (.bool true), r)
  | 'f' => (after? "alse".toList rest).map fun r => (.scalar (.bool false), r)
  | c => (readNumber? (c :: rest)).map fun r => (.scalar (.number r.1), r.2)

/-- The words of a text. A step is taken for each character at most. -/
def readWords? : Nat → Text → Option (List JsonWord)
  | _, [] => some []
  | 0, _ :: _ => none
  | steps + 1, c :: rest =>
    if isJsonSpace c then readWords? steps rest
    else do
      let (word, rest) ← readWord? c rest
      return word :: (← readWords? steps rest)

/-! ## Values -/

/-- An array or object that is still open. -/
inductive OpenJson where
  /-- The items so far, the last one first. -/
  | array (items : List Json)
  /-- The entries so far. -/
  | object (entries : Entries Json)
  /-- The entries so far, and the key whose value comes next. -/
  | entry (entries : Entries Json) (key : Text)

/-- What may come next. -/
inductive JsonPlace where
  | value
  /-- A value, or the end of an array just opened. -/
  | valueOrClose
  | key
  /-- A key, or the end of an object just opened. -/
  | keyOrClose
  | colon
  /-- A comma, or the end of the innermost array or object. -/
  | commaOrClose
  /-- Nothing: the value is complete. -/
  | nothing (value : Json)

/-- The state of a reading: what may come next, and what is open, the innermost first. -/
structure JsonState where
  place : JsonPlace
  stack : List OpenJson

namespace JsonState

/-- The state after a complete value. -/
def complete (value : Json) : List OpenJson → Option JsonState
  | [] => some ⟨.nothing value, []⟩
  | .array items :: stack => some ⟨.commaOrClose, .array (value :: items) :: stack⟩
  -- a repeated key keeps its first place
  | .entry entries key :: stack =>
    some ⟨.commaOrClose, .object (insertEntry key value entries) :: stack⟩
  | .object _ :: _ => none

/-- The state after an array or object is opened, unless that nests too deep. -/
def opened (depth : Nat) (place : JsonPlace) (container : OpenJson) (stack : List OpenJson) :
    Option JsonState :=
  if stack.length < depth then some ⟨place, container :: stack⟩ else none

/-- The state after a value begins with a word. -/
def begin (depth : Nat) (stack : List OpenJson) : JsonWord → Option JsonState
  | .scalar value => complete value stack
  | .openArray => opened depth .valueOrClose (.array []) stack
  | .openObject => opened depth .keyOrClose (.object []) stack
  | _ => none

/-- The state after the innermost array or object is closed. -/
def close (word : JsonWord) : List OpenJson → Option JsonState
  | .array items :: stack =>
    match word with
    | .closeArray => complete (.array items.reverse) stack
    | _ => none
  | .object entries :: stack =>
    match word with
    | .closeObject => complete (.object entries) stack
    | _ => none
  | _ => none

/-- The state after one more word. -/
def next (depth : Nat) (state : JsonState) (word : JsonWord) : Option JsonState :=
  match state.place, word, state.stack with
  | .value, word, stack => begin depth stack word
  | .valueOrClose, .closeArray, stack => close .closeArray stack
  | .valueOrClose, word, stack => begin depth stack word
  | .keyOrClose, .closeObject, stack => close .closeObject stack
  | .keyOrClose, .scalar (.text key), .object entries :: stack =>
    some ⟨.colon, .entry entries key :: stack⟩
  | .key, .scalar (.text key), .object entries :: stack =>
    some ⟨.colon, .entry entries key :: stack⟩
  | .colon, .colon, stack => some ⟨.value, stack⟩
  | .commaOrClose, .comma, .array items :: stack => some ⟨.value, .array items :: stack⟩
  | .commaOrClose, .comma, .object entries :: stack => some ⟨.key, .object entries :: stack⟩
  | .commaOrClose, word, stack => close word stack
  | _, _, _ => none

end JsonState

/-- The value that a text holds, if it holds one with at most `depth` arrays and objects inside
one another. -/
def Json.read? (depth : Nat) (t : Text) : Option Json := do
  let words ← readWords? t.length t
  let state ← words.foldlM (JsonState.next depth) ⟨.value, []⟩
  match state.place with
  | .nothing value => some value
  | _ => none

end Stencil
