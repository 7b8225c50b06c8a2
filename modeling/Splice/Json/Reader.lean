import Splice.Json.Value

/-!
# Reading JSON

The grammar of JSON, without extensions. Every reader takes a value off the front
of a text and gives the rest. A value is shorter than its text, so the length of
the text bounds the depth and the number of the values in it.
-/

namespace Splice.Json

/-- The characters that may stand between the parts of a value. -/
def isBlank (char : Char) : Bool :=
  char == ' ' || char == '\t' || char == '\n' || char == '\r'

/-- A text without the blanks at its front. -/
def skipBlanks (text : Text) : Text :=
  text.dropWhile isBlank

/-! ## Strings -/

/-- The value of a hexadecimal digit. -/
def hexValue? (char : Char) : Option Nat :=
  if '0' ≤ char ∧ char ≤ '9' then some (char.toNat - '0'.toNat)
  else if 'a' ≤ char ∧ char ≤ 'f' then some (char.toNat - 'a'.toNat + 10)
  else if 'A' ≤ char ∧ char ≤ 'F' then some (char.toNat - 'A'.toNat + 10)
  else none

/-- The number with four hexadecimal digits. -/
def hexNumber? (a b c d : Char) : Option Nat := do
  return ((← hexValue? a) * 16 + (← hexValue? b)) * 256 + (← hexValue? c) * 16 + (← hexValue? d)

/-- The code of the character that a single letter stands for after a backslash. -/
def letterCode? (char : Char) : Option Nat :=
  match char with
  | '"' => some '"'.toNat
  | '\\' => some '\\'.toNat
  | '/' => some '/'.toNat
  | 'b' => some 8
  | 'f' => some 12
  | 'n' => some 10
  | 'r' => some 13
  | 't' => some 9
  | _ => none

/-- Reads a string after its opening quote: the codes in it, where half of a
surrogate pair is a code of its own. -/
def readCodes : Text → Option (List Nat × Text)
  | [] => none
  | '"' :: rest => some ([], rest)
  | '\\' :: 'u' :: a :: b :: c :: d :: rest => do
      let code ← hexNumber? a b c d
      let (codes, rest) ← readCodes rest
      return (code :: codes, rest)
  | '\\' :: char :: rest => do
      let code ← letterCode? char
      let (codes, rest) ← readCodes rest
      return (code :: codes, rest)
  | char :: rest =>
      if char.toNat < 32 then none
      else (readCodes rest).map fun (codes, rest) => (char.toNat :: codes, rest)

/-- Whether a code is the first half of a surrogate pair. -/
def isHighHalf (code : Nat) : Bool :=
  0xD800 ≤ code && code < 0xDC00

/-- Whether a code is the second half of a surrogate pair. -/
def isLowHalf (code : Nat) : Bool :=
  0xDC00 ≤ code && code < 0xE000

/-- The text of codes, if the halves of surrogate pairs stand together. -/
def joinCodes : List Nat → Option Text
  | [] => some []
  | high :: low :: rest =>
      if isHighHalf high && isLowHalf low then
        (joinCodes rest).map (Char.ofNat (0x10000 + (high - 0xD800) * 0x400 + (low - 0xDC00)) :: ·)
      else if isHighHalf high || isLowHalf high then none
      else (joinCodes (low :: rest)).map (Char.ofNat high :: ·)
  | [code] => if isHighHalf code || isLowHalf code then none else some [Char.ofNat code]

/-- Reads a string after its opening quote. -/
def readString (text : Text) : Option (Option Text × Text) :=
  (readCodes text).map fun (codes, rest) => (joinCodes codes, rest)

/-! ## Numbers -/

/-- Reads one or more digits. -/
def readDigits (text : Text) : Option (Text × Text) :=
  match text.takeWhile Char.isDigit with
  | [] => none
  | digits => some (digits, text.dropWhile Char.isDigit)

/-- Reads the digits before the point: a zero, or digits that start with another. -/
def readWhole : Text → Option (Text × Text)
  | '0' :: rest => some (['0'], rest)
  | text => readDigits text

/-- Reads the point and the digits after it, if there are any. -/
def readFraction : Text → Option (Text × Text)
  | '.' :: rest => (readDigits rest).map fun (digits, rest) => ('.' :: digits, rest)
  | text => some ([], text)

/-- Takes the sign off the front of an exponent. -/
def splitSign : Text → Text × Text
  | '+' :: rest => (['+'], rest)
  | '-' :: rest => (['-'], rest)
  | text => ([], text)

/-- Reads an exponent, if there is one. -/
def readExponent : Text → Option (Text × Text)
  | [] => some ([], [])
  | char :: rest =>
      if char = 'e' ∨ char = 'E' then do
        let (sign, rest) := splitSign rest
        let (digits, rest) ← readDigits rest
        return (char :: sign ++ digits, rest)
      else some ([], char :: rest)

/-- Reads a number without its sign. -/
def readMagnitude (text : Text) : Option (Text × Text) := do
  let (whole, rest) ← readWhole text
  let (fraction, rest) ← readFraction rest
  let (exponent, rest) ← readExponent rest
  return (whole ++ fraction ++ exponent, rest)

/-- Reads a number. -/
def readNumber : Text → Option (Text × Text)
  | '-' :: rest => (readMagnitude rest).map fun (literal, rest) => ('-' :: literal, rest)
  | text => readMagnitude text

/-! ## Values -/

/-- Takes a fixed word off the front of a text. -/
def dropWord? (word text : Text) : Option Text :=
  if word.isPrefixOf text then some (text.drop word.length) else none

mutual

/-- Reads a value. -/
def readValue : Nat → Text → Option (Json × Text)
  | 0, _ => none
  | fuel + 1, text =>
      match skipBlanks text with
      | [] => none
      | '[' :: rest =>
          match skipBlanks rest with
          | ']' :: rest => some (array [], rest)
          | rest => (readItems fuel rest).map fun (items, rest) => (array items, rest)
      | '\x7b' :: rest =>
          match skipBlanks rest with
          | '\x7d' :: rest => some (object [], rest)
          | rest => (readMembers fuel rest).map fun (members, rest) => (object members, rest)
      | '"' :: rest => (readString rest).map fun (text, rest) => (string text, rest)
      | 'n' :: rest => (dropWord? "ull".toList rest).map fun rest => (null, rest)
      | 't' :: rest => (dropWord? "rue".toList rest).map fun rest => (bool true, rest)
      | 'f' :: rest => (dropWord? "alse".toList rest).map fun rest => (bool false, rest)
      | rest => (readNumber rest).map fun (literal, rest) => (number literal, rest)

/-- Reads one or more items and the end of their array. -/
def readItems : Nat → Text → Option (List Json × Text)
  | 0, _ => none
  | fuel + 1, text => do
      let (item, rest) ← readValue fuel text
      match skipBlanks rest with
      | ',' :: rest =>
          let (items, rest) ← readItems fuel rest
          return (item :: items, rest)
      | ']' :: rest => return ([item], rest)
      | _ => none

/-- Reads one or more members and the end of their object. -/
def readMembers : Nat → Text → Option (List (Option Text × Json) × Text)
  | 0, _ => none
  | fuel + 1, text =>
      match skipBlanks text with
      | '"' :: rest => do
          let (key, rest) ← readString rest
          match skipBlanks rest with
          | ':' :: rest =>
              let (value, rest) ← readValue fuel rest
              match skipBlanks rest with
              | ',' :: rest =>
                  let (members, rest) ← readMembers fuel rest
                  return ((key, value) :: members, rest)
              | '\x7d' :: rest => return ([(key, value)], rest)
              | _ => none
          | _ => none
      | _ => none

end

/-- Reads a whole text as one value. -/
def parse? (text : Text) : Option Json := do
  let (value, rest) ← readValue (text.length + 1) text
  if (skipBlanks rest).isEmpty then return value else none

end Splice.Json
