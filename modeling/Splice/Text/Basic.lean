/-!
# Texts

A text is a list of characters. Offsets and lengths count the bytes of the
UTF-8 encoding, so a position inside a text is a number of bytes, and cutting
a text at a position fails where the position falls inside a character.
-/

namespace Splice

/-- A text is a list of characters. -/
abbrev Text := List Char

namespace Text

/-- The number of bytes of the UTF-8 encoding of a text. -/
def byteLength (text : Text) : Nat :=
  text.foldr (fun char count => char.utf8Size + count) 0

@[simp]
theorem byteLength_nil : byteLength [] = 0 := rfl

@[simp]
theorem byteLength_cons (char : Char) (rest : Text) :
    byteLength (char :: rest) = char.utf8Size + byteLength rest := rfl

@[simp]
theorem byteLength_append (front back : Text) :
    byteLength (front ++ back) = byteLength front + byteLength back := by
  induction front with
  | nil => simp
  | cons char rest ih => simp [ih, Nat.add_assoc]

/-- Splits a text after exactly `count` bytes. There is no result when the text
is shorter than that or when the cut falls inside a character. -/
def splitBytes? : Nat → Text → Option (Text × Text)
  | 0, text => some ([], text)
  | _ + 1, [] => none
  | count + 1, char :: rest =>
      if char.utf8Size ≤ count + 1 then
        (splitBytes? (count + 1 - char.utf8Size) rest).map fun (front, back) =>
          (char :: front, back)
      else none

/-- The part of a text from byte `start` up to byte `stop`. There is no result
when the range is reversed, leaves the text, or cuts a character. -/
def sliceBytes? (start stop : Nat) (text : Text) : Option Text :=
  if start ≤ stop then do
    let (_, back) ← splitBytes? start text
    let (middle, _) ← splitBytes? (stop - start) back
    return middle
  else none

/-- Texts joined by single spaces. -/
def unwords (parts : List Text) : Text :=
  [' '].intercalate parts

/-- Texts joined by line breaks, with none after the last. -/
def unlines (parts : List Text) : Text :=
  ['\n'].intercalate parts

/-- The decimal digits of a number. -/
def ofNat (number : Nat) : Text :=
  Nat.toDigits 10 number

/-- A text between backquotes. -/
def backquoted (text : Text) : Text :=
  "`".toList ++ text ++ "`".toList

/-- Splits a text at every occurrence of a separating character. The empty text
has the one part `[]`. -/
def cutAt (separator : Char) : Text → List Text
  | [] => [[]]
  | char :: rest =>
      match cutAt separator rest with
      | [] => [[char]]
      | part :: parts =>
          if char = separator then [] :: part :: parts else (char :: part) :: parts

end Text

end Splice
