import Splice.Text.Basic

/-!
# Texts from bytes

Bytes that come from outside are read as UTF-8. A stream of bytes is cut into lines
at line breaks before its characters are known.
-/

namespace Splice.Text

/-- The text that bytes encode. -/
def ofUtf8? (bytes : List UInt8) : Option Text :=
  (String.fromUTF8? ⟨bytes.toArray⟩).map String.toList

/-- The byte of a line break. -/
def lineBreak : UInt8 := 10

/-- The lines of a stream without their line breaks. What follows the last line break
is a line if there is anything. -/
def byteLines : List UInt8 → List (List UInt8)
  | [] => []
  | byte :: rest =>
      if byte = lineBreak then [] :: byteLines rest
      else
        match byteLines rest with
        | [] => [[byte]]
        | line :: lines => (byte :: line) :: lines

/-- A text without the carriage returns and line breaks at its end. -/
def trimmedLine (line : Text) : Text :=
  (line.reverse.dropWhile fun char => char == '\n' || char == '\r').reverse

end Splice.Text
