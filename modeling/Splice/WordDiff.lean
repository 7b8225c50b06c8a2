import Splice.Text.Basic

/-!
# Differences between texts

Two texts are compared word by word, where words are what stands between single
spaces. A table scores how much the beginnings of the two texts have in common; a
walk back through the table picks common words; and the two texts are then read
side by side, with the common words as landmarks, into runs of words that stayed,
went away or came in.
-/

namespace Splice

/-- A run of words and what became of it. -/
inductive Change where
  /-- It is in both texts. -/
  | same (words : Text)
  /-- It is in the earlier text only. -/
  | removed (words : Text)
  /-- It is in the later text only. -/
  | added (words : Text)
  deriving DecidableEq

namespace WordDiff

/-! ## Common words -/

/-- Adds the row of scores of a word of the earlier text against the words of the
later one to a table whose rows have the given width. The score on the diagonal and
the one to the left are carried along. -/
def scoreRow (width : Nat) (word : String) (table : Array Nat) :
    Nat → Nat → List String → Array Nat
  | _, _, [] => table
  | diagonal, left, other :: rest =>
      let above := table.getD (table.size - width) 0
      let score := if word = other then diagonal + 1 else max left above
      scoreRow width word (table.push score) above score rest

/-- The table of scores: a row of zeros and then a row for every word of the earlier
text, each with a score for every word of the later one. -/
def scores (earlier later : List String) : Array Nat :=
  earlier.foldl (fun table word => scoreRow later.length word table 0 0 later)
    (Array.replicate later.length 0)

/-- Walks back from the first `rows` words of the earlier text and the first
`columns` words of the later one, and puts the words that agree in front of those
found so far. At a disagreement the walk goes to the left when the score before
the present one, in the order of the table, is above the score over it. -/
def walk (table : Array Nat) (earlier later : Array Text) (rows columns : Nat)
    (found : List Text) : List Text :=
  match rows, columns with
  | 0, _ => found
  | _, 0 => found
  | row + 1, column + 1 =>
      let word := earlier.getD row []
      if word = later.getD column [] then walk table earlier later row column (word :: found)
      else
        let place := (row + 1) * later.size + column
        if row = 0 ∧ column = 0 then found
        else if row = 0 ∨ table.getD (place - later.size) 0 < table.getD (place - 1) 0 then
          walk table earlier later (row + 1) column found
        else walk table earlier later row (column + 1) found
termination_by rows + columns

/-- The words that two lists of words are taken to have in common. -/
def common (earlier later : List Text) : List Text :=
  walk (scores (earlier.map String.ofList) (later.map String.ofList)) earlier.toArray later.toArray
    earlier.length later.length []

/-! ## Changes -/

/-- The words of a text; the empty text has none. -/
def wordsOf (text : Text) : List Text :=
  if text.isEmpty then [] else text.cutAt ' '

/-- Takes words off three lists while their first words agree. -/
def takeSame : List Text → List Text → List Text →
    List Text × List Text × List Text × List Text
  | old :: earlier, mark :: marks, new :: later =>
      if old = mark ∧ mark = new then
        let (same, earlier, marks, later) := takeSame earlier marks later
        (old :: same, earlier, marks, later)
      else ([], old :: earlier, mark :: marks, new :: later)
  | earlier, marks, later => ([], earlier, marks, later)

/-- Takes words off a list up to the next landmark. -/
def takeUntil (mark : Option Text) (words : List Text) : List Text × List Text :=
  words.span fun word => some word ≠ mark

/-- A run of words, unless it is empty. -/
def runOf (kind : Text → Change) (words : List Text) : List Change :=
  if words.isEmpty then [] else [kind (Text.unwords words)]

/-- Reads two lists of words side by side, at most `fuel` times. -/
def merge : Nat → List Text → List Text → List Text → List Change
  | 0, _, _, _ => []
  | _ + 1, [], _, [] => []
  | fuel + 1, earlier, marks, later =>
      let (same, earlier, marks, later) := takeSame earlier marks later
      let (removed, earlier) := takeUntil marks.head? earlier
      let (added, later) := takeUntil marks.head? later
      runOf .same same ++ runOf .removed removed ++ runOf .added added ++
        merge fuel earlier marks later

end WordDiff

/-- What became of the words of a text. -/
def Text.changes (earlier later : Text) : List Change :=
  let marks := Text.unwords (WordDiff.common (earlier.cutAt ' ') (later.cutAt ' '))
  let old := WordDiff.wordsOf earlier
  let new := WordDiff.wordsOf later
  WordDiff.merge (old.length + new.length) old (WordDiff.wordsOf marks) new

end Splice
