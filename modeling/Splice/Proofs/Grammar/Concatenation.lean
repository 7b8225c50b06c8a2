import Splice.Proofs.Grammar.Extension
import Splice.Proofs.Span
import Splice.Proofs.Text.Region

/-!
# Programs on lines of their own

The words of two programs with a line break between them are the words of the first and, moved on
by its length and one byte, those of the second, as long as no block comment is left open. A reader
looks only at the texts of words, and a form never looks at what stands before it. So where the
first program can be read, the second is read behind it as it is read alone: its terms come after
those of the first, and its error is moved on like its words.
-/

namespace Splice

/-! ## Words -/

/-- A range of bytes that is moved on by `offset` bytes. -/
def Span.moved (offset : Nat) (span : Span) : Span :=
  ⟨offset + span.start, offset + span.stop⟩

namespace Lexeme

/-- A word that is moved on by `offset` bytes. -/
def moved (offset : Nat) (lexeme : Lexeme) : Lexeme :=
  { lexeme with span := lexeme.span.moved offset }

theorem ofPending_moved (offset start : Nat) (pending : Text) :
    ofPending (offset + start) pending = (ofPending start pending).map (moved offset) := by
  unfold ofPending
  split
  · rfl
  · simp only [List.map_singleton, moved, Span.moved, Nat.add_assoc]

theorem scanFrom_moved (offset start : Nat) (pending source : Text) :
    scanFrom (offset + start) pending source =
      (scanFrom start pending source).map (moved offset) := by
  induction source generalizing start pending with
  | nil => exact ofPending_moved offset start pending
  | cons char rest ih =>
      rw [scanFrom, scanFrom]
      split
      · rw [List.map_append, ← ih, ofPending_moved]
        simp only [Nat.add_assoc]
      · exact ih start (char :: pending)

/-- The words of two texts on lines of their own are the words of the one and those of the other. -/
theorem scan_append_newline {front : Text} (closed : front.BlocksClosed) (back : Text) :
    scan (front ++ '\n' :: back) =
      scan front ++ (scan back).map (moved (front.byteLength + 1)) := by
  have place : 0 + Text.byteLength [] + front.withoutComments.byteLength + '\n'.utf8Size =
      front.byteLength + 1 + 0 := by
    rw [Text.byteLength_withoutComments, Text.byteLength_nil, Nat.zero_add]
    rfl
  rw [scan, Text.withoutComments_append_newline closed, scanFrom_separator rfl, place,
    scanFrom_moved]
  rfl

end Lexeme

/-! ## Faults -/

namespace ParseFault

/-- A fault whose words are moved on by `offset` bytes. -/
def moved (offset : Nat) : ParseFault → ParseFault
  | unexpected expected found => unexpected expected (found.moved offset)
  | missing expected => missing expected
  | illegalMacroName name => illegalMacroName (name.moved offset)
  | illegalParameter name => illegalParameter (name.moved offset)
  | emptyCallee opener => emptyCallee (opener.moved offset)
  | trailing first others =>
      trailing (first.moved offset) (others.map (Lexeme.moved offset))
  | tooDeep opener => tooDeep (opener.moved offset)

theorem message_moved (offset : Nat) (fault : ParseFault) :
    (fault.moved offset).message = fault.message := by
  cases fault with
  | trailing first others =>
      have texts : ((first :: others).map (Lexeme.moved offset)).map Lexeme.text =
          (first :: others).map Lexeme.text := by
        rw [List.map_map]
        rfl
      exact congrArg (fun texts => List.append _ (Text.unwords texts)) texts
  | _ => rfl

theorem code_moved (offset : Nat) (fault : ParseFault) :
    (fault.moved offset).code = fault.code := by
  cases fault <;> rfl

theorem help?_moved (offset : Nat) (fault : ParseFault) :
    (fault.moved offset).help? = fault.help? := by
  cases fault <;> rfl

theorem label_moved (offset : Nat) (fault : ParseFault) :
    (fault.moved offset).label = fault.label := by
  cases fault <;> rfl

/-- In a program that is longer by as many bytes, a fault that is moved on points as far further. -/
theorem span_moved (offset length : Nat) (fault : ParseFault) :
    (fault.moved offset).span (offset + length) = (fault.span length).moved offset := by
  cases fault with
  | trailing first others =>
      have last : ((first :: others).map (Lexeme.moved offset)).getLast (by simp) =
          ((first :: others).getLast (by simp)).moved offset := List.getLast_map _
      simp only [List.map_cons] at last
      simp only [moved, span, last]
      rfl
  | _ => rfl

end ParseFault

/-! ## Cursors -/

/-- A frame whose word is moved on by `offset` bytes. -/
def Frame.moved (offset : Nat) : Frame → Frame
  | .definition name => .definition name
  | .function param => .function param
  | .callee opener => .callee (opener.moved offset)
  | .arguments opener terms => .arguments (opener.moved offset) terms

/-- A focus whose words are moved on by `offset` bytes. -/
def Focus.moved (offset : Nat) : Focus → Focus
  | .items => .items
  | .name opener => .name (opener.moved offset)
  | .role opener called => .role (opener.moved offset) (called.moved offset)

namespace Cursor

/-- The terms of a sequence in the forms `outer`, the last one first, behind the terms `before` if
the sequence is in no form. -/
def behind (before : List Term) : List Level → List Term → List Term
  | [], siblings => siblings ++ before.reverse
  | _ :: _, siblings => siblings

/-- Open forms whose words are moved on by `offset` bytes, behind the terms `before`. -/
def movedLevels (offset : Nat) (before : List Term) : List Level → List Level
  | [] => []
  | level :: outer =>
      ⟨level.frame.moved offset, behind before outer level.before⟩ ::
        movedLevels offset before outer

/-- A cursor whose words are moved on by `offset` bytes, behind the terms `before`. -/
def moved (offset : Nat) (before : List Term) (cursor : Cursor) : Cursor :=
  ⟨movedLevels offset before cursor.levels, behind before cursor.levels cursor.siblings,
    cursor.focus.moved offset⟩

/-- An outcome of reading whose words are moved on by `offset` bytes. -/
def shifted (offset : Nat) {Result Other : Type} (move : Result → Other) :
    Except ParseFault Result → Except ParseFault Other
  | .error fault => .error (fault.moved offset)
  | .ok result => .ok (move result)

theorem map_some_eq_shifted {offset : Nat} {Result Other : Type} {move : Result → Other}
    {outcome : Except ParseFault Result} {other : Except ParseFault Other}
    (same : other = shifted offset move outcome) :
    some <$> other = shifted offset (Option.map move) (some <$> outcome) := by
  rw [same]
  cases outcome <;> rfl

section Step

variable (offset : Nat) (before : List Term)

theorem behind_cons (outer : List Level) (term : Term) (siblings : List Term) :
    behind before outer (term :: siblings) = term :: behind before outer siblings := by
  cases outer <;> rfl

theorem length_movedLevels (levels : List Level) :
    (movedLevels offset before levels).length = levels.length := by
  induction levels with
  | nil => rfl
  | cons level outer ih => exact congrArg (· + 1) ih

theorem moved_resolve (cursor : Cursor) (opener name found : Lexeme) :
    (cursor.moved offset before).resolve (opener.moved offset) (name.moved offset)
        (found.moved offset) =
      shifted offset (moved offset before) (cursor.resolve opener name found) := by
  simp only [resolve, Lexeme.moved]
  cases Keyword.ofText? found.text with
  | none => rfl
  | some keyword =>
      cases keyword with
      | naming =>
          dsimp only
          rw [apply_ite (shifted offset (moved offset before))]
          rfl
      | binding =>
          dsimp only
          rw [apply_ite (shifted offset (moved offset before))]
          rfl
      | _ => rfl

theorem moved_closed (frame : Frame) (terms : List Term) (found : Lexeme) :
    closed (frame.moved offset) terms (found.moved offset) =
      shifted offset id (closed frame terms found) := by
  cases frame with
  | arguments opener callee =>
      simp only [Frame.moved, closed]
      cases Sequence.collapse? callee <;> rfl
  | _ => rfl

theorem moved_opened (capacity : Nat) (cursor next : Cursor) (opener : Lexeme) :
    (cursor.moved offset before).opened capacity (opener.moved offset) (next.moved offset before) =
      shifted offset (moved offset before) (cursor.opened capacity opener next) := by
  unfold opened
  rw [apply_ite (shifted offset (moved offset before)), moved, length_movedLevels]
  rfl

theorem moved_close (level : Level) (outer : List Level) (siblings : List Term) (focus : Focus)
    (found : Lexeme) :
    (moved offset before ⟨level :: outer, siblings, focus⟩).close
        ⟨level.frame.moved offset, behind before outer level.before⟩
        (movedLevels offset before outer) (found.moved offset) =
      shifted offset (moved offset before)
        (close ⟨level :: outer, siblings, focus⟩ level outer found) := by
  simp only [close, moved, terms, behind, moved_closed]
  cases closed level.frame siblings.reverse found with
  | error fault => rfl
  | ok term =>
      refine congrArg Except.ok ?_
      simp only [moved, behind_cons]
      rfl

theorem moved_turn (level : Level) (outer : List Level) (siblings : List Term) (focus : Focus)
    (found : Lexeme) :
    (moved offset before ⟨level :: outer, siblings, focus⟩).turn
        ⟨level.frame.moved offset, behind before outer level.before⟩
        (movedLevels offset before outer) (found.moved offset) =
      shifted offset (moved offset before)
        (turn ⟨level :: outer, siblings, focus⟩ level outer found) := by
  obtain ⟨frame, earlier⟩ := level
  cases frame <;> rfl

theorem moved_unfinished? (cursor : Cursor) :
    (cursor.moved offset before).unfinished? = cursor.unfinished? := by
  obtain ⟨levels, siblings, focus⟩ := cursor
  cases focus with
  | items =>
      cases levels with
      | nil => rfl
      | cons level outer =>
          obtain ⟨frame, earlier⟩ := level
          cases frame <;> rfl
  | _ => rfl

/-- One word does to a cursor behind other terms what it does to the cursor alone. -/
theorem moved_advance (extent : Extent) (capacity : Nat) (cursor : Cursor) (lexeme : Lexeme) :
    (cursor.moved offset before).advance extent capacity (lexeme.moved offset) =
      shifted offset (Option.map (moved offset before))
        (cursor.advance extent capacity lexeme) := by
  obtain ⟨levels, siblings, focus⟩ := cursor
  cases focus with
  | name opener => rfl
  | role opener name => exact map_some_eq_shifted (moved_resolve offset before _ opener name lexeme)
  | items =>
      have opens := map_some_eq_shifted (moved_opened offset before capacity
        ⟨levels, siblings, .items⟩ ⟨levels, siblings, .name lexeme⟩ lexeme)
      have calls := map_some_eq_shifted (moved_opened offset before capacity
        ⟨levels, siblings, .items⟩ (enter ⟨levels, siblings, .items⟩ (.callee lexeme)) lexeme)
      unfold advance
      dsimp only [moved, Focus.moved, Lexeme.moved]
      cases levels with
      | nil =>
          cases extent with
          | form => rfl
          | sequence =>
              cases Keyword.ofText? lexeme.text with
              | none => rfl
              | some keyword =>
                  cases keyword with
                  | opening => exact opens
                  | calling => exact calls
                  | _ => rfl
      | cons level outer =>
          cases Keyword.ofText? lexeme.text with
          | none => rfl
          | some keyword =>
              cases keyword with
              | opening => exact opens
              | calling => exact calls
              | closing =>
                  exact map_some_eq_shifted (moved_close offset before level outer _ _ lexeme)
              | applying =>
                  exact map_some_eq_shifted (moved_turn offset before level outer _ _ lexeme)
              | _ => rfl

end Step

/-- Only outside of every form is nothing missing. -/
theorem eq_of_unfinished?_eq_none {cursor : Cursor} (finished : cursor.unfinished? = none) :
    cursor = ⟨[], cursor.siblings, .items⟩ := by
  obtain ⟨levels, siblings, focus⟩ := cursor
  cases focus with
  | name opener => cases finished
  | role opener name => cases finished
  | items =>
      cases levels with
      | nil => rfl
      | cons level outer => cases finished

/-- Only outside of every form is a word no part of what is read. -/
theorem levels_eq_nil_of_advance {extent : Extent} {capacity : Nat} {cursor : Cursor}
    {lexeme : Lexeme} (leaves : cursor.advance extent capacity lexeme = .ok none) :
    cursor.levels = [] := by
  have goesOn (outcome : Except ParseFault Cursor) : some <$> outcome ≠ .ok none := by
    cases outcome <;> nofun
  unfold advance at leaves
  split at leaves
  · cases leaves
  · exact absurd leaves (goesOn _)
  · split at leaves
    · assumption
    · exact absurd leaves (goesOn _)
    · exact absurd leaves (goesOn _)
    · assumption
    · exact absurd leaves (goesOn _)
    · assumption
    · exact absurd leaves (goesOn _)
    · cases leaves

/-- The words that come behind other terms are read as they are read alone. -/
theorem read_moved (offset : Nat) (before : List Term) (extent : Extent) (capacity : Nat)
    (cursor : Cursor) (lexemes : List Lexeme) :
    read extent capacity (cursor.moved offset before) (lexemes.map (Lexeme.moved offset)) =
      shifted offset
        (fun (terms, leftover) => (before ++ terms, leftover.map (Lexeme.moved offset)))
        (read extent capacity cursor lexemes) := by
  have terms_of_outermost {inner : Cursor} (outermost : inner.levels = []) :
      (inner.moved offset before).terms = before ++ inner.terms := by
    simp [moved, terms, outermost, behind]
  induction lexemes generalizing cursor with
  | nil =>
      rw [List.map_nil, read, moved_unfinished?, read]
      cases lacks : cursor.unfinished? with
      | some expected => rfl
      | none =>
          have outermost : cursor.levels = [] := by rw [eq_of_unfinished?_eq_none lacks]
          simp only [shifted, terms_of_outermost outermost, List.map_nil]
  | cons lexeme rest ih =>
      rw [List.map_cons, read, moved_advance, read]
      cases moves : cursor.advance extent capacity lexeme with
      | error fault => rfl
      | ok result =>
          cases result with
          | none =>
              simp only [shifted, Option.map_none,
                terms_of_outermost (levels_eq_nil_of_advance moves), List.map_cons]
          | some next => exact ih next

end Cursor

/-! ## Programs -/

namespace Sequence

/-- Behind words that are read as a program, reading goes on with its terms before it. -/
theorem read_append_of_ofLexemes {front : List Lexeme} {first : List Term}
    (reads : ofLexemes front = .ok first) (more : List Lexeme) :
    read (front ++ more) =
      Cursor.read .sequence nestingLimit ⟨[], first.reverse, .items⟩ more := by
  have alone := List.append_nil front
  rw [← alone] at reads
  unfold ofLexemes read at reads
  unfold read
  cases Cursor.effect .sequence nestingLimit .start front with
  | passes next goesOn =>
      rw [goesOn, Cursor.read] at reads
      cases lacks : next.unfinished? with
      | some expected =>
          rw [lacks] at reads
          cases reads
      | none =>
          rw [lacks] at reads
          cases reads
          rw [goesOn, Cursor.terms, List.reverse_reverse,
            ← Cursor.eq_of_unfinished?_eq_none lacks]
  | faults fault fails =>
      rw [fails] at reads
      cases reads
  | stops terms stop later leaves =>
      rw [leaves] at reads
      cases reads

theorem ofLexemes_append {front : List Lexeme} {first : List Term}
    (reads : ofLexemes front = .ok first) (offset : Nat) (back : List Lexeme) :
    ofLexemes (front ++ back.map (Lexeme.moved offset)) =
      Cursor.shifted offset (first ++ ·) (ofLexemes back) := by
  have start : (⟨[], first.reverse, .items⟩ : Cursor) = Cursor.start.moved offset first := rfl
  rw [ofLexemes, read_append_of_ofLexemes reads, start, Cursor.read_moved, ofLexemes, read]
  cases Cursor.read .sequence nestingLimit .start back with
  | error fault => rfl
  | ok result =>
      obtain ⟨terms, leftover⟩ := result
      cases leftover with
      | nil => rfl
      | cons stop later =>
          simp only [Cursor.shifted, List.map_cons, ParseFault.moved, List.map_take]

/-- Two programs on lines of their own, no block comment of the first left open, are read one after
the other: their words are those of the first and, moved on by its length and the line break, those
of the second, their terms the terms of both, and an error of the second alone is the error of both,
moved on like its words. -/
theorem parse_append_newline {front : Text} (closed : front.BlocksClosed)
    (sourceName back : Text) :
    let offset := front.byteLength + 1
    Lexeme.scan (front ++ '\n' :: back) =
      Lexeme.scan front ++ (Lexeme.scan back).map (Lexeme.moved offset) ∧
    ∀ first, parse sourceName front = .ok first →
      (∀ second, parse sourceName back = .ok second →
        parse sourceName (front ++ '\n' :: back) = .ok (first ++ second)) ∧
      ∀ error, parse sourceName back = .error (.parse error) →
        ∃ later, parse sourceName (front ++ '\n' :: back) = .error (.parse later) ∧
          later.sourceName = error.sourceName ∧
          (Error.parse later).code = (Error.parse error).code ∧
          (Error.parse later).message = (Error.parse error).message ∧
          (Error.parse later).help? = (Error.parse error).help? ∧
          later.fault.label = error.fault.label ∧
          later.span = error.span.moved offset := by
  intro offset
  have scanned := Lexeme.scan_append_newline closed back
  refine ⟨scanned, ?_⟩
  intro first readsFront
  have together := ofLexemes_append (ofLexemes_of_parse_eq_ok readsFront) offset (Lexeme.scan back)
  rw [← scanned] at together
  constructor
  · intro second readsBack
    rw [ofLexemes_of_parse_eq_ok readsBack] at together
    rw [parse, together]
    rfl
  · intro error fails
    obtain ⟨fault, faulty, rfl⟩ := exists_fault_of_parse fails
    rw [faulty] at together
    have length : Text.byteLength (front ++ '\n' :: back) = offset + back.byteLength := by
      rw [Text.byteLength_append, Text.byteLength_cons, ← Nat.add_assoc]
      rfl
    refine ⟨⟨sourceName, offset + back.byteLength, fault.moved offset⟩, ?_, rfl, ?_, ?_, ?_, ?_, ?_⟩
    · rw [parse, together, length]
      rfl
    · exact congrArg (List.append _) (fault.code_moved offset)
    · exact congrArg (List.append _) (fault.message_moved offset)
    · exact fault.help?_moved offset
    · exact fault.label_moved offset
    · exact fault.span_moved offset back.byteLength

/-- The first program ends in a line comment that holds a star, and the second starts with a
slash. -/
theorem parse_append_newline_at_star_and_slash :
    let front := "poop F is /* qooq */ é qooq //*".toList
    let first : List Term := [.define "F".toList [.name "é".toList]]
    let back := "/ b".toList
    let second : List Term := [.name "/".toList, .name "b".toList]
    let faulty := "/ pooping poopy é qooq".toList
    let error : ParseError := ⟨[], 23, .emptyCallee ⟨"pooping".toList, ⟨2, 9⟩⟩⟩
    (Text.BlocksClosed front ∧ parse [] front = .ok first ∧ parse [] back = .ok second ∧
      parse [] faulty = .error (.parse error)) ∧
    parse [] (front ++ '\n' :: back) = .ok (first ++ second) ∧
    ∃ later : ParseError, parse [] (front ++ '\n' :: faulty) = .error (.parse later) ∧
      later.fault.code = "empty_callee".toList ∧ later.span = ⟨35, 42⟩ := by
  intro front first back second faulty error
  have closed : Text.BlocksClosed front := by decide +kernel
  have readsFront : parse [] front = .ok first := by rfl
  have readsBack : parse [] back = .ok second := by rfl
  have fails : parse [] faulty = .error (.parse error) := by rfl
  obtain ⟨-, both⟩ := parse_append_newline closed [] back
  obtain ⟨-, behind⟩ := parse_append_newline closed [] faulty
  obtain ⟨later, failsLater, -, code, -, -, -, span⟩ := (behind first readsFront).2 error fails
  exact ⟨⟨closed, readsFront, readsBack, fails⟩, (both first readsFront).1 second readsBack, later,
    failsLater, List.append_cancel_left code, span⟩

end Sequence

end Splice
