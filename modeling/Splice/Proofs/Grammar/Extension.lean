import Splice.Term.Reader

/-!
# Words that come later

A reader looks at no word before its turn. So words do one of three things to it, whatever comes
after them: they are all read, and it goes on from another cursor; one of them is a fault; or one of
them is no part of the sequence and is left over, with all that comes after it. Unless a program
ends too early, the error of reading it is therefore there in every longer program as well.
-/

namespace Splice

namespace Cursor

/-- What words do to a reader, whatever comes after them. -/
inductive Effect (extent : Extent) (capacity : Nat) (cursor : Cursor) (lexemes : List Lexeme) :
    Prop where
  | passes (next : Cursor) (goesOn : ∀ more,
      read extent capacity cursor (lexemes ++ more) = read extent capacity next more)
  | faults (fault : ParseFault) (fails : ∀ more,
      read extent capacity cursor (lexemes ++ more) = .error fault)
  | stops (terms : List Term) (stop : Lexeme) (later : List Lexeme) (leaves : ∀ more,
      read extent capacity cursor (lexemes ++ more) = .ok (terms, stop :: (later ++ more)))

/-- A word that moves a cursor leaves the effect of the words after it as it is. -/
theorem Effect.after {extent : Extent} {capacity : Nat} {cursor next : Cursor} {lexeme : Lexeme}
    {rest : List Lexeme} (moves : cursor.advance extent capacity lexeme = .ok (some next))
    (effect : Effect extent capacity next rest) :
    Effect extent capacity cursor (lexeme :: rest) := by
  have reads (more : List Lexeme) : read extent capacity cursor (lexeme :: rest ++ more) =
      read extent capacity next (rest ++ more) := by
    rw [List.cons_append, read, moves]
  cases effect with
  | passes last goesOn => exact .passes last fun more => (reads more).trans (goesOn more)
  | faults fault fails => exact .faults fault fun more => (reads more).trans (fails more)
  | stops terms stop later leaves =>
      exact .stops terms stop later fun more => (reads more).trans (leaves more)

theorem effect (extent : Extent) (capacity : Nat) (cursor : Cursor) (lexemes : List Lexeme) :
    Effect extent capacity cursor lexemes := by
  induction lexemes generalizing cursor with
  | nil => exact .passes cursor fun _ => rfl
  | cons lexeme rest ih =>
      cases moves : cursor.advance extent capacity lexeme with
      | error fault =>
          apply Effect.faults fault
          intro more
          rw [List.cons_append, read, moves]
      | ok result =>
          cases result with
          | none =>
              apply Effect.stops cursor.terms lexeme rest
              intro more
              rw [List.cons_append, read, moves]
          | some next => exact (ih next).after moves

end Cursor

/-! ## Faults -/

namespace ParseFault

/-- What becomes of a fault when there are more words: it stays as it is, or it quotes other words
after the first one that is left over. -/
inductive Persists : ParseFault → ParseFault → Prop where
  | same (fault : ParseFault) : Persists fault fault
  | leftover (first : Lexeme) (others quoted : List Lexeme) :
      Persists (.trailing first others) (.trailing first quoted)

theorem span_eq {fault : ParseFault} (ended : ∀ expected, fault ≠ .missing expected)
    (length other : Nat) : fault.span length = fault.span other := by
  cases fault with
  | missing expected => exact absurd rfl (ended expected)
  | _ => rfl

variable {fault later : ParseFault}

theorem Persists.code_eq (persists : Persists fault later) : later.code = fault.code := by
  cases persists <;> rfl

theorem Persists.start_eq (persists : Persists fault later)
    (ended : ∀ expected, fault ≠ .missing expected) (length other : Nat) :
    (later.span other).start = (fault.span length).start := by
  cases persists with
  | same => rw [span_eq ended]
  | leftover first others quoted => rfl

theorem Persists.eq (persists : Persists fault later)
    (inside : ∀ first others, fault ≠ .trailing first others) : later = fault := by
  cases persists with
  | same => rfl
  | leftover first others quoted => exact absurd rfl (inside first others)

end ParseFault

/-! ## Programs -/

namespace Sequence

theorem ofLexemes_of_parse_eq_ok {sourceName source : Text} {terms : List Term}
    (reads : parse sourceName source = .ok terms) :
    ofLexemes (Lexeme.scan source) = .ok terms := by
  unfold parse at reads
  split at reads
  · rename_i accepts
    cases reads
    exact accepts
  · cases reads

theorem exists_fault_of_parse {sourceName source : Text} {error : ParseError}
    (fails : parse sourceName source = .error (.parse error)) :
    ∃ fault, ofLexemes (Lexeme.scan source) = .error fault ∧
      error = ⟨sourceName, source.byteLength, fault⟩ := by
  unfold parse at fails
  split at fails
  · cases fails
  · rename_i fault faulty
    cases fails
    exact ⟨fault, faulty, rfl⟩

theorem ofLexemes_append_of_error {lexemes : List Lexeme} {fault : ParseFault}
    (fails : ofLexemes lexemes = .error fault) (ended : ∀ expected, fault ≠ .missing expected)
    (more : List Lexeme) :
    ∃ later, ofLexemes (lexemes ++ more) = .error later ∧ fault.Persists later := by
  have alone := List.append_nil lexemes
  rw [← alone] at fails
  unfold ofLexemes read at fails ⊢
  cases Cursor.effect .sequence nestingLimit .start lexemes with
  | passes next goesOn =>
      -- Reading would have come to the end of the words: to the one fault that is left out.
      rw [goesOn, Cursor.read] at fails
      cases lacks : next.unfinished? with
      | some expected =>
          rw [lacks] at fails
          cases fails
          exact absurd rfl (ended expected)
      | none =>
          rw [lacks] at fails
          cases fails
  | faults inner stays =>
      rw [stays] at fails ⊢
      cases fails
      exact ⟨fault, rfl, .same fault⟩
  | stops terms stop later leaves =>
      rw [leaves] at fails ⊢
      cases fails
      exact ⟨_, rfl, .leftover stop _ _⟩

/-- An error of reading a program that does not come from its end is there in every program whose
words start with the same words: of the same kind and at the same place, and in the same words over
the same length, unless it is about words left over, of which there may be more now. -/
theorem parse_error_persists {sourceName otherName source longer : Text} {error : ParseError}
    (continued : Lexeme.scan source <+: Lexeme.scan longer)
    (fails : parse sourceName source = .error (.parse error))
    (ended : ∀ expected, error.fault ≠ .missing expected) :
    ∃ later : ParseError, parse otherName longer = .error (.parse later) ∧
      (Error.parse later).code = (Error.parse error).code ∧
      later.span.start = error.span.start ∧
      ((∀ first others, error.fault ≠ .trailing first others) →
        (Error.parse later).message = (Error.parse error).message ∧
        later.span.length = error.span.length) := by
  obtain ⟨more, scanned⟩ := continued
  obtain ⟨fault, faulty, rfl⟩ := exists_fault_of_parse fails
  obtain ⟨later, stays, persists⟩ := ofLexemes_append_of_error faulty ended more
  refine ⟨⟨otherName, longer.byteLength, later⟩, ?_, ?_, ?_, ?_⟩
  · rw [parse, ← scanned, stays]
  · exact congrArg (List.append _) persists.code_eq
  · exact persists.start_eq ended _ _
  · intro inside
    rw [persists.eq inside]
    refine ⟨rfl, ?_⟩
    rw [ParseError.span, ParseError.span, ParseFault.span_eq ended]

/-- An application without a callee, which is found out at its last word, and words left over, each
in a program that goes on with a comment and with more words. -/
theorem parse_error_persists_behind_comment :
    let hollow := "é pooping poopy a qooq".toList
    let crowded := "a qooq b".toList
    let more := "/*é*/ qooq c d e f".toList
    let uncalled : ParseError := ⟨[], 23, .emptyCallee ⟨"pooping".toList, ⟨3, 10⟩⟩⟩
    let left : ParseError := ⟨[], 8, .trailing ⟨"qooq".toList, ⟨2, 6⟩⟩ [⟨"b".toList, ⟨7, 8⟩⟩]⟩
    (Lexeme.scan hollow <+: Lexeme.scan (hollow ++ more) ∧
      parse [] hollow = .error (.parse uncalled) ∧
      ∃ later : ParseError, parse [] (hollow ++ more) = .error (.parse later) ∧
        later.fault.code = "empty_callee".toList ∧ later.span.start = 3 ∧
        later.fault.message = "application has no callee".toList ∧ later.span.length = 7) ∧
    (Lexeme.scan crowded <+: Lexeme.scan (crowded ++ more) ∧
      parse [] crowded = .error (.parse left) ∧
      ∃ later : ParseError, parse [] (crowded ++ more) = .error (.parse later) ∧
        later.fault.code = "trailing_tokens".toList ∧ later.span.start = 2) := by
  intro hollow crowded more uncalled left
  have goesOnHollow : Lexeme.scan hollow <+: Lexeme.scan (hollow ++ more) := by decide +kernel
  have goesOnCrowded : Lexeme.scan crowded <+: Lexeme.scan (crowded ++ more) := by decide +kernel
  have failsHollow : parse [] hollow = .error (.parse uncalled) := by rfl
  have failsCrowded : parse [] crowded = .error (.parse left) := by rfl
  obtain ⟨later, fails, code, start, inWords⟩ :=
    @parse_error_persists [] [] hollow (hollow ++ more) uncalled goesOnHollow failsHollow nofun
  obtain ⟨other, failsOther, codeOther, startOther, -⟩ :=
    @parse_error_persists [] [] crowded (crowded ++ more) left goesOnCrowded failsCrowded nofun
  obtain ⟨message, length⟩ := inWords nofun
  exact ⟨⟨goesOnHollow, failsHollow, later, fails, List.append_cancel_left code, start,
    List.append_cancel_left message, length⟩,
    goesOnCrowded, failsCrowded, other, failsOther, List.append_cancel_left codeOther, startOther⟩

end Sequence

end Splice
