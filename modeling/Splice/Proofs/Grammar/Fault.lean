import Splice.Proofs.Grammar.Reading
import Splice.Proofs.Span

/-!
# What faults point at

A fault names words of the program: the one that was found, the name that cannot be given, the word
that opened a form. A reader carries the words that its open forms started with along, so that every
word that it names is one that it has read, spelled as the fault requires. Together with the places
of the words, this tells what stands in the program where an error points.
-/

namespace Splice

/-! ## Words that a reader holds -/

/-- The word that opened a frame is one of `words` and spelled as it has to be. -/
def Frame.Grounded (words : List Lexeme) : Frame → Prop
  | definition _ => True
  | function _ => True
  | callee opener => opener ∈ words ∧ opener.text = Keyword.calling.spelling
  | arguments opener _ => opener ∈ words ∧ opener.text = Keyword.calling.spelling

/-- The name that a focus holds is one of `words`. -/
def Focus.Grounded (words : List Lexeme) : Focus → Prop
  | items => True
  | name _ => True
  | role _ called => called ∈ words

/-- The words that a fault names are among `words`, those that open a form spelled as they have to
be. Words left over are no matter of a cursor. -/
def ParseFault.Grounded (words : List Lexeme) : ParseFault → Prop
  | unexpected _ found => found ∈ words
  | missing _ => True
  | illegalMacroName name => name ∈ words
  | illegalParameter name => name ∈ words
  | emptyCallee opener => opener ∈ words ∧ opener.text = Keyword.calling.spelling
  | trailing _ _ => False
  | tooDeep opener => opener ∈ words ∧
      (opener.text = Keyword.opening.spelling ∨ opener.text = Keyword.calling.spelling)

namespace Cursor

/-- The words that a cursor holds are among `words`. -/
structure Grounded (words : List Lexeme) (cursor : Cursor) : Prop where
  frames : ∀ level ∈ cursor.levels, level.frame.Grounded words
  focus : cursor.focus.Grounded words

/-- Reading comes to a result that holds, or to a fault that names words of `words`. -/
def Yields (words : List Lexeme) {Result : Type} (holds : Result → Prop) :
    Except ParseFault Result → Prop
  | .ok result => holds result
  | .error fault => fault.Grounded words

section Step

variable {words : List Lexeme} {cursor : Cursor} {level : Level} {outer : List Level}
  {lexeme : Lexeme}

theorem Grounded.enter (grounded : cursor.Grounded words) {frame : Frame}
    (opened : frame.Grounded words) : (cursor.enter frame).Grounded words where
  frames := List.forall_mem_cons.mpr ⟨opened, grounded.frames⟩
  focus := True.intro

theorem yields_resolve (grounded : cursor.Grounded words) (opener : Lexeme) {name : Lexeme}
    (named : name ∈ words) (member : lexeme ∈ words) :
    Yields words (Grounded words) (cursor.resolve opener name lexeme) := by
  unfold resolve
  split
  · split
    · exact named
    · exact grounded.enter True.intro
  · split
    · exact grounded.enter True.intro
    · exact named
  · exact member

theorem yields_closed {frame : Frame} (opened : frame.Grounded words) (terms : List Term)
    (member : lexeme ∈ words) : Yields words (fun _ => True) (closed frame terms lexeme) := by
  cases frame with
  | definition name => exact True.intro
  | function param => exact True.intro
  | callee opener => exact member
  | arguments opener callee =>
      unfold closed
      dsimp only
      split
      · exact True.intro
      · exact opened

theorem yields_close (opened : ∀ inner ∈ level :: outer, inner.frame.Grounded words)
    (member : lexeme ∈ words) :
    Yields words (Grounded words) (cursor.close level outer lexeme) := by
  obtain ⟨frame, others⟩ := List.forall_mem_cons.mp opened
  have shuts := yields_closed frame cursor.terms member
  unfold close
  generalize closed level.frame cursor.terms lexeme = outcome at shuts ⊢
  cases outcome with
  | error fault => exact shuts
  | ok term => exact ⟨others, True.intro⟩

theorem yields_turn (opened : ∀ inner ∈ level :: outer, inner.frame.Grounded words)
    (member : lexeme ∈ words) :
    Yields words (Grounded words) (cursor.turn level outer lexeme) := by
  obtain ⟨frame, others⟩ := List.forall_mem_cons.mp opened
  unfold turn
  split
  · rename_i opener isCallee
    rw [isCallee] at frame
    exact ⟨List.forall_mem_cons.mpr ⟨frame, others⟩, True.intro⟩
  · exact member

theorem yields_opened {next : Cursor} (capacity : Nat) (member : lexeme ∈ words)
    (opens : lexeme.text = Keyword.opening.spelling ∨ lexeme.text = Keyword.calling.spelling)
    (grounded : next.Grounded words) :
    Yields words (Grounded words) (opened capacity cursor lexeme next) := by
  unfold opened
  split
  · exact grounded
  · exact ⟨member, opens⟩

theorem Yields.map_some {outcome : Except ParseFault Cursor}
    (yields : Yields words (Grounded words) outcome) :
    Yields words (fun result => ∀ next ∈ result, Grounded words next) (some <$> outcome) := by
  cases outcome with
  | error fault => exact yields
  | ok next =>
      rintro _ ⟨⟩
      exact yields

/-- One word leads from a grounded cursor to a grounded cursor, or to a grounded fault. -/
theorem yields_advance (grounded : cursor.Grounded words) (member : lexeme ∈ words)
    (extent : Extent) (capacity : Nat) :
    Yields words (fun result => ∀ next ∈ result, Grounded words next)
      (cursor.advance extent capacity lexeme) := by
  unfold advance
  split
  · rintro _ ⟨⟩
    exact ⟨grounded.frames, member⟩
  · rename_i opener name focused
    have named := grounded.focus
    rw [focused] at named
    exact (yields_resolve grounded opener named member).map_some
  · split
    · nofun
    · rename_i opening _
      have spelled := Keyword.spelling_of_ofText? opening
      refine (yields_opened capacity member (.inl spelled) ?_).map_some
      exact ⟨grounded.frames, True.intro⟩
    · rename_i calling _
      have spelled := Keyword.spelling_of_ofText? calling
      refine (yields_opened capacity member (.inr spelled) ?_).map_some
      exact grounded.enter ⟨member, spelled⟩
    · nofun
    · rename_i inside _
      exact (yields_close (inside ▸ grounded.frames) member).map_some
    · nofun
    · rename_i inside _
      exact (yields_turn (inside ▸ grounded.frames) member).map_some
    · rintro _ ⟨⟩
      exact ⟨grounded.frames, grounded.focus⟩

end Step

/-- A reader that starts grounded and is given words of `words` stops at a grounded fault, if at
any. -/
theorem grounded_of_read {words lexemes : List Lexeme} {cursor : Cursor} {extent : Extent}
    {capacity : Nat} {fault : ParseFault} (grounded : cursor.Grounded words)
    (members : ∀ lexeme ∈ lexemes, lexeme ∈ words)
    (fails : read extent capacity cursor lexemes = .error fault) : fault.Grounded words := by
  induction lexemes generalizing cursor with
  | nil =>
      unfold read at fails
      split at fails
      · cases fails
        exact True.intro
      · cases fails
  | cons lexeme rest ih =>
      obtain ⟨member, others⟩ := List.forall_mem_cons.mp members
      have yields := yields_advance grounded member extent capacity
      rw [read] at fails
      split at fails
      · rename_i stops
        cases fails
        rwa [stops] at yields
      · cases fails
      · rename_i next moves
        rw [moves] at yields
        exact ih (yields next rfl) others fails

end Cursor

theorem Sequence.stops_of_read {lexemes leftover : List Lexeme} {terms : List Term}
    (reads : Sequence.read lexemes = .ok (terms, leftover)) :
    ∃ consumed, lexemes = consumed ++ leftover ∧ Cursor.Stops leftover := by
  obtain ⟨phrase, consumed, rest, rfl, stops, spells⟩ :=
    Cursor.startsWithPhrase_of_read (Nat.zero_add nestingLimit) reads
  rw [Sequence.read, Cursor.read_outermost spells stops] at reads
  cases reads
  exact ⟨consumed, rfl, stops⟩

/-! ## What stands where an error points -/

/-- What a fault tells about the slice of a program that it complains about. Words left over are
quoted from the first one on, five of them at most, and the slice reaches from the first to the last
of these. -/
def ParseFault.Describes (source slice : Text) : ParseFault → Prop
  | unexpected expected found =>
      slice.unescape = found.text ∧
      message (unexpected expected found) =
        "expected ".toList ++ expected.text ++ ", found '".toList ++ slice.unescape ++ "'".toList
  | missing expected =>
      slice = [] ∧
      span source.byteLength (missing expected) = ⟨source.byteLength, source.byteLength⟩
  | illegalMacroName name =>
      slice.unescape = name.text ∧
      message (illegalMacroName name) =
        "illegal macro name '".toList ++ slice.unescape ++ "'".toList
  | illegalParameter name =>
      slice.unescape = name.text ∧
      message (illegalParameter name) =
        "illegal parameter name '".toList ++ slice.unescape ++ "'".toList
  | emptyCallee _ => slice.unescape = Keyword.calling.spelling
  | tooDeep _ =>
      slice.unescape = Keyword.opening.spelling ∨ slice.unescape = Keyword.calling.spelling
  | trailing first others =>
      ∃ terms leftover,
        Sequence.read (Lexeme.scan source) = .ok (terms, leftover) ∧
        leftover <:+ Lexeme.scan source ∧ first :: others = leftover.take 5 ∧
        message (trailing first others) = "unexpected trailing tokens: ".toList ++
          Text.unwords ((leftover.take 5).map Lexeme.text) ∧
        (first.text = Keyword.closing.spelling ∨ first.text = Keyword.applying.spelling) ∧
        (∃ written, first.Written source written ∧ written <+: slice) ∧
        ∃ written, ((first :: others).getLast (List.cons_ne_nil _ _)).Written source written ∧
          written <:+ slice

/-- The bytes that a fault complains about are a slice of the program, cut between characters, and
the fault describes it. -/
def ParseFault.Located (source : Text) (fault : ParseFault) : Prop :=
  ∃ slice, source.sliceBytes? (fault.span source.byteLength).start
      (fault.span source.byteLength).stop = some slice ∧ fault.Describes source slice

theorem ParseFault.located_of_grounded {source : Text} {fault : ParseFault}
    (grounded : fault.Grounded (Lexeme.scan source)) : fault.Located source := by
  cases fault with
  | unexpected expected found =>
      obtain ⟨written, stands, decoded⟩ := Lexeme.exists_written grounded
      exact ⟨written, stands, decoded, by rw [decoded]; rfl⟩
  | missing expected =>
      have atEnd := Text.sliceBytes?_append source [] []
      rw [List.append_nil, List.append_nil] at atEnd
      exact ⟨[], atEnd, rfl, rfl⟩
  | illegalMacroName name =>
      obtain ⟨written, stands, decoded⟩ := Lexeme.exists_written grounded
      exact ⟨written, stands, decoded, by rw [decoded]; rfl⟩
  | illegalParameter name =>
      obtain ⟨written, stands, decoded⟩ := Lexeme.exists_written grounded
      exact ⟨written, stands, decoded, by rw [decoded]; rfl⟩
  | emptyCallee opener =>
      obtain ⟨written, stands, decoded⟩ := Lexeme.exists_written grounded.1
      exact ⟨written, stands, decoded.trans grounded.2⟩
  | trailing first others => exact grounded.elim
  | tooDeep opener =>
      obtain ⟨written, stands, decoded⟩ := Lexeme.exists_written grounded.1
      refine ⟨written, stands, ?_⟩
      rw [Describes, decoded]
      exact grounded.2

theorem ParseFault.located_of_leftover {source : Text} {terms : List Term} {first : Lexeme}
    {others : List Lexeme}
    (reads : Sequence.read (Lexeme.scan source) = .ok (terms, first :: others)) :
    (trailing first (others.take (Sequence.previewLength - 1))).Located source := by
  obtain ⟨consumed, scanned, stops⟩ := Sequence.stops_of_read reads
  have row : Lexeme.scan source = consumed ++ first ::
      (others.take (Sequence.previewLength - 1) ++ others.drop (Sequence.previewLength - 1)) := by
    rw [List.take_append_drop, scanned]
  obtain ⟨slice, stands, starts, ends⟩ := Lexeme.exists_slice_of_row row
  exact ⟨slice, stands, terms, first :: others, reads, ⟨consumed, scanned.symm⟩, rfl, rfl,
    Phrase.ends_cons.mp stops, starts, ends⟩

/-- An error of reading a program points at a slice of the program, and what stands there is what
the error is about. -/
theorem Sequence.parse_error_located {sourceName source : Text} {error : Error}
    (fails : Sequence.parse sourceName source = .error error) :
    ∃ fault, error = .parse ⟨sourceName, source.byteLength, fault⟩ ∧ fault.Located source := by
  unfold Sequence.parse at fails
  split at fails
  · cases fails
  · rename_i fault faulty
    cases fails
    refine ⟨fault, rfl, ?_⟩
    unfold ofLexemes at faulty
    split at faulty
    · rename_i stops
      cases faulty
      have start : Cursor.start.Grounded (Lexeme.scan source) := ⟨nofun, True.intro⟩
      exact ParseFault.located_of_grounded
        (Cursor.grounded_of_read start (fun _ member => member) stops)
    · cases faulty
    · rename_i reads
      cases faulty
      exact ParseFault.located_of_leftover reads

/-- A name with an escape in it behind a comment of wide characters, and more words left over than
an error quotes, with a comment among them. -/
theorem Sequence.parse_error_located_behind_comment :
    let named := "/*é😀*/ poop p\\oops is qooq".toList
    let called : ParseFault := .illegalMacroName ⟨"poops".toList, ⟨16, 22⟩⟩
    let crowded := "a q\\ooq//é\nb c d e f".toList
    let left : ParseFault := .trailing ⟨"qooq".toList, ⟨2, 7⟩⟩
      [⟨"b".toList, ⟨12, 13⟩⟩, ⟨"c".toList, ⟨14, 15⟩⟩, ⟨"d".toList, ⟨16, 17⟩⟩,
        ⟨"e".toList, ⟨18, 19⟩⟩]
    (Sequence.parse [] named = .error (.parse ⟨[], Text.byteLength named, called⟩) ∧
      Text.sliceBytes? 16 22 named = some "p\\oops".toList ∧ called.Located named) ∧
    Sequence.parse [] crowded = .error (.parse ⟨[], Text.byteLength crowded, left⟩) ∧
      Text.sliceBytes? 2 19 crowded = some "q\\ooq//é\nb c d e".toList ∧
      left.Located crowded := by
  intro named called crowded left
  have failsNamed : Sequence.parse [] named =
      .error (.parse ⟨[], Text.byteLength named, called⟩) := by rfl
  have failsCrowded : Sequence.parse [] crowded =
      .error (.parse ⟨[], Text.byteLength crowded, left⟩) := by rfl
  obtain ⟨_, ⟨⟩, locatedNamed⟩ := Sequence.parse_error_located failsNamed
  obtain ⟨_, ⟨⟩, locatedCrowded⟩ := Sequence.parse_error_located failsCrowded
  exact ⟨⟨failsNamed, by decide +kernel, locatedNamed⟩, failsCrowded, by decide +kernel,
    locatedCrowded⟩

end Splice
