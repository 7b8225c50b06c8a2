import Splice.Proofs.Grammar.Form
import Splice.Term.Reader

/-!
# Reading is parsing

A list of words is read as a sequence of terms exactly when it spells a legal phrase of at most
so many nested forms, and the terms are those that the phrase stands for. One direction follows
the phrase, form by form. The other follows the words: as long as reading goes on without a
fault, the words up to the next one that closes a form or ends a callee spell a legal phrase.
-/

namespace Splice

theorem Lexeme.exists_of_map_text_eq {lexemes : List Lexeme} {inner later : List Text}
    {mark : Text} (spelled : lexemes.map Lexeme.text = inner ++ mark :: later) :
    ∃ inside lexeme rest, lexemes = inside ++ lexeme :: rest ∧ inside.map Lexeme.text = inner ∧
      lexeme.text = mark ∧ rest.map Lexeme.text = later := by
  obtain ⟨inside, others, rfl, first, second⟩ := List.map_eq_append_iff.mp spelled
  obtain ⟨lexeme, rest, rfl, same, last⟩ := List.map_eq_cons_iff.mp second
  exact ⟨inside, lexeme, rest, rfl, first, same, last⟩

theorem Lexeme.exists_named_form {lexemes : List Lexeme} {inner later : List Text}
    {first second third mark : Text}
    (spelled : lexemes.map Lexeme.text = first :: second :: third :: (inner ++ mark :: later)) :
    ∃ opener name found inside closer rest,
      lexemes = opener :: name :: found :: (inside ++ closer :: rest) ∧ opener.text = first ∧
        name.text = second ∧ found.text = third ∧ inside.map Lexeme.text = inner ∧
        closer.text = mark ∧ rest.map Lexeme.text = later := by
  obtain ⟨opener, afterOpener, rfl, opens, spelledName⟩ := List.map_eq_cons_iff.mp spelled
  obtain ⟨name, afterName, rfl, called, spelledRole⟩ := List.map_eq_cons_iff.mp spelledName
  obtain ⟨found, afterRole, rfl, tells, spelledBody⟩ := List.map_eq_cons_iff.mp spelledRole
  obtain ⟨inside, closer, rest, rfl, inBody, closes, others⟩ :=
    Lexeme.exists_of_map_text_eq spelledBody
  exact ⟨opener, name, found, inside, closer, rest, rfl, opens, called, tells, inBody, closes,
    others⟩

namespace Cursor

variable {capacity : Nat} {levels outer : List Level} {level : Level} {siblings : List Term}
  {lexeme : Lexeme} {rest : List Lexeme}

/-! ## One word -/

theorem read_word (plain : lexeme.text ∉ Keyword.structural) :
    read .sequence capacity ⟨levels, siblings, .items⟩ (lexeme :: rest) =
      read .sequence capacity ⟨levels, .atom lexeme.text :: siblings, .items⟩ rest := by
  have advances : advance .sequence capacity ⟨levels, siblings, .items⟩ lexeme =
      .ok (some ⟨levels, .atom lexeme.text :: siblings, .items⟩) := by
    cases found : Keyword.ofText? lexeme.text with
    | none => cases levels <;> simp only [advance, found] <;> rfl
    | some keyword =>
        have spelled := Keyword.spelling_of_ofText? found
        cases keyword with
        | naming => cases levels <;> simp only [advance, found] <;> rfl
        | binding => cases levels <;> simp only [advance, found] <;> rfl
        | opening => simp [Keyword.structural, spelled] at plain
        | calling => simp [Keyword.structural, spelled] at plain
        | closing => simp [Keyword.structural, spelled] at plain
        | applying => simp [Keyword.structural, spelled] at plain
  rw [read, advances]

theorem read_opening {opener name found : Lexeme}
    (spelled : opener.text = Keyword.opening.spelling) (room : levels.length < capacity) :
    read .sequence capacity ⟨levels, siblings, .items⟩ (opener :: name :: found :: rest) =
      match resolve ⟨levels, siblings, .items⟩ opener name found with
      | .error fault => .error fault
      | .ok next => read .sequence capacity next rest := by
  have opens : advance .sequence capacity ⟨levels, siblings, .items⟩ opener =
      .ok (some ⟨levels, siblings, .name opener⟩) := by
    cases levels <;>
      simp only [advance, spelled, Keyword.ofText?_spelling, opened, if_pos room] <;> rfl
  -- What a form is does not depend on how the cursor got to it.
  have resolves : resolve ⟨levels, siblings, .role opener name⟩ opener name found =
      resolve ⟨levels, siblings, .items⟩ opener name found := rfl
  rw [read, opens]
  simp only [read, advance, resolves]
  cases resolve ⟨levels, siblings, .items⟩ opener name found <;> rfl

theorem read_calling {opener : Lexeme}
    (spelled : opener.text = Keyword.calling.spelling) (room : levels.length < capacity) :
    read .sequence capacity ⟨levels, siblings, .items⟩ (opener :: rest) =
      read .sequence capacity ⟨⟨.callee opener, siblings⟩ :: levels, [], .items⟩ rest := by
  have opens : advance .sequence capacity ⟨levels, siblings, .items⟩ opener =
      .ok (some ⟨⟨.callee opener, siblings⟩ :: levels, [], .items⟩) := by
    cases levels <;>
      simp only [advance, spelled, Keyword.ofText?_spelling, opened, if_pos room] <;> rfl
  rw [read, opens]

theorem read_closing (spelled : lexeme.text = Keyword.closing.spelling) :
    read .sequence capacity ⟨level :: outer, siblings, .items⟩ (lexeme :: rest) =
      match closed level.frame siblings.reverse lexeme with
      | .error fault => .error fault
      | .ok term => read .sequence capacity ⟨outer, term :: level.before, .items⟩ rest := by
  rw [read]
  simp only [advance, spelled, Keyword.ofText?_spelling, close, terms]
  cases closed level.frame siblings.reverse lexeme <;> rfl

theorem read_applying (spelled : lexeme.text = Keyword.applying.spelling) :
    read .sequence capacity ⟨level :: outer, siblings, .items⟩ (lexeme :: rest) =
      match turn ⟨level :: outer, siblings, .items⟩ level outer lexeme with
      | .error fault => .error fault
      | .ok next => read .sequence capacity next rest := by
  rw [read]
  simp only [advance, spelled, Keyword.ofText?_spelling]
  cases turn ⟨level :: outer, siblings, .items⟩ level outer lexeme <;> rfl

/-! ## From phrases to readings -/

theorem read_closed {frame : Frame} {before terms : List Term} {term : Term}
    (spelled : lexeme.text = Keyword.closing.spelling)
    (closes : closed frame terms lexeme = .ok term) :
    read .sequence capacity ⟨⟨frame, before⟩ :: outer, terms.reverse ++ [], .items⟩
        (lexeme :: rest) =
      read .sequence capacity ⟨outer, term :: before, .items⟩ rest := by
  rw [read_closing spelled, List.append_nil, List.reverse_reverse, closes]

/-- A definition or a function is read as one term, once its body is. -/
theorem read_named {opener called found closer : Lexeme} {inside : List Lexeme} {frame : Frame}
    {terms : List Term} {term : Term} (opens : opener.text = Keyword.opening.spelling)
    (room : levels.length < capacity)
    (resolves : resolve ⟨levels, siblings, .items⟩ opener called found =
      .ok ⟨⟨frame, siblings⟩ :: levels, [], .items⟩)
    (ofBody : ∀ after,
      read .sequence capacity ⟨⟨frame, siblings⟩ :: levels, [], .items⟩ (inside ++ after) =
        read .sequence capacity ⟨⟨frame, siblings⟩ :: levels, terms.reverse ++ [], .items⟩ after)
    (spelled : closer.text = Keyword.closing.spelling)
    (closes : closed frame terms closer = .ok term) :
    read .sequence capacity ⟨levels, siblings, .items⟩
        (opener :: called :: found :: (inside ++ closer :: rest)) =
      read .sequence capacity ⟨levels, term :: siblings, .items⟩ rest := by
  rw [read_opening opens room, resolves]
  dsimp only
  rw [ofBody, read_closed spelled closes]

theorem read_turned {opener : Lexeme} {before terms : List Term}
    (spelled : lexeme.text = Keyword.applying.spelling) :
    read .sequence capacity ⟨⟨.callee opener, before⟩ :: outer, terms.reverse ++ [], .items⟩
        (lexeme :: rest) =
      read .sequence capacity ⟨⟨.arguments opener terms, before⟩ :: outer, [], .items⟩ rest := by
  have turns : turn ⟨⟨.callee opener, before⟩ :: outer, terms.reverse ++ [], .items⟩
      ⟨.callee opener, before⟩ outer lexeme =
        .ok ⟨⟨.arguments opener terms, before⟩ :: outer, [], .items⟩ := by
    simp [turn, Cursor.terms]
  rw [read_applying spelled, turns]

theorem closed_arguments {opener : Lexeme} (first : Form) (others : List Form)
    {args : List Term} :
    closed (.arguments opener (Phrase.terms (first :: others))) args lexeme =
      .ok (.app (first.term.collapse (Phrase.terms others)) args) := by
  rw [closed, Phrase.terms, Sequence.collapse?_cons]

/-- The words of a legal phrase are read as its terms. -/
theorem read_phrase {phrase : List Form} (legal : Phrase.Legal phrase) {lexemes : List Lexeme}
    (spelled : lexemes.map Lexeme.text = Phrase.words phrase)
    (room : levels.length + Phrase.nesting phrase ≤ capacity) :
    read .sequence capacity ⟨levels, siblings, .items⟩ (lexemes ++ rest) =
      read .sequence capacity ⟨levels, (Phrase.terms phrase).reverse ++ siblings, .items⟩
        rest := by
  induction phrase using Phrase.induction generalizing levels siblings lexemes rest with
  | nil =>
      rw [List.map_eq_nil_iff.mp spelled]
      rfl
  | word text tail ih =>
      obtain ⟨lexeme, later, rfl, rfl, others⟩ := List.map_eq_cons_iff.mp spelled
      obtain ⟨plain, legal⟩ := legal
      have fits : levels.length + Phrase.nesting tail ≤ capacity := by
        simp only [Phrase.nesting] at room
        omega
      rw [List.cons_append, read_word plain, ih legal others fits]
      simp [Phrase.terms, Form.term]
  | definition name body tail ofBody ih =>
      obtain ⟨⟨free, solid, legalBody⟩, legal⟩ := legal
      simp only [Phrase.words, Form.words, List.cons_append, List.append_assoc,
        List.nil_append] at spelled
      obtain ⟨opener, called, found, inside, closer, later, rfl, opens, rfl, names, inBody,
        closes, others⟩ := Lexeme.exists_named_form spelled
      simp only [Phrase.nesting, Form.nesting] at room
      have resolves : resolve ⟨levels, siblings, .items⟩ opener called found =
          .ok ⟨⟨.definition called.text, siblings⟩ :: levels, [], .items⟩ := by
        simp only [resolve, names, Keyword.ofText?_spelling, free, solid]
        rfl
      have fits : levels.length + 1 + Phrase.nesting body ≤ capacity := by omega
      simp only [List.cons_append, List.append_assoc]
      rw [read_named opens (by omega) resolves (fun _ => ofBody legalBody inBody fits) closes rfl,
        ih legal others (by omega)]
      simp [Phrase.terms, Form.term]
  | function param body tail ofBody ih =>
      obtain ⟨⟨bindable, legalBody⟩, legal⟩ := legal
      simp only [Phrase.words, Form.words, List.cons_append, List.append_assoc,
        List.nil_append] at spelled
      obtain ⟨opener, called, found, inside, closer, later, rfl, opens, rfl, binds, inBody,
        closes, others⟩ := Lexeme.exists_named_form spelled
      simp only [Phrase.nesting, Form.nesting] at room
      have resolves : resolve ⟨levels, siblings, .items⟩ opener called found =
          .ok ⟨⟨.function called.text, siblings⟩ :: levels, [], .items⟩ := by
        simp only [resolve, binds, Keyword.ofText?_spelling, bindable]
        rfl
      have fits : levels.length + 1 + Phrase.nesting body ≤ capacity := by omega
      simp only [List.cons_append, List.append_assoc]
      rw [read_named opens (by omega) resolves (fun _ => ofBody legalBody inBody fits) closes rfl,
        ih legal others (by omega)]
      simp [Phrase.terms, Form.term]
  | application first others args tail ofCallee ofArgs ih =>
      obtain ⟨⟨legalFirst, legalOthers, legalArgs⟩, legal⟩ := legal
      simp only [Phrase.words, Form.words, List.cons_append, List.append_assoc,
        List.nil_append] at spelled
      obtain ⟨opener, afterOpener, rfl, calls, spelledCallee⟩ := List.map_eq_cons_iff.mp spelled
      rw [← List.append_assoc] at spelledCallee
      obtain ⟨inside, turner, afterTurner, rfl, inCallee, turns, spelledArgs⟩ :=
        Lexeme.exists_of_map_text_eq spelledCallee
      obtain ⟨operands, closer, later, rfl, inArgs, closes, after⟩ :=
        Lexeme.exists_of_map_text_eq spelledArgs
      simp only [Phrase.nesting, Form.nesting] at room
      have legalCallee : Phrase.Legal (first :: others) := ⟨legalFirst, legalOthers⟩
      have roomCallee : levels.length + 1 + Phrase.nesting (first :: others) ≤ capacity := by
        simp only [Phrase.nesting]
        omega
      simp only [List.cons_append, List.append_assoc]
      rw [read_calling calls (by omega),
        ofCallee legalCallee inCallee (by rw [List.length_cons]; exact roomCallee),
        read_turned turns, ofArgs legalArgs inArgs (by simp only [List.length_cons]; omega),
        read_closed closes (closed_arguments _ _), ih legal after (by omega)]
      simp [Phrase.terms, Form.term]

/-! ## From readings to phrases -/

/-- Lexemes whose words do not go on with a phrase. -/
def Stops (lexemes : List Lexeme) : Prop :=
  Phrase.Ends (lexemes.map Lexeme.text)

variable {result : List Term × List Lexeme}

theorem exists_of_read_opening (spelled : lexeme.text = Keyword.opening.spelling)
    (reads : read .sequence capacity ⟨levels, siblings, .items⟩ (lexeme :: rest) = .ok result) :
    levels.length < capacity ∧ ∃ name found later, rest = name :: found :: later := by
  have opens : advance .sequence capacity ⟨levels, siblings, .items⟩ lexeme =
      some <$> opened capacity ⟨levels, siblings, .items⟩ lexeme
        ⟨levels, siblings, .name lexeme⟩ := by
    cases levels <;> simp only [advance, spelled, Keyword.ofText?_spelling]
  rw [read, opens, opened] at reads
  by_cases room : levels.length < capacity
  · refine ⟨room, ?_⟩
    rw [if_pos room] at reads
    match rest with
    | [] => cases reads
    | [name] => cases reads
    | name :: found :: later => exact ⟨name, found, later, rfl⟩
  · rw [if_neg room] at reads
    cases reads

theorem room_of_read_calling (spelled : lexeme.text = Keyword.calling.spelling)
    (reads : read .sequence capacity ⟨levels, siblings, .items⟩ (lexeme :: rest) = .ok result) :
    levels.length < capacity := by
  have opens : advance .sequence capacity ⟨levels, siblings, .items⟩ lexeme =
      some <$> opened capacity ⟨levels, siblings, .items⟩ lexeme
        ⟨⟨.callee lexeme, siblings⟩ :: levels, [], .items⟩ := by
    cases levels <;> simp only [advance, spelled, Keyword.ofText?_spelling] <;> rfl
  rw [read, opens, opened] at reads
  by_cases room : levels.length < capacity
  · exact room
  · rw [if_neg room] at reads
    cases reads

theorem resolve_eq_ok {cursor next : Cursor} {opener name found : Lexeme}
    (resolves : cursor.resolve opener name found = .ok next) :
    (found.text = Keyword.naming.spelling ∧ Word.isVariable name.text = false ∧
      Word.isControl name.text = false ∧
      next = ⟨⟨.definition name.text, cursor.siblings⟩ :: cursor.levels, [], .items⟩) ∨
    (found.text = Keyword.binding.spelling ∧ Word.isVariable name.text = true ∧
      next = ⟨⟨.function name.text, cursor.siblings⟩ :: cursor.levels, [], .items⟩) := by
  unfold resolve at resolves
  split at resolves
  · rename_i names
    split at resolves
    · cases resolves
    · rename_i legal
      cases resolves
      rw [Bool.or_eq_true, not_or, Bool.not_eq_true, Bool.not_eq_true] at legal
      exact .inl ⟨Keyword.spelling_of_ofText? names, legal.1, legal.2, rfl⟩
  · rename_i binds
    split at resolves
    · rename_i legal
      cases resolves
      exact .inr ⟨Keyword.spelling_of_ofText? binds, legal, rfl⟩
    · cases resolves
  · cases resolves

/-- Inside a form, a phrase that is read without a fault is followed by the word that closes the
form or by the one that ends its callee. -/
theorem exists_of_read_stop {frame : Frame} {before terms : List Term} (stops : Stops rest)
    (reads : read .sequence capacity ⟨⟨frame, before⟩ :: outer, terms.reverse ++ [], .items⟩
      rest = .ok result) :
    ∃ stop later, rest = stop :: later ∧
      ((stop.text = Keyword.closing.spelling ∧ ∃ term, closed frame terms stop = .ok term ∧
        read .sequence capacity ⟨outer, term :: before, .items⟩ later = .ok result) ∨
      (stop.text = Keyword.applying.spelling ∧ ∃ opener, frame = .callee opener ∧
        read .sequence capacity ⟨⟨.arguments opener terms, before⟩ :: outer, [], .items⟩ later =
          .ok result)) := by
  cases rest with
  | nil => cases reads
  | cons stop later =>
      refine ⟨stop, later, rfl, ?_⟩
      rcases Phrase.ends_cons.mp stops with closes | turns
      · rw [read_closing closes, List.append_nil, List.reverse_reverse] at reads
        split at reads
        · cases reads
        · rename_i term shuts
          exact .inl ⟨closes, term, shuts, reads⟩
      · rw [read_applying turns] at reads
        cases frame with
        | callee opener =>
            simp only [turn, Cursor.terms, List.append_nil, List.reverse_reverse] at reads
            exact .inr ⟨turns, opener, rfl, reads⟩
        | definition name => cases reads
        | function param => cases reads
        | arguments opener callee => cases reads

/-- Words start with a legal phrase, up to the first word that closes a form or ends a callee of
the forms that are open already. -/
def StartsWithPhrase (room : Nat) (lexemes : List Lexeme) : Prop :=
  ∃ phrase consumed rest, lexemes = consumed ++ rest ∧ Stops rest ∧
    Phrase.Spells phrase room (consumed.map Lexeme.text)

/-- The phrase inside a form and the word after it. -/
theorem exists_of_read_inside {frame : Frame} {before : List Term} {room : Nat}
    {lexemes : List Lexeme} (fits : levels.length + 1 + room = capacity)
    (starts : StartsWithPhrase room lexemes)
    (reads : read .sequence capacity ⟨⟨frame, before⟩ :: levels, [], .items⟩ lexemes =
      .ok result) :
    ∃ phrase inside stop later, lexemes = inside ++ stop :: later ∧
      Phrase.Spells phrase room (inside.map Lexeme.text) ∧
      ((stop.text = Keyword.closing.spelling ∧
        ∃ term, closed frame (Phrase.terms phrase) stop = .ok term ∧
          read .sequence capacity ⟨levels, term :: before, .items⟩ later = .ok result) ∨
      (stop.text = Keyword.applying.spelling ∧ ∃ opener, frame = .callee opener ∧
        read .sequence capacity
          ⟨⟨.arguments opener (Phrase.terms phrase), before⟩ :: levels, [], .items⟩ later =
            .ok result)) := by
  obtain ⟨phrase, inside, rest, rfl, stops, spells⟩ := starts
  have nests := spells.fits
  rw [read_phrase spells.legal spells.words.symm (by rw [List.length_cons]; omega)] at reads
  obtain ⟨stop, later, rfl, ends⟩ := exists_of_read_stop stops reads
  exact ⟨phrase, inside, stop, later, rfl, spells, ends⟩

/-- The words shorter than some, if they are read to the same result, start with a legal phrase:
what the induction over the words has to offer. -/
def ShorterStart (capacity bound : Nat) (result : List Term × List Lexeme) : Prop :=
  ∀ (levels : List Level) (siblings : List Term) (room : Nat) (lexemes : List Lexeme),
    lexemes.length < bound → levels.length + room = capacity →
      read .sequence capacity ⟨levels, siblings, .items⟩ lexemes = .ok result →
        StartsWithPhrase room lexemes

variable {room : Nat} {head : Lexeme} {tail : List Lexeme}

/-- A form other than an unfinished callee goes on with a legal phrase, the word that closes it,
and the phrase after it. -/
theorem exists_of_read_to_closing {frame : Frame} {before : List Term} {inner : List Lexeme}
    {bound : Nat} (fits : levels.length + (room + 1) = capacity)
    (shorter : ShorterStart capacity bound result) (less : inner.length < bound)
    (beyond : ∀ opener, frame ≠ .callee opener)
    (reads : read .sequence capacity ⟨⟨frame, before⟩ :: levels, [], .items⟩ inner =
      .ok result) :
    ∃ body inside closer phrase consumed rest,
      inner = inside ++ closer :: (consumed ++ rest) ∧ Stops rest ∧
        closer.text = Keyword.closing.spelling ∧
        (∃ term, closed frame (Phrase.terms body) closer = .ok term) ∧
        Phrase.Spells body room (inside.map Lexeme.text) ∧
        Phrase.Spells phrase (room + 1) (consumed.map Lexeme.text) := by
  have starts := shorter _ _ room inner less (by rw [List.length_cons]; omega) reads
  obtain ⟨body, inside, closer, later, rfl, ofBody, ends⟩ :=
    exists_of_read_inside (by omega) starts reads
  rcases ends with ⟨closes, term, shuts, goesOn⟩ | ⟨-, opener, unfinished, -⟩
  · rw [List.length_append, List.length_cons] at less
    obtain ⟨phrase, consumed, rest, rfl, stops, ofTail⟩ :=
      shorter _ _ (room + 1) later (by omega) fits goesOn
    exact ⟨body, inside, closer, phrase, consumed, rest, rfl, stops, closes, ⟨term, shuts⟩,
      ofBody, ofTail⟩
  · exact absurd unfinished (beyond opener)

theorem startsWithPhrase_of_opening (fits : levels.length + room = capacity)
    (shorter : ShorterStart capacity (tail.length + 1) result)
    (opens : head.text = Keyword.opening.spelling)
    (reads : read .sequence capacity ⟨levels, siblings, .items⟩ (head :: tail) = .ok result) :
    StartsWithPhrase room (head :: tail) := by
  obtain ⟨space, name, found, inner, rfl⟩ := exists_of_read_opening opens reads
  obtain ⟨spare, rfl⟩ : ∃ spare, room = spare + 1 := ⟨room - 1, by omega⟩
  have less : inner.length < (name :: found :: inner).length + 1 := by
    simp only [List.length_cons]
    omega
  rw [read_opening opens space] at reads
  split at reads
  · cases reads
  · rename_i next resolves
    rcases resolve_eq_ok resolves with ⟨names, free, solid, rfl⟩ | ⟨binds, bindable, rfl⟩
    · obtain ⟨body, inside, closer, phrase, consumed, rest, rfl, stops, closes, -, ofBody,
        ofTail⟩ := exists_of_read_to_closing fits shorter less (fun _ same => by cases same)
        reads
      refine ⟨.definition name.text body :: phrase,
        head :: name :: found :: (inside ++ closer :: consumed), rest, by simp, stops, ?_⟩
      simpa [opens, names, closes] using ofBody.definition free solid ofTail
    · obtain ⟨body, inside, closer, phrase, consumed, rest, rfl, stops, closes, -, ofBody,
        ofTail⟩ := exists_of_read_to_closing fits shorter less (fun _ same => by cases same)
        reads
      refine ⟨.function name.text body :: phrase,
        head :: name :: found :: (inside ++ closer :: consumed), rest, by simp, stops, ?_⟩
      simpa [opens, binds, closes] using ofBody.function bindable ofTail

theorem startsWithPhrase_of_calling (fits : levels.length + room = capacity)
    (shorter : ShorterStart capacity (tail.length + 1) result)
    (calls : head.text = Keyword.calling.spelling)
    (reads : read .sequence capacity ⟨levels, siblings, .items⟩ (head :: tail) = .ok result) :
    StartsWithPhrase room (head :: tail) := by
  have space := room_of_read_calling calls reads
  obtain ⟨spare, rfl⟩ : ∃ spare, room = spare + 1 := ⟨room - 1, by omega⟩
  rw [read_calling calls space] at reads
  have starts := shorter _ _ spare tail (Nat.lt_succ_self _)
    (by rw [List.length_cons]; omega) reads
  obtain ⟨callee, inside, turner, inner, rfl, ofCallee, ends⟩ :=
    exists_of_read_inside (by omega) starts reads
  rcases ends with ⟨-, term, impossible, -⟩ | ⟨turns, opener, -, readsArgs⟩
  · cases impossible
  · have less : inner.length < (inside ++ turner :: inner).length + 1 := by
      rw [List.length_append, List.length_cons]
      omega
    obtain ⟨args, operands, closer, phrase, consumed, rest, rfl, stops, closes, ⟨term, shuts⟩,
      ofArgs, ofTail⟩ := exists_of_read_to_closing fits shorter less
      (fun _ same => by cases same) readsArgs
    cases callee with
    | nil => cases shuts
    | cons first others =>
        refine ⟨.application first others args :: phrase,
          head :: (inside ++ turner :: (operands ++ closer :: consumed)), rest, by simp,
          stops, ?_⟩
        simpa [calls, turns, closes] using ofCallee.application ofArgs ofTail

/-- Words that are read without a fault start with a legal phrase. -/
theorem startsWithPhrase_of_read {lexemes : List Lexeme}
    (fits : levels.length + room = capacity)
    (reads : read .sequence capacity ⟨levels, siblings, .items⟩ lexemes = .ok result) :
    StartsWithPhrase room lexemes := by
  induction lexemes using WellFounded.induction (measure List.length).wf
    generalizing levels siblings room with
  | h lexemes ih =>
      cases lexemes with
      | nil => exact ⟨[], [], [], rfl, Phrase.ends_nil, .nil⟩
      | cons head tail =>
          have shorter : ShorterStart capacity (tail.length + 1) result :=
            fun _ _ _ lexemes less fits reads => ih lexemes less fits reads
          by_cases plain : head.text ∉ Keyword.structural
          · rw [read_word plain] at reads
            obtain ⟨phrase, consumed, rest, rfl, stops, spells⟩ :=
              ih tail (Nat.lt_succ_self _) fits reads
            exact ⟨.word head.text :: phrase, head :: consumed, rest, rfl, stops,
              spells.word plain⟩
          · rw [Classical.not_not] at plain
            simp only [Keyword.structural, List.mem_cons, List.not_mem_nil, or_false] at plain
            have stopping (stop : Stops (head :: tail)) : StartsWithPhrase room (head :: tail) :=
              ⟨[], [], head :: tail, rfl, stop, .nil⟩
            rcases plain with opens | calls | closes | turns
            · exact startsWithPhrase_of_opening fits shorter opens reads
            · exact startsWithPhrase_of_calling fits shorter calls reads
            · exact stopping (Phrase.ends_cons.mpr (.inl closes))
            · exact stopping (Phrase.ends_cons.mpr (.inr turns))

/-- Outside every form, reading gives the terms of the phrase and leaves what comes after it. -/
theorem read_outermost {phrase : List Form} {consumed : List Lexeme}
    (spells : Phrase.Spells phrase capacity (consumed.map Lexeme.text)) (stops : Stops rest) :
    read .sequence capacity .start (consumed ++ rest) = .ok (Phrase.terms phrase, rest) := by
  have fits : ([] : List Level).length + Phrase.nesting phrase ≤ capacity := by
    simpa using spells.fits
  rw [start, read_phrase spells.legal spells.words.symm fits, List.append_nil]
  cases rest with
  | nil => simp [read, unfinished?, terms]
  | cons stop later =>
      rw [read]
      rcases Phrase.ends_cons.mp stops with closes | turns
      · simp [advance, closes, terms]
      · simp [advance, turns, terms]

end Cursor

/-! ## Programs -/

namespace Sequence

/-- Words are read as a program exactly when they spell a legal phrase that nests forms to the
limit at most; the program consists of the terms that the phrase stands for. -/
theorem ofLexemes_eq_ok_iff {lexemes : List Lexeme} {terms : List Term} :
    ofLexemes lexemes = .ok terms ↔
      ∃ phrase, Phrase.Spells phrase nestingLimit (lexemes.map Lexeme.text) ∧
        Phrase.terms phrase = terms := by
  constructor
  · intro accepts
    unfold ofLexemes at accepts
    split at accepts
    · cases accepts
    · rename_i read reads
      cases accepts
      obtain ⟨phrase, consumed, rest, rfl, stops, spells⟩ :=
        Cursor.startsWithPhrase_of_read (Nat.zero_add nestingLimit) reads
      rw [read, Cursor.read_outermost spells stops] at reads
      cases reads
      rw [List.append_nil]
      exact ⟨phrase, spells, rfl⟩
    · cases accepts
  · rintro ⟨phrase, spells, rfl⟩
    have none : Cursor.Stops [] := Phrase.ends_nil
    have reads := Cursor.read_outermost spells none
    rw [List.append_nil] at reads
    rw [ofLexemes, read, reads]

theorem parse_eq_ok_iff {sourceName source : Text} {terms : List Term} :
    parse sourceName source = .ok terms ↔
      ∃ phrase, Phrase.Spells phrase nestingLimit ((Lexeme.scan source).map Lexeme.text) ∧
        Phrase.terms phrase = terms := by
  rw [← ofLexemes_eq_ok_iff, parse]
  cases ofLexemes (Lexeme.scan source) <;> simp

end Sequence

end Splice
