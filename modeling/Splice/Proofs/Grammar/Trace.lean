import Splice.Proofs.Grammar.Source
import Splice.Proofs.Occurrence

/-!
# Reading a trace back

The trace form of a sequence is read back as the sequence itself exactly when the sequence is
printable. What has been read is printable but for two things: an escape can hide the opening of
a comment that the trace form shows, and the terms of a callee can collapse into a name that has
the shape of a literal.
-/

namespace Splice

/-! ## Texts that a program can hold -/

/-- Whether reading can put a text into a place. -/
def Role.Readable : Role → Text → Prop
  | .name, text => text ≠ [] ∧ text ∉ Keyword.structural
  | .literal, raw => Word.isLiteral raw = true
  | .param, text => Word.isVariable text = true
  | .definition, text =>
      text ≠ [] ∧ Word.isVariable text = false ∧ Word.isControl text = false

/-- Whether a word with the shape of a literal stands for a literal, and only such a word. -/
def Role.Shaped : Role → Text → Prop
  | .name, text => Word.isLiteral text = false
  | .literal, raw => Word.isLiteral raw = true
  | .param, _ => True
  | .definition, _ => True

/-- Whether a text can be written in a place and read back. -/
def Role.Printable : Role → Text → Prop
  | .name, text =>
      text ≠ [] ∧ text ∉ Keyword.structural ∧ Word.isLiteral text = false ∧ ¬ text.OpensComment
  | .literal, raw => Word.isLiteral raw = true ∧ ¬ raw.OpensComment
  | .param, text => Word.isVariable text = true
  | .definition, text =>
      text ≠ [] ∧ Word.isVariable text = false ∧ Word.isControl text = false ∧
        ¬ text.OpensComment

/-- A sequence that can be written and read back: so can every text in its place, and the forms
are not nested too deeply. -/
structure Sequence.Printable (terms : List Term) : Prop where
  texts : Sequence.Every Role.Printable terms
  nests : Sequence.nesting terms ≤ nestingLimit

instance (role : Role) (text : Text) : Decidable (role.Printable text) :=
  match role with
  | .name => inferInstanceAs (Decidable (_ ∧ _ ∧ _ ∧ _))
  | .literal => inferInstanceAs (Decidable (_ ∧ _))
  | .param => inferInstanceAs (Decidable (_ = _))
  | .definition => inferInstanceAs (Decidable (_ ∧ _ ∧ _ ∧ _))

instance (terms : List Term) : Decidable (Sequence.Printable terms) :=
  decidable_of_iff
    ((∀ occurrence ∈ Sequence.occurrences terms, occurrence.1.Printable occurrence.2) ∧
      Sequence.nesting terms ≤ nestingLimit)
    ⟨fun ⟨texts, nests⟩ => ⟨fun role text => texts (role, text), nests⟩,
      fun printable => ⟨fun (role, text) => printable.texts role text, printable.nests⟩⟩

theorem Word.isVariableChar_of_mem {text : Text} (bindable : isVariable text = true) {char : Char}
    (member : char ∈ text) : isVariableChar char = true := by
  unfold isVariable at bindable
  rw [Bool.and_eq_true, List.all_eq_true] at bindable
  exact bindable.2 char member

theorem Word.not_opensComment_of_isVariable {text : Text} (bindable : isVariable text = true) :
    ¬ text.OpensComment := by
  apply Text.not_opensComment_of_not_mem
  intro member
  have slash := isVariableChar_of_mem bindable member
  cases slash

theorem Role.Readable.ne_nil {role : Role} {text : Text} (readable : role.Readable text) :
    text ≠ [] := by
  rintro rfl
  cases role with
  | name => exact readable.1 rfl
  | literal => cases readable
  | param => cases readable
  | definition => exact readable.1 rfl

theorem Role.printable_iff (role : Role) (text : Text) :
    role.Printable text ↔ role.Readable text ∧ role.Shaped text ∧ ¬ text.OpensComment := by
  cases role with
  | name => simp [Printable, Readable, Shaped, and_assoc]
  | literal => simp [Printable, Readable, Shaped]
  | param =>
      constructor
      · intro bindable
        exact ⟨bindable, True.intro, Word.not_opensComment_of_isVariable bindable⟩
      · rintro ⟨bindable, -⟩
        exact bindable
  | definition => simp [Printable, Readable, Shaped, and_assoc]

/-! ## The phrase that a sequence is written as -/

mutual

/-- The form that a term is written as; its callee is one form. -/
def Term.form : Term → Form
  | .name text => .word text
  | .literal raw => .word raw
  | .lam param body => .function param (Sequence.phrase body)
  | .define name body => .definition name (Sequence.phrase body)
  | .app callee args => .application (Term.form callee) [] (Sequence.phrase args)

/-- The phrase that a sequence is written as. -/
def Sequence.phrase : List Term → List Form
  | [] => []
  | head :: tail => Term.form head :: Sequence.phrase tail

end

theorem Word.not_mem_structural_of_isLiteral {raw : Text} (literal : isLiteral raw = true) :
    raw ∉ Keyword.structural := by
  have keywords : ∀ text ∈ Keyword.structural, isLiteral text = false := by decide
  intro member
  rw [keywords raw member] at literal
  cases literal

namespace Sequence

theorem words_phrase (terms : List Term) : Phrase.words (phrase terms) = words id terms := by
  induction terms using Sequence.induction with
  | nil => rfl
  | name text tail ih =>
      simp [phrase, Term.form, Phrase.words, Form.words, words, Term.words, ih]
  | literal raw tail ih =>
      simp [phrase, Term.form, Phrase.words, Form.words, words, Term.words, ih]
  | lam param body tail ofBody ih =>
      simp [phrase, Term.form, Phrase.words, Form.words, words, Term.words, ofBody, ih]
  | define name body tail ofBody ih =>
      simp [phrase, Term.form, Phrase.words, Form.words, words, Term.words, ofBody, ih]
  | app callee args tail ofCallee ofArgs ih =>
      simp only [phrase, Phrase.words, words, List.append_nil] at ofCallee
      simp [phrase, Term.form, Phrase.words, Form.words, words, Term.words, ofCallee, ofArgs, ih]

theorem nesting_phrase (terms : List Term) : Phrase.nesting (phrase terms) = nesting terms := by
  induction terms using Sequence.induction with
  | nil => rfl
  | name text tail ih =>
      simp [phrase, Term.form, Phrase.nesting, Form.nesting, nesting, Term.nesting, ih]
  | literal raw tail ih =>
      simp [phrase, Term.form, Phrase.nesting, Form.nesting, nesting, Term.nesting, ih]
  | lam param body tail ofBody ih =>
      simp [phrase, Term.form, Phrase.nesting, Form.nesting, nesting, Term.nesting, ofBody, ih]
  | define name body tail ofBody ih =>
      simp [phrase, Term.form, Phrase.nesting, Form.nesting, nesting, Term.nesting, ofBody, ih]
  | app callee args tail ofCallee ofArgs ih =>
      simp only [phrase, Phrase.nesting, nesting, Nat.max_zero] at ofCallee
      simp [phrase, Term.form, Phrase.nesting, Form.nesting, nesting, Term.nesting, ofCallee,
        ofArgs, ih]

theorem legal_phrase {terms : List Term} (readable : Every Role.Readable terms) :
    Phrase.Legal (phrase terms) := by
  induction terms using Sequence.induction with
  | nil => exact True.intro
  | name text tail ih =>
      obtain ⟨⟨-, plain⟩, later⟩ := (every_name text tail).mp readable
      exact ⟨plain, ih later⟩
  | literal raw tail ih =>
      obtain ⟨literal, later⟩ := (every_literal raw tail).mp readable
      exact ⟨Word.not_mem_structural_of_isLiteral literal, ih later⟩
  | lam param body tail ofBody ih =>
      obtain ⟨bindable, inside, later⟩ := (every_lam param body tail).mp readable
      exact ⟨⟨bindable, ofBody inside⟩, ih later⟩
  | define name body tail ofBody ih =>
      obtain ⟨⟨-, free, solid⟩, inside, later⟩ := (every_define name body tail).mp readable
      exact ⟨⟨free, solid, ofBody inside⟩, ih later⟩
  | app callee args tail ofCallee ofArgs ih =>
      obtain ⟨called, given, later⟩ := (every_app callee args tail).mp readable
      exact ⟨⟨(ofCallee called).1, True.intro, ofArgs given⟩, ih later⟩

/-- The phrase that a sequence is written as stands for that sequence exactly when literals can
be told from names by their shape. -/
theorem terms_phrase_eq_iff (terms : List Term) :
    Phrase.terms (phrase terms) = terms ↔ Every Role.Shaped terms := by
  induction terms using Sequence.induction with
  | nil => simp [phrase, Phrase.terms]
  | name text tail ih =>
      simp [phrase, Term.form, Phrase.terms, Form.term, Term.atom, Role.Shaped, ih]
  | literal raw tail ih =>
      simp [phrase, Term.form, Phrase.terms, Form.term, Term.atom, Role.Shaped, ih]
  | lam param body tail ofBody ih =>
      simp [phrase, Term.form, Phrase.terms, Form.term, Role.Shaped, ofBody, ih]
  | define name body tail ofBody ih =>
      simp [phrase, Term.form, Phrase.terms, Form.term, Role.Shaped, ofBody, ih]
  | app callee args tail ofCallee ofArgs ih =>
      simp only [phrase, Phrase.terms, List.cons.injEq, and_true] at ofCallee
      simp [phrase, Term.form, Phrase.terms, Form.term, Term.collapse, ofCallee, ofArgs, ih,
        and_assoc]

/-! ## Words of the trace form -/

end Sequence

theorem Keyword.escape_spelling (keyword : Keyword) :
    Text.escape keyword.spelling = keyword.spelling := by
  cases keyword <;> decide

theorem Keyword.spelling_ne_nil (keyword : Keyword) : keyword.spelling ≠ [] := by
  cases keyword <;> decide

theorem Keyword.not_opensComment_spelling (keyword : Keyword) :
    ¬ keyword.spelling.OpensComment := by
  apply Text.not_opensComment_of_not_mem
  cases keyword <;> decide

theorem Text.escapeChar_of_isVariableChar {char : Char}
    (bindable : Word.isVariableChar char = true) : escapeChar char = [char] := by
  unfold escapeChar
  split
  · exact absurd bindable (by decide)
  · exact absurd bindable (by decide)
  · exact absurd bindable (by decide)
  · exact absurd bindable (by decide)
  · exact absurd bindable (by decide)
  · rfl

theorem Word.escape_of_isVariable {text : Text} (bindable : isVariable text = true) :
    text.escape = text := by
  apply Text.escape_eq_self
  intro char member
  exact Text.escapeChar_of_isVariableChar (isVariableChar_of_mem bindable member)

namespace Sequence

/-- The trace form is the words of a sequence, all of them escaped, where the parameters of
functions and the keywords need no escapes. -/
theorem words_escape {terms : List Term} (readable : Every Role.Readable terms) :
    words Text.escape terms = (words id terms).map Text.escape := by
  induction terms using Sequence.induction with
  | nil => rfl
  | name text tail ih =>
      have later := ((every_name text tail).mp readable).2
      simp [words, Term.words, ih later]
  | literal raw tail ih =>
      have later := ((every_literal raw tail).mp readable).2
      simp [words, Term.words, ih later]
  | lam param body tail ofBody ih =>
      obtain ⟨bindable, inside, later⟩ := (every_lam param body tail).mp readable
      simp [words, Term.words, Keyword.escape_spelling, Word.escape_of_isVariable bindable,
        ofBody inside, ih later]
  | define name body tail ofBody ih =>
      obtain ⟨-, inside, later⟩ := (every_define name body tail).mp readable
      simp [words, Term.words, Keyword.escape_spelling, ofBody inside, ih later]
  | app callee args tail ofCallee ofArgs ih =>
      obtain ⟨called, given, later⟩ := (every_app callee args tail).mp readable
      have ofCallee := ofCallee called
      simp only [words, List.append_nil] at ofCallee
      simp [words, Term.words, Keyword.escape_spelling, ofCallee, ofArgs given, ih later]

theorem solid_of_mem_words_escape {terms : List Term} (readable : Every Role.Readable terms) :
    ∀ word ∈ words Text.escape terms, Lexeme.Solid word := by
  have filled : ∀ word ∈ words id terms, word ≠ [] := by
    rw [forall_mem_words_iff Keyword.spelling_ne_nil]
    exact fun role text member => (readable role text member).ne_nil
  intro word member
  rw [words_escape readable] at member
  obtain ⟨plain, inside, rfl⟩ := List.mem_map.mp member
  exact ⟨Text.escape_ne_nil (filled plain inside), fun char => Text.isSeparator_of_mem_escape⟩

/-- Scanning the trace form gives the words of the sequence. -/
theorem map_text_scan_trace {terms : List Term} (readable : Every Role.Readable terms)
    (closed : ∀ word ∈ words id terms, ¬ word.OpensComment) :
    (Lexeme.scan (trace terms)).map Lexeme.text = words id terms := by
  have closedTrace : ∀ word ∈ words Text.escape terms, ¬ word.OpensComment := by
    intro word member
    rw [words_escape readable] at member
    obtain ⟨plain, inside, rfl⟩ := List.mem_map.mp member
    rw [Text.opensComment_escape]
    exact closed plain inside
  rw [trace, Lexeme.map_text_scan_unwords (solid_of_mem_words_escape readable) closedTrace,
    words_escape readable, List.map_map]
  exact List.map_id'' Text.unescape_escape (words id terms)

/-- What the trace form is read as: the words with the shape of literals become literals. -/
theorem parse_trace {terms : List Term} (readable : Every Role.Readable terms)
    (closed : ∀ word ∈ words id terms, ¬ word.OpensComment)
    (fits : nesting terms ≤ nestingLimit) (sourceName : Text) :
    parse sourceName (trace terms) = .ok (Phrase.terms (phrase terms)) := by
  apply parse_eq_ok_iff.mpr
  refine ⟨phrase terms, ⟨legal_phrase readable, ?_, ?_⟩, rfl⟩
  · rw [words_phrase, map_text_scan_trace readable closed]
  · rw [nesting_phrase]
    exact fits

end Sequence

/-! ## What has been read -/

/-- A name that holds a space is neither empty nor a keyword. -/
theorem admitsSpaced_readable : AdmitsSpaced Role.Readable := by
  intro text space
  have keywords : ∀ keyword ∈ Keyword.structural, ' ' ∉ keyword := by decide
  exact ⟨List.ne_nil_of_mem space, fun keyword => keywords text keyword space⟩

theorem Term.readable_collapse {first : Term} {others : List Term}
    (readable : Sequence.Every Role.Readable (first :: others)) :
    Sequence.Every Role.Readable [first.collapse others] :=
  Sequence.every_collapse admitsSpaced_readable readable (Sequence.collapse?_cons first others)

theorem Term.nesting_collapse_le (first : Term) (others : List Term) :
    (first.collapse others).nesting ≤ Sequence.nesting (first :: others) := by
  cases others with
  | nil => exact Nat.le_max_left _ _
  | cons second rest => exact Nat.zero_le _

theorem Phrase.readable_terms {phrase : List Form} (legal : Phrase.Legal phrase)
    (filled : ∀ word ∈ Phrase.words phrase, word ≠ []) :
    Sequence.Every Role.Readable (Phrase.terms phrase) := by
  induction phrase using Phrase.induction with
  | nil => exact Sequence.every_nil
  | word text tail ih =>
      obtain ⟨full, others⟩ := List.forall_mem_cons.mp filled
      have later := ih legal.2 others
      simp only [terms, Form.term, Term.atom]
      split
      · rename_i literal
        exact (Sequence.every_literal text _).mpr ⟨literal, later⟩
      · exact (Sequence.every_name text _).mpr ⟨⟨full, legal.1⟩, later⟩
  | definition name body tail ofBody ih =>
      obtain ⟨⟨free, solid, inside⟩, after⟩ := legal
      simp only [words, Form.words, List.cons_append, List.append_assoc, List.forall_mem_cons,
        List.forall_mem_append] at filled
      obtain ⟨-, named, -, within, -, -, later⟩ := filled
      exact (Sequence.every_define name _ _).mpr
        ⟨⟨named, free, solid⟩, ofBody inside within, ih after later⟩
  | function param body tail ofBody ih =>
      obtain ⟨⟨bindable, inside⟩, after⟩ := legal
      simp only [words, Form.words, List.cons_append, List.append_assoc, List.forall_mem_cons,
        List.forall_mem_append] at filled
      obtain ⟨-, -, -, within, -, -, later⟩ := filled
      exact (Sequence.every_lam param _ _).mpr ⟨bindable, ofBody inside within, ih after later⟩
  | application first others args tail ofCallee ofArgs ih =>
      obtain ⟨⟨head, rest, given⟩, after⟩ := legal
      simp only [words, Form.words, List.cons_append, List.append_assoc, List.forall_mem_cons,
        List.forall_mem_append] at filled ofCallee
      obtain ⟨-, inFirst, inOthers, -, inArgs, -, -, later⟩ := filled
      have callee := ofCallee ⟨head, rest⟩ ⟨inFirst, inOthers⟩
      exact (Sequence.every_app _ _ _).mpr
        ⟨Term.readable_collapse callee, ofArgs given inArgs, ih after later⟩

theorem Phrase.nesting_terms_le (phrase : List Form) :
    Sequence.nesting (Phrase.terms phrase) ≤ Phrase.nesting phrase := by
  induction phrase using Phrase.induction with
  | nil => exact Nat.le_refl 0
  | word text tail ih =>
      simp only [terms, Form.term, Term.atom, Sequence.nesting, nesting, Form.nesting]
      split <;> simpa [Term.nesting] using ih
  | definition name body tail ofBody ih =>
      simp only [terms, Form.term, Sequence.nesting, Term.nesting, nesting, Form.nesting]
      omega
  | function param body tail ofBody ih =>
      simp only [terms, Form.term, Sequence.nesting, Term.nesting, nesting, Form.nesting]
      omega
  | application first others args tail ofCallee ofArgs ih =>
      have callee := Nat.le_trans (Term.nesting_collapse_le first.term (terms others)) ofCallee
      simp only [terms, Form.term, Sequence.nesting, Term.nesting, nesting, Form.nesting] at *
      omega

namespace Sequence

section Parsed

variable {sourceName source : Text} {terms : List Term}

theorem readable_of_parse (parsed : parse sourceName source = .ok terms) :
    Every Role.Readable terms := by
  obtain ⟨phrase, spells, rfl⟩ := parse_eq_ok_iff.mp parsed
  apply Phrase.readable_terms spells.legal
  intro word member
  rw [spells.words] at member
  obtain ⟨lexeme, scanned, rfl⟩ := List.mem_map.mp member
  exact Lexeme.text_ne_nil_of_mem_scan scanned

theorem nesting_of_parse (parsed : parse sourceName source = .ok terms) :
    nesting terms ≤ nestingLimit := by
  obtain ⟨phrase, spells, rfl⟩ := parse_eq_ok_iff.mp parsed
  exact Nat.le_trans (Phrase.nesting_terms_le phrase) spells.fits

/-- Reading neither hides nor makes the opening of a comment in a word. -/
theorem closed_words_iff_of_parse (parsed : parse sourceName source = .ok terms) :
    (∀ word ∈ words id terms, ¬ word.OpensComment) ↔
      ∀ lexeme ∈ Lexeme.scan source, ¬ lexeme.text.OpensComment := by
  have same := Text.unwords_eq_of_spaced_eq (spaced_words_of_parse parsed)
  have opened := Text.opensComment_unwords (words id terms)
  rw [same, Text.opensComment_unwords] at opened
  have closed := not_congr opened.symm
  simpa using closed

end Parsed

/-- A sequence whose trace form is read back has no word in which a comment opens: the words that
are read back hold as many slashes as the trace form, and blanking a comment loses one. -/
theorem closed_words_of_parse_trace {sourceName : Text} {terms : List Term}
    (parsed : parse sourceName (trace terms) = .ok terms) :
    ∀ word ∈ words id terms, ¬ word.OpensComment := by
  have written := words_escape (readable_of_parse parsed)
  intro word member opens
  have opensTrace : (trace terms).OpensComment := by
    rw [trace, written, Text.opensComment_unwords]
    exact ⟨word.escape, List.mem_map_of_mem member, (Text.opensComment_escape word).mpr opens⟩
  have fewer := Lexeme.count_slash_scan_lt opensTrace
  have slashes : (trace terms).count '/' = (Text.spaced (words id terms)).count '/' := by
    rw [trace, Text.count_slash_unwords, written, Text.count_slash_spaced_escape]
  rw [slashes, spaced_words_of_parse parsed] at fewer
  exact Nat.lt_irrefl _ fewer

/-! ## Reading back -/

/-- A sequence that reading can give is read back from its trace form exactly when literals can
be told from names by their shape and no comment opens in a word. -/
theorem parse_trace_eq_ok_iff_of_readable {terms : List Term}
    (readable : Every Role.Readable terms) (fits : nesting terms ≤ nestingLimit)
    (sourceName : Text) :
    parse sourceName (trace terms) = .ok terms ↔
      Every Role.Shaped terms ∧ ∀ word ∈ words id terms, ¬ word.OpensComment := by
  constructor
  · intro parsed
    have closed := closed_words_of_parse_trace parsed
    have reread := parse_trace readable closed fits sourceName
    have same := Except.ok.inj (reread.symm.trans parsed)
    exact ⟨(terms_phrase_eq_iff terms).mp same, closed⟩
  · rintro ⟨shaped, closed⟩
    rw [parse_trace readable closed fits sourceName, (terms_phrase_eq_iff terms).mpr shaped]

theorem every_printable_iff (terms : List Term) :
    Every Role.Printable terms ↔
      Every Role.Readable terms ∧ Every Role.Shaped terms ∧
        ∀ word ∈ words id terms, ¬ word.OpensComment := by
  rw [forall_mem_words_iff Keyword.not_opensComment_spelling]
  simp only [Every, Role.printable_iff, imp_and, forall_and]

/-- The trace form of a sequence is read back as the sequence exactly when it is printable. -/
theorem parse_trace_eq_ok_iff (sourceName : Text) (terms : List Term) :
    parse sourceName (trace terms) = .ok terms ↔ Printable terms := by
  constructor
  · intro parsed
    have readable := readable_of_parse parsed
    have fits := nesting_of_parse parsed
    have faithful := (parse_trace_eq_ok_iff_of_readable readable fits sourceName).mp parsed
    exact ⟨(every_printable_iff terms).mpr ⟨readable, faithful⟩, fits⟩
  · rintro ⟨texts, nests⟩
    obtain ⟨readable, faithful⟩ := (every_printable_iff terms).mp texts
    exact (parse_trace_eq_ok_iff_of_readable readable nests sourceName).mpr faithful

example : Printable [.lam "x".toList [.name "a b".toList], .literal "Po/op".toList] ∧
    ¬ Printable [.app (.literal "Po//op".toList) []] := by
  decide +kernel

/-- What has been read is read back from its trace form exactly when no comment opens in a word
of the program, its escapes resolved, and no callee collapsed into the shape of a literal. -/
theorem parse_trace_iff_of_parse {sourceName source : Text} {terms : List Term}
    (parsed : parse sourceName source = .ok terms) (again : Text) :
    parse again (trace terms) = .ok terms ↔
      (∀ lexeme ∈ Lexeme.scan source, ¬ lexeme.text.OpensComment) ∧
        ∀ text, (Role.name, text) ∈ occurrences terms → Word.isLiteral text = false := by
  have readable := readable_of_parse parsed
  have shaped : Every Role.Shaped terms ↔
      ∀ text, (Role.name, text) ∈ occurrences terms → Word.isLiteral text = false := by
    constructor
    · intro every text member
      exact every .name text member
    · intro names role text member
      cases role with
      | name => exact names text member
      | literal => exact readable .literal text member
      | param => exact True.intro
      | definition => exact True.intro
  rw [parse_trace_eq_ok_iff_of_readable readable (nesting_of_parse parsed), shaped,
    closed_words_iff_of_parse parsed]
  exact And.comm

/-- A literal with an escaped space and a callee of two terms are read back. -/
theorem parse_trace_of_spaced_callee :
    let terms := [.app (.name "a PoAop".toList) [.literal "Po op".toList]]
    parse [] "pooping a PoAop poopy Po\\sop qooq".toList = .ok terms ∧
      parse [] (trace terms) = .ok terms := by
  intro terms
  have parsed : parse [] "pooping a PoAop poopy Po\\sop qooq".toList = .ok terms := by
    rfl
  have slashes : ∀ lexeme ∈ Lexeme.scan "pooping a PoAop poopy Po\\sop qooq".toList,
      '/' ∉ lexeme.text := by
    decide
  have names : ∀ text, (Role.name, text) ∈ occurrences terms → text = "a PoAop".toList := by
    simp [terms, occurrences, Term.occurrences]
  refine ⟨parsed, (parse_trace_iff_of_parse parsed []).mpr ⟨?_, ?_⟩⟩
  · intro lexeme scanned
    exact Text.not_opensComment_of_not_mem (slashes lexeme scanned)
  · intro text member
    rw [names text member]
    decide

/-- An escaped slash opens a comment in the trace form, and two literals that collapse into one
callee become a literal. -/
theorem trace_misread :
    (parse [] "a/\\/b".toList = .ok [.name "a//b".toList] ∧
      parse [] (trace [.name "a//b".toList]) = .ok [.name "a".toList]) ∧
    (parse [] "pooping PoAop PoBop poopy qooq".toList =
        .ok [.app (.name "PoAop PoBop".toList) []] ∧
      parse [] (trace [.app (.name "PoAop PoBop".toList) []]) =
        .ok [.app (.literal "PoAop PoBop".toList) []]) := by
  constructor
  · constructor <;> rfl
  · constructor <;> rfl

end Sequence

end Splice
