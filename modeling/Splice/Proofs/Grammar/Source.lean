import Splice.Proofs.Grammar.Reading
import Splice.Proofs.Lexeme
import Splice.Proofs.Occurrence

/-!
# The source form of a program that has been read

The source form of a program is its words again, in order, with single spaces between them. A
callee of several terms is spelled by one word that holds their words with spaces between them,
so the words of the terms are fewer than those of the phrase, and only the texts agree.
-/

namespace Splice

theorem Term.words_ne_nil (spell : Text → Text) (term : Term) : term.words spell ≠ [] := by
  cases term <;> simp [Term.words]

theorem Term.words_atom (text : Text) : (Term.atom text).words id = [text] := by
  unfold atom
  split <;> rfl

/-- A collapsed callee is spelled as the terms that it stands for. -/
theorem Term.spaced_words_collapse (first : Term) (others : List Term) :
    Text.spaced ((first.collapse others).words id) =
      Text.spaced (Sequence.words id (first :: others)) := by
  cases others with
  | nil => simp [collapse, Sequence.words]
  | cons second rest =>
      have filled : Sequence.words id (first :: second :: rest) ≠ [] := by
        simp [Sequence.words, words_ne_nil]
      rw [Text.spaced_eq_cons_unwords filled]
      simp [collapse, words, Sequence.source]

/-- The name that several terms collapse into holds a space. -/
theorem Sequence.space_mem_source (first second : Term) (rest : List Term) :
    ' ' ∈ Sequence.source (first :: second :: rest) := by
  apply Text.space_mem_unwords (Term.words_ne_nil id first)
  simp [Sequence.words, Term.words_ne_nil]

theorem Sequence.every_collapse {holds : Role → Text → Prop} (spaced : AdmitsSpaced holds)
    {terms : List Term} {term : Term} (every : Sequence.Every holds terms)
    (collapses : Sequence.collapse? terms = some term) :
    Sequence.Every holds [term] := by
  rcases terms with _ | ⟨first, _ | ⟨second, rest⟩⟩
  · cases collapses
  · cases collapses
    exact every
  · cases collapses
    rw [every_name]
    exact ⟨spaced _ (space_mem_source first second rest), every_nil⟩

/-- The terms of a phrase are spelled as the phrase is, but for where a word ends. -/
theorem Phrase.spaced_words_terms (phrase : List Form) :
    Text.spaced (Sequence.words id (Phrase.terms phrase)) = Text.spaced (Phrase.words phrase) := by
  induction phrase using Phrase.induction with
  | nil => rfl
  | word text tail ih =>
      simp only [terms, Form.term, Sequence.words, Term.words_atom, words, Form.words,
        Text.spaced_append, ih]
  | definition name body tail ofBody ih =>
      simp [terms, Form.term, Sequence.words, Term.words, words, Form.words, ofBody, ih]
  | function param body tail ofBody ih =>
      simp [terms, Form.term, Sequence.words, Term.words, words, Form.words, ofBody, ih]
  | application first others args tail ofCallee ofArgs ih =>
      have callee : Text.spaced ((first.term.collapse (terms others)).words id) =
          Text.spaced (first.words ++ words others) :=
        (Term.spaced_words_collapse first.term (terms others)).trans ofCallee
      simp [terms, Form.term, Sequence.words, Term.words, words, Form.words, callee, ofArgs, ih]

theorem Sequence.spaced_words_of_parse {sourceName source : Text} {terms : List Term}
    (parsed : Sequence.parse sourceName source = .ok terms) :
    Text.spaced (Sequence.words id terms) =
      Text.spaced ((Lexeme.scan source).map Lexeme.text) := by
  obtain ⟨phrase, spells, rfl⟩ := Sequence.parse_eq_ok_iff.mp parsed
  rw [← spells.words]
  exact Phrase.spaced_words_terms phrase

/-- No word of a program is lost, doubled or moved by reading it: the source form of what has
been read is the words of the program, in order, with single spaces between them. -/
theorem Sequence.source_eq_unwords_of_parse {sourceName source : Text} {terms : List Term}
    (parsed : Sequence.parse sourceName source = .ok terms) :
    Sequence.source terms = Text.unwords ((Lexeme.scan source).map Lexeme.text) :=
  Text.unwords_eq_of_spaced_eq (Sequence.spaced_words_of_parse parsed)

/-- Comments, an empty body, and a callee inside a callee that is collapsed with it. -/
theorem Sequence.source_of_nested_callee :
    let source := "poop A is qooq/**/pooping a pooping b c poopy qooq poopy //\n qooq".toList
    Sequence.parse [] source = .ok
        [.define "A".toList [], .app (.name "a pooping b c poopy qooq".toList) []] ∧
      Sequence.source [.define "A".toList [], .app (.name "a pooping b c poopy qooq".toList) []] =
        Text.unwords ((Lexeme.scan source).map Lexeme.text) := by
  intro source
  have parsed : Sequence.parse [] source = .ok
      [.define "A".toList [], .app (.name "a pooping b c poopy qooq".toList) []] := by
    rfl
  exact ⟨parsed, Sequence.source_eq_unwords_of_parse parsed⟩

end Splice
