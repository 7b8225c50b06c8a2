import Splice.Proofs.Grammar.Source

/-!
# Formatting

A program without a backslash is told by its words alone. Its source form and its formatted form,
where every term of the program has a line of its own, spell the same words with other
separators, and no comment opens in them. So both are read as the program is, and formatting
again changes nothing.
-/

namespace Splice

theorem Phrase.words_eq_flatten (phrase : List Form) :
    Phrase.words phrase = (phrase.map Form.words).flatten := by
  induction phrase with
  | nil => rfl
  | cons head tail ih => rw [words, ih, List.map_cons, List.flatten_cons]

theorem Phrase.terms_eq_map (phrase : List Form) :
    Phrase.terms phrase = phrase.map Form.term := by
  induction phrase with
  | nil => rfl
  | cons head tail ih => rw [terms, ih, List.map_cons]

theorem Phrase.source_terms (phrase : List Form) :
    Sequence.source (Phrase.terms phrase) = Text.unwords (Phrase.words phrase) :=
  Text.unwords_eq_of_spaced_eq (Phrase.spaced_words_terms phrase)

theorem Form.source_term (form : Form) : form.term.source = Text.unwords form.words := by
  have same := Phrase.source_terms [form]
  rwa [Phrase.words, Phrase.words, List.append_nil] at same

/-- Formatting writes the words of every form on a line of their own. -/
theorem Phrase.format_terms (phrase : List Form) :
    Sequence.format (Phrase.terms phrase) =
      Text.unlines ((phrase.map Form.words).map Text.unwords) := by
  rw [Sequence.format, terms_eq_map, List.map_map, List.map_map]
  exact congrArg Text.unlines (List.map_congr_left fun form _ => form.source_term)

/-! ## Words without escapes -/

namespace Lexeme

/-- A word that is scanned as it is written. -/
structure Plain (word : Text) : Prop where
  solid : Solid word
  closed : ¬ word.OpensComment
  unescaped : word.unescape = word

theorem plain_of_mem_scan {source : Text} (plain : '\\' ∉ source) {lexeme : Lexeme}
    (member : lexeme ∈ scan source) : Plain lexeme.text := by
  obtain ⟨word, decoded, solid, inside⟩ := exists_solid_of_mem_scan member
  have unescaped : word.unescape = word := by
    apply Text.unescape_eq_self
    intro backslash
    exact plain (Text.mem_of_mem_withoutComments (by decide) (inside.subset backslash))
  have closed : ¬ word.OpensComment := by
    intro opens
    apply Text.not_opensComment_blanked .code source
    exact opens.imp (·.trans inside) (·.trans inside)
  rw [decoded, unescaped]
  exact ⟨solid, closed, unescaped⟩

theorem map_unescape_of_plain {words : List Text} (plain : ∀ word ∈ words, Plain word) :
    words.map Text.unescape = words := by
  have same : words.map Text.unescape = words.map id :=
    List.map_congr_left fun word member => (plain word member).unescaped
  rw [same, List.map_id]

theorem map_text_scan_unwords_of_plain {words : List Text}
    (plain : ∀ word ∈ words, Plain word) : (scan (Text.unwords words)).map text = words := by
  have solid : ∀ word ∈ words, Solid word := fun word member => (plain word member).solid
  have closed : ∀ word ∈ words, ¬ word.OpensComment :=
    fun word member => (plain word member).closed
  rw [map_text_scan_unwords solid closed, map_unescape_of_plain plain]

theorem map_text_scan_format_of_plain {phrase : List Form}
    (plain : ∀ word ∈ Phrase.words phrase, Plain word) :
    (scan (Sequence.format (Phrase.terms phrase))).map text = Phrase.words phrase := by
  have among : ∀ row ∈ phrase.map Form.words, ∀ word ∈ row, Plain word := by
    intro row inside word member
    apply plain
    rw [Phrase.words_eq_flatten]
    exact List.mem_flatten_of_mem inside member
  rw [Phrase.format_terms,
    map_text_scan_rows (fun row inside word member => (among row inside word member).solid)
      (fun row inside word member => (among row inside word member).closed),
    ← Phrase.words_eq_flatten, map_unescape_of_plain plain]

end Lexeme

/-! ## Formatting programs -/

namespace Sequence

/-- What formatting the text of a program gives. -/
def formatted (sourceName source : Text) : Except Error Text :=
  (parse sourceName source).map format

theorem formatted_eq_ok {sourceName source : Text} {terms : List Term}
    (parsed : parse sourceName source = .ok terms) :
    formatted sourceName source = .ok (format terms) := by
  rw [formatted, parsed]
  rfl

/-- A program without a backslash is read again from its source form and from its formatted form,
and its formatted form is its own formatted form. -/
theorem formatted_of_plain {sourceName source : Text} {terms : List Term}
    (plain : '\\' ∉ source) (parsed : parse sourceName source = .ok terms) (again : Text) :
    parse again (Sequence.source terms) = .ok terms ∧
      ∃ tidy, formatted sourceName source = .ok tidy ∧ parse again tidy = .ok terms ∧
        formatted again tidy = .ok tidy := by
  obtain ⟨phrase, spells, rfl⟩ := parse_eq_ok_iff.mp parsed
  have words : ∀ word ∈ Phrase.words phrase, Lexeme.Plain word := by
    intro word member
    rw [spells.words] at member
    obtain ⟨lexeme, scanned, rfl⟩ := List.mem_map.mp member
    exact Lexeme.plain_of_mem_scan plain scanned
  -- Reading looks at the words alone, so a text with the same words is read as the same terms.
  have reread {text : Text} (same : (Lexeme.scan text).map Lexeme.text = Phrase.words phrase) :
      parse again text = .ok (Phrase.terms phrase) :=
    parse_eq_ok_iff.mpr ⟨phrase, ⟨spells.legal, same.symm, spells.fits⟩, rfl⟩
  have fromSource : parse again (Sequence.source (Phrase.terms phrase)) =
      .ok (Phrase.terms phrase) := by
    apply reread
    rw [Phrase.source_terms]
    exact Lexeme.map_text_scan_unwords_of_plain words
  have fromFormat : parse again (format (Phrase.terms phrase)) = .ok (Phrase.terms phrase) :=
    reread (Lexeme.map_text_scan_format_of_plain words)
  exact ⟨fromSource, format (Phrase.terms phrase), formatted_eq_ok parsed, fromFormat,
    formatted_eq_ok fromFormat⟩

/-- Slashes and stars that comments keep apart, and a callee of three words. -/
theorem formatted_of_slashes :
    let source := "pooping a/ PoBop/**/* poopy // c\n qooq\tx".toList
    let terms := [.app (.name "a/ PoBop *".toList) [], .name "x".toList]
    let tidy := "pooping a/ PoBop * poopy qooq\nx".toList
    '\\' ∉ source ∧ parse [] source = .ok terms ∧ parse [] (Sequence.source terms) = .ok terms ∧
      formatted [] source = .ok tidy ∧ parse [] tidy = .ok terms ∧
      formatted [] tidy = .ok tidy := by
  intro source terms tidy
  have plain : '\\' ∉ source := by decide
  have parsed : parse [] source = .ok terms := by rfl
  obtain ⟨fromSource, written, writes, fromFormat, fixed⟩ := formatted_of_plain plain parsed []
  have written_eq : written = tidy :=
    Except.ok.inj (writes.symm.trans (formatted_eq_ok parsed))
  rw [written_eq] at writes fromFormat fixed
  exact ⟨plain, parsed, fromSource, writes, fromFormat, fixed⟩

end Sequence

end Splice
