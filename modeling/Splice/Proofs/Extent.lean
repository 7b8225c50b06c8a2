import Splice.Proofs.Span
import Splice.Proofs.Text.Annotation

/-!
# What spans cover

The spans of the lexemes of a program are ranges of bytes of the program as it was written, its
comments included. They cover the characters that neither lie inside a comment nor separate words,
and no others, and each of them goes as far as it can to both sides.
-/

namespace Splice

/-- A number of bytes after which a text can be cut without cutting a character. -/
def Text.IsBoundary (text : Text) (offset : Nat) : Prop :=
  ∃ front back, text = front ++ back ∧ front.byteLength = offset

namespace Lexeme

/-- The written form of a lexeme takes up a byte. -/
def Covers (lexeme : Lexeme) (offset : Nat) : Prop :=
  lexeme.span.start ≤ offset ∧ offset < lexeme.span.stop

instance (lexeme : Lexeme) (offset : Nat) : Decidable (lexeme.Covers offset) :=
  inferInstanceAs (Decidable (_ ∧ _))

/-- A lexeme has its exact place in a program. -/
structure Exact (source : Text) (lexeme : Lexeme) : Prop where
  filled : lexeme.span.start < lexeme.span.stop
  bounded : lexeme.span.stop ≤ source.byteLength
  starts : source.IsBoundary lexeme.span.start
  stops : source.IsBoundary lexeme.span.stop
  named : lexeme.text ≠ []
  /-- What stands there in the program is what the lexeme is decoded from. It stands there as well
  once comments are blanked, with separators or the ends of the text around it. -/
  written : ∃ written, lexeme.Written source written ∧
    (∀ char ∈ written, isSeparator char = false) ∧
    ∃ before after, source.withoutComments = before ++ (written ++ after) ∧
      before.byteLength = lexeme.span.start ∧
      (∀ mark ∈ before.getLast?, isSeparator mark = true) ∧
      ∀ mark ∈ after.head?, isSeparator mark = true

theorem separates_head? {marks : List (Char × Bool)}
    (begins : ∀ mark ∈ marks.head?, inWord mark = false) :
    ∀ char ∈ (marks.flatMap Text.shown).head?, isSeparator char = true := by
  cases marks with
  | nil => nofun
  | cons mark rest =>
      obtain ⟨separates, filled, -⟩ := shown_separates (begins mark rfl)
      obtain ⟨first, others, same⟩ := List.exists_cons_of_ne_nil filled
      rw [List.flatMap_cons, same]
      rintro char ⟨rfl⟩
      exact separates first (same ▸ List.mem_cons_self)

theorem separates_getLast? {marks : List (Char × Bool)}
    (ends : ∀ mark ∈ marks.getLast?, inWord mark = false) :
    ∀ char ∈ (marks.flatMap Text.shown).getLast?, isSeparator char = true := by
  rcases List.eq_nil_or_concat marks with rfl | ⟨front, mark, rfl⟩
  · nofun
  · rw [List.concat_eq_append] at ends ⊢
    obtain ⟨separates, filled, -⟩ := shown_separates (ends mark List.getLast?_concat)
    intro char last
    rw [List.flatMap_append, List.getLast?_append, List.flatMap_singleton,
      List.getLast?_eq_some_getLast filled, Option.some_or] at last
    obtain rfl := Option.some.inj last
    exact separates _ (List.getLast_mem filled)

theorem exact_of_mem_scan {source : Text} {lexeme : Lexeme} (member : lexeme ∈ scan source) :
    lexeme.Exact source := by
  obtain ⟨front, word, back, marked, filled, solid, before, after, decoded, place⟩ :=
    (tiled_scan source).exists_word member
  have whole : source = front.map Prod.fst ++ (word.map Prod.fst ++ back.map Prod.fst) := by
    rw [← List.map_append, ← List.map_append, ← marked, Text.map_fst_marked]
  have blanked : source.withoutComments =
      front.flatMap Text.shown ++ (word.map Prod.fst ++ back.flatMap Text.shown) := by
    rw [Text.withoutComments, marked, List.flatMap_append, List.flatMap_append,
      flatMap_shown_word solid]
  have stands : lexeme.Written source (word.map Prod.fst) := by
    rw [whole]
    exact written_of_span decoded (by rw [place, Nat.zero_add]; rfl)
  have free : ∀ char ∈ word.map Prod.fst, isSeparator char = false := by
    intro char inside
    obtain ⟨mark, part, rfl⟩ := List.mem_map.mp inside
    have tight := solid mark part
    simp only [inWord, Bool.and_eq_true, Bool.not_eq_true'] at tight
    exact tight.2
  have wide := width_pos filled
  rw [Nat.zero_add] at place
  refine ⟨?_, ?_, ?_, ?_, ?_, word.map Prod.fst, stands, free, front.flatMap Text.shown,
    back.flatMap Text.shown, blanked, ?_, separates_getLast? before, separates_head? after⟩
  · rw [place]
    exact Nat.lt_add_of_pos_right wide
  · rw [place, whole, Text.byteLength_append, Text.byteLength_append, ← Nat.add_assoc]
    exact Nat.le_add_right _ _
  · refine ⟨front.map Prod.fst, _, whole, ?_⟩
    rw [place]
    rfl
  · refine ⟨front.map Prod.fst ++ word.map Prod.fst, back.map Prod.fst, ?_, ?_⟩
    · rw [whole, List.append_assoc]
    · rw [place, Text.byteLength_append]
      rfl
  · exact text_ne_nil_of_mem_scan member
  · rw [place, byteLength_flatMap_shown]

/-- The characters that spans cover are those outside of comments that do not separate words. -/
theorem covered_iff_of_scan (before : Text) (char : Char) (after : Text) :
    let source := before ++ char :: after
    (∃ lexeme ∈ scan source, lexeme.Covers before.byteLength) ↔
      isSeparator char = false ∧ ¬ source.InComment before.length := by
  intro source
  have whole : (Text.marked .code source).map Prod.fst = before ++ char :: after :=
    Text.map_fst_marked .code source
  obtain ⟨front, others, marked, rfl, rest⟩ := List.map_eq_append_iff.mp whole
  obtain ⟨mark, back, rfl, rfl, rfl⟩ := List.map_eq_cons_iff.mp rest
  have covered := (tiled_scan source).covered_iff marked
  rw [Nat.zero_add] at covered
  have index : (Text.marked .code source)[(front.map Prod.fst).length]? = some mark := by
    rw [marked, List.length_map, List.getElem?_append_right (Nat.le_refl _), Nat.sub_self]
    rfl
  have inside : source.InComment (front.map Prod.fst).length ↔ mark.2 = true := by
    rw [Text.inComment_iff, index]
    simp [Prod.ext_iff]
  rw [inside, Bool.not_eq_true]
  refine covered.trans ?_
  simp [inWord, and_comm]

/-- The spans of a program are exact: each one is the range of a word in the program as it was
written, later ones come after a gap, and what is not covered is a separator or part of a
comment. -/
theorem scan_spans_exact (source : Text) :
    (∀ lexeme ∈ scan source, lexeme.Exact source) ∧
    (scan source).Pairwise (fun left right => left.span.stop < right.span.start) ∧
    ∀ (before : Text) (char : Char) (after : Text), source = before ++ char :: after →
      ((∃ lexeme ∈ scan source, lexeme.Covers before.byteLength) ↔
        isSeparator char = false ∧ ¬ source.InComment before.length) := by
  refine ⟨fun lexeme => exact_of_mem_scan, (tiled_scan source).pairwise, ?_⟩
  rintro before char after rfl
  exact covered_iff_of_scan before char after

/-- A word between a comment with a wide character and a comment that touches it, and a letter in
the second comment. -/
theorem scan_spans_exact_between_comments :
    let source : Text := "/*é*/a\\sb//c\n d/".toList
    let lexeme : Lexeme := ⟨"a b".toList, ⟨6, 10⟩⟩
    let before : Text := "/*é*/a\\sb//".toList
    lexeme ∈ scan source ∧ lexeme.Exact source ∧
      source = before ++ 'c' :: "\n d/".toList ∧ source.InComment before.length := by
  intro source lexeme before
  obtain ⟨exact, -, covered⟩ := scan_spans_exact source
  have member : lexeme ∈ scan source := by decide +kernel
  have split : source = before ++ 'c' :: "\n d/".toList := by decide
  refine ⟨member, exact lexeme member, split, ?_⟩
  apply Classical.byContradiction
  intro outside
  have bare : ¬ ∃ lexeme ∈ scan source, lexeme.Covers before.byteLength := by decide +kernel
  exact bare ((covered before 'c' _ split).mpr ⟨by decide, outside⟩)

end Lexeme

end Splice
