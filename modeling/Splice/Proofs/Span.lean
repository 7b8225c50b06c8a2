import Splice.Proofs.Text.Slice
import Splice.Proofs.Tiling

/-!
# Where words stand

A comment is blanked by as many bytes as it has, so the words of a program stand in the program at
the very bytes where they are found after its comments have been blanked. `Lexeme.Laid` says of
lexemes that they stand in a text in this way, one after the other, whatever stands between them.
So the slice of a program at a lexeme is what the lexeme was decoded from, and the slice from one
lexeme to a later one starts and ends with what those two were decoded from.
-/

namespace Splice

/-- Blanking comments leaves the length of a text as it is. -/
theorem Text.byteLength_withoutComments (text : Text) :
    text.withoutComments.byteLength = text.byteLength := by
  rw [withoutComments, Lexeme.byteLength_flatMap_shown, Lexeme.width, map_fst_marked]

namespace Lexeme

/-- Lexemes stand in a text one after the other, where the text itself starts at byte `offset`. -/
inductive Laid : Nat → Text → List Lexeme → Prop where
  | done (offset : Nat) (rest : Text) : Laid offset rest []
  | word (offset : Nat) (gap written : Text) {rest : Text} {later : List Lexeme}
      (laid : Laid (offset + gap.byteLength + written.byteLength) rest later) :
      Laid offset (gap ++ (written ++ rest))
        (⟨written.unescape,
          ⟨offset + gap.byteLength, offset + gap.byteLength + written.byteLength⟩⟩ :: later)

namespace Laid

variable {offset : Nat} {text : Text}

/-- Every lexeme has its place in the text, and those after it are laid out behind that place. -/
theorem split {before later : List Lexeme} {lexeme : Lexeme}
    (laid : Laid offset text (before ++ lexeme :: later)) :
    ∃ gap written rest, text = gap ++ (written ++ rest) ∧ lexeme.text = written.unescape ∧
      lexeme.span =
        ⟨offset + gap.byteLength, offset + gap.byteLength + written.byteLength⟩ ∧
      Laid (offset + gap.byteLength + written.byteLength) rest later := by
  induction before generalizing offset text with
  | nil =>
      cases laid with
      | word _ gap written laid => exact ⟨gap, written, _, rfl, rfl, rfl, laid⟩
  | cons first others ih =>
      cases laid with
      | word _ gap written laid =>
          obtain ⟨inner, word, rest, rfl, decoded, place, behind⟩ := ih laid
          refine ⟨gap ++ (written ++ inner), word, rest, by simp, decoded, ?_, ?_⟩
          · simp only [place, Text.byteLength_append, Nat.add_assoc]
          · simpa only [Text.byteLength_append, Nat.add_assoc] using behind

end Laid

theorem Tiled.laid {offset : Nat} {marks : List (Char × Bool)} {lexemes : List Lexeme}
    (tiled : Tiled offset marks lexemes) : Laid offset (marks.map Prod.fst) lexemes := by
  induction tiled with
  | gap offset loose => exact .done offset _
  | word offset loose filled solid ends tiled ih =>
      rw [List.map_append, List.map_append]
      exact .word offset _ _ ih

theorem laid_scan (source : Text) : Laid 0 source (scan source) := by
  have laid := (tiled_scan source).laid
  rwa [Text.map_fst_marked] at laid

/-! ## Slices -/

/-- A text is what stands in a program at the place of a lexeme, and the lexeme is decoded from
it. -/
def Written (source written : Text) (lexeme : Lexeme) : Prop :=
  source.sliceBytes? lexeme.span.start lexeme.span.stop = some written ∧
    written.unescape = lexeme.text

theorem written_of_span {gap written rest : Text} {lexeme : Lexeme}
    (decoded : lexeme.text = written.unescape)
    (place : lexeme.span = ⟨gap.byteLength, gap.byteLength + written.byteLength⟩) :
    lexeme.Written (gap ++ (written ++ rest)) written := by
  refine ⟨?_, decoded.symm⟩
  rw [place]
  exact Text.sliceBytes?_append gap written rest

/-- What stands at the place of a lexeme is what it was decoded from. -/
theorem exists_written {source : Text} {lexeme : Lexeme} (member : lexeme ∈ scan source) :
    ∃ written, lexeme.Written source written := by
  obtain ⟨before, later, scanned⟩ := List.append_of_mem member
  have laid := laid_scan source
  rw [scanned] at laid
  obtain ⟨gap, written, rest, rfl, decoded, place, -⟩ := laid.split
  rw [Nat.zero_add] at place
  exact ⟨written, written_of_span decoded place⟩

/-- The slice from one lexeme to a later one starts with what the one was decoded from and ends with
what the other was decoded from. -/
theorem exists_slice_between {source : Text} {before middle after : List Lexeme}
    {first last : Lexeme} (scanned : scan source = before ++ first :: (middle ++ last :: after)) :
    ∃ slice, source.sliceBytes? first.span.start last.span.stop = some slice ∧
      (∃ written, first.Written source written ∧ written <+: slice) ∧
      ∃ written, last.Written source written ∧ written <:+ slice := by
  have laid := laid_scan source
  rw [scanned] at laid
  obtain ⟨gap, written, rest, rfl, decoded, place, behind⟩ := laid.split
  obtain ⟨inner, final, tail, rfl, decodedLast, placeLast, -⟩ := behind.split
  rw [Nat.zero_add] at place placeLast
  have there := @written_of_span (gap ++ (written ++ inner)) final tail last decodedLast
    (by simp only [placeLast, Text.byteLength_append, Nat.add_assoc])
  refine ⟨written ++ (inner ++ final), ?_,
    ⟨written, written_of_span decoded place, List.prefix_append _ _⟩,
    final, by simpa only [List.append_assoc] using there, ?_⟩
  · have whole := Text.sliceBytes?_append gap (written ++ (inner ++ final)) tail
    simpa only [place, placeLast, Text.byteLength_append, List.append_assoc, Nat.add_assoc]
      using whole
  · rw [← List.append_assoc]
    exact List.suffix_append _ _

/-- The slice that lexemes in a row span, from the start of the first to the end of the last. -/
theorem exists_slice_of_row {source : Text} {before others after : List Lexeme} {first : Lexeme}
    (scanned : scan source = before ++ first :: (others ++ after)) :
    let last := (first :: others).getLast (List.cons_ne_nil _ _)
    ∃ slice, source.sliceBytes? first.span.start last.span.stop = some slice ∧
      (∃ written, first.Written source written ∧ written <+: slice) ∧
      ∃ written, last.Written source written ∧ written <:+ slice := by
  intro last
  rcases List.eq_nil_or_concat others with rfl | ⟨middle, final, rfl⟩
  · have member : first ∈ scan source := by simp [scanned]
    obtain ⟨written, here⟩ := exists_written member
    exact ⟨written, here.1, ⟨written, here, List.prefix_rfl⟩, written, here, List.suffix_rfl⟩
  · have ends : last = final := by
      simp only [last, List.concat_eq_append, ← List.cons_append, List.getLast_concat]
    rw [ends]
    exact exists_slice_between (by simpa using scanned)

end Lexeme

end Splice
