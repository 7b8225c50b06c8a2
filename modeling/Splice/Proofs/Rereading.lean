import Splice.Console.Markup
import Splice.Proofs.Tiling

/-!
# Escaped words read again

Escaped words with separators between them, however many and of whatever kind, are read back as the
words that they were before, as long as no comment opens in any of them. Escapes alone cannot keep a
comment from opening, but separators can: none opens with the end of one word and the start of the
next.
-/

namespace Splice.Lexeme

/-- A text followed by escaped words, each with what comes after it. -/
def spread (lead : Text) (pieces : List (Text × Text)) : Text :=
  lead ++ pieces.flatMap fun piece => piece.1.escape ++ piece.2

/-- The words are filled, no comment opens in any of them, and they are kept apart by separators.
There need not be any behind the last word. -/
structure Apart (pieces : List (Text × Text)) : Prop where
  filled : ∀ piece ∈ pieces, piece.1 ≠ []
  closed : ∀ piece ∈ pieces, ¬ piece.1.OpensComment
  separates : ∀ piece ∈ pieces, ∀ mark ∈ piece.2, isSeparator mark = true
  between : ∀ piece ∈ pieces.dropLast, piece.2 ≠ []

namespace Apart

variable {word gap : Text} {pieces : List (Text × Text)}

theorem tail (apart : Apart ((word, gap) :: pieces)) : Apart pieces := by
  refine ⟨?_, ?_, ?_, ?_⟩
  · exact fun piece member => apart.filled piece (List.mem_cons_of_mem _ member)
  · exact fun piece member => apart.closed piece (List.mem_cons_of_mem _ member)
  · exact fun piece member => apart.separates piece (List.mem_cons_of_mem _ member)
  · intro piece member
    apply apart.between
    cases pieces with
    | nil => cases member
    | cons next others => exact List.mem_cons_of_mem _ member

theorem last_or_gap (apart : Apart ((word, gap) :: pieces)) : pieces = [] ∨ gap ≠ [] := by
  cases pieces with
  | nil => exact .inl rfl
  | cons next others => exact .inr (apart.between (word, gap) List.mem_cons_self)

end Apart

theorem slash_not_mem_of_separates {gap : Text}
    (separates : ∀ mark ∈ gap, isSeparator mark = true) : '/' ∉ gap := by
  intro member
  cases separates '/' member

/-- No comment opens in words that are kept apart. -/
theorem not_opensComment_pieces {pieces : List (Text × Text)} (apart : Apart pieces) :
    ¬ Text.OpensComment (pieces.flatMap fun piece => piece.1.escape ++ piece.2) := by
  induction pieces with
  | nil => exact Text.not_opensComment_nil
  | cons piece others ih =>
      obtain ⟨word, gap⟩ := piece
      have closed : ¬ word.escape.OpensComment := by
        rw [Text.opensComment_escape]
        exact apart.closed _ List.mem_cons_self
      rw [List.flatMap_cons, List.append_assoc]
      cases gap with
      | nil =>
          obtain rfl := apart.last_or_gap.resolve_right fun filled => filled rfl
          rwa [List.flatMap_nil, List.append_nil, List.append_nil]
      | cons mark marks =>
          obtain ⟨separates, more⟩ := List.forall_mem_cons.mp
            (apart.separates _ List.mem_cons_self)
          rw [List.cons_append, Text.opensComment_append_separator separates, not_or,
            Text.opensComment_append_of_not_mem (slash_not_mem_of_separates more)]
          exact ⟨closed, ih apart.tail⟩

theorem map_text_scanFrom_pieces {pieces : List (Text × Text)} (apart : Apart pieces)
    (start : Nat) :
    (scanFrom start [] (pieces.flatMap fun piece => piece.1.escape ++ piece.2)).map text =
      pieces.map Prod.fst := by
  induction pieces generalizing start with
  | nil => rfl
  | cons piece others ih =>
      obtain ⟨word, gap⟩ := piece
      have filled : word.escape ≠ [] := Text.escape_ne_nil (apart.filled _ List.mem_cons_self)
      have decoded (start : Nat) : (ofPending start word.escape.reverse).map text = [word] := by
        rw [map_text_ofPending filled, Text.unescape_escape]
      rw [List.flatMap_cons, List.append_assoc,
        scanFrom_append fun char => Text.isSeparator_of_mem_escape, List.append_nil, List.map_cons]
      by_cases wide : gap = []
      · obtain rfl := apart.last_or_gap.resolve_right fun filled => filled wide
        rw [wide, List.flatMap_nil, List.append_nil, scanFrom, decoded, List.map_nil]
      · rw [scanFrom_pending_gap wide (apart.separates _ List.mem_cons_self), List.map_append,
          decoded, ih apart.tail, List.singleton_append]

theorem map_text_scan_spread {lead : Text} (separates : ∀ mark ∈ lead, isSeparator mark = true)
    {pieces : List (Text × Text)} (apart : Apart pieces) :
    (scan (spread lead pieces)).map text = pieces.map Prod.fst := by
  have closed : ¬ (spread lead pieces).OpensComment := by
    rw [spread, Text.opensComment_append_of_not_mem (slash_not_mem_of_separates separates)]
    exact not_opensComment_pieces apart
  rw [scan, Text.withoutComments_eq_self closed, spread, scanFrom_gap separates,
    map_text_scanFrom_pieces apart]

/-! ## Words on lines of their own -/

theorem map_text_scan_render {source : Text}
    (closed : ∀ lexeme ∈ scan source, ¬ lexeme.text.OpensComment) (colored : Bool) :
    (scan ((Console.Display.ofLines (escapedWords source)).render colored)).map text =
      (scan source).map text := by
  let pieces : List (Text × Text) := (scan source).map fun lexeme => (lexeme.text, ['\n'])
  have rendered : (Console.Display.ofLines (escapedWords source)).render colored =
      spread [] pieces := by
    simp only [Console.Display.ofLines, Console.Display.render, escapedWords, spread, pieces,
      List.flatMap_map, List.nil_append]
    rfl
  have known : ∀ piece ∈ pieces, ∃ lexeme ∈ scan source, (lexeme.text, ['\n']) = piece :=
    fun piece => List.mem_map.mp
  have apart : Apart pieces := by
    refine ⟨?_, ?_, ?_, ?_⟩
    · intro piece member
      obtain ⟨lexeme, scanned, rfl⟩ := known piece member
      exact text_ne_nil_of_mem_scan scanned
    · intro piece member
      obtain ⟨lexeme, scanned, rfl⟩ := known piece member
      exact closed lexeme scanned
    · intro piece member
      obtain ⟨lexeme, -, rfl⟩ := known piece member
      exact List.forall_mem_singleton.mpr rfl
    · intro piece member
      obtain ⟨lexeme, -, rfl⟩ := known piece ((List.dropLast_sublist pieces).subset member)
      exact List.cons_ne_nil _ _
  rw [rendered, map_text_scan_spread (List.forall_mem_nil _) apart, List.map_map]
  rfl

theorem map_text_scan_unlines {source : Text}
    (closed : ∀ lexeme ∈ scan source, ¬ lexeme.text.OpensComment) :
    (scan (Text.unlines (escapedWords source))).map text = (scan source).map text := by
  have clear : ¬ (Text.unlines (escapedWords source)).OpensComment := by
    rw [Text.unlines, Text.opensComment_intercalate rfl]
    rintro ⟨word, member, opens⟩
    obtain ⟨lexeme, scanned, rfl⟩ := List.mem_map.mp member
    rw [Text.opensComment_escape] at opens
    exact closed lexeme scanned opens
  have single : ∀ lexeme ∈ scan source,
      (scanFrom 0 [] lexeme.text.escape).map text = [lexeme.text] := by
    intro lexeme scanned
    rw [map_text_scanFrom_solid, Text.unescape_escape]
    exact ⟨Text.escape_ne_nil (text_ne_nil_of_mem_scan scanned),
      fun char => Text.isSeparator_of_mem_escape⟩
  rw [scan, Text.withoutComments_eq_self clear, Text.unlines, map_text_scanFrom_intercalate rfl,
    escapedWords, List.flatMap_map, List.flatMap_def, List.map_congr_left single,
    ← List.flatMap_def, ← List.map_eq_flatMap]

/-- Escaped words that are kept apart are read back as they were. Escapes are always undone, and the
escaped words of a program on lines of their own are read as the words of the program. -/
theorem escaped_words_reread :
    (∀ (lead : Text) (pieces : List (Text × Text)), (∀ mark ∈ lead, isSeparator mark = true) →
      Apart pieces → (scan (spread lead pieces)).map text = pieces.map Prod.fst) ∧
    (∀ word : Text, word.escape.unescape = word) ∧
    ∀ source : Text, (∀ lexeme ∈ scan source, ¬ lexeme.text.OpensComment) →
      (∀ colored, (scan ((Console.Display.ofLines (escapedWords source)).render colored)).map text =
        (scan source).map text) ∧
      (scan (Text.unlines (escapedWords source))).map text = (scan source).map text := by
  refine ⟨?_, Text.unescape_escape, ?_⟩
  · intro lead pieces separates apart
    exact map_text_scan_spread separates apart
  · intro source closed
    exact ⟨map_text_scan_render closed, map_text_scan_unlines closed⟩

/-- Words that end and start with parts of an opening, with separators of several kinds, and a
program with a comment and an escaped blank. -/
theorem escaped_words_reread_across_slashes :
    let lead : Text := "\r\n".toList
    let pieces : List (Text × Text) :=
      [("a b/".toList, "\t ".toList), ("*\\".toList, "\n".toList), ("/".toList, [])]
    let source : Text := "x/\\s/*y*/*z".toList
    ((∀ mark ∈ lead, isSeparator mark = true) ∧ Apart pieces ∧
      (scan (spread lead pieces)).map text = ["a b/".toList, "*\\".toList, "/".toList]) ∧
    (∀ lexeme ∈ scan source, ¬ lexeme.text.OpensComment) ∧
      (scan source).map text = ["x/ ".toList, "*z".toList] ∧
      (scan ((Console.Display.ofLines (escapedWords source)).render true)).map text =
        (scan source).map text := by
  intro lead pieces source
  obtain ⟨spreads, -, lines⟩ := escaped_words_reread
  have separates : ∀ mark ∈ lead, isSeparator mark = true := List.all_eq_true.mp rfl
  have gaps : ∀ piece ∈ pieces, piece.2.all isSeparator = true := by decide
  have apart : Apart pieces :=
    ⟨by decide, by decide, fun piece member => List.all_eq_true.mp (gaps piece member), by decide⟩
  have closed : ∀ lexeme ∈ scan source, ¬ lexeme.text.OpensComment := by decide +kernel
  exact ⟨⟨separates, apart, spreads lead pieces separates apart⟩, closed, by decide +kernel,
    (lines source closed).1 true⟩

end Splice.Lexeme
