import Splice.Proofs.Text.Escape

/-!
# Words in a row

Words that stand in a row, joined by single spaces, are told apart again by scanning, as long as
each of them is solid (neither empty nor holding a separator) and no comment opens in any of
them. Where a comment opens, scanning loses slashes.
-/

namespace Splice

namespace Text

theorem intercalate_cons_cons (mark : Char) (first second : Text) (rest : List Text) :
    [mark].intercalate (first :: second :: rest) =
      first ++ mark :: [mark].intercalate (second :: rest) := by
  simp [List.intercalate]

theorem unwords_cons_cons (first second : Text) (rest : List Text) :
    unwords (first :: second :: rest) = first ++ ' ' :: unwords (second :: rest) :=
  intercalate_cons_cons ' ' first second rest

/-- Texts with a space in front of each. -/
def spaced (parts : List Text) : Text :=
  parts.flatMap (' ' :: ·)

@[simp]
theorem spaced_nil : spaced [] = [] := rfl

@[simp]
theorem spaced_cons (first : Text) (rest : List Text) :
    spaced (first :: rest) = ' ' :: first ++ spaced rest := rfl

@[simp]
theorem spaced_append (front back : List Text) :
    spaced (front ++ back) = spaced front ++ spaced back := by
  simp [spaced]

theorem spaced_eq_cons_unwords {parts : List Text} (filled : parts ≠ []) :
    spaced parts = ' ' :: unwords parts := by
  induction parts with
  | nil => exact absurd rfl filled
  | cons first rest ih =>
      cases rest with
      | nil => simp [unwords]
      | cons second later =>
          rw [spaced_cons, ih (by simp), unwords_cons_cons]
          rfl

theorem unwords_eq_of_spaced_eq {left right : List Text} (same : spaced left = spaced right) :
    unwords left = unwords right := by
  cases left with
  | nil =>
      cases right with
      | nil => rfl
      | cons first rest => cases same
  | cons first rest =>
      cases right with
      | nil => cases same
      | cons other later =>
          rw [spaced_eq_cons_unwords (by simp), spaced_eq_cons_unwords (by simp)] at same
          exact (List.cons.inj same).2

theorem count_slash_unwords (parts : List Text) :
    (unwords parts).count '/' = (spaced parts).count '/' := by
  cases parts with
  | nil => rfl
  | cons first rest =>
      rw [spaced_eq_cons_unwords (by simp), List.count_cons_of_ne (by decide)]

theorem count_slash_spaced_escape (parts : List Text) :
    (spaced (parts.map escape)).count '/' = (spaced parts).count '/' := by
  induction parts with
  | nil => rfl
  | cons first rest ih =>
      rw [List.map_cons, spaced_cons, spaced_cons, List.count_append, List.count_append, ih,
        List.count_cons_of_ne (by decide), List.count_cons_of_ne (by decide), count_slash_escape]

theorem space_mem_unwords {front back : List Text} (before : front ≠ []) (after : back ≠ []) :
    ' ' ∈ unwords (front ++ back) := by
  obtain ⟨first, rest, rfl⟩ := List.exists_cons_of_ne_nil before
  have filled : rest ++ back ≠ [] := by simp [after]
  obtain ⟨second, later, more⟩ := List.exists_cons_of_ne_nil filled
  rw [List.cons_append, more, unwords_cons_cons]
  simp

theorem ne_of_isSeparator {mark : Char} (separates : Lexeme.isSeparator mark = true) :
    mark ≠ '/' ∧ mark ≠ '*' := by
  constructor
  · rintro rfl
    cases separates
  · rintro rfl
    cases separates

/-- A character that is no part of an opening keeps what stands before it and what stands after it
apart. -/
theorem opensComment_append_cons {mark : Char} (slash : mark ≠ '/') (star : mark ≠ '*')
    (front back : Text) :
    OpensComment (front ++ mark :: back) ↔ front.OpensComment ∨ back.OpensComment := by
  induction front with
  | nil =>
      rw [List.nil_append, opensComment_cons, opensHere_cons]
      simp [not_opensComment_nil, slash]
  | cons char rest ih =>
      rw [List.cons_append, opensComment_cons, opensComment_cons, ih, opensHere_cons,
        opensHere_cons, or_assoc]
      cases rest <;> simp [slash, star]

theorem opensComment_append_separator {mark : Char} (separates : Lexeme.isSeparator mark = true)
    (front back : Text) :
    OpensComment (front ++ mark :: back) ↔ front.OpensComment ∨ back.OpensComment := by
  obtain ⟨slash, star⟩ := ne_of_isSeparator separates
  exact opensComment_append_cons slash star front back

/-- A comment opens among texts with separators between them exactly when one opens in one of
the texts. -/
theorem opensComment_intercalate {mark : Char} (separates : Lexeme.isSeparator mark = true)
    (parts : List Text) :
    OpensComment ([mark].intercalate parts) ↔ ∃ part ∈ parts, OpensComment part := by
  induction parts with
  | nil => simp [not_opensComment_nil]
  | cons first rest ih =>
      cases rest with
      | nil => simp
      | cons second later =>
          rw [intercalate_cons_cons, opensComment_append_separator separates, ih]
          simp

theorem opensComment_unwords (parts : List Text) :
    (unwords parts).OpensComment ↔ ∃ part ∈ parts, OpensComment part :=
  opensComment_intercalate rfl parts

end Text

namespace Lexeme

/-- A word that can stand in a row: it is not empty and holds no separator. -/
def Solid (word : Text) : Prop :=
  word ≠ [] ∧ ∀ char ∈ word, isSeparator char = false

theorem scanFrom_append {word : Text} (solid : ∀ char ∈ word, isSeparator char = false)
    (start : Nat) (pending rest : Text) :
    scanFrom start pending (word ++ rest) = scanFrom start (word.reverse ++ pending) rest := by
  induction word generalizing pending with
  | nil => rfl
  | cons char later ih =>
      have first := solid char List.mem_cons_self
      have others : ∀ other ∈ later, isSeparator other = false :=
        fun other member => solid other (List.mem_cons_of_mem char member)
      rw [List.cons_append, scanFrom, first, if_neg Bool.false_ne_true, ih others]
      simp

theorem map_text_ofPending {word : Text} (filled : word ≠ []) (start : Nat) :
    (ofPending start word.reverse).map text = [word.unescape] := by
  simp [ofPending, filled]

theorem map_text_ofPending_start (start other : Nat) (pending : Text) :
    (ofPending start pending).map text = (ofPending other pending).map text := by
  unfold ofPending
  split <;> rfl

theorem map_text_scanFrom_start (start other : Nat) (pending source : Text) :
    (scanFrom start pending source).map text = (scanFrom other pending source).map text := by
  induction source generalizing start other pending with
  | nil => exact map_text_ofPending_start start other pending
  | cons char rest ih =>
      unfold scanFrom
      split
      · rw [List.map_append, List.map_append, map_text_ofPending_start start other]
        exact congrArg _ (ih _ _ [])
      · exact ih start other (char :: pending)

/-- A separator keeps the words before it and the words after it apart. -/
theorem scanFrom_separator {mark : Char} (separates : isSeparator mark = true)
    (start : Nat) (pending front back : Text) :
    scanFrom start pending (front ++ mark :: back) =
      scanFrom start pending front ++
        scanFrom (start + pending.byteLength + front.byteLength + mark.utf8Size) [] back := by
  induction front generalizing start pending with
  | nil =>
      rw [List.nil_append, scanFrom.eq_2, if_pos separates]
      rfl
  | cons char rest ih =>
      rw [List.cons_append, scanFrom, scanFrom, Text.byteLength_cons]
      split
      · rw [ih, List.append_assoc, Text.byteLength_nil]
        simp only [Nat.add_assoc, Nat.add_zero]
      · rw [ih, Text.byteLength_cons]
        simp only [Nat.add_assoc, Nat.add_left_comm]

theorem map_text_scanFrom_separator {mark : Char} (separates : isSeparator mark = true)
    (start : Nat) (pending front back : Text) :
    (scanFrom start pending (front ++ mark :: back)).map text =
      (scanFrom start pending front).map text ++ (scanFrom 0 [] back).map text := by
  rw [scanFrom_separator separates, List.map_append]
  exact congrArg _ (map_text_scanFrom_start _ 0 [] back)

/-- Texts with separators between them are scanned one by one. -/
theorem map_text_scanFrom_intercalate {mark : Char} (separates : isSeparator mark = true)
    (start : Nat) (parts : List Text) :
    (scanFrom start [] ([mark].intercalate parts)).map text =
      parts.flatMap fun part => (scanFrom 0 [] part).map text := by
  induction parts generalizing start with
  | nil => rfl
  | cons first rest ih =>
      cases rest with
      | nil => simp [map_text_scanFrom_start start 0]
      | cons second later =>
          rw [Text.intercalate_cons_cons, map_text_scanFrom_separator separates, ih 0,
            map_text_scanFrom_start start 0]
          rfl

theorem map_text_scanFrom_solid {word : Text} (solid : Solid word) :
    (scanFrom 0 [] word).map text = [word.unescape] := by
  have scanned := scanFrom_append solid.2 0 [] []
  rw [List.append_nil, List.append_nil, scanFrom] at scanned
  rw [scanned, map_text_ofPending solid.1]

theorem map_text_scanFrom_unwords {words : List Text} (solid : ∀ word ∈ words, Solid word)
    (start : Nat) :
    (scanFrom start [] (Text.unwords words)).map text = words.map Text.unescape := by
  have single : ∀ word ∈ words, (scanFrom 0 [] word).map text = [word.unescape] :=
    fun word member => map_text_scanFrom_solid (solid word member)
  rw [Text.unwords, map_text_scanFrom_intercalate rfl, List.map_eq_flatMap, List.flatMap_def,
    List.flatMap_def, List.map_congr_left single]

/-- Solid words in a row where no comment opens are scanned one by one. -/
theorem map_text_scan_unwords {words : List Text} (solid : ∀ word ∈ words, Solid word)
    (closed : ∀ word ∈ words, ¬ word.OpensComment) :
    (scan (Text.unwords words)).map text = words.map Text.unescape := by
  have clear : ¬ (Text.unwords words).OpensComment := by
    rw [Text.opensComment_unwords]
    rintro ⟨word, member, opens⟩
    exact closed word member opens
  rw [scan, Text.withoutComments_eq_self clear, map_text_scanFrom_unwords solid]

/-- Rows of solid words, on lines of their own, are scanned word by word. -/
theorem map_text_scan_rows {rows : List (List Text)}
    (solid : ∀ words ∈ rows, ∀ word ∈ words, Solid word)
    (closed : ∀ words ∈ rows, ∀ word ∈ words, ¬ word.OpensComment) :
    (scan (Text.unlines (rows.map Text.unwords))).map text = rows.flatten.map Text.unescape := by
  have clear : ¬ (Text.unlines (rows.map Text.unwords)).OpensComment := by
    rw [Text.unlines, Text.opensComment_intercalate rfl]
    rintro ⟨row, member, opens⟩
    obtain ⟨words, inside, rfl⟩ := List.mem_map.mp member
    obtain ⟨word, among, opensWord⟩ := (Text.opensComment_unwords words).mp opens
    exact closed words inside word among opensWord
  have scanned : ∀ words ∈ rows,
      (scanFrom 0 [] (Text.unwords words)).map text = words.map Text.unescape :=
    fun words inside => map_text_scanFrom_unwords (solid words inside) 0
  rw [scan, Text.withoutComments_eq_self clear, Text.unlines, map_text_scanFrom_intercalate rfl,
    List.flatMap_map, List.flatMap_def, List.map_congr_left scanned, List.map_flatten]

/-! ## What scanning finds -/

theorem solid_of_mem_ofPending {start : Nat} {pending : Text} {lexeme : Lexeme}
    (whole : ∀ char ∈ pending, isSeparator char = false)
    (member : lexeme ∈ ofPending start pending) :
    lexeme.text = Text.unescape pending.reverse ∧ Solid pending.reverse := by
  unfold ofPending at member
  split at member
  · cases member
  · rename_i filled
    rw [List.mem_singleton.mp member]
    refine ⟨rfl, by simpa using filled, ?_⟩
    intro char inside
    exact whole char (List.mem_reverse.mp inside)

/-- Every lexeme is a solid part of what is scanned, with its escapes resolved. -/
theorem exists_solid_of_mem_scanFrom {start : Nat} {pending source : Text} {lexeme : Lexeme}
    (whole : ∀ char ∈ pending, isSeparator char = false)
    (member : lexeme ∈ scanFrom start pending source) :
    ∃ word, lexeme.text = word.unescape ∧ Solid word ∧ word <:+: pending.reverse ++ source := by
  induction source generalizing start pending with
  | nil =>
      obtain ⟨decoded, solid⟩ := solid_of_mem_ofPending whole member
      exact ⟨pending.reverse, decoded, solid, [], [], rfl⟩
  | cons char rest ih =>
      unfold scanFrom at member
      split at member
      · rcases List.mem_append.mp member with ended | later
        · obtain ⟨decoded, solid⟩ := solid_of_mem_ofPending whole ended
          exact ⟨pending.reverse, decoded, solid, [], char :: rest, rfl⟩
        · obtain ⟨word, decoded, solid, inside⟩ := ih (List.forall_mem_nil _) later
          refine ⟨word, decoded, solid, inside.trans ?_⟩
          exact ⟨pending.reverse ++ [char], [], by simp⟩
      · rename_i continues
        have wider : ∀ other ∈ char :: pending, isSeparator other = false := by
          simpa [continues] using whole
        obtain ⟨word, decoded, solid, inside⟩ := ih wider member
        refine ⟨word, decoded, solid, ?_⟩
        simpa using inside

theorem exists_solid_of_mem_scan {source : Text} {lexeme : Lexeme} (member : lexeme ∈ scan source) :
    ∃ word, lexeme.text = word.unescape ∧ Solid word ∧ word <:+: source.withoutComments :=
  exists_solid_of_mem_scanFrom (List.forall_mem_nil _) member

theorem text_ne_nil_of_mem_scan {source : Text} {lexeme : Lexeme} (member : lexeme ∈ scan source) :
    lexeme.text ≠ [] := by
  obtain ⟨word, decoded, solid, -⟩ := exists_solid_of_mem_scan member
  rw [decoded]
  exact Text.unescape_ne_nil solid.1

theorem count_slash_ofPending (start : Nat) (pending : Text) :
    (Text.spaced ((ofPending start pending).map text)).count '/' = pending.count '/' := by
  unfold ofPending
  split
  · rename_i none
    rw [List.isEmpty_iff.mp none]
    rfl
  · rw [List.map_singleton, Text.spaced_cons, Text.spaced_nil, List.append_nil,
      List.count_cons_of_ne (by decide), Text.count_slash_unescape, List.count_reverse]

theorem count_slash_scanFrom (start : Nat) (pending source : Text) :
    (Text.spaced ((scanFrom start pending source).map text)).count '/' =
      pending.count '/' + source.count '/' := by
  induction source generalizing start pending with
  | nil => exact count_slash_ofPending start pending
  | cons char rest ih =>
      unfold scanFrom
      split
      · rename_i separates
        have other : char ≠ '/' := by
          rintro rfl
          cases separates
        rw [List.map_append, Text.spaced_append, List.count_append, count_slash_ofPending, ih,
          List.count_nil, Nat.zero_add, List.count_cons_of_ne other]
      · rw [ih, List.count_cons, List.count_cons]
        omega

/-- Where a comment opens, the words that are scanned hold fewer slashes than the program. -/
theorem count_slash_scan_lt {source : Text} (opens : source.OpensComment) :
    (Text.spaced ((scan source).map text)).count '/' < source.count '/' := by
  rw [scan, count_slash_scanFrom, List.count_nil, Nat.zero_add]
  exact Text.count_slash_withoutComments_lt opens

end Lexeme

end Splice
