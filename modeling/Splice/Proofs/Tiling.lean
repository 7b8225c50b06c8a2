import Splice.Proofs.Lexeme

/-!
# Words and gaps

The characters of a program, each with whether it lies inside a comment, fall into words and gaps.
A word is made of characters that lie outside of comments and do not separate words; a gap is made
of all others. Two words are never side by side. The lexemes that scanning finds are the words, each
with the bytes that it takes up in the program as it was written.
-/

namespace Splice

theorem Text.byteLength_reverse (text : Text) : Text.byteLength text.reverse = text.byteLength := by
  induction text with
  | nil => rfl
  | cons char rest ih =>
      have single : Text.byteLength [char] = char.utf8Size := rfl
      rw [List.reverse_cons, byteLength_append, ih, single, byteLength_cons, Nat.add_comm]

/-- What stands for a character inside a comment separates words, and takes as many bytes. -/
theorem Text.blank_separates (char : Char) :
    (∀ mark ∈ blank char, Lexeme.isSeparator mark = true) ∧ blank char ≠ [] ∧
      (blank char).byteLength = char.utf8Size := by
  have size (count : Nat) : byteLength (List.replicate count ' ') = count := by
    induction count with
    | zero => rfl
    | succ count ih =>
        rw [List.replicate_succ, byteLength_cons, ih]
        exact Nat.add_comm 1 count
  unfold blank
  split
  · rename_i newline
    subst newline
    exact ⟨List.forall_mem_singleton.mpr rfl, List.cons_ne_nil _ _, rfl⟩
  · refine ⟨?_, ?_, size _⟩
    · intro mark member
      rw [List.eq_of_mem_replicate member]
      rfl
    · rw [Ne, List.replicate_eq_nil_iff]
      exact Nat.ne_of_gt char.utf8Size_pos

namespace Lexeme

/-- Whether a character, with whether it lies inside a comment, is part of a word. -/
def inWord (mark : Char × Bool) : Bool :=
  !mark.2 && !isSeparator mark.1

/-- What stands for a character that is no part of a word separates words, and takes as many
bytes. -/
theorem shown_separates {mark : Char × Bool} (loose : inWord mark = false) :
    (∀ char ∈ Text.shown mark, isSeparator char = true) ∧ Text.shown mark ≠ [] ∧
      (Text.shown mark).byteLength = mark.1.utf8Size := by
  obtain ⟨char, inside⟩ := mark
  cases inside with
  | true => exact Text.blank_separates char
  | false =>
      have separates : isSeparator char = true := by simpa [inWord] using loose
      exact ⟨List.forall_mem_singleton.mpr separates, List.cons_ne_nil _ _, rfl⟩

theorem shown_of_inWord {mark : Char × Bool} (solid : inWord mark = true) :
    Text.shown mark = [mark.1] := by
  have outside : mark.2 = false := by
    simp only [inWord, Bool.and_eq_true, Bool.not_eq_true'] at solid
    exact solid.1
  rw [Text.shown, outside, if_neg Bool.false_ne_true]

theorem flatMap_shown_word {word : List (Char × Bool)} (solid : ∀ mark ∈ word, inWord mark = true) :
    word.flatMap Text.shown = word.map Prod.fst := by
  induction word with
  | nil => rfl
  | cons mark rest ih =>
      obtain ⟨first, others⟩ := List.forall_mem_cons.mp solid
      rw [List.flatMap_cons, shown_of_inWord first, ih others, List.map_cons, List.singleton_append]

/-- The bytes that characters take up. -/
def width (marks : List (Char × Bool)) : Nat :=
  Text.byteLength (marks.map Prod.fst)

@[simp]
theorem width_nil : width [] = 0 := rfl

@[simp]
theorem width_cons (mark : Char × Bool) (rest : List (Char × Bool)) :
    width (mark :: rest) = mark.1.utf8Size + width rest := rfl

@[simp]
theorem width_append (front back : List (Char × Bool)) :
    width (front ++ back) = width front + width back := by
  simp [width]

theorem width_pos {marks : List (Char × Bool)} (filled : marks ≠ []) : 0 < width marks := by
  obtain ⟨mark, rest, rfl⟩ := List.exists_cons_of_ne_nil filled
  exact Nat.add_pos_left mark.1.utf8Size_pos _

theorem byteLength_flatMap_shown (marks : List (Char × Bool)) :
    Text.byteLength (marks.flatMap Text.shown) = width marks := by
  have size (mark : Char × Bool) : (Text.shown mark).byteLength = mark.1.utf8Size := by
    cases solid : inWord mark with
    | true =>
        rw [shown_of_inWord solid]
        rfl
    | false => exact (shown_separates solid).2.2
  induction marks with
  | nil => rfl
  | cons mark rest ih => rw [List.flatMap_cons, Text.byteLength_append, ih, size, width_cons]

/-- Lexemes are the words among characters of which the first one stands at byte `offset`. -/
inductive Tiled : Nat → List (Char × Bool) → List Lexeme → Prop where
  /-- There is no word in a gap. -/
  | gap (offset : Nat) {gap : List (Char × Bool)} (loose : ∀ mark ∈ gap, inWord mark = false) :
      Tiled offset gap []
  /-- A word goes on as long as it can. -/
  | word (offset : Nat) {gap word rest : List (Char × Bool)} {later : List Lexeme}
      (loose : ∀ mark ∈ gap, inWord mark = false) (filled : word ≠ [])
      (solid : ∀ mark ∈ word, inWord mark = true) (ends : ∀ mark ∈ rest.head?, inWord mark = false)
      (tiled : Tiled (offset + width gap + width word) rest later) :
      Tiled offset (gap ++ (word ++ rest))
        (⟨Text.unescape (word.map Prod.fst),
          ⟨offset + width gap, offset + width gap + width word⟩⟩ :: later)

/-! ## Scanning -/

theorem scanFrom_gap {gap : Text} (separates : ∀ mark ∈ gap, isSeparator mark = true)
    (start : Nat) (rest : Text) :
    scanFrom start [] (gap ++ rest) = scanFrom (start + gap.byteLength) [] rest := by
  induction gap generalizing start with
  | nil => rfl
  | cons mark later ih =>
      obtain ⟨first, others⟩ := List.forall_mem_cons.mp separates
      rw [List.cons_append, scanFrom, if_pos first, ih others, Text.byteLength_cons,
        Nat.add_assoc]
      rfl

theorem scanFrom_pending_gap {gap : Text} (filled : gap ≠ [])
    (separates : ∀ mark ∈ gap, isSeparator mark = true) (start : Nat) (pending rest : Text) :
    scanFrom start pending (gap ++ rest) =
      ofPending start pending ++
        scanFrom (start + pending.byteLength + gap.byteLength) [] rest := by
  obtain ⟨mark, later, rfl⟩ := List.exists_cons_of_ne_nil filled
  obtain ⟨first, others⟩ := List.forall_mem_cons.mp separates
  rw [List.cons_append, scanFrom, if_pos first, scanFrom_gap others, Text.byteLength_cons,
    Nat.add_assoc]

namespace Tiled

variable {offset : Nat} {marks : List (Char × Bool)} {lexemes : List Lexeme}

theorem skip {gap : List (Char × Bool)} (loose : ∀ mark ∈ gap, inWord mark = false)
    (tiled : Tiled (offset + width gap) marks lexemes) : Tiled offset (gap ++ marks) lexemes := by
  cases tiled with
  | gap _ others =>
      refine .gap offset fun mark member => ?_
      exact (List.mem_append.mp member).elim (loose mark) (others mark)
  | @word _ inner _ _ _ others filled solid ends later =>
      have wide : ∀ mark ∈ gap ++ inner, inWord mark = false := fun mark member =>
        (List.mem_append.mp member).elim (loose mark) (others mark)
      have wider := Tiled.word offset wide filled solid ends (by
        rwa [width_append, ← Nat.add_assoc])
      rwa [List.append_assoc, width_append, ← Nat.add_assoc] at wider

/-- A word that has been read is put in front of a gap. -/
theorem behind_pending {pending : Text} (solid : ∀ char ∈ pending, isSeparator char = false)
    (ends : ∀ mark ∈ marks.head?, inWord mark = false)
    (tiled : Tiled (offset + pending.byteLength) marks lexemes) :
    Tiled offset (pending.reverse.map (·, false) ++ marks)
      (ofPending offset pending ++ lexemes) := by
  have chars : (pending.reverse.map (·, false)).map Prod.fst = pending.reverse := by
    rw [List.map_map]
    exact List.map_id _
  have size : width (pending.reverse.map (·, false)) = pending.byteLength := by
    rw [width, chars, Text.byteLength_reverse]
  unfold ofPending
  split
  · rename_i none
    rw [List.isEmpty_iff.mp none] at tiled ⊢
    exact tiled
  · rename_i some
    have filled : pending.reverse.map (·, false) ≠ [] := by simpa using some
    have whole : ∀ mark ∈ pending.reverse.map (·, false), inWord mark = true := by
      intro mark member
      obtain ⟨char, inside, rfl⟩ := List.mem_map.mp member
      simp [inWord, solid char (List.mem_reverse.mp inside)]
    have behind := Tiled.word offset (List.forall_mem_nil _) filled whole ends (by rwa [size])
    rwa [chars, size] at behind

end Tiled

/-- Scanning finds the words of a text in which the characters inside comments have been
blanked. -/
theorem tiled_scanFrom (marks : List (Char × Bool)) (start : Nat) {pending : Text}
    (solid : ∀ char ∈ pending, isSeparator char = false) :
    Tiled start (pending.reverse.map (·, false) ++ marks)
      (scanFrom start pending (marks.flatMap Text.shown)) := by
  induction marks generalizing start pending with
  | nil =>
      have unmarked : ∀ mark ∈ ([] : List (Char × Bool)).head?, inWord mark = false := nofun
      have nothing := Tiled.gap (start + pending.byteLength) (List.forall_mem_nil _)
      have ended := nothing.behind_pending solid unmarked
      rwa [List.append_nil (ofPending start pending)] at ended
  | cons mark rest ih =>
      rw [List.flatMap_cons]
      cases part : inWord mark with
      | true =>
          obtain ⟨char, inside⟩ := mark
          obtain ⟨rfl, goesOn⟩ : inside = false ∧ isSeparator char = false := by
            simpa [inWord] using part
          have wider : ∀ other ∈ char :: pending, isSeparator other = false :=
            List.forall_mem_cons.mpr ⟨goesOn, solid⟩
          have read := ih start wider
          rw [List.reverse_cons, List.map_append, List.append_assoc] at read
          rwa [shown_of_inWord part, List.singleton_append, scanFrom, goesOn,
            if_neg Bool.false_ne_true]
      | false =>
          obtain ⟨separates, filled, size⟩ := shown_separates part
          rw [scanFrom_pending_gap filled separates, size]
          apply Tiled.behind_pending solid
          · rintro first ⟨rfl⟩
            exact part
          · refine Tiled.skip (List.forall_mem_singleton.mpr part) ?_
            exact ih _ (List.forall_mem_nil _)

/-- The lexemes of a program are its words. -/
theorem tiled_scan (source : Text) : Tiled 0 (Text.marked .code source) (scan source) :=
  tiled_scanFrom (Text.marked .code source) 0 (List.forall_mem_nil _)

/-! ## Order -/

namespace Tiled

variable {offset : Nat} {marks : List (Char × Bool)} {lexemes : List Lexeme}

theorem le_start (tiled : Tiled offset marks lexemes) :
    ∀ lexeme ∈ lexemes, offset ≤ lexeme.span.start := by
  induction tiled with
  | gap => nofun
  | word offset loose filled solid ends tiled ih =>
      refine List.forall_mem_cons.mpr ⟨Nat.le_add_right _ _, ?_⟩
      intro lexeme member
      have later := ih lexeme member
      omega

/-- Words do not start where a gap does. -/
theorem lt_start (tiled : Tiled offset marks lexemes)
    (begins : ∀ mark ∈ marks.head?, inWord mark = false) :
    ∀ lexeme ∈ lexemes, offset < lexeme.span.start := by
  cases tiled with
  | gap => nofun
  | @word _ gap word rest _ loose filled solid ends tiled =>
      have wide : 0 < width gap := by
        apply width_pos
        rintro rfl
        obtain ⟨mark, others, rfl⟩ := List.exists_cons_of_ne_nil filled
        have tight := solid mark List.mem_cons_self
        rw [begins mark rfl] at tight
        cases tight
      refine List.forall_mem_cons.mpr ⟨Nat.lt_add_of_pos_right wide, ?_⟩
      intro lexeme member
      have later := tiled.le_start lexeme member
      omega

/-- Between two words there is a byte at least. -/
theorem pairwise (tiled : Tiled offset marks lexemes) :
    lexemes.Pairwise fun left right => left.span.stop < right.span.start := by
  induction tiled with
  | gap => exact .nil
  | word offset loose filled solid ends tiled ih => exact .cons (tiled.lt_start ends) ih

/-! ## Places -/

/-- Every lexeme is a word with a gap on both of its sides, or the end. -/
theorem exists_word (tiled : Tiled offset marks lexemes) {lexeme : Lexeme}
    (member : lexeme ∈ lexemes) :
    ∃ front word back, marks = front ++ (word ++ back) ∧ word ≠ [] ∧
      (∀ mark ∈ word, inWord mark = true) ∧ (∀ mark ∈ front.getLast?, inWord mark = false) ∧
      (∀ mark ∈ back.head?, inWord mark = false) ∧ lexeme.text = Text.unescape (word.map Prod.fst) ∧
      lexeme.span = ⟨offset + width front, offset + width front + width word⟩ := by
  induction tiled with
  | gap => cases member
  | @word offset gap word rest later loose filled solid ends tiled ih =>
      rcases List.mem_cons.mp member with rfl | member
      · refine ⟨gap, word, rest, rfl, filled, solid, ?_, ends, rfl, rfl⟩
        intro mark last
        exact loose mark (List.mem_of_getLast? last)
      · obtain ⟨front, inner, back, rfl, innerFilled, innerSolid, before, after, decoded, place⟩ :=
          ih member
        refine ⟨gap ++ (word ++ front), inner, back, by simp, innerFilled, innerSolid, ?_, after,
          decoded, ?_⟩
        · -- The word in front has ended before this one starts.
          have apart : front ≠ [] := by
            rintro rfl
            obtain ⟨mark, others, rfl⟩ := List.exists_cons_of_ne_nil innerFilled
            have tight := innerSolid mark List.mem_cons_self
            rw [ends mark rfl] at tight
            cases tight
          have last := List.getLast?_eq_some_getLast apart
          rw [List.getLast?_append, List.getLast?_append, last, Option.some_or, Option.some_or]
          rwa [last] at before
        · simp only [place, width_append, Nat.add_assoc]

theorem append_eq_append_cons {front back left right : List (Char × Bool)} {mark : Char × Bool}
    (same : front ++ back = left ++ mark :: right) :
    (∃ between, left = front ++ between ∧ back = between ++ mark :: right) ∨
      ∃ between, front = left ++ mark :: between := by
  rcases List.append_eq_append_iff.mp same with ⟨between, inFront, inBack⟩ | ⟨between, rfl, inside⟩
  · exact .inl ⟨between, inFront, inBack⟩
  · cases between with
    | nil => exact .inl ⟨[], by simp, inside.symm⟩
    | cons first others =>
        obtain ⟨rfl, -⟩ := List.cons.inj inside
        exact .inr ⟨others, rfl⟩

/-- A character is covered by a lexeme exactly when it is part of a word. -/
theorem covered_iff (tiled : Tiled offset marks lexemes) {front back : List (Char × Bool)}
    {mark : Char × Bool} (place : marks = front ++ mark :: back) :
    (∃ lexeme ∈ lexemes, lexeme.span.start ≤ offset + width front ∧
      offset + width front < lexeme.span.stop) ↔ inWord mark = true := by
  induction tiled generalizing front with
  | gap offset loose =>
      subst place
      simp [loose mark (by simp)]
  | @word offset gap word rest later loose filled solid ends tiled ih =>
      simp only [List.mem_cons, exists_eq_or_imp]
      rcases append_eq_append_cons place with ⟨between, rfl, inside⟩ | ⟨between, rfl⟩
      · rcases append_eq_append_cons inside with ⟨beyond, rfl, split⟩ | ⟨beyond, rfl⟩
        · -- The character comes after the word.
          rw [← ih split]
          simp only [width_append, ← Nat.add_assoc]
          refine or_iff_right ?_
          rintro ⟨-, before⟩
          omega
        · -- The character is part of the word.
          rw [solid mark (by simp), width_append, width_append, width_cons]
          have size := mark.1.utf8Size_pos
          refine iff_of_true (.inl ⟨?_, ?_⟩) rfl
          · omega
          · omega
      · -- The character stands in the gap before the word.
        rw [loose mark (by simp), width_append, width_cons]
        have size := mark.1.utf8Size_pos
        refine iff_of_false ?_ Bool.false_ne_true
        rintro (⟨starts, -⟩ | ⟨lexeme, member, starts, -⟩)
        · omega
        · have after := tiled.le_start lexeme member
          rw [width_append, width_cons] at after
          omega

end Tiled

end Lexeme

end Splice
