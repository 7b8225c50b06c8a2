import Splice.Text.Comment

/-!
# Openings of comments

A comment opens where a slash stands in front of a slash or a star. A text where no comment
opens is left alone by the blanking of comments. Any other text loses a slash, since what stands
in for a comment holds none. No comment opens in a text that has been blanked.
-/

namespace Splice.Text

/-- A comment opens somewhere in a text. -/
def OpensComment (text : Text) : Prop :=
  ['/', '/'] <:+: text ∨ ['/', '*'] <:+: text

instance (text : Text) : Decidable text.OpensComment :=
  inferInstanceAs (Decidable (_ ∨ _))

/-- A comment opens with the first character of a text. -/
def OpensHere (text : Text) : Prop :=
  ['/', '/'] <+: text ∨ ['/', '*'] <+: text

theorem not_opensComment_of_not_mem {text : Text} (free : '/' ∉ text) : ¬ text.OpensComment := by
  rintro (line | block)
  · exact free (line.subset List.mem_cons_self)
  · exact free (block.subset List.mem_cons_self)

theorem not_opensComment_nil : ¬ OpensComment [] := by
  decide

theorem opensComment_cons (char : Char) (rest : Text) :
    OpensComment (char :: rest) ↔ OpensHere (char :: rest) ∨ OpensComment rest := by
  simp only [OpensComment, OpensHere, List.infix_cons_iff]
  constructor
  · rintro ((here | later) | (here | later))
    · exact .inl (.inl here)
    · exact .inr (.inl later)
    · exact .inl (.inr here)
    · exact .inr (.inr later)
  · rintro ((here | here) | (later | later))
    · exact .inl (.inl here)
    · exact .inr (.inl here)
    · exact .inl (.inr later)
    · exact .inr (.inr later)

theorem opensHere_cons (char : Char) (rest : Text) :
    OpensHere (char :: rest) ↔
      char = '/' ∧ (rest.head? = some '/' ∨ rest.head? = some '*') := by
  cases rest with
  | nil => simp [OpensHere]
  | cons next later =>
      simp only [OpensHere, List.cons_prefix_cons, List.nil_prefix, and_true, List.head?_cons,
        Option.some.injEq, eq_comm, ← and_or_left]

theorem opensComment_append_of_not_mem {front : Text} (free : '/' ∉ front) (back : Text) :
    OpensComment (front ++ back) ↔ back.OpensComment := by
  induction front with
  | nil => rfl
  | cons char rest ih =>
      rw [List.mem_cons, not_or] at free
      rw [List.cons_append, opensComment_cons, opensHere_cons, ih free.2]
      simp [Ne.symm free.1]

/-! ## Blanking -/

theorem map_fst_marked (region : Region) (text : Text) :
    (marked region text).map Prod.fst = text := by
  fun_induction marked region text with
  | case1 region => rfl
  | case2 rest ih => exact congrArg ('/' :: '/' :: ·) ih
  | case3 rest ih => exact congrArg ('/' :: '*' :: ·) ih
  | case4 char rest noLine noBlock ih => exact congrArg (char :: ·) ih
  | case5 rest ih => exact congrArg ('\n' :: ·) ih
  | case6 char rest other ih => exact congrArg (char :: ·) ih
  | case7 rest ih => exact congrArg ('/' :: ·) ih
  | case8 star char rest other ih => exact congrArg (char :: ·) ih

@[simp]
theorem shown_inside (char : Char) : shown (char, true) = blank char := rfl

@[simp]
theorem shown_outside (char : Char) : shown (char, false) = [char] := rfl

/-- A text with its comments blanked, read from a region on. -/
def blanked (region : Region) (text : Text) : Text :=
  (marked region text).flatMap shown

theorem withoutComments_eq_blanked (text : Text) :
    text.withoutComments = blanked .code text := rfl

theorem marked_code_cons {char : Char} {rest : Text} (closed : ¬ OpensHere (char :: rest)) :
    marked .code (char :: rest) = (char, false) :: marked .code rest := by
  rw [marked]
  · rintro later rfl rfl
    exact closed (.inl ⟨later, rfl⟩)
  · rintro later rfl rfl
    exact closed (.inr ⟨later, rfl⟩)

/-- A text without comments is left as it is. -/
theorem withoutComments_eq_self {text : Text} (closed : ¬ text.OpensComment) :
    text.withoutComments = text := by
  rw [withoutComments_eq_blanked]
  induction text with
  | nil => rfl
  | cons char rest ih =>
      rw [opensComment_cons, not_or] at closed
      rw [blanked, marked_code_cons closed.1]
      exact congrArg (char :: ·) (ih closed.2)

/-! ## Slashes -/

theorem count_slash_blank (char : Char) : (blank char).count '/' = 0 := by
  unfold blank
  split
  · decide
  · exact List.count_eq_zero.mpr fun member => by simp at member

theorem count_slash_shown_le (mark : Char × Bool) :
    (shown mark).count '/' ≤ [mark.1].count '/' := by
  obtain ⟨char, inside⟩ := mark
  cases inside with
  | false => exact Nat.le_refl _
  | true =>
      rw [shown_inside, count_slash_blank]
      exact Nat.zero_le _

theorem count_slash_flatMap_shown_le (marks : List (Char × Bool)) :
    (marks.flatMap shown).count '/' ≤ (marks.map Prod.fst).count '/' := by
  induction marks with
  | nil => exact Nat.le_refl 0
  | cons mark rest ih =>
      rw [List.flatMap_cons, List.map_cons, ← List.singleton_append, List.count_append,
        List.count_append]
      exact Nat.add_le_add (count_slash_shown_le mark) ih

/-- Blanking brings in no slash. -/
theorem count_slash_blanked_le (region : Region) (text : Text) :
    (blanked region text).count '/' ≤ text.count '/' := by
  have fewer := count_slash_flatMap_shown_le (marked region text)
  rwa [map_fst_marked] at fewer

/-- The slash that opens a comment is blanked. -/
theorem count_slash_withoutComments_lt {text : Text} (opens : text.OpensComment) :
    text.withoutComments.count '/' < text.count '/' := by
  rw [withoutComments_eq_blanked]
  induction text with
  | nil => exact absurd opens not_opensComment_nil
  | cons char rest ih =>
      by_cases here : OpensHere (char :: rest)
      · rcases here with ⟨later, same⟩ | ⟨later, same⟩
        · rw [← same]
          have fewer := count_slash_blanked_le .line later
          calc (blanked .code ('/' :: '/' :: later)).count '/'
              = (blanked .line later).count '/' := by
                simp [blanked, marked, count_slash_blank]
            _ < ('/' :: '/' :: later).count '/' := by
                simp only [List.count_cons_self]
                omega
        · rw [← same]
          have fewer := count_slash_blanked_le (.block false) later
          calc (blanked .code ('/' :: '*' :: later)).count '/'
              = (blanked (.block false) later).count '/' := by
                simp [blanked, marked, count_slash_blank]
            _ < ('/' :: '*' :: later).count '/' := by
                rw [List.count_cons_self, List.count_cons_of_ne (by decide)]
                omega
      · have later := ((opensComment_cons char rest).mp opens).resolve_left here
        have kept : blanked .code (char :: rest) = char :: blanked .code rest := by
          rw [blanked, marked_code_cons here]
          rfl
        rw [kept, List.count_cons, List.count_cons]
        exact Nat.add_lt_add_right (ih later) _

/-! ## Blanked texts -/

theorem head?_blanked_code (text : Text) :
    (blanked .code text).head? = some ' ' ∨ (blanked .code text).head? = text.head? := by
  cases text with
  | nil => exact .inr rfl
  | cons char rest =>
      by_cases here : OpensHere (char :: rest)
      · left
        rcases here with ⟨later, same⟩ | ⟨later, same⟩
        · rw [← same]
          rfl
        · rw [← same]
          rfl
      · right
        rw [blanked, marked_code_cons here]
        rfl

/-- No comment opens in a text whose comments have been blanked. -/
theorem not_opensComment_blanked (region : Region) (text : Text) :
    ¬ (blanked region text).OpensComment := by
  have skip (char : Char) (marks : List (Char × Bool)) :
      OpensComment (((char, true) :: marks).flatMap shown) ↔ OpensComment (marks.flatMap shown) :=
    opensComment_append_of_not_mem (List.count_eq_zero.mp (count_slash_blank char)) _
  unfold blanked
  fun_induction marked region text with
  | case1 region => exact not_opensComment_nil
  | case2 rest ih => rwa [skip, skip]
  | case3 rest ih => rwa [skip, skip]
  | case4 char rest noLine noBlock ih =>
      intro opens
      rcases (opensComment_cons char (blanked .code rest)).mp opens with here | later
      · -- A slash is kept only in front of what makes no comment with it, and blanking puts
        -- nothing else there but a space.
        obtain ⟨rfl, next⟩ := (opensHere_cons char (blanked .code rest)).mp here
        rcases head?_blanked_code rest with space | same
        · simp [space] at next
        · rw [same, List.head?_eq_some_iff, List.head?_eq_some_iff] at next
          rcases next with ⟨after, rfl⟩ | ⟨after, rfl⟩
          · exact noLine after rfl rfl
          · exact noBlock after rfl rfl
      · exact ih later
  | case5 rest ih =>
      intro opens
      exact ih ((opensComment_append_of_not_mem (by decide : '/' ∉ ['\n']) _).mp opens)
  | case6 char rest other ih => rwa [skip]
  | case7 rest ih => rwa [skip]
  | case8 star char rest other ih => rwa [skip]

/-- Blanking brings in no character but the space. -/
theorem mem_of_mem_withoutComments {text : Text} {char : Char} (solid : char ≠ ' ')
    (member : char ∈ text.withoutComments) : char ∈ text := by
  obtain ⟨⟨source, inside⟩, mark, written⟩ := List.mem_flatMap.mp member
  have known : source ∈ text := by
    rw [← map_fst_marked .code text]
    exact List.mem_map_of_mem mark
  cases inside with
  | false => exact List.mem_singleton.mp written ▸ known
  | true =>
      rw [shown_inside, blank] at written
      split at written
      · rename_i newline
        rw [List.mem_singleton.mp written]
        exact newline ▸ known
      · exact absurd (List.eq_of_mem_replicate written) solid

end Splice.Text
