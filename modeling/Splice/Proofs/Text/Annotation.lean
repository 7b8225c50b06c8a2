import Splice.Proofs.Text.Comment

/-!
# What a comment is

A comment is described here without a reader that goes from character to character. A line comment
is made of two slashes and of all that comes before the next line break. A block comment is made of
a slash and a star and of all that comes up to the first star and slash after them, or of all that
is left if there is no such place. A comment opens only where no other one goes on. By this
description, and by no other marks, `marked` tells the characters inside comments from the rest.
-/

namespace Splice.Text

/-- A star and a slash stand side by side somewhere in a text. -/
def ClosesBlock (text : Text) : Prop :=
  ['*', '/'] <:+: text

instance (text : Text) : Decidable text.ClosesBlock :=
  inferInstanceAs (Decidable (_ <:+: _))

/-- The texts that are comments when a given text comes after them. -/
inductive Comment : Text → Text → Prop where
  /-- A line comment goes up to a line break or to the end. -/
  | line {body rest : Text} (unbroken : '\n' ∉ body) (ends : ∀ next ∈ rest.head?, next = '\n') :
      Comment ('/' :: '/' :: body) rest
  /-- A block comment goes up to the first star and slash after its opening. -/
  | block {body : Text} (unclosed : ¬ ClosesBlock (body ++ ['*'])) (rest : Text) :
      Comment ('/' :: '*' :: (body ++ ['*', '/'])) rest
  /-- A block comment that is never closed goes up to the end. -/
  | endless {body : Text} (unclosed : ¬ ClosesBlock body) : Comment ('/' :: '*' :: body) []

/-- The characters of a text, each with whether it lies inside a comment. -/
inductive Annotated : Text → List (Char × Bool) → Prop where
  | done : Annotated [] []
  | code {char : Char} {rest : Text} {marks : List (Char × Bool)}
      (closed : ¬ OpensHere (char :: rest)) (later : Annotated rest marks) :
      Annotated (char :: rest) ((char, false) :: marks)
  | comment {comment rest : Text} {marks : List (Char × Bool)} (whole : Comment comment rest)
      (later : Annotated rest marks) :
      Annotated (comment ++ rest) (comment.map (·, true) ++ marks)

/-- The character with a given index lies inside a comment. -/
def InComment (text : Text) (index : Nat) : Prop :=
  ∃ marks char, Annotated text marks ∧ marks[index]? = some (char, true)

/-! ## Line comments -/

theorem marked_newline_cons (rest : Text) :
    marked .code ('\n' :: rest) = ('\n', false) :: marked .code rest := by
  apply marked_code_cons
  rw [opensHere_cons]
  rintro ⟨same, -⟩
  cases same

/-- A line comment is read up to its line break. -/
theorem marked_line_append {body rest : Text} (unbroken : '\n' ∉ body)
    (ends : ∀ next ∈ rest.head?, next = '\n') :
    marked .line (body ++ rest) = body.map (·, true) ++ marked .code rest := by
  induction body with
  | nil =>
      cases rest with
      | nil => rfl
      | cons next later =>
          obtain rfl := ends next rfl
          rw [List.nil_append, List.map_nil, List.nil_append, marked_newline_cons, marked]
  | cons char later ih =>
      rw [List.mem_cons, not_or] at unbroken
      have inside : marked .line (char :: (later ++ rest)) =
          (char, true) :: marked .line (later ++ rest) := by
        rw [marked]
        rintro rfl
        exact unbroken.1 rfl
      rw [List.cons_append, inside, ih unbroken.2]
      rfl

theorem exists_line_end (text : Text) :
    ∃ body rest, text = body ++ rest ∧ '\n' ∉ body ∧ ∀ next ∈ rest.head?, next = '\n' := by
  induction text with
  | nil => exact ⟨[], [], rfl, List.not_mem_nil, nofun⟩
  | cons char later ih =>
      by_cases newline : char = '\n'
      · refine ⟨[], char :: later, rfl, List.not_mem_nil, ?_⟩
        rintro next ⟨rfl⟩
        exact newline
      · obtain ⟨body, rest, rfl, unbroken, ends⟩ := ih
        refine ⟨char :: body, rest, rfl, ?_, ends⟩
        rw [List.mem_cons, not_or]
        exact ⟨Ne.symm newline, unbroken⟩

/-! ## Block comments -/

theorem closesBlock_cons (char : Char) (rest : Text) :
    ClosesBlock (char :: rest) ↔ (char = '*' ∧ rest.head? = some '/') ∨ ClosesBlock rest := by
  rw [ClosesBlock, List.infix_cons_iff, ClosesBlock]
  cases rest with
  | nil => simp
  | cons next later => simp [List.cons_prefix_cons, eq_comm]

/-- What has to be put in front of a text for a reader that may have just read a star. -/
def starred (star : Bool) : Text :=
  if star then ['*'] else []

theorem closesBlock_starred_cons (star : Bool) (char : Char) (rest : Text) :
    ClosesBlock (starred star ++ char :: rest) ↔
      (star = true ∧ char = '/') ∨ ClosesBlock (starred (char == '*') ++ rest) := by
  have next : ClosesBlock (char :: rest) ↔ ClosesBlock (starred (char == '*') ++ rest) := by
    by_cases star : char = '*'
    · subst star
      rfl
    · rw [closesBlock_cons]
      simp [starred, star]
  cases star with
  | false => simpa [starred] using next
  | true =>
      rw [← next]
      simp [starred, closesBlock_cons]

theorem marked_block_cons {star : Bool} {char : Char} (goesOn : ¬ (star = true ∧ char = '/'))
    (rest : Text) :
    marked (.block star) (char :: rest) = (char, true) :: marked (.block (char == '*')) rest := by
  rw [marked]
  rintro rfl rfl
  exact goesOn ⟨rfl, rfl⟩

/-- A block comment that is never closed is read up to the end. -/
theorem marked_block_of_unclosed {star : Bool} {text : Text}
    (unclosed : ¬ ClosesBlock (starred star ++ text)) :
    marked (.block star) text = text.map (·, true) := by
  induction text generalizing star with
  | nil => rw [marked, List.map_nil]
  | cons char rest ih =>
      rw [closesBlock_starred_cons, not_or] at unclosed
      rw [marked_block_cons unclosed.1, ih unclosed.2, List.map_cons]

/-- A block comment is read up to the first place that closes it. -/
theorem marked_block_append {star : Bool} {body : Text}
    (unclosed : ¬ ClosesBlock (starred star ++ (body ++ ['*']))) (rest : Text) :
    marked (.block star) (body ++ '*' :: '/' :: rest) =
      (body ++ ['*', '/']).map (·, true) ++ marked .code rest := by
  induction body generalizing star with
  | nil =>
      have goesOn : ¬ (star = true ∧ '*' = '/') := by
        rintro ⟨-, same⟩
        cases same
      rw [List.nil_append, marked_block_cons goesOn, beq_self_eq_true, marked]
      rfl
  | cons char later ih =>
      rw [List.cons_append, closesBlock_starred_cons, not_or] at unclosed
      rw [List.cons_append, marked_block_cons unclosed.1, ih unclosed.2]
      rfl

theorem exists_first_closing {text : Text} (closes : text.ClosesBlock) :
    ∃ body rest, text = body ++ '*' :: '/' :: rest ∧ ¬ ClosesBlock (body ++ ['*']) := by
  induction text with
  | nil => exact absurd closes (by decide)
  | cons char later ih =>
      by_cases here : char = '*' ∧ later.head? = some '/'
      · obtain ⟨rfl, follows⟩ := here
        obtain ⟨rest, rfl⟩ := List.head?_eq_some_iff.mp follows
        exact ⟨[], rest, rfl, by decide⟩
      · obtain ⟨body, rest, rfl, unclosed⟩ :=
          ih (((closesBlock_cons char later).mp closes).resolve_left here)
        refine ⟨char :: body, rest, rfl, ?_⟩
        rw [List.cons_append, closesBlock_cons, not_or]
        refine ⟨?_, unclosed⟩
        rintro ⟨star, follows⟩
        apply here
        refine ⟨star, ?_⟩
        cases body with
        | nil => cases follows
        | cons next between => exact follows

/-! ## Agreement -/

theorem Comment.marked_append {comment rest : Text} (whole : Comment comment rest) :
    marked .code (comment ++ rest) = comment.map (·, true) ++ marked .code rest := by
  cases whole with
  | line unbroken ends =>
      rw [List.cons_append, List.cons_append, marked, marked_line_append unbroken ends]
      rfl
  | block unclosed =>
      rw [List.cons_append, List.cons_append, List.append_assoc, marked]
      exact congrArg (('/', true) :: ('*', true) :: ·) (marked_block_append unclosed rest)
  | @endless body unclosed =>
      have read : marked (.block false) body = body.map (·, true) :=
        marked_block_of_unclosed unclosed
      simp only [List.append_nil, marked, read, List.map_cons]

/-- Where a comment opens, a whole comment stands. -/
theorem exists_comment_of_opensHere {text : Text} (opens : text.OpensHere) :
    ∃ comment rest, text = comment ++ rest ∧ comment ≠ [] ∧ Comment comment rest := by
  rcases opens with ⟨later, rfl⟩ | ⟨later, rfl⟩
  · obtain ⟨body, rest, rfl, unbroken, ends⟩ := exists_line_end later
    exact ⟨'/' :: '/' :: body, rest, by simp, List.cons_ne_nil _ _, .line unbroken ends⟩
  · by_cases closes : ClosesBlock later
    · obtain ⟨body, rest, rfl, unclosed⟩ := exists_first_closing closes
      refine ⟨'/' :: '*' :: (body ++ ['*', '/']), rest, ?_, List.cons_ne_nil _ _,
        .block unclosed rest⟩
      simp
    · exact ⟨'/' :: '*' :: later, [], by simp, List.cons_ne_nil _ _, .endless closes⟩

theorem annotated_marked (text : Text) : Annotated text (marked .code text) := by
  induction size : text.length using Nat.strongRecOn generalizing text with
  | ind size ih =>
      subst size
      cases text with
      | nil => exact .done
      | cons char rest =>
          by_cases opens : OpensHere (char :: rest)
          · obtain ⟨comment, later, same, filled, whole⟩ := exists_comment_of_opensHere opens
            have shorter : later.length < (char :: rest).length := by
              rw [same, List.length_append]
              exact Nat.lt_add_of_pos_left (List.length_pos_iff.mpr filled)
            rw [same, whole.marked_append]
            exact .comment whole (ih _ shorter later rfl)
          · rw [marked_code_cons opens]
            exact .code opens (ih _ (Nat.lt_succ_self _) rest rfl)

/-- The characters that are marked are those inside comments, and there is no other way to mark
them. -/
theorem annotated_iff {text : Text} {marks : List (Char × Bool)} :
    Annotated text marks ↔ marks = marked .code text := by
  constructor
  · intro annotated
    induction annotated with
    | done => rfl
    | code closed later ih => rw [marked_code_cons closed, ih]
    | comment whole later ih => rw [whole.marked_append, ih]
  · rintro rfl
    exact annotated_marked text

theorem inComment_iff {text : Text} {index : Nat} :
    text.InComment index ↔ ∃ char, (marked .code text)[index]? = some (char, true) := by
  constructor
  · rintro ⟨marks, char, annotated, inside⟩
    exact ⟨char, annotated_iff.mp annotated ▸ inside⟩
  · rintro ⟨char, inside⟩
    exact ⟨marked .code text, char, annotated_marked text, inside⟩

end Splice.Text
