import Splice.Proofs.Text.Comment

/-!
# Texts on lines of their own

How a text is read depends on where the reader stands after the text before it. A line break ends a
line comment and is outside of it, so it takes a reader that does not stand in a block comment out
of every comment, and whatever comes on the next line is read as if it stood alone.
-/

namespace Splice.Text

/-- Where a reader stands after a text. -/
def Region.after : Region → Text → Region
  | region, [] => region
  | .code, '/' :: '/' :: rest => after .line rest
  | .code, '/' :: '*' :: rest => after (.block false) rest
  | .code, _ :: rest => after .code rest
  | .line, '\n' :: rest => after .code rest
  | .line, _ :: rest => after .line rest
  | .block true, '/' :: rest => after .code rest
  | .block _, char :: rest => after (.block (char == '*')) rest

/-- Every block comment that opens in a text is closed in it: the end of the text is outside of
every comment, or in a line comment. -/
def BlocksClosed (text : Text) : Prop :=
  Region.code.after text = .code ∨ Region.code.after text = .line

instance (text : Text) : Decidable text.BlocksClosed :=
  inferInstanceAs (Decidable (_ ∨ _))

/-- A line break opens no comment with the character before it. -/
theorem opensHere_append_newline (char : Char) (rest back : Text) :
    OpensHere (char :: (rest ++ '\n' :: back)) ↔ OpensHere (char :: rest) := by
  rw [opensHere_cons, opensHere_cons]
  cases rest <;> simp

/-- What stands in front of a line break is read as if nothing came after it. -/
theorem marked_append_newline (region : Region) (front back : Text) :
    marked region (front ++ '\n' :: back) =
      marked region front ++ marked (region.after front) ('\n' :: back) := by
  fun_induction Region.after region front with
  | case1 region => rw [List.nil_append, marked, List.nil_append]
  | case2 rest ih => exact congrArg (('/', true) :: ('/', true) :: ·) ih
  | case3 rest ih => exact congrArg (('/', true) :: ('*', true) :: ·) ih
  | case4 char rest noLine noBlock ih =>
      have closed : ¬ OpensHere (char :: rest) := by
        rintro (⟨later, same⟩ | ⟨later, same⟩)
        · obtain ⟨rfl, rfl⟩ := List.cons.inj same
          exact noLine later rfl rfl
        · obtain ⟨rfl, rfl⟩ := List.cons.inj same
          exact noBlock later rfl rfl
      have stillClosed : ¬ OpensHere (char :: (rest ++ '\n' :: back)) := by
        rwa [opensHere_append_newline]
      rw [List.cons_append, marked_code_cons stillClosed, marked_code_cons closed, ih]
      rfl
  | case5 rest ih => exact congrArg (('\n', false) :: ·) ih
  | case6 char rest other ih =>
      have inside (text : Text) :
          marked .line (char :: text) = (char, true) :: marked .line text := by
        rw [marked]
        exact other
      rw [List.cons_append, inside, inside, ih]
      rfl
  | case7 rest ih =>
      rw [List.cons_append, marked, marked, ih]
      rfl
  | case8 star char rest other ih =>
      have inside (text : Text) : marked (.block star) (char :: text) =
          (char, true) :: marked (.block (char == '*')) text := by
        rw [marked]
        exact other
      rw [List.cons_append, inside, inside, ih]
      rfl

theorem blanked_append_newline (region : Region) (front back : Text) :
    blanked region (front ++ '\n' :: back) =
      blanked region front ++ blanked (region.after front) ('\n' :: back) := by
  simp only [blanked, marked_append_newline, List.flatMap_append]

/-- Two texts on lines of their own have their comments blanked one by one. -/
theorem withoutComments_append_newline {front : Text} (closed : front.BlocksClosed) (back : Text) :
    withoutComments (front ++ '\n' :: back) =
      front.withoutComments ++ '\n' :: back.withoutComments := by
  simp only [withoutComments_eq_blanked, blanked_append_newline]
  rcases closed with outside | line
  · rw [outside]
    rfl
  · rw [line]
    rfl

end Splice.Text
