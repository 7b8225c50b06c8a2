import Splice.Text.Basic

/-!
# Slices

Cutting a text after the bytes of what it starts with gives back the two parts, whatever characters
they are made of. So a part of a text is the slice between the bytes before it and the bytes up to
its end.
-/

namespace Splice.Text

/-- A text is cut after the bytes of what it starts with. -/
theorem splitBytes?_append (front back : Text) :
    splitBytes? front.byteLength (front ++ back) = some (front, back) := by
  induction front with
  | nil => rw [List.nil_append, byteLength_nil, splitBytes?]
  | cons char rest ih =>
      -- A character has a byte at least, so the cut is not in front of it.
      have filled : byteLength (char :: rest) ≠ 0 :=
        Nat.ne_of_gt (Nat.add_pos_left char.utf8Size_pos _)
      obtain ⟨count, size⟩ : ∃ count, byteLength (char :: rest) = count + 1 :=
        Nat.exists_eq_succ_of_ne_zero filled
      have fits : char.utf8Size ≤ count + 1 := by
        rw [← size, byteLength_cons]
        exact Nat.le_add_right _ _
      have remains : count + 1 - char.utf8Size = byteLength rest := by
        rw [← size, byteLength_cons, Nat.add_sub_cancel_left]
      rw [size, List.cons_append, splitBytes?, if_pos fits, remains, ih]
      rfl

/-- What stands between two parts of a text is the slice between them. -/
theorem sliceBytes?_append (front middle back : Text) :
    sliceBytes? front.byteLength (front.byteLength + middle.byteLength)
      (front ++ (middle ++ back)) = some middle := by
  rw [sliceBytes?, if_pos (Nat.le_add_right _ _), splitBytes?_append, Nat.add_sub_cancel_left]
  simp [splitBytes?_append]

end Splice.Text
