import Mathlib.Data.List.Forall2
import Splice.Proofs.Span
import Splice.Proofs.Text.Annotation
import Splice.Text.Utf8

/-!
# Blanked bytes

Blanking the comments of a text changes bytes into spaces, byte for byte: none is added or taken
away, and none comes to or from a line break. What comes of a text holds no comment, so that it is
left as it is from then on.
-/

namespace Splice.Text

/-- The bytes of the UTF-8 encoding of a text. -/
def bytes (text : Text) : List UInt8 :=
  text.flatMap String.utf8EncodeChar

/-- The byte of a space. -/
def space : UInt8 := 32

theorem bytes_append (front back : Text) : bytes (front ++ back) = bytes front ++ bytes back :=
  List.flatMap_append

theorem length_bytes (text : Text) : text.bytes.length = text.byteLength := by
  induction text with
  | nil => rfl
  | cons char rest ih =>
      rw [bytes, List.flatMap_cons, List.length_append, String.length_utf8EncodeChar,
        byteLength_cons]
      exact congrArg (char.utf8Size + ·) ih

theorem bytes_replicate_space (count : Nat) :
    bytes (List.replicate count ' ') = List.replicate count space := by
  induction count with
  | zero => rfl
  | succ count ih =>
      rw [List.replicate_succ, List.replicate_succ, ← ih]
      rfl

/-- The byte of a line break is part of no other character. -/
theorem lineBreak_not_mem_utf8EncodeChar {char : Char} (other : char ≠ '\n') :
    lineBreak ∉ String.utf8EncodeChar char := by
  have code : char.val.toNat ≠ 10 := by
    intro same
    exact other (Char.ext (UInt32.toNat_inj.mp same))
  have differs (number : Nat) (small : number < 256) (solid : number ≠ 10) :
      lineBreak ≠ UInt8.ofNat number := by
    intro same
    have equal := congrArg UInt8.toNat same
    rw [UInt8.toNat_ofNat', Nat.mod_eq_of_lt small] at equal
    exact solid equal.symm
  -- The only byte of a short encoding is the number of the character; the bytes of the longer ones
  -- are at least 128.
  simp only [String.utf8EncodeChar]
  split
  · exact List.not_mem_cons_of_ne_of_not_mem (differs _ (by omega) code) List.not_mem_nil
  · split
    · simp only [List.mem_cons, List.not_mem_nil, or_false, not_or]
      exact ⟨differs _ (by omega) (by omega), differs _ (by omega) (by omega)⟩
    · split
      · simp only [List.mem_cons, List.not_mem_nil, or_false, not_or]
        exact ⟨differs _ (by omega) (by omega), differs _ (by omega) (by omega),
          differs _ (by omega) (by omega)⟩
      · simp only [List.mem_cons, List.not_mem_nil, or_false, not_or]
        exact ⟨differs _ (by omega) (by omega), differs _ (by omega) (by omega),
          differs _ (by omega) (by omega), differs _ (by omega) (by omega)⟩

/-- What may become of a byte: it stays, or a space takes its place if it is no line break. -/
structure Blanks (earlier later : UInt8) : Prop where
  kept_or_space : later = earlier ∨ later = space
  lineBreak_iff : later = lineBreak ↔ earlier = lineBreak

theorem Blanks.refl (byte : UInt8) : Blanks byte byte :=
  ⟨.inl rfl, Iff.rfl⟩

theorem forall₂_blanks_spaces {encoded : List UInt8} (unbroken : lineBreak ∉ encoded) :
    List.Forall₂ Blanks encoded (List.replicate encoded.length space) := by
  induction encoded with
  | nil => exact .nil
  | cons byte rest ih =>
      rw [List.mem_cons, not_or] at unbroken
      refine .cons ⟨.inr rfl, ?_⟩ (ih unbroken.2)
      exact iff_of_false (by decide) (Ne.symm unbroken.1)

theorem forall₂_blanks_blank (char : Char) :
    List.Forall₂ Blanks (String.utf8EncodeChar char) (bytes (blank char)) := by
  unfold blank
  split
  · rename_i newline
    subst newline
    exact .cons (.refl lineBreak) .nil
  · rename_i other
    rw [bytes_replicate_space, ← String.length_utf8EncodeChar]
    exact forall₂_blanks_spaces (lineBreak_not_mem_utf8EncodeChar other)

theorem forall₂_blanks_marks (marks : List (Char × Bool)) :
    List.Forall₂ Blanks (bytes (marks.map Prod.fst)) (bytes (marks.flatMap shown)) := by
  induction marks with
  | nil => exact .nil
  | cons mark rest ih =>
      obtain ⟨char, inside⟩ := mark
      rw [List.flatMap_cons, bytes_append]
      refine List.rel_append ?_ ih
      cases inside with
      | true => exact forall₂_blanks_blank char
      | false =>
          have kept : bytes (shown (char, false)) = String.utf8EncodeChar char := List.append_nil _
          rw [kept]
          exact List.forall₂_same.mpr fun byte _ => .refl byte

/-- Every byte of a text stays where comments are blanked, or becomes a space. -/
theorem forall₂_blanks_withoutComments (text : Text) :
    List.Forall₂ Blanks text.bytes text.withoutComments.bytes := by
  have blanks := forall₂_blanks_marks (marked .code text)
  rwa [map_fst_marked] at blanks

/-- What becomes of the byte at an offset. -/
theorem blanks_getElem? (text : Text) (offset : Nat) :
    (text.bytes[offset]? = none ∧ text.withoutComments.bytes[offset]? = none) ∨
      ∃ earlier later, text.bytes[offset]? = some earlier ∧
        text.withoutComments.bytes[offset]? = some later ∧ Blanks earlier later := by
  obtain ⟨size, blanks⟩ := List.forall₂_iff_get.mp (forall₂_blanks_withoutComments text)
  by_cases inside : offset < text.bytes.length
  · have remains := size ▸ inside
    exact .inr ⟨_, _, List.getElem?_eq_getElem inside, List.getElem?_eq_getElem remains,
      blanks offset inside remains⟩
  · have outside := Nat.le_of_not_lt inside
    exact .inl ⟨List.getElem?_eq_none outside, List.getElem?_eq_none (size ▸ outside)⟩

/-- Blanking the comments of a text blanks what lies inside of them and nothing else. It keeps the
length and the line breaks, changes bytes into spaces only, leaves no comment and nothing to be done
a second time, and changes every text in which a comment opens. -/
theorem withoutComments_projects (text : Text) :
    (∃ marks, Annotated text marks ∧ text.withoutComments = marks.flatMap shown) ∧
    text.withoutComments.bytes.length = text.bytes.length ∧
    (∀ offset : Nat, text.withoutComments.bytes[offset]? = some lineBreak ↔
      text.bytes[offset]? = some lineBreak) ∧
    (∀ offset : Nat, text.withoutComments.bytes[offset]? = text.bytes[offset]? ∨
      text.withoutComments.bytes[offset]? = some space) ∧
    ¬ text.withoutComments.OpensComment ∧
    text.withoutComments.withoutComments = text.withoutComments ∧
    (text.withoutComments = text ↔ ¬ text.OpensComment) := by
  have closed : ¬ text.withoutComments.OpensComment := not_opensComment_blanked .code text
  refine ⟨⟨_, annotated_marked text, rfl⟩, ?_, ?_, ?_, closed, withoutComments_eq_self closed, ?_,
    withoutComments_eq_self⟩
  · rw [length_bytes, length_bytes, byteLength_withoutComments]
  · intro offset
    rcases blanks_getElem? text offset with
      ⟨before, after⟩ | ⟨earlier, later, before, after, blanks⟩
    · rw [before, after]
    · rw [before, after, Option.some.injEq, Option.some.injEq, blanks.lineBreak_iff]
  · intro offset
    rcases blanks_getElem? text offset with
      ⟨before, after⟩ | ⟨earlier, later, before, after, blanks⟩
    · exact .inl (after.trans before.symm)
    · rw [before, after]
      exact blanks.kept_or_space.imp (congrArg some) (congrArg some)
  · intro same opens
    have fewer := count_slash_withoutComments_lt opens
    rw [same] at fewer
    exact Nat.lt_irrefl _ fewer

end Splice.Text
