import Splice.Proofs.Text.Comment
import Splice.Text.Escape
import Splice.Lexeme

/-!
# Escaped words

An escaped text holds no blank, and resolving its escapes gives the text back. Escapes neither
hide nor make a slash, so a comment opens in an escaped text where it opens in the text.
-/

namespace Splice.Text

/-- A character is written as itself, or by a backslash and a letter that stands for it. -/
theorem escapeChar_cases (char : Char) :
    (escapeChar char = [char] ∧ char ≠ '\\' ∧ Lexeme.isSeparator char = false) ∨
      ∃ letter, escapeChar char = ['\\', letter] ∧ escapedChar letter = char ∧
        Lexeme.isSeparator letter = false ∧ letter ≠ '/' ∧ char ≠ '/' ∧ char ≠ '*' := by
  unfold escapeChar
  split
  · exact .inr ⟨'\\', by decide⟩
  · exact .inr ⟨'n', by decide⟩
  · exact .inr ⟨'t', by decide⟩
  · exact .inr ⟨'r', by decide⟩
  · exact .inr ⟨'s', by decide⟩
  · refine .inl ⟨rfl, ?_, ?_⟩ <;> simp_all [Lexeme.isSeparator]

@[simp]
theorem escape_cons (char : Char) (rest : Text) :
    escape (char :: rest) = escapeChar char ++ escape rest := rfl

theorem unescape_cons_of_ne {char : Char} (other : char ≠ '\\') (rest : Text) :
    unescape (char :: rest) = char :: unescape rest := by
  rw [unescape]
  rintro next later rfl
  exact absurd rfl other

/-- Resolving the escapes of an escaped text gives the text. -/
theorem unescape_escape (text : Text) : unescape (escape text) = text := by
  induction text with
  | nil => rfl
  | cons char rest ih =>
      rw [escape_cons]
      rcases escapeChar_cases char with ⟨plain, other, -⟩ | ⟨letter, escaped, stands, -⟩
      · rw [plain, List.singleton_append, unescape_cons_of_ne other, ih]
      · rw [escaped, List.cons_append, List.singleton_append, unescape, stands, ih]

/-- An escaped text holds no separator. -/
theorem isSeparator_of_mem_escape {text : Text} {char : Char} (member : char ∈ escape text) :
    Lexeme.isSeparator char = false := by
  obtain ⟨written, -, inside⟩ := List.mem_flatMap.mp member
  rcases escapeChar_cases written with ⟨plain, -, solid⟩ | ⟨letter, escaped, -, solid, -⟩
  · rw [plain, List.mem_singleton] at inside
    exact inside ▸ solid
  · rw [escaped] at inside
    rcases List.mem_cons.mp inside with rfl | last
    · decide
    · exact List.mem_singleton.mp last ▸ solid

theorem escape_ne_nil {text : Text} (filled : text ≠ []) : escape text ≠ [] := by
  intro none
  exact filled (by rw [← unescape_escape text, none, unescape])

theorem unescape_ne_nil {text : Text} (filled : text ≠ []) : unescape text ≠ [] := by
  unfold unescape
  split
  · exact List.cons_ne_nil _ _
  · exact List.cons_ne_nil _ _
  · exact absurd rfl filled

theorem escape_eq_self {text : Text} (plain : ∀ char ∈ text, escapeChar char = [char]) :
    escape text = text := by
  induction text with
  | nil => rfl
  | cons char rest ih =>
      have first := plain char List.mem_cons_self
      have others : ∀ other ∈ rest, escapeChar other = [other] :=
        fun other member => plain other (List.mem_cons_of_mem char member)
      rw [escape_cons, first, ih others, List.singleton_append]

theorem unescape_eq_self {text : Text} (plain : '\\' ∉ text) : unescape text = text := by
  induction text with
  | nil => rfl
  | cons char rest ih =>
      rw [List.mem_cons, not_or] at plain
      rw [unescape_cons_of_ne (Ne.symm plain.1), ih plain.2]

/-! ## Slashes -/

theorem count_slash_escape (text : Text) : (escape text).count '/' = text.count '/' := by
  induction text with
  | nil => rfl
  | cons char rest ih =>
      rw [escape_cons, List.count_append, ih]
      rcases escapeChar_cases char with ⟨plain, -⟩ | ⟨letter, escaped, -, -, other, solid, -⟩
      · rw [plain, ← List.count_append, List.singleton_append]
      · rw [escaped, List.count_cons_of_ne (by decide), List.count_cons_of_ne other,
          List.count_nil, Nat.zero_add, List.count_cons_of_ne solid]

theorem count_slash_unescape (text : Text) : (unescape text).count '/' = text.count '/' := by
  have same (char : Char) : escapedChar char = '/' ↔ char = '/' := by
    unfold escapedChar
    split <;> simp_all
  fun_induction unescape text with
  | case1 char rest ih => simp [List.count_cons, same, ih]
  | case2 char rest _ ih => rw [List.count_cons, List.count_cons, ih]
  | case3 => rfl

theorem head?_escape {mark : Char} (opener : mark = '/' ∨ mark = '*') (text : Text) :
    (escape text).head? = some mark ↔ text.head? = some mark := by
  cases text with
  | nil => rfl
  | cons char rest =>
      rw [escape_cons]
      rcases escapeChar_cases char with ⟨plain, -⟩ | ⟨letter, escaped, -, -, -, slash, star⟩
      · rw [plain, List.singleton_append, List.head?_cons, List.head?_cons]
      · rw [escaped]
        rcases opener with rfl | rfl
        · simp [slash]
        · simp [star]

/-- A comment opens in an escaped text exactly when it opens in the text. -/
theorem opensComment_escape (text : Text) :
    (escape text).OpensComment ↔ text.OpensComment := by
  induction text with
  | nil => rfl
  | cons char rest ih =>
      rw [escape_cons, opensComment_cons char, opensHere_cons, ← ih,
        ← head?_escape (.inl rfl), ← head?_escape (.inr rfl)]
      rcases escapeChar_cases char with ⟨plain, -⟩ | ⟨letter, escaped, -, -, other, slash, -⟩
      · rw [plain, List.singleton_append, opensComment_cons, opensHere_cons]
      · rw [escaped, List.cons_append, List.singleton_append, opensComment_cons,
          opensComment_cons, opensHere_cons, opensHere_cons]
        simp [other, slash]

end Splice.Text
