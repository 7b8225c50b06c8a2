import Splice.Proofs.Grammar.Trace

/-!
# Derivations

A phrase is a derivation of its words. Words have at most one derivation: the first word of a
phrase tells how the phrase goes on, and the phrase inside a form ends at the first word that no
form starts with. So reading accepts exactly the words that have a derivation of legal forms,
nested to the limit at most, and gives the tree of that derivation.
-/

namespace Splice

@[simp]
theorem Keyword.spelling_inj {first second : Keyword} :
    first.spelling = second.spelling ↔ first = second := by
  constructor
  · intro same
    have found := ofText?_spelling first
    rw [same, ofText?_spelling] at found
    exact (Option.some.inj found).symm
  · rintro rfl
    rfl

/-! ## The first word of a form -/

namespace Form

/-- The first word of a form. -/
def lead : Form → Text
  | word text => text
  | definition _ _ => Keyword.opening.spelling
  | function _ _ => Keyword.opening.spelling
  | application _ _ _ => Keyword.calling.spelling

theorem words_eq_lead_cons (form : Form) : form.words = form.lead :: form.words.tail := by
  cases form <;> rfl

section Lead

variable {form : Form} (legal : form.Legal)

include legal

theorem lead_ne_stop :
    form.lead ≠ Keyword.closing.spelling ∧ form.lead ≠ Keyword.applying.spelling := by
  cases form with
  | word text =>
      simp only [Legal, Keyword.structural, List.mem_cons, not_or] at legal
      exact ⟨legal.2.2.1, legal.2.2.2.1⟩
  | definition name body => simp [lead]
  | function param body => simp [lead]
  | application first others args => simp [lead]

theorem eq_word_of_lead (plain : form.lead ∉ Keyword.structural) : form = .word form.lead := by
  cases form with
  | word text => rfl
  | definition name body => simp [lead, Keyword.structural] at plain
  | function param body => simp [lead, Keyword.structural] at plain
  | application first others args => simp [lead, Keyword.structural] at plain

theorem cases_of_lead_opening (opens : form.lead = Keyword.opening.spelling) :
    (∃ name body, form = .definition name body) ∨ ∃ param body, form = .function param body := by
  cases form with
  | word text =>
      rw [lead] at opens
      simp [Legal, Keyword.structural, opens] at legal
  | definition name body => exact .inl ⟨name, body, rfl⟩
  | function param body => exact .inr ⟨param, body, rfl⟩
  | application first others args => simp [lead] at opens

theorem exists_of_lead_calling (calls : form.lead = Keyword.calling.spelling) :
    ∃ first others args, form = .application first others args := by
  cases form with
  | word text =>
      rw [lead] at calls
      simp [Legal, Keyword.structural, calls] at legal
  | definition name body => simp [lead] at calls
  | function param body => simp [lead] at calls
  | application first others args => exact ⟨first, others, args, rfl⟩

end Lead

end Form

/-! ## Unambiguity -/

namespace Phrase

theorem ends_closing (later : List Text) : Ends (Keyword.closing.spelling :: later) :=
  ends_cons.mpr (.inl rfl)

theorem ends_applying (later : List Text) : Ends (Keyword.applying.spelling :: later) :=
  ends_cons.mpr (.inr rfl)

theorem not_ends_words_append {head : Form} (legal : head.Legal) (tail : List Form)
    (rest : List Text) : ¬ Ends (words (head :: tail) ++ rest) := by
  intro ends
  have stops := ends head.lead (by rw [words, head.words_eq_lead_cons]; rfl)
  have proceeds := Form.lead_ne_stop legal
  exact stops.elim proceeds.1 proceeds.2

/-- The same words start with the same word. -/
theorem exists_cons_of_words_append {head : Form} (legal : head.Legal) {tail other : List Form}
    {rest later : List Text} (ends : Ends later)
    (same : words (head :: tail) ++ rest = words other ++ later) :
    ∃ first others, other = first :: others ∧ first.lead = head.lead := by
  cases other with
  | nil => exact absurd (same ▸ ends) (not_ends_words_append legal tail rest)
  | cons first others =>
      refine ⟨first, others, rfl, ?_⟩
      rw [words, words, head.words_eq_lead_cons, first.words_eq_lead_cons] at same
      exact (List.cons.inj same).1.symm

/-- In front of a word that ends it, a legal phrase is told by its words, and so is where it
ends. -/
def Determined (phrase : List Form) : Prop :=
  ∀ other rest later, Legal phrase → Legal other → Ends rest → Ends later →
    words phrase ++ rest = words other ++ later → phrase = other ∧ rest = later

/-- A phrase up to the word that closes a form, and the phrase after it. -/
theorem Determined.closed {body tail inside others : List Form} {rest later : List Text}
    (ofBody : Determined body) (ofTail : Determined tail)
    (legal : Legal body ∧ Legal tail) (legalOther : Legal inside ∧ Legal others)
    (ends : Ends rest) (endsLater : Ends later)
    (same : words body ++ Keyword.closing.spelling :: (words tail ++ rest) =
      words inside ++ Keyword.closing.spelling :: (words others ++ later)) :
    body = inside ∧ tail = others ∧ rest = later := by
  obtain ⟨sameBody, follows⟩ :=
    ofBody inside _ _ legal.1 legalOther.1 (ends_closing _) (ends_closing _) same
  have sameTail := ofTail others rest later legal.2 legalOther.2 ends endsLater
    (List.cons.inj follows).2
  exact ⟨sameBody, sameTail⟩

theorem determined (phrase : List Form) : Determined phrase := by
  induction phrase using Phrase.induction with
  | nil =>
      intro other rest later legal legalOther ends endsLater same
      cases other with
      | nil => exact ⟨rfl, same⟩
      | cons first others =>
          exact absurd (same ▸ ends) (not_ends_words_append legalOther.1 others later)
  | word text tail ih =>
      intro other rest later legal legalOther ends endsLater same
      obtain ⟨first, others, rfl, leads⟩ := exists_cons_of_words_append legal.1 endsLater same
      have plain : first.lead ∉ Keyword.structural := leads ▸ legal.1
      rw [Form.eq_word_of_lead legalOther.1 plain, leads] at same ⊢
      obtain ⟨rfl, rfl⟩ :=
        ih others rest later legal.2 legalOther.2 ends endsLater (List.cons.inj same).2
      exact ⟨rfl, rfl⟩
  | definition name body tail ofBody ih =>
      intro other rest later legal legalOther ends endsLater same
      obtain ⟨first, others, rfl, leads⟩ := exists_cons_of_words_append legal.1 endsLater same
      rcases Form.cases_of_lead_opening legalOther.1 leads with
        ⟨called, inside, rfl⟩ | ⟨param, inside, rfl⟩
      · simp only [words, Form.words, List.cons_append, List.append_assoc, List.nil_append,
          List.cons.injEq, true_and] at same
        obtain ⟨rfl, same⟩ := same
        obtain ⟨rfl, rfl, rfl⟩ := ofBody.closed ih ⟨legal.1.2.2, legal.2⟩
          ⟨legalOther.1.2.2, legalOther.2⟩ ends endsLater same
        exact ⟨rfl, rfl⟩
      · simp [words, Form.words] at same
  | function param body tail ofBody ih =>
      intro other rest later legal legalOther ends endsLater same
      obtain ⟨first, others, rfl, leads⟩ := exists_cons_of_words_append legal.1 endsLater same
      rcases Form.cases_of_lead_opening legalOther.1 leads with
        ⟨called, inside, rfl⟩ | ⟨bound, inside, rfl⟩
      · simp [words, Form.words] at same
      · simp only [words, Form.words, List.cons_append, List.append_assoc, List.nil_append,
          List.cons.injEq, true_and] at same
        obtain ⟨rfl, same⟩ := same
        obtain ⟨rfl, rfl, rfl⟩ := ofBody.closed ih ⟨legal.1.2, legal.2⟩
          ⟨legalOther.1.2, legalOther.2⟩ ends endsLater same
        exact ⟨rfl, rfl⟩
  | application first others args tail ofCallee ofArgs ih =>
      intro other rest later legal legalOther ends endsLater same
      obtain ⟨head, after, rfl, leads⟩ := exists_cons_of_words_append legal.1 endsLater same
      obtain ⟨called, along, operands, rfl⟩ := Form.exists_of_lead_calling legalOther.1 leads
      obtain ⟨⟨legalFirst, legalOthers, legalArgs⟩, legalTail⟩ := legal
      obtain ⟨⟨legalCalled, legalAlong, legalOperands⟩, legalAfter⟩ := legalOther
      have calls : words (first :: others) ++ Keyword.applying.spelling ::
            (words args ++ Keyword.closing.spelling :: (words tail ++ rest)) =
          words (called :: along) ++ Keyword.applying.spelling ::
            (words operands ++ Keyword.closing.spelling :: (words after ++ later)) := by
        simpa [words, Form.words] using same
      obtain ⟨callee, follows⟩ := ofCallee (called :: along) _ _ ⟨legalFirst, legalOthers⟩
        ⟨legalCalled, legalAlong⟩ (ends_applying _) (ends_applying _) calls
      obtain ⟨rfl, rfl⟩ := List.cons.inj callee
      obtain ⟨rfl, rfl, rfl⟩ := ofArgs.closed ih ⟨legalArgs, legalTail⟩
        ⟨legalOperands, legalAfter⟩ ends endsLater (List.cons.inj follows).2
      exact ⟨rfl, rfl⟩

/-- Words have at most one derivation. -/
theorem words_inj {phrase other : List Form} (legal : Legal phrase) (legalOther : Legal other)
    (same : words phrase = words other) : phrase = other := by
  exact (determined phrase other [] [] legal legalOther ends_nil ends_nil (by rw [same])).1

end Phrase

/-! ## Programs -/

/-- A program is read exactly when its words have a derivation of legal forms that are nested to
the limit at most, and what is read is the tree of the derivation. There is no other derivation
of the words, nested more deeply or not, and the tree is nested to the limit at most. -/
theorem Sequence.parse_derives (sourceName source : Text) :
    (∀ terms, Sequence.parse sourceName source = .ok terms ↔
      ∃ phrase, Phrase.Spells phrase nestingLimit ((Lexeme.scan source).map Lexeme.text) ∧
        Phrase.terms phrase = terms) ∧
    (∀ phrase other, Phrase.Legal phrase → Phrase.Legal other →
      Phrase.words phrase = (Lexeme.scan source).map Lexeme.text →
      Phrase.words other = (Lexeme.scan source).map Lexeme.text → phrase = other) ∧
    ∀ terms, Sequence.parse sourceName source = .ok terms →
      Sequence.nesting terms ≤ nestingLimit := by
  refine ⟨fun terms => Sequence.parse_eq_ok_iff, ?_, fun terms => Sequence.nesting_of_parse⟩
  intro phrase other legal legalOther spelled spelledOther
  exact Phrase.words_inj legal legalOther (spelled.trans spelledOther.symm)

example :
    Sequence.parse [] "poop qooq poops is pooping poops Poop poopy qooq qooq".toList =
      .ok [.lam "qooq".toList [.name "is".toList, .app (.name "poops Poop".toList) []]] := by
  rfl

end Splice
