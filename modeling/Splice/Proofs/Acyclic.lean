import Mathlib.Data.Finset.Card
import Mathlib.Logic.Relation
import Splice.Proofs.Rank

/-!
# Acyclic programs

The definitions of a program stand anywhere in it, also in the bodies of other definitions. One
name mentions another when a definition gives it a body in which the other one stands outside of
definitions. In an acyclic program no name comes back to itself in this way, and then the names
have ranks that go down along the mentions: the rank of a name counts the names that it comes to.
-/

namespace Splice

mutual

/-- The definitions in a term, at any depth. -/
def Term.definitions : Term → List (Text × List Term)
  | .name _ => []
  | .literal _ => []
  | .lam _ body => Sequence.definitions body
  | .define name body => (name, body) :: Sequence.definitions body
  | .app callee args => Term.definitions callee ++ Sequence.definitions args

/-- The definitions in a sequence, at any depth. -/
def Sequence.definitions : List Term → List (Text × List Term)
  | [] => []
  | head :: tail => Term.definitions head ++ Sequence.definitions tail

end

namespace Sequence

@[simp]
theorem definitions_nil : definitions [] = [] := by
  rw [definitions]

theorem definitions_singleton (term : Term) : definitions [term] = term.definitions := by
  rw [definitions, definitions_nil, List.append_nil]

theorem definitions_append (front back : List Term) :
    definitions (front ++ back) = definitions front ++ definitions back := by
  induction front with
  | nil => rfl
  | cons head tail ih =>
      rw [List.cons_append, definitions, definitions, ih, List.append_assoc]

/-- What is defined in the body of a definition is defined in the sequence. -/
theorem definitions_subset {name : Text} {terms body : List Term}
    (defined : (name, body) ∈ definitions terms) : definitions body ⊆ definitions terms := by
  induction terms using Sequence.induction with
  | nil => cases defined
  | name text tail ih =>
      simp only [definitions, Term.definitions, List.nil_append] at defined ⊢
      exact ih defined
  | literal raw tail ih =>
      simp only [definitions, Term.definitions, List.nil_append] at defined ⊢
      exact ih defined
  | lam param inside tail ofBody ih =>
      simp only [definitions, Term.definitions, List.mem_append] at defined ⊢
      rcases defined with inBody | inTail
      · exact List.subset_append_of_subset_left _ (ofBody inBody)
      · exact List.subset_append_of_subset_right _ (ih inTail)
  | define other inside tail ofBody ih =>
      simp only [definitions, Term.definitions, List.mem_append, List.mem_cons] at defined ⊢
      rcases defined with (same | inBody) | inTail
      · cases same
        exact List.subset_append_of_subset_left _ (List.subset_cons_self _ _)
      · refine List.subset_append_of_subset_left _ ?_
        exact List.subset_cons_of_subset _ (ofBody inBody)
      · exact List.subset_append_of_subset_right _ (ih inTail)
  | app callee args tail ofCallee ofArgs ih =>
      rw [definitions_singleton] at ofCallee
      simp only [definitions, Term.definitions, List.mem_append] at defined ⊢
      rcases defined with (inCallee | inArgs) | inTail
      · refine List.subset_append_of_subset_left _ ?_
        exact List.subset_append_of_subset_left _ (ofCallee inCallee)
      · refine List.subset_append_of_subset_left _ ?_
        exact List.subset_append_of_subset_right _ (ofArgs inArgs)
      · exact List.subset_append_of_subset_right _ (ih inTail)

end Sequence

theorem Sequence.additive_definitions :
    Additive 0 fun terms => (definitions terms : Multiset (Text × List Term)) where
  append front back := by rw [definitions_append, Multiset.coe_add]
  lam param body := by rw [definitions_singleton, Term.definitions]
  app callee args := by
    rw [definitions_singleton, definitions_singleton, Term.definitions, zero_add,
      Multiset.coe_add]

/-- The definitions of a whole are those around the hole and those in what fills it. -/
theorem Context.exists_definitions (context : Context) :
    ∃ around : Multiset (Text × List Term), ∀ filling terms,
      context.fill? filling = some terms → ∀ entry, entry ∈ Sequence.definitions terms ↔
        entry ∈ around ∨ entry ∈ Sequence.definitions filling := by
  obtain ⟨around, weighs⟩ := Sequence.additive_definitions.exists_around context
  refine ⟨around, ?_⟩
  intro filling terms filled entry
  rw [← Multiset.mem_coe, weighs filling terms filled, Multiset.mem_add, Multiset.mem_coe]

/-! ## Mentions -/

/-- A definition in the program gives a name a body in which the other name stands. -/
def Sequence.Mentions (program : List Term) (name other : Text) : Prop :=
  ∃ body, (name, body) ∈ definitions program ∧ other ∈ mentions body

/-- No name comes back to itself along the mentions of a program. -/
def Sequence.Acyclic (program : List Term) : Prop :=
  ∀ name, ¬ Relation.TransGen (Mentions program) name name

namespace Sequence

variable {program : List Term}

/-- A program whose mentions go down by some rank is acyclic. -/
theorem acyclic_of_rank (rank : Text → Nat)
    (descends : ∀ entry ∈ definitions program, ∀ text ∈ mentions entry.2,
      rank text < rank entry.1) : Acyclic program := by
  have lower : ∀ {name other}, Relation.TransGen (Mentions program) name other →
      rank other < rank name := by
    intro name other path
    induction path with
    | single mentioned =>
        obtain ⟨body, defined, here⟩ := mentioned
        exact descends _ defined _ here
    | tail _ mentioned ih =>
        obtain ⟨body, defined, here⟩ := mentioned
        exact Nat.lt_trans (descends _ defined _ here) ih
  intro name cycle
  exact Nat.lt_irrefl _ (lower cycle)

open Classical in
/-- The names that a name comes to along the mentions of a program. -/
noncomputable def reach (program : List Term) (name : Text) : Finset Text :=
  ((definitions program).flatMap (fun entry => mentions entry.2)).toFinset.filter
    (Relation.TransGen (Mentions program) name)

/-- The rank of a name, from one on, counts the names that it comes to. -/
noncomputable def rank (program : List Term) (name : Text) : Nat :=
  (reach program name).card + 1

theorem mem_reach {name other : Text} :
    other ∈ reach program name ↔ Relation.TransGen (Mentions program) name other := by
  classical
  rw [reach, Finset.mem_filter, and_iff_right_iff_imp, List.mem_toFinset, List.mem_flatMap]
  -- A path ends with a mention, so the last name stands in the body of a definition.
  intro path
  obtain ⟨before, -, body, defined, here⟩ := Relation.TransGen.tail'_iff.mp path
  exact ⟨(before, body), defined, here⟩

/-- In an acyclic program a name comes to fewer names than any name that mentions it. -/
theorem rank_lt_of_mentions (acyclic : Acyclic program) {name other : Text}
    (mentioned : Mentions program name other) : rank program other < rank program name := by
  apply Nat.succ_lt_succ
  apply Finset.card_lt_card
  rw [Finset.ssubset_iff_of_subset]
  · exact ⟨other, mem_reach.mpr (.single mentioned), fun back => acyclic other (mem_reach.mp back)⟩
  · intro text member
    exact mem_reach.mpr (.head mentioned (mem_reach.mp member))

/-- In an acyclic program the body of a definition is below the name. -/
theorem below_of_mem_definitions (acyclic : Acyclic program) {name : Text} {body : List Term}
    (defined : (name, body) ∈ definitions program) :
    Below (rank program) body [.name name] := by
  apply below_of_mentions
  · exact Nat.succ_pos _
  · intro text mentioned
    exact rank_lt_of_mentions acyclic ⟨body, defined, mentioned⟩

end Sequence

end Splice
