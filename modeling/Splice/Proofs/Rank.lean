import Mathlib.Data.Multiset.DershowitzManna
import Splice.Proofs.Reduction.OneRedex

/-!
# Ranks

When the macros are ranked and the body of each mentions only lower ones, a sequence is measured
by the ranks of the names in it. Expanding a macro takes one rank away and brings lower ones, as
many as there are names in the body. The order of multisets in which that goes down is
well-founded, so it cannot go on for ever. Definitions and applications are counted with rank zero;
what stands in a definition is not counted, because nothing is reduced there.
-/

namespace Splice

mutual

/-- The names that stand in a term outside of definitions. -/
def Term.mentions : Term → List Text
  | .name text => [text]
  | .literal _ => []
  | .lam _ body => Sequence.mentions body
  | .define _ _ => []
  | .app callee args => Term.mentions callee ++ Sequence.mentions args

/-- The names that stand in a sequence outside of definitions. -/
def Sequence.mentions : List Term → List Text
  | [] => []
  | head :: tail => Term.mentions head ++ Sequence.mentions tail

end

mutual

/-- The ranks of the names that a term mentions, with a zero for every definition and
application. -/
def Term.ranks (rank : Text → Nat) : Term → Multiset Nat
  | .name text => {rank text}
  | .literal _ => 0
  | .lam _ body => Sequence.ranks rank body
  | .define _ _ => {0}
  | .app callee args => {0} + Term.ranks rank callee + Sequence.ranks rank args

/-- The ranks of the names that a sequence mentions, with a zero for every definition and
application. -/
def Sequence.ranks (rank : Text → Nat) : List Term → Multiset Nat
  | [] => 0
  | head :: tail => Term.ranks rank head + Sequence.ranks rank tail

end

section Ranks

variable {rank : Text → Nat}

namespace Sequence

@[simp]
theorem ranks_nil : ranks rank [] = 0 := by
  rw [ranks]

theorem ranks_singleton (term : Term) : ranks rank [term] = Term.ranks rank term := by
  rw [ranks, ranks_nil, add_zero]

theorem ranks_append (front back : List Term) :
    ranks rank (front ++ back) = ranks rank front + ranks rank back := by
  induction front with
  | nil => simp
  | cons head tail ih => rw [List.cons_append, ranks, ranks, ih, add_assoc]

/-- A rank is zero or that of a name. -/
theorem mem_ranks {terms : List Term} {level : Nat} (member : level ∈ ranks rank terms) :
    level = 0 ∨ ∃ text ∈ mentions terms, level = rank text := by
  induction terms using Sequence.induction with
  | nil => simp at member
  | name text tail ih =>
      simp only [ranks, Term.ranks, Multiset.mem_add, Multiset.mem_singleton] at member
      simp only [mentions, Term.mentions, List.mem_append]
      rcases member with same | inTail
      · exact .inr ⟨text, .inl List.mem_cons_self, same⟩
      · exact (ih inTail).imp_right fun ⟨other, known, same⟩ => ⟨other, .inr known, same⟩
  | literal raw tail ih =>
      simp only [ranks, Term.ranks, zero_add] at member
      simp only [mentions, Term.mentions, List.nil_append]
      exact ih member
  | lam param body tail ofBody ih =>
      simp only [ranks, Term.ranks, Multiset.mem_add] at member
      simp only [mentions, Term.mentions, List.mem_append]
      rcases member with inBody | inTail
      · exact (ofBody inBody).imp_right fun ⟨other, known, same⟩ => ⟨other, .inl known, same⟩
      · exact (ih inTail).imp_right fun ⟨other, known, same⟩ => ⟨other, .inr known, same⟩
  | define name body tail ofBody ih =>
      simp only [ranks, Term.ranks, Multiset.mem_add, Multiset.mem_singleton] at member
      simp only [mentions, Term.mentions, List.nil_append]
      exact member.elim .inl ih
  | app callee args tail ofCallee ofArgs ih =>
      rw [ranks_singleton] at ofCallee
      simp only [ranks, Term.ranks, Multiset.mem_add, Multiset.mem_singleton, or_assoc] at member
      simp only [mentions, Term.mentions, List.mem_append, List.append_nil] at ofCallee ⊢
      rcases member with zero | inCallee | inArgs | inTail
      · exact .inl zero
      · exact (ofCallee inCallee).imp_right
          fun ⟨other, known, same⟩ => ⟨other, .inl (.inl known), same⟩
      · exact (ofArgs inArgs).imp_right
          fun ⟨other, known, same⟩ => ⟨other, .inl (.inr known), same⟩
      · exact (ih inTail).imp_right fun ⟨other, known, same⟩ => ⟨other, .inr known, same⟩

end Sequence

/-! ## Contexts -/

/-- A weight of sequences that is the sum of the weights of their parts, with something of its own
for every application. -/
structure Sequence.Additive {Weight : Type} [AddCommMonoid Weight] (applied : Weight)
    (weight : List Term → Weight) : Prop where
  append (front back : List Term) : weight (front ++ back) = weight front + weight back
  lam (param : Text) (body : List Term) : weight [.lam param body] = weight body
  app (callee : Term) (args : List Term) :
    weight [.app callee args] = applied + weight [callee] + weight args

/-- The weight of a whole is what there is around the hole and the weight of what fills it. -/
theorem Sequence.Additive.exists_around {Weight : Type} [AddCommMonoid Weight] {applied : Weight}
    {weight : List Term → Weight} (additive : Additive applied weight) (context : Context) :
    ∃ around, ∀ filling terms, context.fill? filling = some terms →
      weight terms = around + weight filling := by
  induction context with
  | hole =>
      refine ⟨0, ?_⟩
      rintro filling _ ⟨⟩
      rw [zero_add]
  | beside front inner back ih =>
      obtain ⟨around, weighs⟩ := ih
      refine ⟨weight front + around + weight back, ?_⟩
      intro filling terms filled
      obtain ⟨middle, inside, rfl⟩ := Option.map_eq_some_iff.mp filled
      rw [additive.append, additive.append, weighs filling middle inside]
      ac_rfl
  | inBody param inner ih =>
      obtain ⟨around, weighs⟩ := ih
      refine ⟨around, ?_⟩
      intro filling terms filled
      obtain ⟨body, inside, rfl⟩ := Option.map_eq_some_iff.mp filled
      rw [additive.lam, weighs filling body inside]
  | inCallee inner args ih =>
      obtain ⟨around, weighs⟩ := ih
      refine ⟨applied + around + weight args, ?_⟩
      intro filling terms filled
      unfold Context.fill? at filled
      split at filled
      · rename_i callee inside
        cases filled
        rw [additive.app, weighs filling [callee] inside]
        ac_rfl
      · cases filled
  | inArgs callee inner ih =>
      obtain ⟨around, weighs⟩ := ih
      refine ⟨applied + weight [callee] + around, ?_⟩
      intro filling terms filled
      obtain ⟨args, inside, rfl⟩ := Option.map_eq_some_iff.mp filled
      rw [additive.app, weighs filling args inside]
      ac_rfl

theorem Sequence.additive_ranks (rank : Text → Nat) : Additive {0} (ranks rank) where
  append := ranks_append
  lam param body := by rw [ranks_singleton, Term.ranks]
  app callee args := by rw [ranks_singleton, ranks_singleton, Term.ranks]

/-! ## Descent -/

/-- One sequence is below another when some ranks have given way to lower ones. -/
def Sequence.Below (rank : Text → Nat) (next terms : List Term) : Prop :=
  (ranks rank next).IsDershowitzMannaLT (ranks rank terms)

theorem Sequence.wellFounded_below (rank : Text → Nat) : WellFounded (Below rank) :=
  InvImage.wf (ranks rank) Multiset.wellFounded_isDershowitzMannaLT

/-- A whole goes down with a part. -/
theorem Context.below_of_fill {context : Context} {filling refilling terms next : List Term}
    (filled : context.fill? filling = some terms) (refilled : context.fill? refilling = some next)
    (descends : Sequence.Below rank refilling filling) : Sequence.Below rank next terms := by
  obtain ⟨kept, brought, lost, nonzero, smaller, larger, lower⟩ := descends
  obtain ⟨around, weighs⟩ := (Sequence.additive_ranks rank).exists_around context
  refine ⟨around + kept, brought, lost, nonzero, ?_, ?_, lower⟩
  · rw [weighs refilling next refilled, smaller, add_assoc]
  · rw [weighs filling terms filled, larger, add_assoc]

/-- The body of a macro is below its name. -/
theorem Sequence.below_of_mentions {name : Text} {body : List Term} (positive : 0 < rank name)
    (lower : ∀ text ∈ mentions body, rank text < rank name) : Below rank body [.name name] := by
  refine ⟨0, ranks rank body, {rank name}, Multiset.singleton_ne_zero _, ?_, ?_, ?_⟩
  · rw [zero_add]
  · rw [ranks_singleton, Term.ranks, zero_add]
  · intro level member
    refine ⟨rank name, Multiset.mem_singleton_self _, ?_⟩
    rcases mem_ranks member with rfl | ⟨text, mentioned, rfl⟩
    · exact positive
    · exact lower text mentioned

/-- What is left when something is taken away is below. -/
theorem Sequence.below_of_add {terms next : List Term} {lost : Multiset Nat}
    (nonzero : lost ≠ 0) (more : ranks rank terms = ranks rank next + lost) :
    Below rank next terms :=
  ⟨ranks rank next, 0, lost, nonzero, (add_zero _).symm, more, by simp⟩

end Ranks

end Splice
