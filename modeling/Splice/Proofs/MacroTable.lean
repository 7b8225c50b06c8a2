import Mathlib.Data.List.Nodup
import Splice.MacroTable

/-!
# Lookups in macro tables

A table is told by its entries, and these stand in the order of their names. So a table is told
by its lookups, a new macro changes the lookup of its own name only, and it makes no difference
which of two new macros comes first. Where macros are defined one after the other, the first
definition of a name is the one that counts.
-/

namespace Splice

namespace MacroTable

variable {table : MacroTable}

theorem find?_eq_some_iff {name : Text} {body : List Term} :
    table.find? name = some body ↔ (name, body) ∈ table.entries := by
  obtain ⟨entries, ordered⟩ := table
  simp only [find?]
  induction entries with
  | nil => simp
  | cons entry rest ih =>
      obtain ⟨known, content⟩ := entry
      obtain ⟨above, later⟩ := List.pairwise_cons.mp ordered
      rw [List.lookup_cons, List.mem_cons, Prod.mk.injEq]
      by_cases same : name = known
      · subst same
        -- A second entry with this name would be greater than itself.
        have absent : (name, body) ∉ rest := fun member => List.lt_irrefl name (above _ member)
        simp [absent, eq_comm]
      · simp [same, beq_false_of_ne same, ih later]

theorem contains_eq_false_iff {name : Text} :
    table.contains name = false ↔ ∀ body, (name, body) ∉ table.entries := by
  simp only [← find?_eq_some_iff, contains, Option.isSome_eq_false_iff, Option.isNone_iff_eq_none,
    Option.eq_none_iff_forall_not_mem, Option.mem_def]

theorem contains_eq_true_iff {name : Text} : table.contains name = true ↔ name ∈ table.names := by
  rw [contains, Option.isSome_iff_exists, names, List.mem_map]
  simp only [find?_eq_some_iff, Prod.exists, exists_and_right, exists_eq_right]

/-- An entry under a new name is added to the others. -/
theorem entries_insert_perm {name : Text} (fresh : table.contains name = false)
    (body : List Term) :
    (table.insert name body).entries.Perm ((name, body) :: table.entries) := by
  obtain ⟨entries, ordered⟩ := table
  simp only [contains, find?, Option.isSome_eq_false_iff, Option.isNone_iff_eq_none] at fresh
  simp only [insert]
  clear ordered
  induction entries with
  | nil => exact .refl _
  | cons entry rest ih =>
      obtain ⟨known, content⟩ := entry
      have differs : name ≠ known := by
        rintro rfl
        simp at fresh
      have later : rest.lookup name = none := by
        simpa [List.lookup_cons, beq_false_of_ne differs] using fresh
      unfold insertEntry
      split
      · exact .refl _
      · rw [if_neg differs.symm]
        exact ((ih later).cons _).trans (.swap _ _ _)

/-- A new macro changes the lookup of its own name only. -/
theorem find?_insert {name : Text} (fresh : table.contains name = false) (body : List Term)
    (other : Text) :
    (table.insert name body).find? other =
      if other = name then some body else table.find? other := by
  apply Option.ext
  intro content
  rw [find?_eq_some_iff, (entries_insert_perm fresh body).mem_iff, List.mem_cons, Prod.mk.injEq]
  split
  · rename_i same
    subst same
    simp [contains_eq_false_iff.mp fresh, eq_comm]
  · rename_i differ
    simp [differ, find?_eq_some_iff]

/-- Tables with the same entries are the same. -/
theorem eq_of_perm {left right : MacroTable} (same : left.entries.Perm right.entries) :
    left = right := by
  apply MacroTable.ext
  refine same.eq_of_pairwise ?_ left.ordered right.ordered
  intro entry other _ _ less more
  exact absurd (List.lt_trans less more) (List.lt_irrefl _)

/-- A table is told by its lookups. -/
theorem eq_of_find? {left right : MacroTable} (same : ∀ name, left.find? name = right.find? name) :
    left = right := by
  have distinct (table : MacroTable) : table.entries.Nodup := by
    refine table.ordered.imp ?_
    rintro entry other less rfl
    exact List.lt_irrefl _ less
  apply eq_of_perm
  rw [List.perm_ext_iff_of_nodup (distinct left) (distinct right)]
  rintro ⟨name, body⟩
  rw [← find?_eq_some_iff, ← find?_eq_some_iff, same]

/-- It makes no difference which of two new macros comes first. -/
theorem insert_comm {first second : Text} (differ : first ≠ second)
    (unknown : table.contains first = false) (fresh : table.contains second = false)
    (body content : List Term) :
    (table.insert first body).insert second content =
      (table.insert second content).insert first body := by
  have still : (table.insert first body).contains second = false := by
    rw [contains, find?_insert unknown, if_neg differ.symm]
    exact fresh
  have also : (table.insert second content).contains first = false := by
    rw [contains, find?_insert fresh, if_neg differ]
    exact unknown
  have left := (entries_insert_perm still content).trans ((entries_insert_perm unknown body).cons _)
  have right := (entries_insert_perm also body).trans ((entries_insert_perm fresh content).cons _)
  exact eq_of_perm (left.trans ((List.Perm.swap _ _ _).trans right.symm))

/-! ## One definition after the other -/

/-- The table after an attempt to define a macro: a name that is taken stays as it is. -/
def attempt (table : MacroTable) (call : Text × List Term) : MacroTable :=
  match table.define call.1 call.2 with
  | .ok later => later
  | .error _ => table

/-- The table after attempts to define macros, one after the other. -/
def attemptAll (table : MacroTable) (calls : List (Text × List Term)) : MacroTable :=
  calls.foldl attempt table

theorem define_of_fresh {name : Text} (fresh : table.contains name = false) (body : List Term) :
    table.define name body = .ok (table.insert name body) := by
  rw [define, fresh, if_neg Bool.false_ne_true]

theorem define_of_known {name : Text} (known : table.contains name = true) (body : List Term) :
    table.define name body = .error (.redefinition name) := by
  rw [define, if_pos known]

/-- An attempt counts only for a name that has no body yet. -/
theorem find?_attempt (call : Text × List Term) (name : Text) :
    (table.attempt call).find? name = (table.find? name).or ([call].lookup name) := by
  obtain ⟨called, body⟩ := call
  rw [attempt]
  cases known : table.contains called with
  | true =>
      rw [define_of_known known]
      by_cases same : name = called
      · subst same
        rw [Option.or_of_isSome known]
      · simp [List.lookup_cons, beq_false_of_ne same]
  | false =>
      rw [define_of_fresh known]
      dsimp only
      rw [find?_insert known]
      by_cases same : name = called
      · subst same
        have nothing : table.find? name = none := by simpa [contains] using known
        simp [nothing]
      · simp [List.lookup_cons, beq_false_of_ne same, same]

/-- Of several attempts at one name, the first one counts. -/
theorem find?_attemptAll (table : MacroTable) (calls : List (Text × List Term)) (name : Text) :
    (table.attemptAll calls).find? name = (table.find? name).or (calls.lookup name) := by
  induction calls generalizing table with
  | nil => simp [attemptAll]
  | cons call later ih =>
      have first : (table.attempt call).attemptAll later = table.attemptAll (call :: later) := rfl
      have split : call :: later = [call] ++ later := rfl
      rw [← first, ih, find?_attempt, Option.or_assoc, ← List.lookup_append, ← split]

/-- Attempts at different names can be made in any order. -/
theorem attemptAll_perm {calls others : List (Text × List Term)}
    (distinct : (calls.map Prod.fst).Nodup) (permuted : calls.Perm others) (table : MacroTable) :
    table.attemptAll calls = table.attemptAll others := by
  refine permuted.foldl_eq' ?_ table
  rintro ⟨called, body⟩ inCalls ⟨other, content⟩ inOthers table
  by_cases same : called = other
  · rw [List.inj_on_of_nodup_map distinct inCalls inOthers same]
  · apply eq_of_find?
    intro name
    have order : ([(called, body)].lookup name).or ([(other, content)].lookup name) =
        ([(other, content)].lookup name).or ([(called, body)].lookup name) := by
      by_cases first : name = called
      · have second : name ≠ other := fun equal => same (first.symm.trans equal)
        simp [List.lookup_cons, beq_false_of_ne second]
      · simp [List.lookup_cons, beq_false_of_ne first]
    simp only [find?_attempt, Option.or_assoc, order]

end MacroTable

end Splice
