import Splice.Proofs.FreeName
import Splice.Proofs.Place

/-!
# Places of free names

A free name stands at places: in a sequence or as the callee of an application, in a body, a callee
or among arguments, and under no function that binds it. A place is given by all that is around it,
so that a substitution leads from a place in a term to the place of the same occurrence in what the
term becomes. An occurrence in a sequence is replaced even by nothing; the one in a callee stays if
there is nothing to replace it. So these are the ones that are left when nothing replaces a name.
-/

namespace Splice

namespace Term.Place

/-- The parameters of the functions around a place. -/
def binders : Term.Place → List Text
  | here => []
  | inBody param _ inner _ => param :: inner.binders
  | inDefinition _ _ inner _ => inner.binders
  | inCallee inner _ => inner.binders
  | inArgs _ _ inner _ => inner.binders

/-- A place with a parameter replaced by arguments in all that is around it. -/
def substitute (param : Text) (args : List Term) : Term.Place → Term.Place
  | here => here
  | inBody binder front inner back =>
      inBody binder (Sequence.substitute param args front) (inner.substitute param args)
        (Sequence.substitute param args back)
  | inDefinition called front inner back =>
      inDefinition called (Sequence.substitute param args front) (inner.substitute param args)
        (Sequence.substitute param args back)
  | inCallee inner operands =>
      inCallee (inner.substitute param args) (Sequence.substitute param args operands)
  | inArgs callee front inner back =>
      inArgs (callee.substituteCallee param args) (Sequence.substitute param args front)
        (inner.substitute param args) (Sequence.substitute param args back)

end Term.Place

namespace Sequence.Place

/-- A place with a parameter replaced by arguments in all that is around it. -/
def substitute (param : Text) (args : List Term) (place : Sequence.Place) : Sequence.Place :=
  ⟨Sequence.substitute param args place.front, place.inner.substitute param args,
    Sequence.substitute param args place.back⟩

end Sequence.Place

mutual

/-- The places of a term where a name is free, from left to right. -/
def Term.freePlaces (name : Text) : Term → List Term.Place
  | .name text => if text = name then [.here] else []
  | .literal _ => []
  | .lam param body =>
      if param = name then []
      else (Sequence.freePlaces name body).map fun place =>
        .inBody param place.front place.inner place.back
  | .define called body =>
      (Sequence.freePlaces name body).map fun place =>
        .inDefinition called place.front place.inner place.back
  | .app callee args =>
      (Term.freePlaces name callee).map (.inCallee · args) ++
        (Sequence.freePlaces name args).map fun place =>
          .inArgs callee place.front place.inner place.back

/-- The places of a sequence where a name is free, from left to right. -/
def Sequence.freePlaces (name : Text) : List Term → List Sequence.Place
  | [] => []
  | head :: tail =>
      (Term.freePlaces name head).map (⟨[], ·, tail⟩) ++
        (Sequence.freePlaces name tail).map (Sequence.Place.beside [head] [])

end

/-! ## What is listed -/

namespace Sequence

theorem Place.beside_beside (outer before after rest : List Term) (place : Sequence.Place) :
    (place.beside before after).beside outer rest =
      place.beside (outer ++ before) (after ++ rest) := by
  simp only [beside, List.append_assoc]

theorem Place.beside_nil (place : Sequence.Place) : place.beside [] [] = place := by
  simp only [beside, List.nil_append, List.append_nil]

theorem freePlaces_singleton (name : Text) (term : Term) :
    freePlaces name [term] = (Term.freePlaces name term).map (⟨[], ·, []⟩) := by
  rw [freePlaces, freePlaces, List.map_nil, List.append_nil]

theorem freePlaces_append (name : Text) (front back : List Term) :
    freePlaces name (front ++ back) =
      (freePlaces name front).map (Place.beside [] back) ++
        (freePlaces name back).map (Place.beside front []) := by
  induction front with
  | nil =>
      have same : Place.beside [] [] = id := funext Place.beside_nil
      rw [List.nil_append, freePlaces, List.map_nil, List.nil_append, same, List.map_id]
  | cons head tail ih =>
      have inTail : Place.beside [head] [] ∘ Place.beside [] back =
          Place.beside [] back ∘ Place.beside [head] [] := by
        funext place
        simp only [Function.comp_apply, Place.beside_beside, List.append_nil, List.nil_append]
      have inBack : Place.beside [head] [] ∘ Place.beside tail [] =
          Place.beside (head :: tail) [] := by
        funext place
        rw [Function.comp_apply, Place.beside_beside]
        rfl
      simp only [List.cons_append, freePlaces, ih, List.map_append, List.map_map, inTail, inBack,
        List.append_assoc]
      rfl

theorem freePlaces_eq_nil_iff (name : Text) (terms : List Term) :
    freePlaces name terms = [] ↔ hasFree name terms = false := by
  induction terms using Sequence.induction with
  | nil => simp only [freePlaces, hasFree]
  | name text tail ih => simp [freePlaces, Term.freePlaces, hasFree, Term.hasFree, ih]
  | literal raw tail ih => simp [freePlaces, Term.freePlaces, hasFree, Term.hasFree, ih]
  | lam param body tail ofBody ih =>
      by_cases shadows : param = name
      · simp [freePlaces, Term.freePlaces, hasFree, Term.hasFree, ih, shadows]
      · simp [freePlaces, Term.freePlaces, hasFree, Term.hasFree, ih, shadows, ofBody]
  | define called body tail ofBody ih =>
      simp [freePlaces, Term.freePlaces, hasFree, Term.hasFree, ih, ofBody]
  | app callee args tail ofCallee ofArgs ih =>
      rw [freePlaces_singleton, List.map_eq_nil_iff, hasFree_singleton] at ofCallee
      simp [freePlaces, Term.freePlaces, hasFree, Term.hasFree, ih, ofCallee, ofArgs,
        and_assoc]

end Sequence

/-- The place of a name, if it is the one that is looked for and no function around it binds it. -/
def Term.Place.free? (name : Text) (entry : Term.Place × Text) : Option Term.Place :=
  if entry.2 = name ∧ entry.1.binders.contains name = false then some entry.1 else none

/-- The place of a name in a sequence, if the name is the one that is looked for and free there. -/
def Sequence.Place.free? (name : Text) (entry : Sequence.Place × Text) : Option Sequence.Place :=
  if entry.2 = name ∧ entry.1.inner.binders.contains name = false then some entry.1 else none

mutual

theorem Term.freePlaces_eq_filterMap (name : Text) :
    (term : Term) → Term.freePlaces name term =
      (Term.namePlaces term).filterMap (Term.Place.free? name)
  | .name text => by
      rw [Term.freePlaces, Term.namePlaces]
      split
      · rename_i same
        simp [Term.Place.free?, Term.Place.binders, same]
      · rename_i differs
        simp [Term.Place.free?, differs]
  | .literal _ => rfl
  | .lam param body => by
      rw [Term.freePlaces, Term.namePlaces]
      split
      · rename_i shadows
        rw [List.filterMap_map, eq_comm, List.filterMap_eq_nil_iff]
        rintro ⟨place, text⟩ -
        simp [Term.Place.free?, Term.Place.binders, shadows]
      · rename_i differs
        rw [Sequence.freePlaces_eq_filterMap name body]
        apply map_filterMap_moved
        rintro ⟨place, text⟩
        have other : name ≠ param := Ne.symm differs
        simp [Sequence.Place.free?, Term.Place.free?, Term.Place.binders, other]
  | .define called body => by
      rw [Term.freePlaces, Term.namePlaces, Sequence.freePlaces_eq_filterMap name body]
      apply map_filterMap_moved
      rintro ⟨place, text⟩
      rw [Sequence.Place.free?, Option.map_if]
      rfl
  | .app callee args => by
      rw [Term.freePlaces, Term.namePlaces, List.filterMap_append,
        Term.freePlaces_eq_filterMap name callee, Sequence.freePlaces_eq_filterMap name args]
      congr 1
      · apply map_filterMap_moved
        rintro ⟨inner, text⟩
        rw [Term.Place.free?, Option.map_if]
        rfl
      · apply map_filterMap_moved
        rintro ⟨place, text⟩
        rw [Sequence.Place.free?, Option.map_if]
        rfl

/-- A name is free in those of its places where no function around it binds it. -/
theorem Sequence.freePlaces_eq_filterMap (name : Text) :
    (terms : List Term) → Sequence.freePlaces name terms =
      (Sequence.namePlaces terms).filterMap (Sequence.Place.free? name)
  | [] => rfl
  | head :: tail => by
      rw [Sequence.freePlaces, Sequence.namePlaces, List.filterMap_append,
        Term.freePlaces_eq_filterMap name head, Sequence.freePlaces_eq_filterMap name tail]
      congr 1
      · apply map_filterMap_moved
        rintro ⟨inner, text⟩
        rw [Term.Place.free?, Option.map_if]
        rfl
      · apply map_filterMap_moved
        rintro ⟨place, text⟩
        rw [Sequence.Place.free?, Option.map_if]
        rfl

end

/-- The places that are listed are those where the name stands under no function that binds it. -/
theorem Sequence.mem_freePlaces_iff {name : Text} {terms : List Term} {place : Sequence.Place} :
    place ∈ Sequence.freePlaces name terms ↔
      place.fill (.name name) = terms ∧ name ∉ place.inner.binders := by
  rw [freePlaces_eq_filterMap, List.mem_filterMap, ← mem_namePlaces_iff]
  constructor
  · rintro ⟨⟨listed, text⟩, member, found⟩
    obtain ⟨⟨rfl, unbound⟩, same⟩ := Option.ite_none_right_eq_some.mp found
    cases same
    exact ⟨member, by simpa using unbound⟩
  · rintro ⟨member, unbound⟩
    exact ⟨_, member, if_pos ⟨rfl, by simpa using unbound⟩⟩

/-! ## What is left when nothing replaces a name -/

namespace Sequence

theorem Place.substitute_beside (param : Text) (args before : List Term) (place : Sequence.Place) :
    (place.beside before []).substitute param args =
      (place.substitute param args).beside (Sequence.substitute param args before) [] := by
  simp only [beside, substitute, substitute_append, List.append_nil]

/-- Where nothing replaces a parameter, the places where it is still free in a term are those of
callees. -/
def KeepsCallees (param : Text) (term : Term) : Prop :=
  freePlaces param (Term.substitute param [] term) =
    ((Term.freePlaces param term).filter Term.Place.isCallee).map
      (⟨[], ·.substitute param [], []⟩)

theorem freePlaces_substitute_cons {param : Text} {head : Term} {tail : List Term}
    (ofHead : KeepsCallees param head)
    (ofTail : freePlaces param (substitute param [] tail) =
      ((freePlaces param tail).filter (·.inner.isCallee)).map (Place.substitute param [])) :
    freePlaces param (substitute param [] (head :: tail)) =
      ((freePlaces param (head :: tail)).filter (·.inner.isCallee)).map
        (Place.substitute param []) := by
  have moves : Place.substitute param [] ∘ Place.beside [head] [] =
      Place.beside (Term.substitute param [] head) [] ∘ Place.substitute param [] := by
    funext place
    rw [Function.comp_apply, Place.substitute_beside, substitute_singleton]
    rfl
  rw [substitute, freePlaces_append, ofHead, ofTail, freePlaces]
  simp only [List.filter_append, List.map_append, List.filter_map, List.map_map, moves]
  rfl

theorem isCallee_inCallee {inner : Term.Place} (deeper : inner ≠ .here) (args : List Term) :
    (Term.Place.inCallee inner args).isCallee = inner.isCallee := by
  cases inner with
  | here => exact absurd rfl deeper
  | _ => rfl

/-- The place of the term itself is listed for the name alone. -/
theorem ne_here_of_mem_freePlaces {name : Text} {term : Term} {inner : Term.Place}
    (other : term ≠ .name name) (free : inner ∈ Term.freePlaces name term) : inner ≠ .here := by
  rintro rfl
  have alone : ⟨[], .here, []⟩ ∈ freePlaces name [term] := by
    rw [freePlaces_singleton]
    exact List.mem_map_of_mem free
  exact other (List.cons.inj (mem_freePlaces_iff.mp alone).1).1.symm

/-- In the place of a callee, the parameter itself is kept as well. -/
theorem freePlaces_substituteCallee {param : Text} {callee : Term}
    (keeps : KeepsCallees param callee) (operands : List Term) :
    (Term.freePlaces param (callee.substituteCallee param [])).map
        (Term.Place.inCallee · (substitute param [] operands)) =
      (((Term.freePlaces param callee).map (Term.Place.inCallee · operands)).filter
        Term.Place.isCallee).map (Term.Place.substitute param []) := by
  by_cases same : callee = .name param
  · rw [same, Term.substituteCallee_param, Term.replacedBy_nil, Term.freePlaces, if_pos rfl]
    rfl
  · rw [KeepsCallees, Term.substitute_eq_singleton same, freePlaces_singleton] at keeps
    have inside := congrArg (List.map Place.inner) keeps
    simp only [List.map_map, Function.comp_def, List.map_id'] at inside
    have deeper : ∀ inner ∈ Term.freePlaces param callee,
        (Term.Place.isCallee ∘ (Term.Place.inCallee · operands)) inner = inner.isCallee :=
      fun inner free => isCallee_inCallee (ne_here_of_mem_freePlaces same free) operands
    rw [inside, List.filter_map, List.filter_congr deeper, List.map_map, List.map_map]
    rfl

theorem freePlaces_substitute_nil (param : Text) (body : List Term) :
    freePlaces param (substitute param [] body) =
      ((freePlaces param body).filter (·.inner.isCallee)).map (Place.substitute param []) := by
  induction body using Sequence.induction with
  | nil => rfl
  | name text tail ih =>
      refine freePlaces_substitute_cons ?_ ih
      rw [KeepsCallees, Term.substitute, Term.freePlaces]
      split
      · rfl
      · rename_i differs
        rw [freePlaces_singleton, Term.freePlaces, if_neg differs]
        rfl
  | literal raw tail ih =>
      refine freePlaces_substitute_cons ?_ ih
      rw [KeepsCallees, Term.substitute, freePlaces_singleton, Term.freePlaces]
      rfl
  | lam inner inside tail ofBody ih =>
      refine freePlaces_substitute_cons ?_ ih
      rw [KeepsCallees, Term.substitute]
      by_cases shadows : inner = param
      · rw [if_pos shadows, freePlaces_singleton, Term.freePlaces, if_pos shadows]
        rfl
      · rw [if_neg shadows, freePlaces_singleton, Term.freePlaces, if_neg shadows, ofBody,
          Term.freePlaces, if_neg shadows]
        simp only [List.filter_map, List.map_map]
        rfl
  | define called inside tail ofBody ih =>
      refine freePlaces_substitute_cons ?_ ih
      rw [KeepsCallees, Term.substitute, freePlaces_singleton, Term.freePlaces, ofBody,
        Term.freePlaces]
      simp only [List.filter_map, List.map_map]
      rfl
  | app callee operands tail ofCallee ofArgs ih =>
      refine freePlaces_substitute_cons ?_ ih
      have keeps : KeepsCallees param callee := by
        rw [substitute_singleton, freePlaces_singleton, List.filter_map, List.map_map] at ofCallee
        exact ofCallee
      rw [KeepsCallees, Term.substitute_app, freePlaces_singleton, Term.freePlaces, ofArgs,
        freePlaces_substituteCallee keeps, Term.freePlaces]
      simp only [List.filter_append, List.filter_map, List.map_append, List.map_map]
      rfl

/-- A name that is not free in a body is replaced by nothing there; it is free no longer once it is
replaced by terms in which it is not free; and if nothing replaces it, it is free just where it was
the callee of an application. -/
theorem substitute_free_names {param : Text} (solid : ' ' ∉ param) (args body : List Term) :
    (∀ place, place ∈ freePlaces param body ↔
      place.fill (.name param) = body ∧ param ∉ place.inner.binders) ∧
    (freePlaces param body = [] → substitute param args body = body) ∧
    (args ≠ [] → freePlaces param args = [] →
      freePlaces param (substitute param args body) = []) ∧
    (args = [] → freePlaces param (substitute param args body) =
      ((freePlaces param body).filter (·.inner.isCallee)).map (Place.substitute param args)) := by
  refine ⟨fun _ => mem_freePlaces_iff, ?_, ?_, ?_⟩
  · intro absent
    exact substitute_eq_self ((freePlaces_eq_nil_iff param body).mp absent) args
  · intro filled absent
    rw [freePlaces_eq_nil_iff] at absent ⊢
    exact hasFree_substitute solid filled absent body
  · rintro rfl
    exact freePlaces_substitute_nil param body

/-- The name `x` in a sequence, in a callee of a callee, in a definition under another function, and
under a function that binds it: replaced by nothing, by two terms, and in a body where it is not
free. -/
theorem substitute_free_names_at_nested_callees :
    let x := "x".toList
    let shielded : List Term := [.lam x [.app (.name x) [.name x]]]
    let body : List Term :=
      [.name x, .app (.app (.name x) [.name x]) [],
        .lam "y".toList [.define "M".toList [.app (.name x) shielded]]]
    let pair : List Term := [.name "a".toList, .name "b".toList]
    ' ' ∉ x ∧ (freePlaces x shielded = [] ∧ substitute x pair shielded = shielded) ∧
    (freePlaces x pair = [] ∧ freePlaces x (substitute x pair body) = []) ∧
    (freePlaces x body).length = 4 ∧
    freePlaces x (substitute x [] body) =
      ((freePlaces x body).filter (·.inner.isCallee)).map (Place.substitute x []) ∧
    (freePlaces x body).filter (·.inner.isCallee) =
      [⟨[.name x], .inCallee (.inCallee .here [.name x]) [],
          [.lam "y".toList [.define "M".toList [.app (.name x) shielded]]]⟩,
        ⟨[.name x, .app (.app (.name x) [.name x]) []],
          .inBody "y".toList [] (.inDefinition "M".toList [] (.inCallee .here shielded) []) [],
          []⟩] := by
  intro x shielded body pair
  have solid : ' ' ∉ x := by decide
  obtain ⟨-, keeps, -, -⟩ := substitute_free_names solid pair shielded
  obtain ⟨-, -, clears, -⟩ := substitute_free_names solid pair body
  obtain ⟨-, -, -, left⟩ := substitute_free_names solid [] body
  have absent : freePlaces x shielded = [] := by decide +kernel
  have absentPair : freePlaces x pair = [] := by decide +kernel
  exact ⟨solid, ⟨absent, keeps absent⟩, ⟨absentPair, clears (List.cons_ne_nil _ _) absentPair⟩,
    by decide +kernel, left rfl, by decide +kernel⟩

end Sequence

end Splice
