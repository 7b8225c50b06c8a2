import Splice.Term.Basic

/-!
# Places of names

A place inside a term or a sequence is given by all that is around it. The names of a sequence are
listed with their places, from left to right, and the places that are listed for a name are those
where it stands.
-/

namespace Splice

/-- A place inside a term, with all that is around it. -/
inductive Term.Place where
  /-- The place of the term itself. -/
  | here
  | inBody (param : Text) (front : List Term) (inner : Term.Place) (back : List Term)
  | inDefinition (called : Text) (front : List Term) (inner : Term.Place) (back : List Term)
  | inCallee (inner : Term.Place) (args : List Term)
  | inArgs (callee : Term) (front : List Term) (inner : Term.Place) (back : List Term)
  deriving DecidableEq

/-- A place inside a sequence, with all that is around it. -/
structure Sequence.Place where
  front : List Term
  inner : Term.Place
  back : List Term
  deriving DecidableEq

namespace Term.Place

/-- The term with a term in a place. -/
def fill (term : Term) : Term.Place → Term
  | here => term
  | inBody param front inner back => .lam param (front ++ inner.fill term :: back)
  | inDefinition called front inner back => .define called (front ++ inner.fill term :: back)
  | inCallee inner args => .app (inner.fill term) args
  | inArgs callee front inner back => .app callee (front ++ inner.fill term :: back)

/-- Whether a place is that of a callee. -/
def isCallee : Term.Place → Bool
  | here => false
  | inBody _ _ inner _ => inner.isCallee
  | inDefinition _ _ inner _ => inner.isCallee
  | inCallee here _ => true
  | inCallee inner _ => inner.isCallee
  | inArgs _ _ inner _ => inner.isCallee

end Term.Place

namespace Sequence.Place

/-- The sequence with a term in a place. -/
def fill (term : Term) (place : Sequence.Place) : List Term :=
  place.front ++ place.inner.fill term :: place.back

/-- A place with more terms before and after it. -/
def beside (before after : List Term) (place : Sequence.Place) : Sequence.Place :=
  ⟨before ++ place.front, place.inner, place.back ++ after⟩

end Sequence.Place

mutual

/-- The places of names in a term, each with the name, from left to right. -/
def Term.namePlaces : Term → List (Term.Place × Text)
  | .name text => [(.here, text)]
  | .literal _ => []
  | .lam param body =>
      (Sequence.namePlaces body).map fun (place, name) =>
        (.inBody param place.front place.inner place.back, name)
  | .define called body =>
      (Sequence.namePlaces body).map fun (place, name) =>
        (.inDefinition called place.front place.inner place.back, name)
  | .app callee args =>
      (Term.namePlaces callee).map (fun (inner, name) => (.inCallee inner args, name)) ++
        (Sequence.namePlaces args).map fun (place, name) =>
          (.inArgs callee place.front place.inner place.back, name)

/-- The places of names in a sequence, each with the name, from left to right. -/
def Sequence.namePlaces : List Term → List (Sequence.Place × Text)
  | [] => []
  | head :: tail =>
      (Term.namePlaces head).map (fun (inner, name) => (⟨[], inner, tail⟩, name)) ++
        (Sequence.namePlaces tail).map fun (place, name) => (place.beside [head] [], name)

end

theorem Sequence.mem_namePlaces_around {name : Text} {term : Term} {inner : Term.Place}
    (listed : (inner, name) ∈ Term.namePlaces term) (front back : List Term) :
    (⟨front, inner, back⟩, name) ∈ Sequence.namePlaces (front ++ term :: back) := by
  induction front with
  | nil =>
      rw [List.nil_append, namePlaces, List.mem_append]
      exact .inl (List.mem_map.mpr ⟨_, listed, rfl⟩)
  | cons head tail ih =>
      rw [List.cons_append, namePlaces, List.mem_append]
      refine .inr (List.mem_map.mpr ⟨_, ih, ?_⟩)
      simp [Place.beside]

theorem Term.mem_namePlaces_fill (name : Text) (place : Term.Place) :
    (place, name) ∈ Term.namePlaces (place.fill (.name name)) := by
  induction place with
  | here => exact List.mem_singleton.mpr rfl
  | inBody param front inner back ih =>
      rw [Place.fill, namePlaces]
      exact List.mem_map.mpr ⟨_, Sequence.mem_namePlaces_around ih front back, rfl⟩
  | inDefinition called front inner back ih =>
      rw [Place.fill, namePlaces]
      exact List.mem_map.mpr ⟨_, Sequence.mem_namePlaces_around ih front back, rfl⟩
  | inCallee inner args ih =>
      rw [Place.fill, namePlaces, List.mem_append]
      exact .inl (List.mem_map.mpr ⟨_, ih, rfl⟩)
  | inArgs callee front inner back ih =>
      rw [Place.fill, namePlaces, List.mem_append]
      exact .inr (List.mem_map.mpr ⟨_, Sequence.mem_namePlaces_around ih front back, rfl⟩)

mutual

theorem Term.fill_of_mem_namePlaces {inner : Term.Place} {name : Text} :
    (term : Term) → (inner, name) ∈ Term.namePlaces term → inner.fill (.name name) = term
  | .name text, listed => by
      cases List.mem_singleton.mp listed
      rfl
  | .literal _, listed => by cases listed
  | .lam param body, listed => by
      obtain ⟨⟨place, _⟩, inBody, same⟩ := List.mem_map.mp listed
      cases same
      exact congrArg (Term.lam param) (Sequence.fill_of_mem_namePlaces body inBody)
  | .define called body, listed => by
      obtain ⟨⟨place, _⟩, inBody, same⟩ := List.mem_map.mp listed
      cases same
      exact congrArg (Term.define called) (Sequence.fill_of_mem_namePlaces body inBody)
  | .app callee args, listed => by
      rw [Term.namePlaces, List.mem_append, List.mem_map, List.mem_map] at listed
      rcases listed with ⟨⟨deeper, _⟩, inCallee, same⟩ | ⟨⟨place, _⟩, inArgs, same⟩
      · cases same
        exact congrArg (Term.app · args) (Term.fill_of_mem_namePlaces callee inCallee)
      · cases same
        exact congrArg (Term.app callee) (Sequence.fill_of_mem_namePlaces args inArgs)

theorem Sequence.fill_of_mem_namePlaces {place : Sequence.Place} {name : Text} :
    (terms : List Term) → (place, name) ∈ Sequence.namePlaces terms →
      place.fill (.name name) = terms
  | [], listed => by cases listed
  | head :: tail, listed => by
      rw [Sequence.namePlaces, List.mem_append, List.mem_map, List.mem_map] at listed
      rcases listed with ⟨⟨inner, _⟩, inHead, same⟩ | ⟨⟨later, _⟩, inTail, same⟩
      · cases same
        exact congrArg (· :: tail) (Term.fill_of_mem_namePlaces head inHead)
      · cases same
        rw [Sequence.Place.fill, Sequence.Place.beside, List.append_nil]
        exact congrArg (head :: ·) (Sequence.fill_of_mem_namePlaces tail inTail)

end

/-- The places that are listed are those where a name stands. -/
theorem Sequence.mem_namePlaces_iff {terms : List Term} {place : Sequence.Place} {name : Text} :
    (place, name) ∈ namePlaces terms ↔ place.fill (.name name) = terms := by
  constructor
  · exact fill_of_mem_namePlaces terms
  · rintro rfl
    exact mem_namePlaces_around (Term.mem_namePlaces_fill name place.inner) place.front place.back

/-- What is picked from a list and then moved is what is picked from the list moved as well. -/
theorem map_filterMap_moved {Entry Other Picked Moved : Type} {pick? : Entry → Option Picked}
    {other? : Other → Option Moved} {around : Picked → Moved} {moved : Entry → Other}
    (same : ∀ entry, (pick? entry).map around = other? (moved entry)) (entries : List Entry) :
    (entries.filterMap pick?).map around = (entries.map moved).filterMap other? := by
  rw [List.map_filterMap, List.filterMap_map]
  exact congrArg (List.filterMap · entries) (funext same)

end Splice
