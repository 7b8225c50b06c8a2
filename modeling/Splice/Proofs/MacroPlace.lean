import Splice.Proofs.Place
import Splice.Proofs.Session.Priority

/-!
# Where macros are expanded

Every name in a sequence has its place, and places have addresses that put them in order, the callee
of an application in front of its arguments. A macro can be expanded where its name stands outside
of definitions, and in a callee only if its body is a single term. One expansion puts the body in
the first place where this is so and changes nothing else.
-/

namespace Splice

namespace Term.Place

/-- The way down to a place, by positions in sequences. An application has its callee in front of
its arguments. -/
def address : Term.Place → List Nat
  | here => []
  | inBody _ front inner _ => front.length :: inner.address
  | inDefinition _ front inner _ => front.length :: inner.address
  | inCallee inner _ => 0 :: inner.address
  | inArgs _ front inner _ => (front.length + 1) :: inner.address

/-- Whether a place lies inside a definition. -/
def isDefined : Term.Place → Bool
  | here => false
  | inBody _ _ inner _ => inner.isDefined
  | inDefinition _ _ _ _ => true
  | inCallee inner _ => inner.isDefined
  | inArgs _ _ inner _ => inner.isDefined

/-- The sequence that a term becomes with a sequence in a place. There is none if a callee does not
become one term. -/
def replace? (filling : List Term) : Term.Place → Option (List Term)
  | here => some filling
  | inBody param front inner back =>
      (inner.replace? filling).map fun middle => [.lam param (front ++ middle ++ back)]
  | inDefinition called front inner back =>
      (inner.replace? filling).map fun middle => [.define called (front ++ middle ++ back)]
  | inCallee inner args =>
      match inner.replace? filling with
      | some [single] => some [.app single args]
      | _ => none
  | inArgs callee front inner back =>
      (inner.replace? filling).map fun middle => [.app callee (front ++ middle ++ back)]

end Term.Place

namespace Sequence.Place

/-- The way down to a place, by positions in sequences. -/
def address (place : Sequence.Place) : List Nat :=
  place.front.length :: place.inner.address

/-- A sequence with another one in a place. -/
def replace? (filling : List Term) (place : Sequence.Place) : Option (List Term) :=
  (place.inner.replace? filling).map fun middle => place.front ++ middle ++ place.back

end Sequence.Place

/-- Whether a macro can be expanded, by whether it is to become a single term. -/
def MacroTable.expands (macros : MacroTable) (alone : Bool) (name : Text) : Bool :=
  match macros.find? name with
  | some body => !alone || body.length == 1
  | none => false

/-- The places where a macro can be expanded in a sequence, each with its name, from left to
right. -/
def Sequence.expandable (macros : MacroTable) (terms : List Term) : List (Sequence.Place × Text) :=
  (namePlaces terms).filter fun (place, name) =>
    !place.inner.isDefined && macros.expands place.inner.isCallee name

/-! ## Order -/

theorem Sequence.Place.moved_lt {left right : Sequence.Place}
    (before : left.address < right.address) :
    (left.front.length + 1) :: left.inner.address <
      (right.front.length + 1) :: right.inner.address := by
  rw [address, address, List.cons_lt_cons_iff] at before
  rw [List.cons_lt_cons_iff]
  exact before.imp Nat.succ_lt_succ (And.imp_left (congrArg Nat.succ))

mutual

theorem Term.pairwise_namePlaces :
    (term : Term) → (Term.namePlaces term).Pairwise fun left right =>
      left.1.address < right.1.address
  | .name _ => List.pairwise_singleton _ _
  | .literal _ => .nil
  | .lam _ body => List.pairwise_map.mpr (Sequence.pairwise_namePlaces body)
  | .define _ body => List.pairwise_map.mpr (Sequence.pairwise_namePlaces body)
  | .app callee args => by
      rw [Term.namePlaces, List.pairwise_append, List.pairwise_map, List.pairwise_map]
      refine ⟨?_, ?_, ?_⟩
      · apply (Term.pairwise_namePlaces callee).imp
        intro left right before
        exact List.cons_lt_cons_iff.mpr (.inr ⟨rfl, before⟩)
      · exact (Sequence.pairwise_namePlaces args).imp Sequence.Place.moved_lt
      · intro left inCallee right inArgs
        obtain ⟨first, -, rfl⟩ := List.mem_map.mp inCallee
        obtain ⟨second, -, rfl⟩ := List.mem_map.mp inArgs
        exact List.cons_lt_cons_iff.mpr (.inl (Nat.succ_pos _))

/-- Places are listed in the order of their addresses. -/
theorem Sequence.pairwise_namePlaces :
    (terms : List Term) → (Sequence.namePlaces terms).Pairwise fun left right =>
      left.1.address < right.1.address
  | [] => .nil
  | head :: tail => by
      rw [Sequence.namePlaces, List.pairwise_append, List.pairwise_map, List.pairwise_map]
      refine ⟨?_, ?_, ?_⟩
      · apply (Term.pairwise_namePlaces head).imp
        intro left right before
        exact List.cons_lt_cons_iff.mpr (.inr ⟨rfl, before⟩)
      · exact (Sequence.pairwise_namePlaces tail).imp Sequence.Place.moved_lt
      · intro left inHead right inTail
        obtain ⟨first, -, rfl⟩ := List.mem_map.mp inHead
        obtain ⟨second, -, rfl⟩ := List.mem_map.mp inTail
        exact List.cons_lt_cons_iff.mpr (.inl (Nat.succ_pos _))

end

/-! ## Contexts of places -/

/-- A context with sequences around it, the first of which is put there term by term. -/
def Context.among : List Term → Context → List Term → Context
  | [], inner, back => .beside [] inner back
  | head :: front, inner, back => .beside [head] (among front inner back) []

theorem Context.fill?_among (front : List Term) (inner : Context) (back filling : List Term) :
    (among front inner back).fill? filling =
      (inner.fill? filling).map fun middle => front ++ middle ++ back := by
  induction front with
  | nil => rfl
  | cons head tail ih =>
      rw [among, fill?, ih, Option.map_map]
      simp [Function.comp_def]

/-- What is around a place in a term, if it lies outside of definitions. -/
def Term.Place.context? : Term.Place → Option Context
  | here => some .hole
  | inBody param front inner back =>
      inner.context?.map fun context => .inBody param (.among front context back)
  | inDefinition _ _ _ _ => none
  | inCallee inner args => inner.context?.map (.inCallee · args)
  | inArgs callee front inner back =>
      inner.context?.map fun context => .inArgs callee (.among front context back)

/-- What is around a place in a sequence, if it lies outside of definitions. -/
def Sequence.Place.context? (place : Sequence.Place) : Option Context :=
  place.inner.context?.map (.among place.front · place.back)

theorem Sequence.Place.context?_beside (head : Term) (place : Sequence.Place) :
    (place.beside [head] []).context? = place.context?.map (.beside [head] · []) := by
  rw [context?, context?, Option.map_map]
  simp only [beside, List.append_nil]
  rfl

theorem Term.Place.context?_eq_none_iff {place : Term.Place} :
    place.context? = none ↔ place.isDefined = true := by
  induction place with
  | here => simp [context?, isDefined]
  | inBody param front inner back ih => simp [context?, isDefined, ih]
  | inDefinition called front inner back ih => simp [context?, isDefined]
  | inCallee inner args ih => simp [context?, isDefined, ih]
  | inArgs callee front inner back ih => simp [context?, isDefined, ih]

theorem Term.Place.fill?_context {place : Term.Place} {context : Context}
    (around : place.context? = some context) (filling : List Term) :
    context.fill? filling = place.replace? filling := by
  induction place generalizing context with
  | here =>
      cases around
      rfl
  | inBody param front inner back ih =>
      obtain ⟨outer, found, rfl⟩ := Option.map_eq_some_iff.mp around
      rw [Context.fill?, Context.fill?_among, ih found, Option.map_map, replace?]
      rfl
  | inDefinition called front inner back ih => cases around
  | inCallee inner args ih =>
      obtain ⟨outer, found, rfl⟩ := Option.map_eq_some_iff.mp around
      rw [replace?, ← ih found]
      rfl
  | inArgs callee front inner back ih =>
      obtain ⟨outer, found, rfl⟩ := Option.map_eq_some_iff.mp around
      rw [Context.fill?, Context.fill?_among, ih found, Option.map_map, replace?]
      rfl

/-- Whether a place is that of a callee, where the term itself may stand in the place of one. -/
def Term.Place.isCalleeIn (alone : Bool) : Term.Place → Bool
  | here => alone
  | place => place.isCallee

theorem Term.Place.isCallee_inCallee (inner : Term.Place) (args : List Term) :
    (inCallee inner args).isCallee = inner.isCalleeIn true := by
  cases inner <;> rfl

theorem Term.Place.isCalleeIn_false (place : Term.Place) :
    place.isCalleeIn false = place.isCallee := by
  cases place <;> rfl

/-- The site of a macro in a context, if the macro can be expanded there. -/
def MacroTable.site? (macros : MacroTable) (alone : Bool) (name : Text)
    (context? : Option Context) : Option Site :=
  if macros.expands alone name then context?.map (⟨·, name⟩) else none

theorem MacroTable.map_site? (macros : MacroTable) (alone : Bool) (name : Text)
    (context? : Option Context) (around : Context → Context) :
    (macros.site? alone name context?).map
        (fun site => { site with context := around site.context }) =
      macros.site? alone name (context?.map around) := by
  unfold site?
  split
  · rw [Option.map_map, Option.map_map]
    rfl
  · rfl

/-- The sites in the places of names in a term, which may have to become a single term. -/
def Term.sitesAt (macros : MacroTable) (alone : Bool) (entries : List (Term.Place × Text)) :
    List Site :=
  entries.filterMap fun entry =>
    macros.site? (entry.1.isCalleeIn alone) entry.2 entry.1.context?

/-- The sites in the places of names in a sequence. -/
def Sequence.sitesAt (macros : MacroTable) (entries : List (Sequence.Place × Text)) : List Site :=
  entries.filterMap fun entry => macros.site? entry.1.inner.isCallee entry.2 entry.1.context?

theorem Term.sitesAt_append (macros : MacroTable) (alone : Bool)
    (front back : List (Term.Place × Text)) :
    Term.sitesAt macros alone (front ++ back) =
      Term.sitesAt macros alone front ++ Term.sitesAt macros alone back :=
  List.filterMap_append

theorem Sequence.sitesAt_append (macros : MacroTable) (front back : List (Sequence.Place × Text)) :
    Sequence.sitesAt macros (front ++ back) =
      Sequence.sitesAt macros front ++ Sequence.sitesAt macros back :=
  List.filterMap_append

mutual

theorem Term.sites_eq_sitesAt (macros : MacroTable) (alone : Bool) :
    (term : Term) → Term.sites macros alone term = Term.sitesAt macros alone (Term.namePlaces term)
  | .name text => by
      have listed : Term.sitesAt macros alone [(.here, text)] =
          if macros.expands alone text then [⟨.hole, text⟩] else [] := by
        unfold Term.sitesAt
        split
        · rename_i expands
          simp [MacroTable.site?, Term.Place.isCalleeIn, Term.Place.context?, expands]
        · rename_i stays
          simp [MacroTable.site?, Term.Place.isCalleeIn, stays]
      rw [Term.namePlaces, listed, Term.sites, MacroTable.expands]
      cases macros.find? text with
      | none => rfl
      | some body => cases alone <;> simp
  | .literal _ => rfl
  | .lam param body => by
      rw [Term.sites, Sequence.sites_eq_sitesAt macros body, Term.namePlaces]
      apply map_filterMap_moved
      rintro ⟨place, name⟩
      rw [MacroTable.map_site? _ _ _ _ (.inBody param), Sequence.Place.context?, Option.map_map]
      rfl
  | .define called body => by
      rw [Term.sites, Term.namePlaces, Term.sitesAt, List.filterMap_map, eq_comm,
        List.filterMap_eq_nil_iff]
      rintro ⟨place, name⟩ -
      simp [MacroTable.site?, Term.Place.context?]
  | .app callee args => by
      rw [Term.sites, Term.sites_eq_sitesAt macros true callee,
        Sequence.sites_eq_sitesAt macros args, Term.namePlaces, Term.sitesAt_append]
      congr 1
      · apply map_filterMap_moved
        rintro ⟨inner, name⟩
        rw [MacroTable.map_site? _ _ _ _ (.inCallee · args),
          ← Term.Place.isCallee_inCallee inner args]
        rfl
      · apply map_filterMap_moved
        rintro ⟨place, name⟩
        rw [MacroTable.map_site? _ _ _ _ (.inArgs callee), Sequence.Place.context?, Option.map_map]
        rfl

/-- The sites of a sequence are found in the places of its names. -/
theorem Sequence.sites_eq_sitesAt (macros : MacroTable) :
    (terms : List Term) →
      Sequence.sites macros terms = Sequence.sitesAt macros (Sequence.namePlaces terms)
  | [] => rfl
  | head :: tail => by
      rw [Sequence.sites, Term.sites_eq_sitesAt macros false head,
        Sequence.sites_eq_sitesAt macros tail, Sequence.namePlaces, Sequence.sitesAt_append]
      congr 1
      · apply map_filterMap_moved
        rintro ⟨inner, name⟩
        rw [MacroTable.map_site? _ _ _ _ (.beside [] · tail), Term.Place.isCalleeIn_false]
        rfl
      · apply map_filterMap_moved
        rintro ⟨place, name⟩
        rw [MacroTable.map_site? _ _ _ _ (.beside [head] · []), ← Sequence.Place.context?_beside]
        rfl

end

/-! ## The first place -/

theorem Term.Place.replace?_singleton (term : Term) (place : Term.Place) :
    place.replace? [term] = some [place.fill term] := by
  induction place with
  | here => rfl
  | inBody param front inner back ih => simp [replace?, fill, ih]
  | inDefinition called front inner back ih => simp [replace?, fill, ih]
  | inCallee inner args ih => simp [replace?, fill, ih]
  | inArgs callee front inner back ih => simp [replace?, fill, ih]

namespace Sequence

/-- A single term that replaces another one fills its place. -/
theorem Place.replace?_singleton (term : Term) (place : Sequence.Place) :
    place.replace? [term] = some (place.fill term) := by
  simp [replace?, fill, Term.Place.replace?_singleton]

theorem Place.fill?_context {place : Sequence.Place} {context : Context}
    (around : place.context? = some context) (filling : List Term) :
    context.fill? filling = place.replace? filling := by
  obtain ⟨inner, found, rfl⟩ := Option.map_eq_some_iff.mp around
  rw [Context.fill?_among, Term.Place.fill?_context found, replace?]

variable {macros : MacroTable} {terms : List Term}

theorem sites_eq_expandable (macros : MacroTable) (terms : List Term) :
    sites macros terms =
      (expandable macros terms).filterMap fun entry => entry.1.context?.map (⟨·, entry.2⟩) := by
  rw [sites_eq_sitesAt, sitesAt, expandable, List.filterMap_filter]
  apply List.filterMap_congr
  rintro ⟨place, name⟩ -
  cases inside : place.inner.isDefined with
  | true =>
      have nowhere := Term.Place.context?_eq_none_iff.mpr inside
      simp [MacroTable.site?, Place.context?, nowhere]
  | false => simp [MacroTable.site?, inside]

theorem exists_context_of_expandable {place : Sequence.Place} {name : Text}
    (listed : (place, name) ∈ expandable macros terms) :
    ∃ context, place.context? = some context := by
  have outside := (List.mem_filter.mp listed).2
  simp only [Bool.and_eq_true, Bool.not_eq_true'] at outside
  cases found : place.inner.context? with
  | none =>
      rw [Term.Place.context?_eq_none_iff.mp found] at outside
      cases outside.1
  | some context => exact ⟨_, by rw [Place.context?, found, Option.map_some]⟩

theorem expand?_eq_none_iff_expandable :
    expand? macros terms = none ↔ expandable macros terms = [] := by
  rw [expand?_eq_none_iff, sites_eq_expandable, List.filterMap_eq_nil_iff,
    List.eq_nil_iff_forall_not_mem]
  constructor
  · rintro nowhere ⟨place, name⟩ listed
    obtain ⟨context, around⟩ := exists_context_of_expandable listed
    have none := nowhere _ listed
    rw [around] at none
    cases none
  · intro empty entry listed
    exact absurd listed (empty entry)

/-- The macro in the first place where one can be expanded is expanded there. -/
theorem expand?_at_first {place : Sequence.Place} {name : Text}
    {others : List (Sequence.Place × Text)}
    (first : expandable macros terms = (place, name) :: others) :
    ∃ body next, macros.find? name = some body ∧ place.replace? body = some next ∧
      expand? macros terms = some next := by
  have listed : (place, name) ∈ expandable macros terms := first ▸ List.mem_cons_self
  obtain ⟨context, around⟩ := exists_context_of_expandable listed
  have head : (sites macros terms).head? = some ⟨context, name⟩ := by
    rw [sites_eq_expandable, first, List.filterMap_cons_some (by rw [around]; rfl), List.head?_cons]
  obtain ⟨next, expands, -, body, known, becomes⟩ := expandsFirst terms _ head
  exact ⟨body, next, known, by rw [← Place.fill?_context around, becomes], expands⟩

/-- In the place of a callee, a macro becomes a single term. -/
theorem length_eq_one_of_expandable {place : Sequence.Place} {name : Text} {body : List Term}
    (listed : (place, name) ∈ expandable macros terms) (known : macros.find? name = some body)
    (called : place.inner.isCallee = true) : body.length = 1 := by
  have expands := (List.mem_filter.mp listed).2
  simp only [Bool.and_eq_true, MacroTable.expands, known, called] at expands
  simpa using expands.2

/-- One expansion replaces the first name that can be expanded by the body of its macro, if there is
such a name. Names are listed where they stand, in the order of their addresses. What is no name
keeps its place as a callee. -/
theorem expand?_rewrites_first (macros : MacroTable) (terms : List Term) :
    (∀ place name, (place, name) ∈ namePlaces terms ↔ place.fill (.name name) = terms) ∧
    (namePlaces terms).Pairwise (fun left right => left.1.address < right.1.address) ∧
    (expand? macros terms = none ↔ expandable macros terms = []) ∧
    (∀ place name others, expandable macros terms = (place, name) :: others →
      ∃ body next, macros.find? name = some body ∧ place.replace? body = some next ∧
        expand? macros terms = some next ∧
        (place.inner.isCallee = true → ∃ single, body = [single] ∧ next = place.fill single)) ∧
    ∀ callee expanded, (∀ text, callee ≠ .name text) → expand? macros [callee] = some expanded →
      ∃ single, expanded = [single] := by
  refine ⟨fun _ _ => mem_namePlaces_iff, pairwise_namePlaces terms,
    expand?_eq_none_iff_expandable, ?_, ?_⟩
  · intro place name others first
    obtain ⟨body, next, known, becomes, expands⟩ := expand?_at_first first
    refine ⟨body, next, known, becomes, expands, ?_⟩
    intro called
    have listed : (place, name) ∈ expandable macros terms := first ▸ List.mem_cons_self
    obtain ⟨single, rfl⟩ :=
      List.length_eq_one_iff.mp (length_eq_one_of_expandable listed known called)
    rw [Place.replace?_singleton] at becomes
    exact ⟨single, rfl, (Option.some.inj becomes).symm⟩
  · intro callee expanded other expands
    rw [expand?_singleton] at expands
    exact Term.exists_single_of_expand? other expands

/-- A macro in a definition and one with two terms in a callee are passed over; the one that is
expanded stands in the callee of a callee, with others after it. -/
theorem expand?_rewrites_first_in_nested_callee :
    let pair := "Pair".toList
    let single := "Single".toList
    let result : Term := .literal "PoAop".toList
    let macros := (MacroTable.empty.insert pair [.name "a".toList, .name "b".toList]).insert single
      [result]
    let stored : Term := .define "D".toList [.name pair]
    let skipped : Term := .app (.name pair) []
    let inner : Term := .app (.name single) [.name pair]
    let terms : List Term := [stored, skipped, .app inner [.name single]]
    let place : Sequence.Place :=
      ⟨[stored, skipped], .inCallee (.inCallee .here [.name pair]) [.name single], []⟩
    (∃ others, expandable macros terms = (place, single) :: others) ∧
      expand? macros terms = some (place.fill result) ∧
      place.fill result = [stored, skipped, .app (.app result [.name pair]) [.name single]] ∧
      (∀ text, inner ≠ .name text) ∧ ∃ changed, expand? macros [inner] = some [changed] := by
  intro pair single result macros stored skipped inner terms place
  obtain ⟨-, -, -, replaces, keeps⟩ := expand?_rewrites_first macros terms
  have first : expandable macros terms = (place, single) :: (expandable macros terms).tail := by
    decide +kernel
  have defined : macros.find? single = some [result] := by decide +kernel
  obtain ⟨body, next, known, -, expands, called⟩ := replaces _ _ _ first
  obtain ⟨term, rfl, rfl⟩ := called rfl
  obtain ⟨rfl, -⟩ := List.cons.inj (Option.some.inj (known.symm.trans defined))
  have other : ∀ text, inner ≠ .name text := nofun
  obtain ⟨expanded, inCallee⟩ : ∃ expanded, expand? macros [inner] = some expanded :=
    Option.isSome_iff_exists.mp (by decide +kernel)
  obtain ⟨changed, rfl⟩ := keeps inner expanded other inCallee
  exact ⟨⟨_, first⟩, expands, rfl, other, changed, inCallee⟩

end Sequence

end Splice
