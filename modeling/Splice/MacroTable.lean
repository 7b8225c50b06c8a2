import Splice.Error
import Splice.Term.Basic

/-!
# Macro tables

A macro table holds bodies under names, in increasing order of the names. It is
write-once: a name that has a body keeps it, and defining it again is an error
even with the same body.
-/

namespace Splice

/-- The bodies of macros, with the names in increasing order. -/
@[ext]
structure MacroTable where
  entries : List (Text × List Term)
  ordered : entries.Pairwise fun left right => left.1 < right.1

namespace MacroTable

/-- The table without macros. -/
def empty : MacroTable :=
  ⟨[], .nil⟩

/-- The body of a macro. -/
def find? (table : MacroTable) (name : Text) : Option (List Term) :=
  table.entries.lookup name

/-- Whether a macro is defined. -/
def contains (table : MacroTable) (name : Text) : Bool :=
  (table.find? name).isSome

/-- The names of the macros, in increasing order. -/
def names (table : MacroTable) : List Text :=
  table.entries.map Prod.fst

/-- The number of macros. -/
def size (table : MacroTable) : Nat :=
  table.entries.length

/-- Whether there is no macro. -/
def isEmpty (table : MacroTable) : Bool :=
  table.entries.isEmpty

/-! ## Definition -/

/-- Puts an entry in front of the first one with a greater name. An entry with the
same name stays as it is. -/
def insertEntry (name : Text) (body : List Term) :
    List (Text × List Term) → List (Text × List Term)
  | [] => [(name, body)]
  | entry :: rest =>
      if name < entry.1 then (name, body) :: entry :: rest
      else if entry.1 = name then entry :: rest
      else entry :: insertEntry name body rest

/-- Insertion brings in at most the new entry. -/
theorem mem_insertEntry {name : Text} {body : List Term} {entries : List (Text × List Term)}
    {entry : Text × List Term} (member : entry ∈ insertEntry name body entries) :
    entry = (name, body) ∨ entry ∈ entries := by
  induction entries with
  | nil => simpa [insertEntry] using member
  | cons head rest ih =>
      unfold insertEntry at member
      split at member
      · simpa using member
      · split at member
        · exact .inr member
        · rcases List.mem_cons.mp member with same | below
          · exact .inr (same ▸ List.mem_cons_self)
          · exact (ih below).imp_right (List.mem_cons_of_mem head)

/-- Insertion keeps the names in increasing order. -/
theorem pairwise_insertEntry (name : Text) (body : List Term) {entries : List (Text × List Term)}
    (ordered : entries.Pairwise fun left right => left.1 < right.1) :
    (insertEntry name body entries).Pairwise fun left right => left.1 < right.1 := by
  induction entries with
  | nil => simp [insertEntry]
  | cons head rest ih =>
      have above := List.pairwise_cons.mp ordered
      unfold insertEntry
      split
      · rename_i less
        refine List.pairwise_cons.mpr ⟨fun entry member => ?_, ordered⟩
        rcases List.mem_cons.mp member with same | below
        · exact same ▸ less
        · exact List.lt_trans less (above.1 entry below)
      · rename_i notLess
        split
        · exact ordered
        · rename_i differ
          refine List.pairwise_cons.mpr ⟨fun entry member => ?_, ih above.2⟩
          rcases mem_insertEntry member with same | below
          · rcases List.le_iff_lt_or_eq.mp (List.not_lt.mp notLess) with less | same'
            · exact same ▸ less
            · exact absurd same' differ
          · exact above.1 entry below

/-- Gives a body to a name that has none. -/
def insert (table : MacroTable) (name : Text) (body : List Term) : MacroTable :=
  ⟨insertEntry name body table.entries, pairwise_insertEntry name body table.ordered⟩

/-- Defines a macro; a name can be defined only once. -/
def define (table : MacroTable) (name : Text) (body : List Term) : Except Error MacroTable :=
  if table.contains name then .error (.redefinition name) else .ok (table.insert name body)

end MacroTable

end Splice
