import Mathlib.Data.Multiset.Lattice
import Mathlib.Order.Lattice.Nat
import Splice.Proofs.MacroTable
import Splice.Proofs.Rank
import Splice.Proofs.Session.Argument

/-!
# Unfolding

The unfolding of a sequence is the sequence with every macro in it expanded, and every macro in
the bodies of those, all at once. It exists when the macros can be ranked. In the callee of an
application a macro is unfolded only if its body is a single term, and what comes of that term is
a callee again. Expanding the leftmost macro, over and over, comes to the unfolding and stops
there.
-/

namespace Splice

/-- A ranking of the macros of a table, by which bodies mention only macros of lower ranks. -/
structure MacroTable.Ranking (macros : MacroTable) where
  rank : Text → Nat
  descends {name text : Text} {body : List Term} :
    macros.find? name = some body → text ∈ Sequence.mentions body →
      macros.contains text = true → rank text < rank name

namespace MacroTable.Ranking

variable {macros : MacroTable}

/-- A ranking from a check of the entries. -/
def ofEntries (rank : Text → Nat)
    (descends : ∀ entry ∈ macros.entries, ∀ text ∈ Sequence.mentions entry.2,
      macros.contains text = true → rank text < rank entry.1) : macros.Ranking where
  rank := rank
  descends := by
    intro name text body known mentioned contained
    exact descends _ (find?_eq_some_iff.mp known) text mentioned contained

variable (ranking : macros.Ranking)

/-- The rank of a name from one on, and zero for a name without a body. -/
def level (text : Text) : Nat :=
  if macros.contains text then ranking.rank text + 1 else 0

theorem level_of_find? {name : Text} {body : List Term} (known : macros.find? name = some body) :
    ranking.level name = ranking.rank name + 1 := by
  have contained : macros.contains name = true := by rw [contains, known, Option.isSome_some]
  rw [level, if_pos contained]

theorem level_lt {name : Text} {body : List Term} (known : macros.find? name = some body)
    {text : Text} (mentioned : text ∈ Sequence.mentions body) :
    ranking.level text < ranking.level name := by
  rw [ranking.level_of_find? known, level]
  split
  · rename_i contained
    exact Nat.succ_lt_succ (ranking.descends known mentioned contained)
  · exact Nat.succ_pos _

theorem below_of_find? {name : Text} {body : List Term} (known : macros.find? name = some body) :
    Sequence.Below ranking.level body [.name name] := by
  refine Sequence.below_of_mentions ?_ fun text => ranking.level_lt known
  rw [ranking.level_of_find? known]
  exact Nat.succ_pos _

/-- The highest rank in a sequence. -/
def height (terms : List Term) : Nat :=
  (Sequence.ranks ranking.level terms).sup

theorem height_lt {name : Text} {body : List Term} (known : macros.find? name = some body) :
    ranking.height body < ranking.level name := by
  rw [ranking.level_of_find? known, Nat.lt_succ_iff, height, Multiset.sup_le]
  intro level member
  rcases Sequence.mem_ranks member with rfl | ⟨text, mentioned, rfl⟩
  · exact Nat.zero_le _
  · have lower := ranking.level_lt known mentioned
    rwa [ranking.level_of_find? known, Nat.lt_succ_iff] at lower

theorem height_cons (head : Term) (tail : List Term) :
    ranking.height (head :: tail) = max (ranking.height [head]) (ranking.height tail) := by
  rw [height, height, height, Sequence.ranks_singleton, Sequence.ranks, Multiset.sup_add]

theorem height_head_le (head : Term) (tail : List Term) :
    ranking.height [head] ≤ ranking.height (head :: tail) := by
  rw [ranking.height_cons head tail]
  exact Nat.le_max_left _ _

theorem height_tail_le (head : Term) (tail : List Term) :
    ranking.height tail ≤ ranking.height (head :: tail) := by
  rw [ranking.height_cons head tail]
  exact Nat.le_max_right _ _

theorem height_body_le (param : Text) (body : List Term) :
    ranking.height body ≤ ranking.height [.lam param body] := by
  rw [height, height, Sequence.ranks_singleton, Term.ranks]

theorem height_app (callee : Term) (args : List Term) :
    ranking.height [.app callee args] = max (ranking.height [callee]) (ranking.height args) := by
  rw [height, height, height, Sequence.ranks_singleton, Sequence.ranks_singleton, Term.ranks,
    Multiset.sup_add, Multiset.sup_add, Multiset.sup_singleton]
  simp

theorem height_callee_le (callee : Term) (args : List Term) :
    ranking.height [callee] ≤ ranking.height [.app callee args] := by
  rw [ranking.height_app]
  exact Nat.le_max_left _ _

theorem height_args_le (callee : Term) (args : List Term) :
    ranking.height args ≤ ranking.height [.app callee args] := by
  rw [ranking.height_app]
  exact Nat.le_max_right _ _

theorem height_lt_name {name : Text} {body : List Term} (known : macros.find? name = some body) :
    ranking.height body < ranking.height [.name name] := by
  rw [height.eq_def _ [_], Sequence.ranks_singleton, Term.ranks, Multiset.sup_singleton]
  exact ranking.height_lt known

end MacroTable.Ranking

mutual

/-- The unfolding of a term that stands alone, as the callee of an application does. -/
def Term.unfold {macros : MacroTable} (ranking : macros.Ranking) : Term → Term
  | .name text =>
      match _ : macros.find? text with
      | some [single] => Term.unfold ranking single
      | _ => .name text
  | .literal raw => .literal raw
  | .lam param body => .lam param (Sequence.unfold ranking body)
  | .define name body => .define name body
  | .app callee args => .app (Term.unfold ranking callee) (Sequence.unfold ranking args)
termination_by term => (ranking.height [term], sizeOf term)
decreasing_by
  · rename_i known
    exact Prod.Lex.left _ _ (ranking.height_lt_name known)
  · exact Prod.Lex.right' _ (ranking.height_body_le param body)
      (by rw [Term.lam.sizeOf_spec]; omega)
  · exact Prod.Lex.right' _ (ranking.height_callee_le callee args)
      (by rw [Term.app.sizeOf_spec]; omega)
  · exact Prod.Lex.right' _ (ranking.height_args_le callee args)
      (by rw [Term.app.sizeOf_spec]; omega)

/-- The sequence with every macro in it expanded, and every macro in their bodies. -/
def Sequence.unfold {macros : MacroTable} (ranking : macros.Ranking) : List Term → List Term
  | [] => []
  | .name text :: tail =>
      match _ : macros.find? text with
      | some body => Sequence.unfold ranking body ++ Sequence.unfold ranking tail
      | none => .name text :: Sequence.unfold ranking tail
  | head :: tail => Term.unfold ranking head :: Sequence.unfold ranking tail
termination_by terms => (ranking.height terms, sizeOf terms)
decreasing_by
  · rename_i known
    refine Prod.Lex.left _ _ (Nat.lt_of_lt_of_le (ranking.height_lt_name known) ?_)
    exact ranking.height_head_le _ tail
  · exact Prod.Lex.right' _ (ranking.height_tail_le _ tail)
      (by rw [List.cons.sizeOf_spec]; omega)
  · exact Prod.Lex.right' _ (ranking.height_tail_le _ tail)
      (by rw [List.cons.sizeOf_spec]; omega)
  · exact Prod.Lex.right' _ (ranking.height_head_le head tail)
      (by rw [List.cons.sizeOf_spec]; omega)
  · exact Prod.Lex.right' _ (ranking.height_tail_le head tail)
      (by rw [List.cons.sizeOf_spec]; omega)

end

section Unfold

variable {macros : MacroTable} (ranking : macros.Ranking)

namespace Sequence

theorem unfold_cons (head : Term) (tail : List Term) :
    unfold ranking (head :: tail) = unfold ranking [head] ++ unfold ranking tail := by
  cases head with
  | name text =>
      rw [unfold, unfold]
      cases macros.find? text with
      | some body => simp [unfold]
      | none => simp [unfold]
  | literal raw => simp [unfold]
  | lam param body => simp [unfold]
  | define name body => simp [unfold]
  | app callee args => simp [unfold]

theorem unfold_append (front back : List Term) :
    unfold ranking (front ++ back) = unfold ranking front ++ unfold ranking back := by
  induction front with
  | nil => simp [unfold]
  | cons head tail ih =>
      rw [List.cons_append, unfold_cons, ih, unfold_cons ranking head tail, List.append_assoc]

theorem unfold_name (text : Text) :
    unfold ranking [.name text] =
      match macros.find? text with
      | some body => unfold ranking body
      | none => [.name text] := by
  rw [unfold]
  cases macros.find? text with
  | some body => simp [unfold]
  | none => simp [unfold]

theorem unfold_singleton {term : Term} (unnamed : ∀ text, term ≠ .name text) :
    unfold ranking [term] = [Term.unfold ranking term] := by
  cases term with
  | name text => exact absurd rfl (unnamed text)
  | literal raw => simp [unfold]
  | lam param body => simp [unfold]
  | define name body => simp [unfold]
  | app callee args => simp [unfold]

theorem unfold_literal (raw : Text) : unfold ranking [.literal raw] = [.literal raw] := by
  simp [unfold, Term.unfold]

theorem unfold_lam (param : Text) (body : List Term) :
    unfold ranking [.lam param body] = [.lam param (unfold ranking body)] := by
  simp [unfold, Term.unfold]

theorem unfold_define (name : Text) (body : List Term) :
    unfold ranking [.define name body] = [.define name body] := by
  simp [unfold, Term.unfold]

theorem unfold_app (callee : Term) (args : List Term) :
    unfold ranking [.app callee args] =
      [.app (Term.unfold ranking callee) (unfold ranking args)] := by
  simp [unfold, Term.unfold]

end Sequence

theorem Term.unfold_name {text : Text} {single : Term}
    (known : macros.find? text = some [single]) :
    Term.unfold ranking (.name text) = Term.unfold ranking single := by
  rw [Term.unfold]
  split
  · rename_i other found
    rw [known] at found
    cases found
    rfl
  · rename_i several
    exact absurd known (several single)

theorem Term.unfold_name_eq_self {text : Text}
    (several : ∀ single, macros.find? text ≠ some [single]) :
    Term.unfold ranking (.name text) = .name text := by
  rw [Term.unfold]
  split
  · rename_i single found
    exact absurd found (several single)
  · rfl

/-! ## One expansion -/

/-- What is no name does not become one when a macro is expanded in it. -/
theorem Term.unnamed_of_expand? {term single : Term} (unnamed : ∀ text, term ≠ .name text)
    (expands : Term.expand? macros term = some [single]) : ∀ text, single ≠ .name text := by
  rintro text rfl
  cases term with
  | name other => exact unnamed other rfl
  | literal raw => cases expands
  | lam param body =>
      obtain ⟨inner, -, same⟩ := Option.map_eq_some_iff.mp expands
      cases same
  | define name body => cases expands
  | app callee args =>
      rw [Term.expand?] at expands
      split at expands
      · cases expands
      · obtain ⟨inner, -, same⟩ := Option.map_eq_some_iff.mp expands
        cases same

/-- An expansion in a callee leaves the unfolding of the callee as it is. -/
theorem Term.unfold_of_expand? {callee single : Term}
    (expands : Term.expand? macros callee = some [single])
    (same : Sequence.unfold ranking [single] = Sequence.unfold ranking [callee]) :
    Term.unfold ranking single = Term.unfold ranking callee := by
  by_cases named : ∃ text, callee = .name text
  · obtain ⟨text, rfl⟩ := named
    exact (Term.unfold_name ranking expands).symm
  · have unnamed : ∀ text, callee ≠ .name text := fun text equal => named ⟨text, equal⟩
    rw [Sequence.unfold_singleton ranking unnamed,
      Sequence.unfold_singleton ranking (unnamed_of_expand? unnamed expands)] at same
    injection same

/-- A callee in which nothing is expanded is its own unfolding. -/
theorem Term.unfold_eq_self {callee : Term}
    (settled : ∀ single, Term.expand? macros callee ≠ some [single])
    (same : Term.expand? macros callee = none → Sequence.unfold ranking [callee] = [callee]) :
    Term.unfold ranking callee = callee := by
  by_cases named : ∃ text, callee = .name text
  · obtain ⟨text, rfl⟩ := named
    exact Term.unfold_name_eq_self ranking settled
  · have unnamed : ∀ text, callee ≠ .name text := fun text equal => named ⟨text, equal⟩
    have quiet : Term.expand? macros callee = none := by
      cases expands : Term.expand? macros callee with
      | none => rfl
      | some expanded =>
          obtain ⟨single, rfl⟩ := Term.exists_single_of_expand? unnamed expands
          exact absurd expands (settled single)
    have whole := same quiet
    rw [Sequence.unfold_singleton ranking unnamed] at whole
    injection whole

namespace Sequence

theorem unfold_of_expand?_cons {head : Term} {tail next : List Term}
    (expands : expand? macros (head :: tail) = some next)
    (ofHead : ∀ expanded, Term.expand? macros head = some expanded →
      unfold ranking expanded = unfold ranking [head])
    (ofTail : ∀ expanded, expand? macros tail = some expanded →
      unfold ranking expanded = unfold ranking tail) :
    unfold ranking next = unfold ranking (head :: tail) := by
  rw [unfold_cons]
  rw [expand?] at expands
  cases found : Term.expand? macros head with
  | some expanded =>
      rw [found] at expands
      cases expands
      rw [unfold_append, ofHead expanded found]
  | none =>
      rw [found] at expands
      obtain ⟨expanded, inTail, rfl⟩ := Option.map_eq_some_iff.mp expands
      rw [unfold_cons, ofTail expanded inTail]

/-- An expansion leaves the unfolding as it is. -/
theorem unfold_of_expand? {terms next : List Term} (expands : expand? macros terms = some next) :
    unfold ranking next = unfold ranking terms := by
  induction terms using Sequence.induction generalizing next with
  | nil => cases expands
  | name text tail ih =>
      refine unfold_of_expand?_cons ranking expands ?_ (fun _ => ih)
      intro body known
      rw [Term.expand?] at known
      rw [unfold_name, known]
  | literal raw tail ih =>
      refine unfold_of_expand?_cons ranking expands ?_ (fun _ => ih)
      intro expanded found
      cases found
  | lam param body tail ofBody ih =>
      refine unfold_of_expand?_cons ranking expands ?_ (fun _ => ih)
      intro expanded found
      obtain ⟨inner, inBody, rfl⟩ := Option.map_eq_some_iff.mp found
      rw [unfold_lam, unfold_lam, ofBody inBody]
  | define name body tail ofBody ih =>
      refine unfold_of_expand?_cons ranking expands ?_ (fun _ => ih)
      intro expanded found
      cases found
  | app callee args tail ofCallee ofArgs ih =>
      refine unfold_of_expand?_cons ranking expands ?_ (fun _ => ih)
      intro expanded found
      rw [Term.expand?] at found
      split at found
      · rename_i single inCallee
        cases found
        have alone : expand? macros [callee] = some [single] := by
          rw [expand?_singleton, inCallee]
        have same := Term.unfold_of_expand? ranking inCallee (ofCallee alone)
        rw [unfold_app, unfold_app, same]
      · obtain ⟨inner, inArgs, rfl⟩ := Option.map_eq_some_iff.mp found
        rw [unfold_app, unfold_app, ofArgs inArgs]

/-- A sequence in which nothing is expanded is its own unfolding. -/
theorem unfold_eq_self {terms : List Term} (settled : expand? macros terms = none) :
    unfold ranking terms = terms := by
  induction terms using Sequence.induction with
  | nil => rw [unfold]
  | name text tail ih =>
      rw [expand?_cons_eq_none_iff, Term.expand?] at settled
      rw [unfold_cons, unfold_name, settled.1, ih settled.2]
      rfl
  | literal raw tail ih =>
      rw [expand?_cons_eq_none_iff] at settled
      rw [unfold_cons, unfold_literal, ih settled.2]
      rfl
  | lam param body tail ofBody ih =>
      rw [expand?_cons_eq_none_iff, Term.expand?, Option.map_eq_none_iff] at settled
      rw [unfold_cons, unfold_lam, ofBody settled.1, ih settled.2]
      rfl
  | define name body tail ofBody ih =>
      rw [expand?_cons_eq_none_iff] at settled
      rw [unfold_cons, unfold_define, ih settled.2]
      rfl
  | app callee args tail ofCallee ofArgs ih =>
      rw [expand?_cons_eq_none_iff, Term.expand?_app_eq_none_iff] at settled
      rw [expand?_singleton] at ofCallee
      have alone := Term.unfold_eq_self ranking settled.1.1 ofCallee
      rw [unfold_cons, unfold_app, alone, ofArgs settled.1.2, ih settled.2]
      rfl

theorem below_of_expand? {terms next : List Term} (expands : expand? macros terms = some next) :
    Below ranking.level next terms := by
  obtain ⟨context, redex, result, filled, refilled, text, rfl, known⟩ := expand?_replaces expands
  exact context.below_of_fill filled refilled (ranking.below_of_find? known)

/-! ## All expansions -/

/-- If the macros can be ranked, then expanding the leftmost macro over and over stops after some
expansions, whatever sequence it starts from, and has come to the unfolding of the sequence. -/
theorem expansions_reach_unfolding (terms : List Term) :
    ∃ later : List (List Term),
      (∀ fuel, later.length < fuel → expansions macros fuel terms = (later, true)) ∧
      later.getLast?.getD terms = unfold ranking terms ∧
      expand? macros (unfold ranking terms) = none := by
  induction terms using (wellFounded_below ranking.level).induction with
  | _ terms ih =>
      cases expands : expand? macros terms with
      | none =>
          have same := unfold_eq_self ranking expands
          refine ⟨[], ?_, same.symm, ?_⟩
          · intro fuel enough
            obtain ⟨fewer, rfl⟩ := Nat.exists_eq_succ_of_ne_zero (Nat.ne_of_gt enough)
            rw [expansions, expands]
          · rw [same, expands]
      | some next =>
          obtain ⟨later, runs, last, settled⟩ := ih next (below_of_expand? ranking expands)
          rw [unfold_of_expand? ranking expands] at last settled
          refine ⟨next :: later, ?_, ?_, settled⟩
          · intro fuel enough
            obtain ⟨fewer, rfl⟩ := Nat.exists_eq_succ_of_ne_zero (Nat.ne_zero_of_lt enough)
            rw [expansions, expands]
            dsimp only
            rw [runs fewer (Nat.lt_of_succ_lt_succ enough)]
          · rw [List.getLast?_cons, Option.getD_some, last]

/-- A macro stands for a macro of two terms. As a callee it is followed to that macro, as an
argument and in the body of a function to the two terms, and in a definition it is left alone. -/
theorem expansions_reach_unfolding_of_chain :
    let shared : Term := .name "S".toList
    let pair : List Term := [.literal "PoAop".toList, .literal "PoBop".toList]
    let macros := ((MacroTable.empty.insert "S".toList [.name "T".toList]).insert "T".toList
      pair).insert "A".toList [.lam "x".toList [shared], .define "T".toList [shared]]
    let terms : List Term := [.app shared [shared], .name "A".toList]
    let unfolded : List Term := [.app (.name "T".toList) pair, .lam "x".toList pair,
      .define "T".toList [shared]]
    ∃ ranking : macros.Ranking, unfold ranking terms = unfolded ∧
      ∃ later : List (List Term),
        (∀ fuel, later.length < fuel → expansions macros fuel terms = (later, true)) ∧
        later.getLast?.getD terms = unfolded ∧ expand? macros unfolded = none := by
  intro shared pair macros terms unfolded
  let ranking : macros.Ranking := .ofEntries
    (fun text => if text = "A".toList then 2 else if text = "S".toList then 1 else 0) (by decide)
  have single : macros.find? "S".toList = some [.name "T".toList] := by decide
  have several : macros.find? "T".toList = some pair := by decide
  have ofPair : unfold ranking pair = pair := by
    apply unfold_eq_self
    decide
  have ofShared : unfold ranking [shared] = pair := by
    rw [unfold_name ranking "S".toList, single]
    dsimp only
    rw [unfold_name, several]
    exact ofPair
  -- As a callee the macro is followed to a name whose body is no single term.
  have ofCallee : Term.unfold ranking shared = .name "T".toList := by
    rw [Term.unfold_name ranking single]
    apply Term.unfold_name_eq_self
    rw [several]
    simp [pair]
  have ofOuter : unfold ranking [.name "A".toList] =
      [.lam "x".toList pair, .define "T".toList [shared]] := by
    have outer : macros.find? "A".toList =
        some [.lam "x".toList [shared], .define "T".toList [shared]] := by decide
    rw [unfold_name, outer]
    dsimp only
    rw [unfold_cons, unfold_lam, unfold_define, ofShared]
    rfl
  have whole : unfold ranking terms = unfolded := by
    rw [unfold_cons, unfold_app, ofCallee, ofShared, ofOuter]
    rfl
  obtain ⟨later, runs, last, settled⟩ := expansions_reach_unfolding ranking terms
  rw [whole] at last settled
  exact ⟨ranking, whole, later, runs, last, settled⟩

end Sequence

end Unfold

end Splice
