import Splice.Proofs.Grammar.Trace
import Splice.Proofs.Reduction.Focus
import Splice.Proofs.Session.Limit
import Splice.Proofs.Text.Slice

/-!
# Printing a text as it is

Every text stands between the ends of a literal, and the literal with its blanks written as escapes
is one word of a program, unless a comment opens in the text. A program that prints such literals
prints the texts, each character of them, one after the other and in one go, whatever they hold. A
text with nothing in it is the one exception: its literal is hollow, and the settings say what that
prints.
-/

namespace Splice

/-! ## Literals -/

namespace Word

/-- The literal around a text. -/
def enclose (text : Text) : Text :=
  "Po".toList ++ (text ++ "op".toList)

theorem isLiteral_enclose (text : Text) : isLiteral (enclose text) = true := by
  have long : 4 ≤ (enclose text).length := by
    simp [enclose]
  have starts : "Po".toList.isPrefixOf (enclose text) = true :=
    List.isPrefixOf_iff_prefix.mpr (List.prefix_append _ _)
  have ends : "op".toList.isSuffixOf (enclose text) = true := by
    rw [enclose, ← List.append_assoc]
    exact List.isSuffixOf_iff_suffix.mpr (List.suffix_append _ _)
  rw [isLiteral, starts, ends, decide_eq_true long]
  rfl

/-- The ends of a literal open no comment with what stands between them. -/
theorem opensComment_enclose (text : Text) : (enclose text).OpensComment ↔ text.OpensComment := by
  have last : ¬ Text.OpensComment ['p'] := by decide
  have before : (enclose text).OpensComment ↔ Text.OpensComment (text ++ ['o', 'p']) :=
    Text.opensComment_append_of_not_mem (by decide) _
  rw [before, Text.opensComment_append_cons (by decide) (by decide)]
  exact or_iff_left last

/-- Each end of a literal takes two bytes, so a literal prints what stands between them, unless that
is nothing. -/
theorem content_enclose (hollow : Hollow) (text : Text) :
    content hollow (enclose text) = if text = [] then hollow.text else text := by
  cases text with
  | nil => rfl
  | cons char rest =>
      have starts : Text.byteLength "Po".toList = 2 := rfl
      have ends : Text.byteLength "op".toList = 2 := rfl
      have size : (enclose (char :: rest)).byteLength = 2 + Text.byteLength (char :: rest) + 2 := by
        rw [enclose, Text.byteLength_append, Text.byteLength_append, starts, ends, Nat.add_assoc]
      have longer : (enclose (char :: rest)).byteLength ≠ 4 := by
        have filled := char.utf8Size_pos
        rw [size, Text.byteLength_cons]
        omega
      have middle := Text.sliceBytes?_append "Po".toList (char :: rest) "op".toList
      rw [starts, ← enclose] at middle
      rw [content, if_neg longer, size, Nat.add_sub_cancel, middle, if_neg (List.cons_ne_nil _ _)]
      rfl

end Word

/-- Texts in a row, with what a hollow literal prints in place of those that are empty. -/
def Hollow.joined (hollow : Hollow) (texts : List Text) : Text :=
  texts.flatMap fun text => if text = [] then hollow.text else text

namespace Sequence

/-- The literals around texts. -/
def literals (texts : List Text) : List Term :=
  texts.map fun text => .literal (Word.enclose text)

/-- Literals print their texts one after the other. -/
theorem output_literals (hollow : Hollow) (texts : List Text) :
    output hollow (literals texts) = hollow.joined texts := by
  induction texts with
  | nil => rfl
  | cons first rest ih =>
      calc output hollow (literals (first :: rest))
          = Word.content hollow (Word.enclose first) ++ output hollow (literals rest) := rfl
        _ = hollow.joined (first :: rest) := by rw [ih, Word.content_enclose]; rfl

theorem all_isPrintable_literals (scope : Scope) (texts : List Text) :
    (literals texts).all scope.isPrintable = true := by
  rw [List.all_eq_true]
  intro term member
  obtain ⟨text, -, rfl⟩ := List.mem_map.mp member
  rfl

theorem every_literals (holds : Role → Text → Prop) (texts : List Text) :
    Every holds (literals texts) ↔ ∀ text ∈ texts, holds .literal (Word.enclose text) := by
  induction texts with
  | nil => simp [literals]
  | cons first rest ih =>
      rw [List.forall_mem_cons, ← ih]
      exact every_literal (Word.enclose first) (literals rest)

theorem nesting_literals (texts : List Text) : nesting (literals texts) = 0 := by
  induction texts with
  | nil => rfl
  | cons first rest ih => exact (Nat.zero_max _).trans ih

/-- The program that prints texts. -/
def printing (texts : List Text) : List Term :=
  [.app (.name Word.print) (literals texts)]

theorem trace_printing (texts : List Text) :
    trace (printing texts) =
      Text.unwords (Keyword.calling.spelling :: Word.print :: Keyword.applying.spelling ::
        ((texts.map fun text => (Word.enclose text).escape) ++ [Keyword.closing.spelling])) := by
  have spelled : words Text.escape (literals texts) =
      texts.map fun text => (Word.enclose text).escape := by
    induction texts with
    | nil => rfl
    | cons first rest ih => exact congrArg _ ih
  have plain : Word.print.escape = Word.print := rfl
  simp only [trace, printing, words, Term.words, spelled, plain, List.append_nil,
    List.singleton_append]

/-- A program that prints texts in which no comment opens can be read. -/
theorem parse_printing {texts : List Text} (closed : ∀ text ∈ texts, ¬ text.OpensComment)
    (sourceName : Text) : parse sourceName (trace (printing texts)) = .ok (printing texts) := by
  have shown : Every Role.Printable (literals texts) := by
    rw [every_literals]
    intro text member
    refine ⟨Word.isLiteral_enclose text, ?_⟩
    rw [Word.opensComment_enclose]
    exact closed text member
  have named : Every Role.Printable [.name Word.print] :=
    (every_name _ _).mpr ⟨by decide, every_nil⟩
  have printable : Every Role.Printable (printing texts) :=
    (every_app _ _ _).mpr ⟨named, shown, every_nil⟩
  have nests : nesting (printing texts) ≤ nestingLimit := by
    simp [printing, nesting, Term.nesting, nesting_literals, nestingLimit]
  obtain ⟨readable, faithful⟩ := (every_printable_iff _).mp printable
  exact (parse_trace_eq_ok_iff_of_readable readable nests sourceName).mpr faithful

/-- A program that prints texts is a redex as a whole, and the literals are left of it. -/
theorem reduce_printing {scope : Scope} (unknown : scope.macros.find? Word.print = none)
    (texts : List Text) :
    reduce scope (printing texts) = .changed (.printed (literals texts)) (literals texts) := by
  have settled : Term.reduce scope (.name Word.print) = .stuck :=
    (Term.reduce_name_eq_stuck_iff Word.print).mpr ⟨by decide, unknown⟩
  have fires := Term.Fires.printing settled (all_isPrintable_literals scope texts)
  rw [printing, reduce_singleton, fires.reduce_eq]

end Sequence

/-! ## Runs -/

/-- The log makes no difference to what an offer does. -/
theorem Outlet.Silent.offer {earlier later : Outlet} (silent : earlier.Silent later)
    (text : Text) : (earlier.offer text).2.Silent (later.offer text).2 where
  sink := by rw [sink_offer, sink_offer, silent.sink]
  offered := by rw [offered_offer, offered_offer, silent.offered]
  prints := by
    rw [prints_offer_eq, prints_offer_eq, silent.prints, taken, taken, silent.sink, silent.offered]

namespace Session

/-- A step that prints what the sink takes changes nothing else than the program and the count. -/
theorem step_of_printed {session : Session} {args next : List Term}
    (ready : session.awaiting = false)
    (prints : Sequence.reduce session.scope session.program = .changed (.printed args) next)
    (accepts : session.outlet.sink.verdict session.outlet.offered
      (Sequence.output session.settings.hollow args) = none) :
    session.step.1 = .ok .changed ∧
      Silent { session with
        program := next
        steps := session.steps + 1
        outlet := (session.outlet.offer (Sequence.output session.settings.hollow args)).2 }
        session.step.2 := by
  obtain ⟨outlet, reported, silent⟩ :=
    (Silent.announce session).trans (.report session.announce (.printed args))
  have taken : (outlet.offer (Sequence.output session.settings.hollow args)).1 = none := by
    rw [Outlet.offer_fst, silent.sink, silent.offered, accepts]
  rw [step_eq_reduce session ready, reduce_announce, prints, conclude, settle, perform, reported]
  dsimp only
  rw [taken]
  exact ⟨rfl, _, rfl, silent.offer _⟩

/-- A step without a redex leaves everything but the log as it is. -/
theorem step_of_stuck {session : Session} (ready : session.awaiting = false)
    (stuck : Sequence.reduce session.scope session.program = .stuck) :
    session.step = (.ok .converged, session.announce) := by
  rw [step_eq_reduce session ready, reduce_announce, stuck, conclude]

/-- The program that prints texts converges after one step, in which it prints them. -/
theorem runWith_printing {session : Session} {texts : List Text} (ready : session.awaiting = false)
    (program : session.program = Sequence.printing texts)
    (unknown : session.macros.find? Word.print = none)
    (room : ∀ limit, session.settings.maxSteps = some limit → session.steps + 2 ≤ limit)
    (accepts : session.outlet.sink.verdict session.outlet.offered
      (session.settings.hollow.joined texts) = none) (source : LineSource) (fuel used : Nat) :
    ∃ last, session.runWith source (fuel + 2) used =
        some (.ok ⟨.converged, session.steps + 1⟩, used, last) ∧
      last.outlet.prints = session.outlet.prints ++ [session.settings.hollow.joined texts] ∧
      last.outlet.offered = session.settings.hollow.joined texts :: session.outlet.offered := by
  have prints := @Sequence.reduce_printing session.scope unknown texts
  rw [← program] at prints
  rw [← Sequence.output_literals] at accepts
  obtain ⟨changes, outlet, becomes, silent⟩ := step_of_printed ready prints accepts
  have free : session.reachedLimit? = none := reachedLimit?_of_room room
  have settled : session.step.2.step = (.ok .converged, session.step.2.announce) := by
    rw [becomes]
    exact step_of_stuck ready
      (Sequence.reduce_of_printable (Sequence.all_isPrintable_literals _ texts))
  have still : session.step.2.reachedLimit? = none := by
    rw [becomes]
    exact @reachedLimit?_of_room _ 0 room
  have ends : driver.after source 2 used session =
      .done (.ok .converged) used session.step.2.announce := by
    rw [Driver.after, turn_of_changed free changes]
    dsimp only
    rw [Driver.after_one, turn_of_converged still (congrArg Prod.fst settled), settled]
  obtain ⟨later, same, announced⟩ := Silent.announce session.step.2
  have quiet := silent.trans (becomes ▸ announced)
  have steps : session.step.2.announce.steps = session.steps + 1 := by
    rw [same, becomes]
  refine ⟨session.step.2.announce, ?_, ?_, ?_⟩
  · rw [Nat.add_comm, runWith_eq_ok_iff]
    exact ⟨Driver.after_of_done ends fuel, steps⟩
  · rw [same, quiet.prints, Outlet.prints_offer_eq, Outlet.taken, if_pos accepts,
      Sequence.output_literals]
  · rw [same, quiet.offered, Outlet.offered_offer, Sequence.output_literals]

/-- The source that prints texts prints them as they are: the run converges after one step, and the
one text that the sink is offered is all of them in a row, with what a hollow literal prints in
place of those that are empty. -/
theorem literals_printed_verbatim {texts : List Text} (sourceName : Text) (settings : Settings)
    (sink : Sink) (lines : LineSource) (closed : ∀ text ∈ texts, ¬ text.OpensComment)
    (room : ∀ limit, settings.maxSteps = some limit → 1 < limit)
    (accepts : sink.verdict [] (settings.hollow.joined texts) = none) (fuel : Nat) :
    let source := Text.unwords
      (Keyword.calling.spelling :: Word.print :: Keyword.applying.spelling ::
        ((texts.map fun text => (Word.enclose text).escape) ++ [Keyword.closing.spelling]))
    ∃ outlet, execute (fuel + 2) sourceName source settings sink lines =
        some (.ok ⟨.converged, 1⟩, outlet) ∧
      outlet.prints = [settings.hollow.joined texts] ∧
      outlet.offered = [settings.hollow.joined texts] := by
  intro source
  have parsed : Sequence.parse sourceName source = .ok (Sequence.printing texts) := by
    rw [← Sequence.parse_printing closed sourceName, Sequence.trace_printing]
  obtain ⟨last, runs, prints, offered⟩ :=
    @runWith_printing (new (Sequence.printing texts) settings sink) texts rfl rfl rfl room accepts
      lines fuel 0
  refine ⟨last.outlet, ?_, prints, offered⟩
  rw [execute, parsed]
  dsimp only
  rw [runs]
  rfl

/-- Blanks, backslashes, the ends of a literal, keywords and half a comment come out as they are. -/
theorem literals_printed_verbatim_with_hollow_space :
    let texts : List Text := ["\\ ".toList, [], "opPo é\n".toList, "is/".toList, "*/ 😀".toList]
    let settings : Settings := { strategy := .legacy, maxSteps := some 2, hollow := .space }
    let source := Text.unwords ["pooping".toList, "Print".toList, "poopy".toList,
      "Po\\\\\\sop".toList, "Poop".toList, "PoopPo\\sé\\nop".toList, "Pois/op".toList,
      "Po*/\\s😀op".toList, "qooq".toList]
    (∀ text ∈ texts, ¬ text.OpensComment) ∧
      (∀ limit, settings.maxSteps = some limit → 1 < limit) ∧
      ∃ outlet, execute 2 [] source settings .buffer (LineSource.ofList [] .closed) =
          some (.ok ⟨.converged, 1⟩, outlet) ∧
        outlet.prints = ["\\  opPo é\nis/*/ 😀".toList] := by
  intro texts settings source
  have closed : ∀ text ∈ texts, ¬ text.OpensComment := by decide +kernel
  have room : ∀ limit, settings.maxSteps = some limit → 1 < limit := by
    rintro limit ⟨⟩
    decide
  have shown : settings.hollow.joined texts = "\\  opPo é\nis/*/ 😀".toList := by decide +kernel
  obtain ⟨outlet, runs, prints, -⟩ := literals_printed_verbatim [] settings .buffer
    (LineSource.ofList [] .closed) closed room rfl 0
  rw [shown] at prints
  exact ⟨closed, room, outlet, runs, prints⟩

end Session

end Splice
