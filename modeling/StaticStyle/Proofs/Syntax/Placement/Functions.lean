import StaticStyle.Proofs.Syntax.Placement.Types
import StaticStyle.Syntax.Grammar.Functions

/-!
# Placement of functions and classes

Bodies, functions and classes.  A function and a class are made with the offset where they
start, which may stand in front of what is read for them.
-/

namespace StaticStyle.Syntax

open StaticStyle.Syntax.Parser StaticStyle.Syntax.Grammar

variable {source : List Char} {self : Rules} {lo hi n start : Nat} {ts : List Tree} {c : Cursor}
  {ds : Tree} {words : List String} {async generator : Bool}

/-! ## Bodies -/

/-- A string at the front of a body stands where it did. -/
theorem PlacedAll.markDirectives {ts : List Tree} {lo : Nat} (h : PlacedAll source lo hi ts) :
    PlacedAll source lo hi (markDirectives ts) := by
  fun_induction Grammar.markDirectives ts generalizing lo with
  | case1 s v t rest ih =>
      obtain ⟨mid, ht, hrest⟩ := h
      exact ⟨mid, .node rfl ht.parts s, ih hrest⟩
  | case2 => exact h

namespace Sound

theorem functionBody (h : Sound source self) :
    Reads source single (functionBody self async generator) := fun _ =>
  .still fun _ => .skip fun _ => .reads (Reads.manyUntil h.statement).inContext fun _ =>
    .pre (fun _ hc => ⟨hc.inSource, hc.placed.markDirectives⟩) (.node rfl)

theorem functionParts (h : Sound source self) :
    Reads source id (functionParts self async generator) := by
  refine fun lo => .reads h.typeParameters fun _ => .reads h.parameters.reads.inContext fun _ =>
    .reads h.resultAnnotated fun _ => .still fun _ => .still fun _ =>
      .ite (fun _ => ?_) fun _ => ?_
  · exact .skip fun _ => .reads reads_absent fun _ => .pure fun _ hc => hc
  · exact .reads h.functionBody fun _ => .pure fun _ hc => hc

theorem functionFrom (h : Sound source self) {isExpression : Bool} :
    Covers source start (functionFrom self start async isExpression) := by
  refine fun n => .opens (fun _ h => h) fun _ hs => .skip fun isGenerator =>
    .still fun isNamed => ?_
  extract_lets withName
  have hname : ∀ name, Meets (Behind source n [name]) (withName name) (Whole source n start) :=
    fun name => .reads h.functionParts fun parts =>
      .ite (fun _ => .still fun _ => .whole hs rfl) fun _ => .whole hs rfl
  have hbinding : Reads source single (do if ← atIdentifier then binding else absent) :=
    fun lo => .still fun _ => .ite (fun _ => expresses_binding.reads lo) fun _ => reads_absent lo
  exact .ite (fun _ => .reads hbinding.inContext hname) fun _ =>
    .either expresses_binding.reads reads_absent hname

theorem methodFunction (h : Sound source self) :
    Reads source single (methodFunction self async generator) := fun _ =>
  .still fun _ => .reads reads_absent fun _ => .reads h.functionParts fun _ => .node rfl

/-! ## Classes -/

theorem methodFrom (h : Sound source self) {form : MemberForm} :
    Meets (Behind source lo [ds]) (methodFrom self start ds words form async generator) fun t =>
      Behind source lo [t] :=
  .reads h.key fun _ => .skip fun _ => .reads h.methodFunction fun _ => .node rfl

theorem memberFrom (h : Sound source self) :
    Meets (Behind source lo [ds]) (memberFrom self start ds words) fun t =>
      Behind source lo [t] := by
  refine .reads h.key fun k => .still fun ctx => ?_
  extract_lets typed finish
  have hfinish : ∀ r, Meets (Behind source lo [ds, k.2]) (finish r) fun t =>
      Behind source lo [t] := by
    refine fun _ => .still fun _ => .ite (fun _ => .reads h.methodFunction fun _ => .node rfl)
      fun _ => ?_
    exact .reads h.annotated fun _ => .skip fun _ =>
      .either (h.assignment false).reads.inContext reads_absent fun _ => .skip fun _ => .node rfl
  exact .ite (fun _ => .skip hfinish) fun _ => hfinish ()

/-- A static block and an index signature leave their decorators out. -/
theorem classMember (h : Sound source self) : Reads source single (classMember self) := by
  refine fun lo => .still fun start => .reads h.decorators fun ds => .still fun ctx => ?_
  extract_lets typed
  refine .skip fun words => .still fun _ => .ite (fun _ => ?_) fun _ => ?_
  · exact .skip fun _ => .reads (Reads.manyUntil h.statement).allowingIn.inContext fun ss =>
      .pre (fun _ hc => hc.dropFirst) (.node rfl)
  refine .still fun _ => .ite (fun _ => ?_) fun _ => ?_
  · exact .reads h.indexSignature fun _ => .skip fun _ =>
      .pre (fun _ hc => hc.dropFirst) (.node rfl)
  refine .still fun _ => .ite (fun _ => .skip fun _ => h.methodFrom) fun _ => ?_
  refine .still fun _ => .ite (fun _ => .skip fun _ => h.methodFrom) fun _ => ?_
  refine .still fun _ => .ite (fun _ => .skip fun _ => .skip fun _ => h.methodFrom) fun _ => ?_
  exact .skip fun _ => .ite (fun _ => h.methodFrom) fun _ => h.memberFrom

theorem classBody (h : Sound source self) : Reads source single (classBody self) := by
  refine fun lo => .still fun start => .skip fun _ => .reads (.many fun lo => .skip fun _ =>
    .skip fun ended => ?_) fun ms => .node rfl
  cases ended with
  | true => exact .pure fun _ hc => hc
  | false => exact .reads h.classMember.allowingIn fun _ => .pure fun _ hc => hc

theorem heritage (h : Sound source self) : Reads source single (heritage self) := fun _ =>
  .still fun _ => .reads qualifiedName fun _ => .reads h.typeArgumentsHere fun _ => .node rfl

theorem classFrom (h : Sound source self) {isAbstract : Bool} :
    Meets (Toward source n [ds]) (classFrom self start ds isAbstract) (Whole source n start) := by
  refine .opens (fun _ h => h) fun _ hs =>
    .still fun ctx => .still fun _ => .still fun _ => .still fun next => ?_
  extract_lets named withName
  have hname : ∀ name, Meets (Behind source n [ds, name]) (withName name)
      (Whole source n start) := by
    refine fun name => .reads h.typeParameters fun ts => .skip fun isDerived => ?_
    extract_lets withBase
    have hbase : ∀ base, Meets (Behind source n [ds, name, ts, base.1, base.2]) (withBase base)
        (Whole source n start) := by
      refine fun base => .either (fun lo => ?_) reads_group_nil fun is =>
        .reads h.classBody fun _ => .whole hs rfl
      exact .skip fun _ => .ite (fun _ => Reads.group (.separated h.heritage) lo) fun _ =>
        reads_group_nil lo
    refine .ite (fun _ => .reads h.leftHandSide.reads fun e => ?_) fun _ => ?_
    · split
      · next s e args => exact .value (.pre (fun _ hc => hc.parts [ds, name, ts]) (hbase (e, args)))
      · exact .still fun _ => .either h.typeArguments.reads reads_absent fun args =>
          .value (hbase (e, args))
    · exact .reads reads_absent fun base => .reads reads_absent fun args =>
        .value (hbase (base, args))
  exact .either expresses_binding.reads reads_absent hname

end Sound

end StaticStyle.Syntax
