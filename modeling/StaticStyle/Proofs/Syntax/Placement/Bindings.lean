import StaticStyle.Proofs.Syntax.Placement.Names
import StaticStyle.Syntax.Grammar.Types

/-!
# Placement of patterns and parameters

Annotations, patterns and parameters, for parsers of the nonterminals that place what they
read (`Sound`).
-/

namespace StaticStyle.Syntax

open StaticStyle.Syntax.Parser StaticStyle.Syntax.Grammar

/-- The parsers of the nonterminals place what they read. -/
structure Sound (source : List Char) (rules : Rules) : Prop where
  gives : GivesExpressions rules
  expression : Expresses source (rules .expression)
  assignment : ∀ inCondition, Expresses source (rules (.assignment inCondition))
  unary : Expresses source (rules .unary)
  callee : Expresses source (rules .callee)
  leftHandSide : Expresses source (rules .leftHandSide)
  element : Expresses source (rules .element)
  type : Closes source (rules .type)
  pattern : Reads source single (rules .pattern)
  statement : Reads source single (rules .statement)
  item : Reads source single (rules .item)

variable {source : List Char} {self : Rules} {m : String}

namespace Sound

theorem key (h : Sound source self) : Reads source keyTree (key self) := reads_key h.assignment

/-! ## Annotations -/

theorem wholeType (h : Sound source self) : Closes source (wholeType self) :=
  fun lo => (h.type lo).inContext

theorem annotated (h : Sound source self) : Reads source single <| annotation self := fun lo =>
  .still fun _ => .skip fun _ => .ite (fun _ => h.wholeType.reads lo) fun _ => reads_absent lo

theorem decorator (h : Sound source self) : Expresses source (decorator self) := fun _ =>
  .position (.opens (fun _ => Before.toward) fun _ hs =>
    .reads h.leftHandSide.reads.inContext fun _ => .whole hs rfl)

theorem decorators (h : Sound source self) : Reads source single (decorators self) := by
  refine .group (.many fun lo => .still fun found => ?_)
  cases found with
  | true => exact .reads h.decorator.reads fun t => .pure fun _ hc => hc
  | false => exact .pure fun _ hc => hc

/-- Decorators are read from their first token on, if there are any. -/
theorem decorators_toward (h : Sound source self) {n : Nat} :
    Meets (Toward source n []) (Grammar.decorators self) fun ds => Toward source n [ds] := by
  refine .bind (.many fun ds => .still fun found => ?_) fun ds => .group_toward
  cases found with
  | true =>
      exact .bind h.decorator.toward fun t => .of_and fun hs => .pure fun _ => Behind.toward hs
  | false => exact .pure fun _ hc => hc

/-! ## Patterns -/

/-- A pattern that was read last is read with its default. -/
theorem withDefault (h : Sound source self) {lo : Nat} {ts : List Tree} {p : Tree} :
    Meets (Behind source lo (ts ++ [p])) (withDefault self p) fun t =>
      Behind source lo (ts ++ single t) := by
  refine .behind ts [p] fun lo => .skip fun found => .ite (fun _ => ?_) fun _ =>
    .pure fun _ hc => hc
  exact .reads (h.assignment false).reads.allowingIn fun e => .node rfl

theorem restPattern (h : Sound source self) : Reads source single (restPattern self m) := fun _ =>
  .still fun _ => .skip fun _ => .reads h.pattern fun _ => .still fun _ => .skip fun _ => .node rfl

theorem arrayPatternItem (h : Sound source self) : Reads source single (arrayPatternItem self) := by
  refine fun lo => .still fun isRest => .ite (fun _ => h.restPattern lo) fun _ => ?_
  refine .still fun isElision => .ite (fun _ => .still fun _ => ?_) fun _ => ?_
  · exact .pure fun _ hc => hc.node rfl _
  · exact .reads h.pattern fun p => h.withDefault

theorem objectPatternItem (h : Sound source self) :
    Reads source single (objectPatternItem self) := by
  refine fun lo => .still fun isRest => .ite (fun _ => h.restPattern lo) fun _ => ?_
  refine .still fun start => .still fun isName => .still fun next => ?_
  extract_lets shorthand
  refine .ite (fun _ => ?_) fun _ => ?_
  · refine .bind look_name fun k => .reads expresses_binding.reads fun b => ?_
    exact .bind h.withDefault fun p => .node rfl
  · exact .reads h.key fun k => .skip fun _ => .reads h.pattern fun p =>
      .bind h.withDefault fun p => .node rfl

theorem patternRule (h : Sound source self) : Reads source single (patternRule self) := fun lo =>
  .still fun _ => .skip fun _ => .ite
    (fun _ => .reads (.commaList h.arrayPatternItem) fun _ => .node rfl) fun _ =>
      .skip fun _ => .ite (fun _ => .reads (.commaList h.objectPatternItem) fun _ => .node rfl)
        fun _ => expresses_binding.reads lo

theorem typedPattern (h : Sound source self) {b : Bool} :
    Reads source single (typedPattern self b) := by
  refine fun lo => .reads h.pattern fun p => .still fun ctx => .ite (fun _ => .pure fun _ hc => hc)
    fun _ => .still fun newline => ?_
  extract_lets jp
  have hjp : ∀ definite, Meets (Behind source lo [p]) (jp definite) fun t => Behind source lo [t] :=
    fun definite => .skip fun isOptional => .reads h.annotated fun t =>
      .ite (fun _ => .pure fun _ hc => hc.dropLast [p]) fun _ => .node rfl
  exact .ite (fun _ => .skip hjp) fun _ => .skip hjp

/-! ## Parameters -/

theorem thisParameter (h : Sound source self) : Reads source single (thisParameter self) := fun _ =>
  .still fun _ => .skip fun _ => .bind (.node rfl) fun _ => .reads h.annotated fun _ => .node rfl

theorem parameter (h : Sound source self) : Reads source single (parameter self) := by
  refine fun lo => .still fun start => .reads h.decorators fun ds => .still fun ctx => ?_
  extract_lets typed withWords
  have hwords : ∀ words, Meets (Behind source lo [ds]) (withWords words) fun t =>
      Behind source lo [t] := by
    refine fun words => .skip fun isRest => .ite (fun _ => .reads h.typedPattern fun p =>
      .still fun _ => .skip fun _ => .pre (fun _ hc => hc.dropFirst) (.node rfl)) fun _ => ?_
    extract_lets finish withThis
    have hthis : ∀ isThis, Meets (Behind source lo [ds]) (withThis isThis) fun t =>
        Behind source lo [t] := by
      refine fun isThis => .ite (fun _ => .reads h.thisParameter fun p => .node rfl) fun _ => ?_
      exact .reads h.typedPattern fun p => .bind h.withDefault fun p => .node rfl
    exact .ite (fun _ => .still hthis) fun _ => .still hthis
  exact .ite (fun _ => .skip hwords) fun _ => .skip hwords

theorem parameters (h : Sound source self) : Expresses source (parameters self) := fun _ =>
  .position (.opens (fun _ => Before.toward) fun _ hs =>
    .reads (Reads.commaList h.parameter).allowingIn fun _ => .whole hs rfl)

end Sound

end StaticStyle.Syntax
