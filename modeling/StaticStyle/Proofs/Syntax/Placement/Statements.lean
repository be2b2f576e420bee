import StaticStyle.Proofs.Syntax.Placement.Expressions
import StaticStyle.Syntax.Grammar.Statements

/-!
# Placement of statements

Statements and declarations place what they read.
-/

namespace StaticStyle.Syntax

open StaticStyle.Syntax.Parser StaticStyle.Syntax.Grammar

variable {source : List Char} {self : Rules} {lo n start : Nat} {ts : List Tree} {t : Tree}
  {async : Bool}

namespace Sound

/-! ## Variables -/

theorem declarator (h : Sound source self) {kind : String} {bare : Bool} :
    Reads source single (declarator self kind bare) := by
  refine fun lo => .still fun start => .reads h.typedPattern fun p => .skip fun _ =>
    .either (h.assignment false).reads reads_absent fun v => ?_
  exact .still fun _ => .node rfl

theorem variableList (h : Sound source self) {bare : Bool} :
    Meets (Behind source lo []) (variableList self start bare) fun t c =>
      Behind source lo [t] c ∧ ∃ kind, t.kind = .variableList kind := by
  refine .skip fun _ => ?_
  extract_lets withKind
  have hkind : ∀ kind, Meets (Behind source lo []) (withKind kind) fun t c =>
      Behind source lo [t] c ∧ ∃ kind, t.kind = .variableList kind := by
    refine fun kind => .reads (.separated h.declarator) fun ds => ?_
    intro ctx c t d hc hr
    cases hr
    exact ⟨hc.node rfl _, kind, rfl⟩
  exact .ite (fun _ => .skip fun _ => .value (hkind _)) fun _ => .skip hkind

theorem variableStatement (h : Sound source self) :
    Reads source single (variableStatement self start) := by
  refine fun lo => .still fun _ => .bind h.variableList fun t =>
    .of_fact (fun _ hc => hc.2) fun ⟨kind, hkind⟩ => ?_
  -- The list leaves its parts to the statement.
  have hparts : ∀ c, Behind source lo [t] c ∧ (∃ kind, t.kind = .variableList kind) →
      Behind source lo t.children c := fun c hc => hc.1.parts []
  exact .pre hparts (.skip fun _ => .node (hkind ▸ rfl))

/-! ## Blocks and branches -/

theorem block (h : Sound source self) : Reads source single (block self) := fun _ =>
  .still fun _ => .skip fun _ => .reads (.manyUntil h.statement) fun _ => .node rfl

theorem condition (h : Sound source self) : Reads source single (condition self) := fun _ =>
  .skip fun _ => .reads h.expression.reads.allowingIn fun _ => .skip fun _ => .pure fun _ hc => hc

theorem conditionalStatement (h : Sound source self) :
    Reads source single (conditionalStatement self start) := fun _ =>
  .skip fun _ => .reads h.condition fun _ => .reads h.statement fun _ => .skip fun _ =>
    .either h.statement reads_absent fun _ => .node rfl

theorem switchCase (h : Sound source self) : Reads source single (switchCase self) := by
  refine fun lo => .still fun start => .skip fun isDefault => ?_
  extract_lets withValue
  have hvalue : ∀ value, Meets (Behind source lo [value]) (withValue value) fun t =>
      Behind source lo [t] := by
    refine fun value => .skip fun _ => .reads (.many fun lo => .still fun _ => .still fun _ =>
      .still fun _ => .ite (fun _ => .pure fun _ hc => hc) fun _ => ?_) fun ss => .node rfl
    exact .reads h.statement fun _ => .pure fun _ hc => hc
  exact .ite (fun _ => .reads reads_absent hvalue) fun _ => .skip fun _ =>
    .reads h.expression.reads.allowingIn hvalue

theorem switchStatement (h : Sound source self) :
    Reads source single (switchStatement self start) := fun _ =>
  .skip fun _ => .reads h.condition fun _ => .skip fun _ =>
    .reads (.manyUntil h.switchCase) fun _ =>
    .node rfl

theorem tryStatement (h : Sound source self) : Reads source single (tryStatement self start) := by
  refine fun lo => .skip fun _ => .reads h.block fun b => .still fun at_ => .skip fun isCaught => ?_
  extract_lets withHandler withParameter
  have hhandler : ∀ handler, Meets (Behind source lo [b, handler]) (withHandler handler) fun t =>
      Behind source lo [t] := fun handler =>
    .skip fun _ => .either h.block reads_absent fun final => .still fun _ => .node rfl
  refine .ite (fun _ => .skip fun _ => ?_) fun _ => .reads reads_absent hhandler
  have hparameter : ∀ p, Meets (Behind source lo [b, p]) (withParameter p) fun t =>
      Behind source lo [t] := fun p =>
    .reads h.block fun body => .bind (.behind [b] [p, body] fun _ => .node rfl) hhandler
  exact .ite (fun _ => .reads h.typedPattern fun p => .skip fun _ => .value (hparameter p)) fun _ =>
    .reads reads_absent hparameter

theorem withStatement (h : Sound source self) :
    Reads source single (withStatement self start) := fun _ =>
  .skip fun _ => .reads h.condition fun _ => .reads h.statement fun _ => .node rfl

/-! ## Loops -/

theorem whileLoop (h : Sound source self) : Reads source single (whileLoop self start) := fun _ =>
  .skip fun _ => .reads h.condition fun _ => .reads h.statement fun _ => .node rfl

theorem doWhileLoop (h : Sound source self) :
    Reads source single (doWhileLoop self start) := fun _ =>
  .skip fun _ => .reads h.statement fun _ => .skip fun _ => .reads h.condition fun _ =>
    .skip fun _ => .node rfl

theorem iterationHead (h : Sound source self) : Reads source keyTree (iterationHead self) := by
  refine fun lo => .skip fun isOf => .ite (fun _ => ?_) fun _ => .skip fun _ => ?_
  · exact .reads (h.assignment false).reads.allowingIn fun _ => .pure fun _ hc => hc
  · exact .reads h.expression.reads.allowingIn fun _ => .pure fun _ hc => hc

theorem iteration (h : Sound source self) {target : Tree} :
    Meets (Behind source lo [target]) (iteration self start async target) fun t =>
      Behind source lo [t] := by
  refine .reads h.iterationHead fun r => .still fun _ => .skip fun _ =>
    .reads h.statement fun b => ?_
  obtain ⟨isOf, e⟩ := r
  cases isOf with
  | true => exact .node rfl
  | false => exact .node rfl

theorem counted (h : Sound source self) {first : Tree} :
    Meets (Behind source lo [first]) (counted self start first) fun t => Behind source lo [t] :=
  .skip fun _ => .still fun _ => .either reads_absent h.expression.reads.allowingIn fun _ =>
    .skip fun _ => .still fun _ => .either reads_absent h.expression.reads.allowingIn fun _ =>
      .skip fun _ => .reads h.statement fun _ => .node rfl

theorem forStatement (h : Sound source self) : Reads source single (forStatement self start) := by
  refine fun lo => .skip fun _ => .still fun ctx => ?_
  extract_lets withAsync
  have hasync : ∀ async, Meets (Behind source lo []) (withAsync async) fun t =>
      Behind source lo [t] := by
    refine fun async => .skip fun _ => .still fun at_ => .still fun _ => .ite (fun _ => ?_) fun _ =>
      .still fun _ => .ite (fun _ => ?_) fun _ => ?_
    · exact .still fun _ => .reads reads_absent fun first => h.counted
    · refine .bind (.inContext h.variableList) fun vs => .pre (fun _ hc => hc.1) ?_
      exact .still fun _ => .still fun _ => .ite (fun _ => .still fun _ => h.iteration) fun _ =>
        .still fun _ => h.counted
    · refine .reads h.expression.reads.inContext fun e => .still fun _ => .still fun _ =>
        .ite (fun _ => .elim fun target htarget => ?_) fun _ => .still fun _ => h.counted
      exact .pre (fun _ hc => hc.toTarget htarget) h.iteration
  exact .ite (fun _ => .skip hasync) fun _ => .value (hasync false)

/-! ## Jumps -/

theorem jump {kind : Kind} (hk : ∀ ts, kind.isPlain ts = true) :
    Reads source single (jump start kind) := by
  refine fun lo => .skip fun _ => .still fun _ => .still fun _ => ?_
  extract_lets withLabel
  have hlabel : ∀ label, Meets (Behind source lo [label]) (withLabel label) fun t =>
      Behind source lo [t] := fun _ => .skip fun _ => .node (hk _)
  exact .ite (fun _ => .reads reads_absent hlabel) fun _ => .still fun _ => .still fun _ =>
    .reads expresses_name.reads hlabel

theorem returnStatement (h : Sound source self) :
    Reads source single (returnStatement self start) := fun _ =>
  .still fun _ => .still fun _ => .skip fun _ => .still fun _ => .still fun _ =>
    .either reads_absent h.expression.reads.allowingIn fun _ => .skip fun _ => .node rfl

theorem throwStatement (h : Sound source self) :
    Reads source single (throwStatement self start) := fun _ =>
  .skip fun _ => .still fun _ => .still fun _ => .reads h.expression.reads.allowingIn fun _ =>
    .skip fun _ => .node rfl

/-! ## Declarations of types -/

theorem typeAlias (h : Sound source self) : Reads source single (typeAlias self start) := fun _ =>
  .skip fun _ => .reads expresses_binding.reads fun _ => .reads h.typeParameters fun _ =>
    .skip fun _ =>
    .reads h.wholeType.reads fun _ => .skip fun _ => .node rfl

theorem interfaceDeclaration (h : Sound source self) :
    Reads source single (interfaceDeclaration self start) := by
  refine fun lo => .skip fun _ => .reads expresses_binding.reads fun name =>
    .reads h.typeParameters fun types => .skip fun _ => ?_
  extract_lets withBases
  have hbases : ∀ bases, Meets (Behind source lo [name, types, bases]) (withBases bases) fun t =>
      Behind source lo [t] := fun _ => .reads h.objectType.reads fun _ => .node rfl
  refine .ite (fun _ => .reads (.separated h.heritage) fun bases => ?_) fun _ =>
    .reads reads_group_nil hbases
  exact .bind (.behind [name, types] bases fun _ => .group) hbases

theorem enumerationMember (h : Sound source self) :
    Reads source single (enumerationMember self) := fun _ =>
  .still fun _ => .reads h.key fun _ => .skip fun _ =>
    .either (h.assignment false).reads.allowingIn reads_absent fun _ => .node rfl

theorem enumeration (h : Sound source self) :
    Reads source single (enumeration self start) := fun _ =>
  .skip fun _ => .skip fun _ => .reads expresses_binding.reads fun _ => .skip fun _ =>
    .reads (.commaList h.enumerationMember) fun _ => .node rfl

theorem moduleItems (h : Sound source self) : Reads source single (moduleItems self) := fun _ =>
  .still fun _ => .skip fun _ => .reads (Reads.manyUntil h.item).inContext fun _ =>
    .pre (fun _ hc => ⟨hc.inSource, hc.placed.markDirectives⟩) (.node rfl)

theorem moduleBlock (h : Sound source self) : Reads source single (moduleBlock self start) := by
  refine fun lo => .skip fun keyword => ?_
  extract_lets withName
  have hname : ∀ name, Meets (Behind source lo [name]) (withName name) fun t =>
      Behind source lo [t] := by
    refine fun name => .still fun _ => .ite (fun _ => ?_) fun _ => ?_
    · exact .reads h.moduleItems fun _ => .node rfl
    · exact .skip fun _ => .reads reads_absent fun _ => .node rfl
  refine .ite (fun _ => .reads reads_absent hname) fun _ => .still fun t => ?_
  split
  · exact .reads expresses_stringNode.reads hname
  · refine .reads expresses_binding.reads fun b =>
      .bind (.extend (R := fun t => Behind source lo [t])
      fun t => .skip fun _ => .ite (fun _ => ?_) fun _ => .pure fun _ hc => hc) hname
    exact .reads expresses_name.reads fun _ => .bind (.node rfl) fun _ => .pure fun _ hc => hc

/-! ## Declarations -/

theorem functionDeclaration (h : Sound source self) :
    Reads source single (functionDeclaration self start) := fun lo =>
  .skip fun _ => h.functionFrom.reads lo

theorem undecoratedClass (h : Sound source self) {isAbstract : Bool} :
    Covers source start (do Grammar.classFrom self start (← group []) isAbstract) := fun _ =>
  .bind .group_nil_toward fun _ => h.classFrom

theorem plainDeclaration (h : Sound source self) :
    Reads source single (plainDeclaration self start) := by
  refine fun lo => .still fun t => ?_
  split
  · exact h.functionDeclaration lo
  · exact h.functionDeclaration lo
  · exact h.undecoratedClass.reads lo
  · exact .skip fun _ => h.undecoratedClass.reads lo
  · exact h.typeAlias lo
  · exact h.interfaceDeclaration lo
  · exact h.enumeration lo
  · exact h.moduleBlock lo
  · exact h.moduleBlock lo
  · exact h.moduleBlock lo
  · exact .still fun _ => .ite (fun _ => h.enumeration lo) fun _ => h.variableStatement lo
  · exact h.variableStatement lo

theorem declaration (h : Sound source self) :
    Reads source single (declaration self start) := fun lo =>
  .still fun _ => .still fun _ => .ite
    (fun _ => .skip fun _ => .still fun _ => .reads h.plainDeclaration.inContext fun _ => .node rfl)
    fun _ => h.plainDeclaration lo

/-! ## Statements -/

theorem expressionOrLabeled (h : Sound source self) :
    Reads source single (expressionOrLabeled self start) := by
  refine fun lo => .still fun _ => .still fun _ => .ite (fun _ => ?_) fun _ => ?_
  · exact .reads expresses_name.reads fun _ => .skip fun _ => .reads h.statement fun _ => .node rfl
  · exact .reads h.expression.reads.allowingIn fun _ => .skip fun _ => .node rfl

/-- Decorators that leave no trace can be forgotten. -/
theorem afterDecorators (h : Sound source self) {p : Parser Tree} (hp : Reads source single p) :
    Reads source single (do discard (Grammar.decorators self); p) := fun lo =>
  .bind (.discard (.post (h.decorators lo) fun _ _ hc => hc.dropLast [])) fun _ => hp lo

theorem decoratedStatement (h : Sound source self) :
    Reads source single (decoratedStatement self) :=
  .orElse h.decoratedClass.reads (h.afterDecorators h.statement)

theorem statementRule (h : Sound source self) : Reads source single (statementRule self) := by
  refine fun lo => .still fun start => .still fun t => ?_
  split
  · exact h.block lo
  · exact .skip fun _ => .node rfl
  · exact h.decoratedStatement lo
  · refine .still fun _ => .ite (fun _ => h.declaration lo) fun _ => ?_
    split
    · exact h.conditionalStatement lo
    · exact h.forStatement lo
    · exact h.whileLoop lo
    · exact h.doWhileLoop lo
    · exact jump (fun _ => rfl) lo
    · exact jump (fun _ => rfl) lo
    · exact h.returnStatement lo
    · exact h.throwStatement lo
    · exact h.tryStatement lo
    · exact h.switchStatement lo
    · exact h.withStatement lo
    · exact .skip fun _ => .skip fun _ => .node rfl
    · exact h.expressionOrLabeled lo
  · exact h.expressionOrLabeled lo

end Sound

end StaticStyle.Syntax
