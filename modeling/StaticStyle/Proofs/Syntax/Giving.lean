import StaticStyle.Proofs.Syntax.Meets
import StaticStyle.Proofs.Syntax.Wrappers

/-!
# What trees the rules give

The rules of expressions give expressions (`givesExpressions_rules`), and a key that is not computed
is no wrapper (`gives_key`).  So in what was read a wrapper can only stand around an expression.

A row of operands is the one place where more is read than expressions: a private name is an
operand too.  A row that may stand as it is (`isRow`) makes an expression: it is more than a
private name, and no type is given to one (`isExpression_fold`).
-/

namespace StaticStyle.Syntax

open StaticStyle.Syntax.Parser StaticStyle.Syntax.Grammar

variable {α β : Type} {p : Parser α} {f : α → Parser β} {φ ψ : α → Prop} {χ : β → Prop} {k : Kind}
  {t : Tree} {ts : List Tree} {start : Nat} {self : Rules}

/-- What the parser gives has a property. -/
def Gives (φ : α → Prop) (p : Parser α) : Prop := Meets (fun _ => True) p fun a _ => φ a

/-- What the parser finds, if it finds anything, has a property. -/
abbrev Finds (φ : α → Prop) (p : Parser (Option α)) : Prop :=
  Gives (fun found => ∀ a ∈ found, φ a) p

/-- The parser gives expressions. -/
abbrev GivesExpression (p : Parser Tree) : Prop := Gives (fun t => t.kind.isExpression = true) p

/-- What is given can be told together with the cursor behind it. -/
theorem Meets.given {P : Cursor → Prop} {R : α → Cursor → Prop} (hp : Meets P p R)
    (hφ : Gives φ p) : Meets P p fun a c => φ a ∧ R a c :=
  fun _ _ _ _ hc hr => ⟨hφ trivial hr, hp hc hr⟩

theorem Meets.extendGiven {R : α → Cursor → Prop} {step : α → Parser (Option α)} {a : α} (ha : φ a)
    (hfinds : ∀ a, Finds φ (step a)) (hstep : ∀ a, φ a → Meets (R a) (step a) (Found R (R a))) :
    Meets (R a) (Parser.extend step a) R := by
  refine .post (.pre (fun _ hc => ⟨ha, hc⟩) (.extend (R := fun a c => φ a ∧ R a c) fun a => ?_))
    fun _ _ hc => hc.2
  refine .of_fact (fun _ hc => hc.1) fun ha => .pre (fun _ hc => hc.2) ?_
  refine .post (.given (hstep a ha) (hfinds a)) fun found c hc => ?_
  cases found with
  | none => exact ⟨ha, hc.2⟩
  | some b => exact ⟨hc.1 b rfl, hc.2⟩

namespace Gives

theorem any : Gives (fun _ => True) p := fun _ _ _ _ _ _ => trivial

theorem pure {a : α} (h : φ a) : Gives φ (Pure.pure a) := Meets.pure fun _ _ => h

theorem bind (hp : Gives φ p) (hf : ∀ a, φ a → Gives χ (f a)) : Gives χ (p >>= f) :=
  Meets.bind hp fun a => .of_fact (fun _ h => h) fun ha => .pre (fun _ _ => trivial) (hf a ha)

theorem after (hf : ∀ a, Gives χ (f a)) : Gives χ (p >>= f) := bind any fun a _ => hf a

theorem require {b : Bool} {f : Unit → Parser β} (hf : b = true → Gives χ (f ())) :
    Gives χ (Parser.require b >>= f) := Meets.require hf

theorem ite {q : Parser α} {b : Prop} [Decidable b] (hp : Gives φ p) (hq : Gives φ q) :
    Gives φ (if b then p else q) := Meets.ite (fun _ => hp) fun _ => hq

theorem inContext {change : Context → Context} (hp : Gives φ p) : Gives φ (inContext change p) :=
  Meets.inContext hp

theorem allowingIn (hp : Gives φ p) : Gives φ (allowingIn p) := hp.inContext

theorem attempt (hp : Gives φ p) : Finds φ (attempt p) := by
  refine (Meets.attempt hp).post fun found c hc => ?_
  cases found with
  | none => exact nofun
  | some a => exact fun b hb => Option.mem_some.mp hb ▸ hc

theorem many {step : Parser (Option α)} (hs : Finds φ step) :
    Gives (fun as => ∀ a ∈ as, φ a) (many step) := by
  refine .pre (fun _ _ => List.forall_mem_nil _) (.many (I := fun as _ => ∀ a ∈ as, φ a) fun as =>
    .of_fact (fun _ h => h) fun has => .pre (fun _ _ => trivial) (.post hs fun found c hc => ?_))
  cases found with
  | none => exact has
  | some a => exact List.forall_mem_append.mpr ⟨has, List.forall_mem_singleton.mpr (hc a rfl)⟩

theorem extend {step : α → Parser (Option α)} {a : α} (ha : φ a)
    (hs : ∀ a, Finds φ (step a)) : Gives φ (extend step a) := by
  refine .pre (fun _ _ => ha) (.extend (R := fun a _ => φ a) fun a => .of_fact (fun _ h => h)
    fun ha => .pre (fun _ _ => trivial) (.post (hs a) fun found c hc => ?_))
  cases found with
  | none => exact ha
  | some b => exact hc b rfl

theorem node {ψ : Tree → Prop} (h : ∀ s, ψ (.node k s ts)) : Gives ψ (Parser.node start k ts) :=
  after fun _ => pure (h _)

theorem expression (hk : k.isExpression = true) : GivesExpression (Parser.node start k ts) :=
  node fun _ => hk

/-- A tree that is found by a parser that does not give one always. -/
theorem found {p : Parser Tree} (hp : GivesExpression p) :
    Finds (fun t => t.kind.isExpression = true) (do return some (← p)) :=
  bind hp fun _ h => pure fun _ ht => Option.mem_some.mp ht ▸ h

end Gives

/-! ## Keys -/

theorem gives_name : Gives (fun t => t.isWrapper = false) name :=
  .after fun _ => .after fun _ => .node fun _ => rfl

theorem gives_stringNode : Gives (fun t => t.isWrapper = false) stringNode := by
  refine .after fun _ => .after fun t => ?_
  split
  · exact .after fun _ => .node fun _ => rfl
  · exact .failure

theorem gives_moduleName : Gives (fun t => t.isWrapper = false) moduleName :=
  .orElse gives_name gives_stringNode

theorem gives_look_name : Gives (fun t => t.isWrapper = false) (look name) :=
  .after fun _ => .bind gives_name fun _ hk => .after fun _ => .pure hk

/-- A key that is not computed is no wrapper. -/
theorem gives_key : Gives (fun r => r.1 = false → r.2.isWrapper = false) (key self) := by
  refine .after fun start => .after fun t => ?_
  split
  · exact .after fun _ => .bind (.node fun _ => rfl) fun k hk => .pure fun _ => hk
  · exact .after fun _ => .bind (.node fun _ => rfl) fun k hk => .pure fun _ => hk
  · exact .after fun _ => .bind (.node fun _ => rfl) fun k hk => .pure fun _ => hk
  · exact .after fun _ => .bind (.node fun _ => rfl) fun k hk => .pure fun _ => hk
  · exact .after fun _ => .after fun e => .after fun _ => .pure nofun
  · exact .bind gives_name fun k hk => .pure fun _ => hk

/-! ## Rows of operands -/

/-- A tree is an operand: an expression or a private name. -/
def IsOperand (t : Tree) : Prop := isPrivateName t = false → t.kind.isExpression = true

/-- An operand follows an operator, and a type is given by a wrapper. -/
def Fits : Follower → Prop
  | .operator _ right => IsOperand right
  | .type kind _ => kind.wraps = true

theorem isPrivateName_of_isExpression (h : t.kind.isExpression = true) :
    isPrivateName t = false := by
  unfold isPrivateName
  split
  · next hk => rw [hk] at h; cases h
  · rfl

theorem isExpression_join (t : Tree) (op : InfixOperator) (u : Tree) :
    (join t op u).kind.isExpression = true := by
  unfold join
  dsimp only [Tree.kind]
  split <;> rfl

theorem isExpression_reduce {precedence : Nat} {right : Bool} {stack : List Waiting}
    (h : t.kind.isExpression = true) :
    (reduce precedence right stack t).2.kind.isExpression = true := by
  induction stack generalizing t with
  | nil => exact h
  | cons w ws ih =>
      unfold reduce
      split
      · exact ih (isExpression_join w.left w.op t)
      · exact h

/-- A row that may stand as it is makes an expression. -/
theorem isExpression_fold {stack : List Waiting} {fs : List Follower} {isTight : Bool}
    (ht : IsOperand t) (hfs : ∀ f ∈ fs, Fits f) (hrow : isRow (isPrivateName t) isTight fs = true) :
    (fold stack t fs).kind.isExpression = true := by
  induction fs generalizing stack t isTight with
  | nil => exact isExpression_reduce (ht ((Bool.not_eq_true' _).mp hrow))
  | cons f fs ih =>
      obtain ⟨hf, hrest⟩ := List.forall_mem_cons.mp hfs
      cases f with
      | operator op right => exact ih hf hrest (Bool.and_eq_true_iff.mp hrow).2
      | type kind type =>
          have hcast : ∀ s us, (Tree.node kind s us).kind.isExpression = true := fun _ _ =>
            Kind.isExpression_of_wraps hf
          exact ih (fun _ => hcast _ _) hrest ((isPrivateName_of_isExpression (hcast _ _)).symm ▸
            (Bool.and_eq_true_iff.mp hrow).2)

/-! ## Rules of expressions -/

/-- The rules of expressions give expressions. -/
structure GivesExpressions (rules : Rules) : Prop where
  expression : GivesExpression (rules .expression)
  assignment : ∀ inCondition, GivesExpression (rules (.assignment inCondition))
  unary : GivesExpression (rules .unary)
  callee : GivesExpression (rules .callee)
  leftHandSide : GivesExpression (rules .leftHandSide)
  element : GivesExpression (rules .element)

theorem gives_functionFrom {async isExpression : Bool} :
    GivesExpression (functionFrom self start async isExpression) := by
  refine .after fun _ => .after fun generator => .after fun isNamed => ?_
  extract_lets withName
  have hname : ∀ name, GivesExpression (withName name) := fun name =>
    .after fun parts => .ite (.after fun _ => .expression rfl) (.expression rfl)
  exact .ite (.after hname) (.ite (.after hname) (.after hname))

theorem gives_classFrom {ds : Tree} {isAbstract : Bool} :
    GivesExpression (classFrom self start ds isAbstract) := by
  refine .after fun _ => .after fun ctx => .after fun _ => .after fun _ => .after fun next => ?_
  extract_lets named withName
  have hname : ∀ name, GivesExpression (withName name) := by
    refine fun name => .after fun ts => .after fun isDerived => ?_
    extract_lets withBase
    have hbase : ∀ base, GivesExpression (withBase base) := fun base =>
      .ite (.after fun _ => .after fun _ => .expression rfl)
        (.after fun _ => .after fun _ => .expression rfl)
    refine .ite (.after fun e => ?_) (.after fun _ => .after fun _ => .after hbase)
    split
    · exact .after hbase
    · exact .after fun _ => .ite (.after fun _ => .after hbase) (.after fun _ => .after hbase)
  exact .ite (.after hname) (.after hname)

theorem gives_decoratedClass : GivesExpression (decoratedClass self) :=
  .after fun _ => .after fun _ => .after fun _ => gives_classFrom

theorem gives_regexLiteral : GivesExpression regexLiteral :=
  .after fun _ => .after fun _ => .after fun _ => .after fun _ => .after fun _ => .expression rfl

theorem gives_templateLiteral {tagged : Bool} : GivesExpression (templateLiteral self tagged) :=
  .after fun _ => .after fun _ => .expression rfl

theorem gives_reference : GivesExpression reference :=
  .after fun _ => .after fun _ => .expression rfl

namespace GivesExpressions

theorem primary (h : GivesExpressions self) : GivesExpression (primary self) := by
  refine .after fun start => .after fun t => ?_
  split
  · exact .after fun _ => .expression rfl
  · exact .after fun _ => .expression rfl
  · exact .after fun _ => .expression rfl
  · exact gives_templateLiteral
  · exact .after fun _ => .after fun _ => .after fun _ => .after fun _ => .expression rfl
  · exact .after fun _ => .after fun _ => .after fun _ => .expression rfl
  · exact .after fun _ => .after fun _ => .after fun _ => .expression rfl
  · exact gives_regexLiteral
  · exact gives_regexLiteral
  · exact gives_decoratedClass
  · exact .after fun _ => .after fun _ => h.element.allowingIn
  · exact .after fun _ => .expression rfl
  · exact .after fun _ => .expression rfl
  · exact .after fun _ => .expression rfl
  · exact .after fun _ => .expression rfl
  · exact gives_functionFrom
  · exact .after fun _ => gives_classFrom
  · exact .after fun _ => .ite (.after fun _ => gives_functionFrom) gives_reference
  · exact .failure

end GivesExpressions

/-! ## Members and calls -/

theorem gives_indexed {isOptional : Bool} : GivesExpression (indexed self t isOptional) :=
  .after fun _ => .after fun _ => .after fun _ => .expression rfl

theorem gives_optionalPart : GivesExpression (optionalPart self t) :=
  .after fun _ => .ite (.after fun _ => .after fun _ => .expression rfl) <|
    .after fun _ => .ite gives_indexed <|
      .after fun _ => .ite (.after fun _ => .after fun _ => .expression rfl) <|
        .after fun _ => .expression rfl

theorem gives_memberStep :
    Finds (fun t => t.kind.isExpression = true) (memberStep self t) := by
  refine .after fun tok => ?_
  split
  · exact .after fun _ => .after fun _ => .found (.expression rfl)
  · exact .after fun _ => .ite (.pure nofun) (.found gives_indexed)
  · exact .after fun _ => .after fun _ =>
      .ite (.after fun _ => .found (.expression rfl)) (.pure nofun)
  · exact .after fun _ => .after fun _ => .found (.expression rfl)
  · exact .pure nofun

theorem gives_newExpression : GivesExpression (newExpression self) := by
  refine .after fun _ => .after fun _ => .after fun _ => .ite (.after fun _ => .expression rfl) ?_
  refine .after fun f => .after fun found => .after fun types => .after fun there => ?_
  exact .ite (.after fun _ => .expression rfl) (.after fun _ => .expression rfl)

theorem gives_importExpression : GivesExpression (importExpression self) :=
  .after fun _ => .after fun _ => .after fun _ => .ite (.after fun _ => .expression rfl) <|
    .after fun _ => .after fun _ => .expression rfl

theorem gives_superExpression : GivesExpression superExpression :=
  .after fun _ => .after fun _ => .after fun _ => .after fun _ => .after fun _ => .after fun _ =>
    .expression rfl

namespace GivesExpressions

theorem memberBase (h : GivesExpressions self) : GivesExpression (memberBase self) := by
  refine .after fun t => ?_
  split
  · exact gives_newExpression
  · exact gives_importExpression
  · exact gives_superExpression
  · exact h.primary

theorem calleeRule (h : GivesExpressions self) : GivesExpression (calleeRule self) :=
  .bind h.memberBase fun _ ht => .extend ht fun _ => gives_memberStep

end GivesExpressions

theorem gives_callStep {r : Tree × Bool} :
    Finds (fun r => r.1.kind.isExpression = true) (callStep self r) := by
  obtain ⟨t, inChain⟩ := r
  have hstep {p : Parser Tree} (hp : GivesExpression p) (inChain : Bool) :
      Finds (fun r => r.1.kind.isExpression = true) (do return some (← p, inChain)) :=
    .bind hp fun u hu => .pure fun r hr => Option.mem_some.mp hr ▸ hu
  have hmember : Finds (fun r => r.1.kind.isExpression = true)
      (do return (← memberStep self t).map fun t => (t, inChain)) := by
    refine .bind gives_memberStep fun found hfound => .pure fun r hr => ?_
    obtain ⟨u, hu, rfl⟩ := Option.map_eq_some_iff.mp hr
    exact hfound u hu
  refine .after fun _ => .ite (hstep gives_optionalPart true) (.after fun _ => .ite ?_ ?_)
  · exact .after fun _ => .after fun _ => hstep (.expression rfl) inChain
  refine .after fun types => ?_
  split
  · refine .after fun _ => .ite (.after fun _ => hstep (.expression rfl) inChain)
      (.after fun tok => ?_)
    split
    · exact .after fun _ => hstep (.expression rfl) inChain
    · exact hstep (.expression rfl) inChain
  · refine .ite (.after fun tok => ?_) hmember
    split
    · exact .after fun _ => hmember
    · exact hmember

namespace GivesExpressions

theorem leftHandSideRule (h : GivesExpressions self) : GivesExpression (leftHandSideRule self) := by
  refine .bind h.memberBase fun t ht => .bind
    (.extend (φ := fun r => r.1.kind.isExpression = true) ht fun _ => gives_callStep) fun r hr => ?_
  exact .ite (.expression rfl) (.pure hr)

/-! ## Operators -/

theorem unaryRule (h : GivesExpressions self) : GivesExpression (unaryRule self) := by
  refine .after fun start => .after fun ctx => ?_
  extract_lets applied postfixed
  have happlied : ∀ op, GivesExpression (applied op) := fun op =>
    .after fun _ => .after fun _ => .expression rfl
  have hpostfixed : GivesExpression postfixed := by
    refine .bind h.leftHandSide fun t ht => .after fun _ => .after fun _ => .after fun _ => ?_
    exact .ite (.after fun _ => .after fun _ => .ite (.after fun _ => .expression rfl)
      (.expression rfl)) (.pure ht)
  refine .after fun tok => ?_
  split
  · refine .ite (.after fun _ => .after fun _ => .after fun _ => .expression rfl) (.ite ?_ ?_)
    · exact .after fun _ => .after fun _ => .after fun _ => .after fun _ => .expression rfl
    · split
      · exact happlied _
      · exact hpostfixed
  · refine .ite (.after fun _ => .after fun _ => .expression rfl) ?_
    split
    · exact happlied _
    · exact hpostfixed
  · exact hpostfixed

theorem operand (h : GivesExpressions self) : Gives IsOperand (operand self) := by
  refine .after fun t => ?_
  split
  · exact .after fun _ => .after fun _ => .node fun _ => nofun
  · exact .post h.unary fun t _ ht => fun _ => ht

theorem follower (h : GivesExpressions self) :
    Finds Fits (follower self) := by
  refine .after fun _ => .after fun ctx => ?_
  extract_lets after
  have hafter : ∀ text, Finds Fits (after text) := by
    intro text
    dsimp only [after]
    split
    · exact .after fun _ => .bind h.operand fun u hu => .pure fun f hf => Option.mem_some.mp hf ▸ hu
    · exact .pure nofun
  refine .after fun tok => ?_
  split
  · exact hafter _
  · next w =>
      refine .ite (.pure nofun) (.after fun _ => .ite (.after fun _ => ?_) (hafter w))
      extract_lets kind
      have hkind : kind.wraps = true := by
        dsimp only [kind]
        split <;> rfl
      refine .after fun _ => .ite (.after fun _ => .after fun _ => .after fun _ => .after fun _ =>
        .after fun _ => .pure fun f hf => ?_) (.after fun _ => .pure fun f hf => ?_)
      · exact Option.mem_some.mp hf ▸ hkind
      · exact Option.mem_some.mp hf ▸ hkind
  · exact .pure nofun

theorem infixExpression (h : GivesExpressions self) : GivesExpression (infixExpression self) :=
  .bind h.operand fun _ hfirst => .bind (.many h.follower) fun _ hfollowers =>
    .require fun hrow => .pure (isExpression_fold hfirst hfollowers hrow)

end GivesExpressions

/-! ## Arrow functions and assignments -/

variable {async inCondition : Bool}

theorem gives_arrowBody : GivesExpression (arrowBody self start async inCondition ts) :=
  .after fun _ => .after fun _ => .after fun _ => .after fun _ =>
    .ite (.after fun _ => .expression rfl) (.after fun _ => .expression rfl)

theorem gives_parenthesizedArrow :
    GivesExpression (parenthesizedArrow self start async inCondition) :=
  .after fun _ => .after fun _ => .after fun _ => .bind gives_arrowBody fun _ ht =>
    .ite (.after fun _ => .after fun _ => .pure ht) (.pure ht)

theorem gives_simpleArrow : GivesExpression (simpleArrow self start async inCondition) :=
  .after fun _ => .after fun _ => .after fun _ => .after fun _ => .after fun _ => .after fun _ =>
    .after fun _ => gives_arrowBody

theorem gives_arrowFunction :
    Finds (fun t => t.kind.isExpression = true) (arrowFunction self inCondition) := by
  refine .after fun start => .after fun ctx => .after fun c => ?_
  extract_lets second tryParenthesized
  have htry : ∀ async, Finds (fun t => t.kind.isExpression = true)
      (tryParenthesized async) := by
    refine fun async => .after fun verdict => ?_
    split
    · exact .found gives_parenthesizedArrow
    · exact .pure nofun
    · exact .attempt gives_parenthesizedArrow
  refine .ite (.found gives_simpleArrow) (.ite (.ite ?_ (.ite (.attempt ?_) (.pure nofun)))
    (.ite (htry false) (.pure nofun)))
  · exact .after fun _ => .found gives_simpleArrow
  · refine .after fun _ => .bind (htry true) fun found hfound => ?_
    cases found with
    | none => exact .failure
    | some t => exact .pure (hfound t rfl)

theorem gives_yieldExpression : GivesExpression (yieldExpression self) := by
  refine .after fun _ => .after fun _ => .after fun _ => .ite (.expression rfl) ?_
  exact .after fun _ => .ite (.after fun _ => .expression rfl)
    (.after fun _ => .ite (.expression rfl) (.after fun _ => .expression rfl))

namespace GivesExpressions

theorem assignmentRule (h : GivesExpressions self) :
    GivesExpression (assignmentRule self inCondition) := by
  refine .after fun ctx => .after fun start => .after fun _ => .ite gives_yieldExpression
    (.bind gives_arrowFunction fun found hfound => ?_)
  cases found with
  | some t => exact .pure (hfound t rfl)
  | none =>
      refine .bind h.infixExpression fun t ht => ?_
      extract_lets finish
      have hfinish : ∀ r, GivesExpression (finish r) := fun r =>
        .after fun _ => .ite (.after fun _ => .after fun _ => .after fun _ => .expression rfl)
          (.pure ht)
      refine .after fun _ => .ite (.after fun _ => .after fun _ => .after fun _ => .expression rfl)
        (.after fun tok => ?_)
      split
      · exact .ite (.after fun _ => .after fun _ => .after fun _ => .expression rfl) (hfinish ())
      · exact hfinish ()

theorem expressionRule (h : GivesExpressions self) : GivesExpression (expressionRule self) := by
  refine .after fun start => .bind (φ := fun ts => ∀ t ∈ ts, t.kind.isExpression = true) ?_
    fun ts hts => ?_
  · refine .bind (h.assignment false) fun first hfirst => .bind (.many ?_) fun more hmore =>
      .pure (List.forall_mem_cons.mpr ⟨hfirst, hmore⟩)
    exact .after fun _ => .ite (.found (h.assignment false)) (.pure nofun)
  · split
    · exact .pure (hts _ List.mem_cons_self)
    · exact .expression rfl

end GivesExpressions

theorem gives_elementRule : GivesExpression (elementRule self) := by
  refine .after fun _ => .after fun _ => .after fun _ =>
    .ite (.after fun _ => .after fun _ => .expression rfl) (.after fun name => .after fun ctx =>
      .after fun _ => ?_)
  extract_lets withTypes
  have htypes : ∀ types, GivesExpression (withTypes types) := fun types =>
    .after fun _ => .after fun _ => .ite (.after fun _ => .after fun _ => .expression rfl)
      (.after fun _ => .after fun _ => .after fun _ => .expression rfl)
  exact .ite (.after htypes) (.after htypes)

/-! ## All rules -/

/-- The bodies of the rules of expressions give expressions if the rules they refer to do. -/
theorem GivesExpressions.body (h : GivesExpressions self) : GivesExpressions (body self) where
  expression := h.expressionRule
  assignment _ := h.assignmentRule
  unary := h.unaryRule
  callee := h.calleeRule
  leftHandSide := h.leftHandSideRule
  element := gives_elementRule

theorem givesExpressions_rules : ∀ depth, GivesExpressions (rules depth)
  | 0 => ⟨.failure, fun _ => .failure, .failure, .failure, .failure, .failure⟩
  | depth + 1 => (givesExpressions_rules depth).body

end StaticStyle.Syntax
