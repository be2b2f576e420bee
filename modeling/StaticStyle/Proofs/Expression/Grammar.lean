import StaticStyle.Declaration.Basic
import StaticStyle.Proofs.Running
import StaticStyle.Proofs.Script.Rules
import StaticStyle.Proofs.Syntax.Placement.Module

/-!
# The trees of expressions

A tree is read as an expression if each node of it has one of the forms of a literal
(`Syntax.Tree.isLiteral`) and stands on one of the levels that there are
(`Expression.exists_ofTreeWithin_iff`).  Wrappers have no part in this: they take no levels, and a
tree without its wrappers is the same expression, or refused for the same cause
(`Expression.ofTreeWithin_bare`).  That holds of a tree in which each wrapper is in its place, as
it is in the tree of every text (`Expression.any_misplaced_of_parse`).
-/

namespace StaticStyle

/-! ## Answers -/

section

variable {ε α β : Type}

theorem exists_mapM_iff {f : α → Except ε β} {xs : List α} :
    (∃ ys, xs.mapM f = .ok ys) ↔ ∀ x ∈ xs, ∃ y, f x = .ok y := by
  induction xs with
  | nil => exact ⟨fun _ _ hx => (nomatch hx), fun _ => ⟨[], rfl⟩⟩
  | cons x xs ih =>
      rw [List.forall_mem_cons, ← ih]
      constructor
      · rintro ⟨ys, hys⟩
        obtain ⟨y, hy, ys', hys', -⟩ := mapM_cons_eq_ok_iff.mp hys
        exact ⟨⟨y, hy⟩, ys', hys'⟩
      · rintro ⟨⟨y, hy⟩, ys, hys⟩
        exact ⟨y :: ys, mapM_cons_eq_ok_iff.mpr ⟨y, hy, ys, hys, rfl⟩⟩

theorem map_eq_ok_iff {g : α → β} {x : Except ε α} {b : β} :
    x.map g = .ok b ↔ ∃ a, x = .ok a ∧ g a = b := by
  cases x with
  | error fault => exact ⟨nofun, fun ⟨_, h, _⟩ => (nomatch h)⟩
  | ok a =>
      constructor
      · intro h
        exact ⟨a, rfl, Except.ok.inj h⟩
      · rintro ⟨_, ⟨⟩, rfl⟩
        rfl

theorem exists_map_iff {g : α → β} {x : Except ε α} :
    (∃ b, x.map g = .ok b) ↔ ∃ a, x = .ok a := by
  constructor
  · rintro ⟨b, hb⟩
    obtain ⟨a, ha, -⟩ := map_eq_ok_iff.mp hb
    exact ⟨a, ha⟩
  · rintro ⟨a, ha⟩
    exact ⟨g a, map_eq_ok_iff.mpr ⟨a, ha, rfl⟩⟩

theorem exists_bind_iff {Q : Prop} {g : α → Except ε β} {x : Except ε α}
    (h : ∀ a, (∃ b, g a = .ok b) ↔ Q) :
    (∃ b, (x >>= g) = .ok b) ↔ (∃ a, x = .ok a) ∧ Q := by
  constructor
  · rintro ⟨b, hb⟩
    obtain ⟨a, ha, hb⟩ := bind_eq_ok_iff.mp hb
    exact ⟨⟨a, ha⟩, (h a).mp ⟨b, hb⟩⟩
  · rintro ⟨⟨a, ha⟩, hQ⟩
    obtain ⟨b, hb⟩ := (h a).mpr hQ
    exact ⟨b, bind_eq_ok_iff.mpr ⟨a, ha, hb⟩⟩

theorem mapM_map_eq {f : α → Except ε β} {g : α → α} {xs : List α}
    (h : ∀ x ∈ xs, f (g x) = f x) : (xs.map g).mapM f = xs.mapM f := by
  induction xs with
  | nil => rfl
  | cons x xs ih =>
      rw [List.map_cons, List.mapM_cons, List.mapM_cons, h x List.mem_cons_self,
        ih fun x hx => h x (List.mem_cons_of_mem _ hx)]

end

/-! ## Literals -/

namespace Syntax.Tree

/-- The expressions in a part of an object. -/
def partOperands : Tree → List Tree
  | .node (.property .value true _) _ [key, value] => [key, value]
  | .node (.property .value false _) _ [_, value] => [value]
  | .node .spread _ [e] => [e]
  | _ => []

/-- The expressions that stand right in an expression.  The holes of an array are left out. -/
def operands : Tree → List Tree
  | .node (.template _) _ parts => parts
  | .node .array _ items => items.filter (·.kind != .elision)
  | .node .object _ parts => parts.flatMap partOperands
  | .node .conditional _ parts => parts
  | .node (.unary _) _ parts => parts
  | .node (.binary _) _ parts => parts
  | .node (.logical _) _ parts => parts
  | .node (.member _) _ (owner :: _) => [owner]
  | .node (.index _) _ parts => parts
  | _ => []

/-- Whether a key is a name, a string or a number. -/
def isPlainKey (key : Tree) : Bool :=
  match key.kind with
  | .name _ => true
  | .string _ => true
  | .number _ => true
  | _ => false

/-- Whether the tree is a name that is looked up in no scope. -/
def isName (t : Tree) : Bool :=
  match t.kind with
  | .name _ => true
  | _ => false

/-- Whether a part of an object may stand in a literal: a value under a key, or a spread. -/
def isLiteralPart : Tree → Bool
  | .node (.property .value computed _) _ [key, _] => computed || key.isPlainKey
  | .node .spread _ [_] => true
  | _ => false

/-- Whether an operator may stand in front of an operand in a literal. -/
def isLiteralPrefix (op : UnaryOperator) : Bool :=
  [.minus, .plus, .not, .typeOf].contains op

/-- Whether an operator may stand between two operands in a literal. -/
def isLiteralInfix (op : BinaryOperator) : Bool :=
  [.add, .sub, .mul, .div, .rem, .exp, .equal, .notEqual, .strictEqual, .strictNotEqual,
    .less, .lessEqual, .greater, .greaterEqual].contains op

/-- Whether a node has one of the forms that expressions have in a literal, whatever its operands
are. -/
def isLiteral : Tree → Bool
  | .node (.string _) _ _ => true
  | .node (.number _) _ _ => true
  | .node (.boolean _) _ _ => true
  | .node .null _ _ => true
  | .node (.reference _) _ _ => true
  | .node (.template _) _ _ => true
  | .node .array _ items => items.all (·.kind != .spread)
  | .node .object _ parts => parts.all isLiteralPart
  | .node .conditional _ [_, _, _] => true
  | .node (.unary op) _ [_] => isLiteralPrefix op
  | .node (.binary op) _ [_, _] => isLiteralInfix op
  | .node (.logical _) _ [_, _] => true
  | .node (.member false) _ [_, key] => key.isName
  | .node (.index false) _ [_, _] => true
  | _ => false

/-- An expression stands so many levels below another, wrappers left out of account. -/
inductive StandsBelow : Nat → Tree → Tree → Prop
  | here (t : Tree) : StandsBelow 0 t t
  | inside {n : Nat} {t o u : Tree} :
      o ∈ t.unwrap.operands → StandsBelow n o u → StandsBelow (n + 1) t u

theorem any_of_mem_partOperands {p : Tree → Bool} {part o : Tree} (h : part.any p = false)
    (ho : o ∈ part.partOperands) : o.any p = false := by
  have hparts := (any_eq_false_iff.mp h).2
  unfold partOperands at ho
  split at ho
  · exact hparts o ho
  · obtain rfl := List.mem_singleton.mp ho
    exact hparts _ (List.mem_cons_of_mem _ (List.mem_singleton_self _))
  · exact hparts o ho
  · cases ho

theorem any_of_mem_operands {p : Tree → Bool} {t o : Tree} (h : t.any p = false)
    (ho : o ∈ t.operands) : o.any p = false := by
  have hparts := (any_eq_false_iff.mp h).2
  unfold operands at ho
  split at ho
  · exact hparts o ho
  · exact hparts o (List.mem_of_mem_filter ho)
  · obtain ⟨part, hpart, ho⟩ := List.mem_flatMap.mp ho
    exact any_of_mem_partOperands (hparts part hpart) ho
  · exact hparts o ho
  · exact hparts o ho
  · exact hparts o ho
  · exact hparts o ho
  · obtain rfl := List.mem_singleton.mp ho
    exact hparts o List.mem_cons_self
  · exact hparts o ho
  · cases ho

/-- Where there are no wrappers, there are none around what stands below. -/
theorem StandsBelow.unwrap_eq {n : Nat} {t u : Tree} (h : StandsBelow n t u)
    (hbare : t.any isWrapper = false) : u.unwrap = u := by
  induction h with
  | here t => exact Tree.unwrap_eq (any_eq_false_iff.mp hbare).1
  | inside ho _ ih =>
      rw [Tree.unwrap_eq (any_eq_false_iff.mp hbare).1] at ho
      exact ih (any_of_mem_operands hbare ho)

end Syntax.Tree

namespace Expression

open StaticStyle.Syntax (Tree Kind)
open StaticStyle.Syntax.Tree

/-! ## What is read -/

section

variable {inner : Tree → Except Malformation Expression}

theorem exists_prefix_iff {op : Syntax.UnaryOperator} :
    (∃ op', Prefix.ofSyntax op = .ok op') ↔ isLiteralPrefix op = true := by
  cases op with
  | _ => simp [Prefix.ofSyntax, isLiteralPrefix]

theorem exists_infix_iff {op : Syntax.BinaryOperator} :
    (∃ op', Infix.ofSyntax op = .ok op') ↔ isLiteralInfix op = true := by
  cases op with
  | _ => simp [Infix.ofSyntax, isLiteralInfix]

theorem exists_plainKey_iff {key : Tree} :
    (∃ text, plainKey? key = some text) ↔ key.isPlainKey = true := by
  unfold plainKey? isPlainKey
  generalize key.kind = kind
  split
  · exact ⟨fun _ => rfl, fun _ => ⟨_, rfl⟩⟩
  · exact ⟨fun _ => rfl, fun _ => ⟨_, rfl⟩⟩
  · exact ⟨fun _ => rfl, fun _ => ⟨_, rfl⟩⟩
  · simp

theorem exists_keyOf_iff {computed : Bool} {key : Tree} :
    (∃ k, keyOf inner computed key = .ok k) ↔
      if computed = true then ∃ e, inner key = .ok e else key.isPlainKey = true := by
  unfold keyOf
  cases computed with
  | true => exact exists_map_iff
  | false =>
      rw [if_neg Bool.false_ne_true, if_neg Bool.false_ne_true, ← exists_plainKey_iff]
      cases plainKey? key with
      | none => exact ⟨fun ⟨_, h⟩ => (nomatch h), fun ⟨_, h⟩ => (nomatch h)⟩
      | some text => exact ⟨fun _ => ⟨text, rfl⟩, fun _ => ⟨_, rfl⟩⟩

theorem exists_itemOf_iff {item : Tree} :
    (∃ e, itemOf inner item = .ok e) ↔
      item.kind ≠ .spread ∧ (item.kind ≠ .elision → ∃ e, inner item = .ok e) := by
  unfold itemOf
  split
  · rename_i hkind
    exact ⟨fun ⟨_, h⟩ => (nomatch h), fun h => absurd hkind h.1⟩
  · rename_i hkind
    rw [hkind]
    exact ⟨fun _ => ⟨nofun, fun h => absurd rfl h⟩, fun _ => ⟨_, rfl⟩⟩
  · rename_i hspread helision
    exact ⟨fun h => ⟨hspread, fun _ => h⟩, fun h => h.2 helision⟩

/-- What is refused for its form is no literal. -/
theorem exists_iff_of_error {α : Type} {x : Except Malformation α} {fault : Malformation}
    {literal : Bool} {Q : Prop} (h : x = .error fault) (hliteral : literal = false) :
    (∃ e, x = .ok e) ↔ literal = true ∧ Q := by
  rw [h, hliteral]
  exact ⟨fun ⟨_, h⟩ => (nomatch h), fun h => (nomatch h.1)⟩

theorem exists_partOf_iff {part : Tree} :
    (∃ p, partOf inner part = .ok p) ↔
      part.isLiteralPart = true ∧ ∀ o ∈ part.partOperands, ∃ e, inner o = .ok e := by
  obtain ⟨k, s, cs⟩ := part
  cases k with
  | property form computed shorthand =>
      cases form with
      | value =>
          match cs with
          | [key, value] =>
              refine (exists_bind_iff fun _ => exists_map_iff).trans ?_
              rw [exists_keyOf_iff]
              cases computed with
              | true => simp [isLiteralPart, partOperands]
              | false => simp [isLiteralPart, partOperands]
          | [] => exact exists_iff_of_error rfl rfl
          | [_] => exact exists_iff_of_error rfl rfl
          | _ :: _ :: _ :: _ => exact exists_iff_of_error rfl rfl
      | _ => exact exists_iff_of_error rfl rfl
  | spread =>
      match cs with
      | [e] => exact exists_map_iff.trans (by simp [isLiteralPart, partOperands])
      | [] => exact exists_iff_of_error rfl rfl
      | _ :: _ :: _ => exact exists_iff_of_error rfl rfl
  | _ => exact exists_iff_of_error rfl rfl

theorem ofNode_member_long {s : Text.Span} {owner key other : Tree} {rest : List Tree} :
    ofNode inner (.node (.member false) s (owner :: key :: other :: rest)) =
      .error .otherForm := by
  obtain ⟨k, s', cs⟩ := key
  cases k with
  | _ => rfl

/-- A node is read if it has the form of a literal and its operands are read. -/
theorem exists_ofNode_iff {t : Tree} :
    (∃ e, ofNode inner t = .ok e) ↔
      t.isLiteral = true ∧ ∀ o ∈ t.operands, ∃ e, inner o = .ok e := by
  obtain ⟨k, s, cs⟩ := t
  cases k with
  | string text => exact ⟨fun _ => ⟨rfl, nofun⟩, fun _ => ⟨_, rfl⟩⟩
  | number literal => exact ⟨fun _ => ⟨rfl, nofun⟩, fun _ => ⟨_, rfl⟩⟩
  | boolean b => exact ⟨fun _ => ⟨rfl, nofun⟩, fun _ => ⟨_, rfl⟩⟩
  | null => exact ⟨fun _ => ⟨rfl, nofun⟩, fun _ => ⟨_, rfl⟩⟩
  | reference name => exact ⟨fun _ => ⟨rfl, nofun⟩, fun _ => ⟨_, rfl⟩⟩
  | template texts =>
      refine (exists_map_iff.trans exists_mapM_iff).trans ?_
      exact ⟨fun h => ⟨rfl, h⟩, fun h => h.2⟩
  | array =>
      refine (exists_map_iff.trans exists_mapM_iff).trans ?_
      simp only [exists_itemOf_iff, isLiteral, Tree.operands, List.all_eq_true, List.mem_filter,
        bne_iff_ne, and_imp]
      exact ⟨fun h => ⟨fun o ho => (h o ho).1, fun o ho => (h o ho).2⟩,
        fun h o ho => ⟨h.1 o ho, h.2 o ho⟩⟩
  | object =>
      refine (exists_map_iff.trans exists_mapM_iff).trans ?_
      simp only [exists_partOf_iff, isLiteral, Tree.operands, List.all_eq_true, List.mem_flatMap]
      exact ⟨fun h => ⟨fun part hpart => (h part hpart).1,
          fun o ⟨part, hpart, ho⟩ => (h part hpart).2 o ho⟩,
        fun h part hpart => ⟨h.1 part hpart, fun o ho => h.2 o ⟨part, hpart, ho⟩⟩⟩
  | conditional =>
      match cs with
      | [test, whenTrue, whenFalse] =>
          refine (exists_bind_iff fun _ => exists_bind_iff fun _ => exists_map_iff).trans ?_
          simp [isLiteral, Tree.operands]
      | [] => exact exists_iff_of_error rfl rfl
      | [_] => exact exists_iff_of_error rfl rfl
      | [_, _] => exact exists_iff_of_error rfl rfl
      | _ :: _ :: _ :: _ :: _ => exact exists_iff_of_error rfl rfl
  | unary op =>
      match cs with
      | [operand] =>
          refine (exists_bind_iff fun _ => exists_map_iff).trans ?_
          simp [exists_prefix_iff, isLiteral, Tree.operands]
      | [] => exact exists_iff_of_error rfl rfl
      | _ :: _ :: _ => exact exists_iff_of_error rfl rfl
  | binary op =>
      match cs with
      | [left, right] =>
          refine (exists_bind_iff fun _ => exists_bind_iff fun _ => exists_map_iff).trans ?_
          simp [exists_infix_iff, isLiteral, Tree.operands]
      | [] => exact exists_iff_of_error rfl rfl
      | [_] => exact exists_iff_of_error rfl rfl
      | _ :: _ :: _ :: _ => exact exists_iff_of_error rfl rfl
  | logical op =>
      match cs with
      | [left, right] =>
          refine (exists_bind_iff fun _ => exists_map_iff).trans ?_
          simp [isLiteral, Tree.operands]
      | [] => exact exists_iff_of_error rfl rfl
      | [_] => exact exists_iff_of_error rfl rfl
      | _ :: _ :: _ :: _ => exact exists_iff_of_error rfl rfl
  | member skips =>
      cases skips with
      | true => exact exists_iff_of_error rfl rfl
      | false =>
          match cs with
          | [owner, .node key _ _] =>
              cases key with
              | name text =>
                  refine exists_map_iff.trans ?_
                  simp [isLiteral, isName, Tree.kind, Tree.operands]
              | _ => exact exists_iff_of_error rfl rfl
          | [] => exact exists_iff_of_error rfl rfl
          | [_] => exact exists_iff_of_error rfl rfl
          | _ :: _ :: _ :: _ => exact exists_iff_of_error ofNode_member_long rfl
  | index skips =>
      cases skips with
      | true => exact exists_iff_of_error rfl rfl
      | false =>
          match cs with
          | [owner, key] =>
              refine (exists_bind_iff fun _ => exists_map_iff).trans ?_
              simp [isLiteral, Tree.operands]
          | [] => exact exists_iff_of_error rfl rfl
          | [_] => exact exists_iff_of_error rfl rfl
          | _ :: _ :: _ :: _ => exact exists_iff_of_error rfl rfl
  | call skips =>
      cases skips with
      | true => exact exists_iff_of_error rfl rfl
      | false => exact exists_iff_of_error rfl rfl
  | _ => exact exists_iff_of_error rfl rfl

/-! ## Levels -/

/-- An expression is read if so many levels are enough and each node has the form of a literal. -/
theorem exists_ofTreeWithin_iff {levels : Nat} {t : Tree} :
    (∃ e, ofTreeWithin levels t = .ok e) ↔
      ∀ n u, StandsBelow n t u → n < levels ∧ u.unwrap.isLiteral = true := by
  induction levels generalizing t with
  | zero =>
      refine ⟨fun ⟨_, h⟩ => (nomatch h), fun h => ?_⟩
      exact absurd (h 0 t (.here t)).1 (Nat.lt_irrefl 0)
  | succ levels ih =>
      refine exists_ofNode_iff.trans ?_
      constructor
      · rintro ⟨hliteral, hoperands⟩ n u hbelow
        cases hbelow with
        | here => exact ⟨Nat.succ_pos levels, hliteral⟩
        | inside ho hbelow =>
            obtain ⟨hlevel, hu⟩ := ih.mp (hoperands _ ho) _ _ hbelow
            exact ⟨Nat.succ_lt_succ hlevel, hu⟩
      · intro h
        refine ⟨(h 0 t (.here t)).2, ?_⟩
        intro o ho
        refine ih.mpr ?_
        intro n u hbelow
        obtain ⟨hlevel, hu⟩ := h (n + 1) u (.inside ho hbelow)
        exact ⟨Nat.lt_of_succ_lt_succ hlevel, hu⟩

/-! ## Wrappers -/

section

variable (hinner : ∀ t : Tree, t.any misplaced = false → inner t.bare = inner t)

theorem itemOf_of_isExpression {item : Tree} (h : item.kind.isExpression = true) :
    itemOf inner item = inner item := by
  unfold itemOf
  split
  · rename_i hkind
    rw [hkind] at h
    cases h
  · rename_i hkind
    rw [hkind] at h
    cases h
  · rfl

theorem partOf_of_isExpression {part : Tree} (h : part.kind.isExpression = true) :
    partOf inner part = .error .otherForm := by
  obtain ⟨k, s, cs⟩ := part
  cases k with
  | property form computed shorthand => cases h
  | spread => cases h
  | _ => rfl

theorem isExpression_of_isWrapper {t : Tree} (h : t.isWrapper = true) :
    t.kind.isExpression = true := by
  obtain ⟨k, s, cs⟩ := t
  cases cs with
  | nil => cases h
  | cons e rest => exact Syntax.Kind.isExpression_of_wraps h

/-- What has no name behind it is no member. -/
theorem ofNode_member_of_not {owner key : Tree} {s : Text.Span} (h : key.isName = false) :
    ofNode inner (.node (.member false) s [owner, key]) = .error .otherForm := by
  obtain ⟨k, s', cs⟩ := key
  cases k with
  | name text => cases h
  | _ => rfl

theorem isName_of_isExpression {t : Tree} (h : t.kind.isExpression = true) :
    t.isName = false := by
  unfold isName
  split
  · rename_i hkind
    rw [hkind] at h
    cases h
  · rfl

include hinner

theorem itemOf_bare {item : Tree} (h : item.any misplaced = false) :
    itemOf inner item.bare = itemOf inner item := by
  cases hwrapper : item.isWrapper with
  | true =>
      rw [itemOf_of_isExpression (isExpression_bare item h hwrapper),
        itemOf_of_isExpression (isExpression_of_isWrapper hwrapper), hinner item h]
  | false =>
      unfold itemOf
      rw [kind_bare hwrapper, hinner item h]

theorem keyOf_bare {computed : Bool} {key : Tree} (h : key.any misplaced = false)
    (hkey : computed = false → key.isWrapper = false) :
    keyOf inner computed key.bare = keyOf inner computed key := by
  cases computed with
  | true =>
      change (inner key.bare).map _ = (inner key).map _
      rw [hinner key h]
  | false =>
      unfold keyOf plainKey?
      rw [hinner key h, kind_bare (hkey rfl)]

theorem partOf_bare {part : Tree} (h : part.any misplaced = false) :
    partOf inner part.bare = partOf inner part := by
  cases hwrapper : part.isWrapper with
  | true =>
      rw [partOf_of_isExpression (isExpression_bare part h hwrapper),
        partOf_of_isExpression (isExpression_of_isWrapper hwrapper)]
  | false =>
      rw [bare_eq hwrapper]
      obtain ⟨k, s, cs⟩ := part
      obtain ⟨hnode, hparts⟩ := any_eq_false_iff.mp h
      cases k with
      | property form computed shorthand =>
          cases form with
          | value =>
              match cs with
              | [key, value] =>
                  obtain ⟨hkeyPlaced, hvalue⟩ := List.forall_mem_cons.mp hparts
                  have hkey : computed = false → key.isWrapper = false := by
                    rintro rfl
                    exact hnode
                  change (keyOf inner computed key.bare >>= _) = (keyOf inner computed key >>= _)
                  rw [keyOf_bare hinner hkeyPlaced hkey,
                    hinner value (hvalue value (List.mem_singleton_self value))]
              | [] => rfl
              | [_] => rfl
              | _ :: _ :: _ :: _ => rfl
          | _ => rfl
      | spread =>
          match cs with
          | [e] =>
              change (inner e.bare).map _ = (inner e).map _
              rw [hinner e (hparts e (List.mem_singleton_self e))]
          | [] => rfl
          | _ :: _ :: _ => rfl
      | _ => rfl

theorem ofNode_member_bare {owner key : Tree} (s : Text.Span) (howner : owner.any misplaced = false)
    (hkey : key.any misplaced = false) :
    ofNode inner (.node (.member false) s [owner.bare, key.bare]) =
      ofNode inner (.node (.member false) s [owner, key]) := by
  cases hwrapper : key.isWrapper with
  | true =>
      rw [ofNode_member_of_not (isName_of_isExpression (isExpression_bare key hkey hwrapper)),
        ofNode_member_of_not (isName_of_isExpression (isExpression_of_isWrapper hwrapper))]
  | false =>
      rw [bare_eq hwrapper]
      obtain ⟨k, s', cs⟩ := key
      cases k with
      | name text =>
          change (inner owner.bare).map _ = (inner owner).map _
          rw [hinner owner howner]
      | _ => rfl

/-- A node is the same expression without the wrappers in it. -/
theorem ofNode_bare {t : Tree} (h : t.any misplaced = false) (hwrapper : t.isWrapper = false) :
    ofNode inner t.bare = ofNode inner t := by
  rw [bare_eq hwrapper]
  obtain ⟨k, s, cs⟩ := t
  have hparts : ∀ c ∈ cs, c.any misplaced = false := (any_eq_false_iff.mp h).2
  cases k with
  | template texts =>
      change ((cs.map bare).mapM inner).map _ = (cs.mapM inner).map _
      rw [mapM_map_eq fun o ho => hinner o (hparts o ho)]
  | array =>
      change ((cs.map bare).mapM (itemOf inner)).map _ = (cs.mapM (itemOf inner)).map _
      rw [mapM_map_eq fun item hitem => itemOf_bare hinner (hparts item hitem)]
  | object =>
      change ((cs.map bare).mapM (partOf inner)).map _ = (cs.mapM (partOf inner)).map _
      rw [mapM_map_eq fun part hpart => partOf_bare hinner (hparts part hpart)]
  | conditional =>
      match cs with
      | [test, whenTrue, whenFalse] =>
          rw [List.forall_mem_cons, List.forall_mem_cons, List.forall_mem_cons] at hparts
          change (inner test.bare >>= _) = (inner test >>= _)
          rw [hinner test hparts.1, hinner whenTrue hparts.2.1, hinner whenFalse hparts.2.2.1]
      | [] => rfl
      | [_] => rfl
      | [_, _] => rfl
      | _ :: _ :: _ :: _ :: _ => rfl
  | unary op =>
      match cs with
      | [operand] =>
          change (Prefix.ofSyntax op >>= _) = (Prefix.ofSyntax op >>= _)
          rw [hinner operand (hparts operand (List.mem_singleton_self operand))]
      | [] => rfl
      | _ :: _ :: _ => rfl
  | binary op =>
      match cs with
      | [left, right] =>
          rw [List.forall_mem_cons, List.forall_mem_cons] at hparts
          change (Infix.ofSyntax op >>= _) = (Infix.ofSyntax op >>= _)
          rw [hinner left hparts.1, hinner right hparts.2.1]
      | [] => rfl
      | [_] => rfl
      | _ :: _ :: _ :: _ => rfl
  | logical op =>
      match cs with
      | [left, right] =>
          rw [List.forall_mem_cons, List.forall_mem_cons] at hparts
          change (inner left.bare >>= _) = (inner left >>= _)
          rw [hinner left hparts.1, hinner right hparts.2.1]
      | [] => rfl
      | [_] => rfl
      | _ :: _ :: _ :: _ => rfl
  | member skips =>
      cases skips with
      | true => rfl
      | false =>
          match cs with
          | [owner, key] =>
              rw [List.forall_mem_cons, List.forall_mem_cons] at hparts
              exact ofNode_member_bare hinner s hparts.1 hparts.2.1
          | [] => rfl
          | [_] => rfl
          | _ :: _ :: _ :: _ => exact ofNode_member_long.trans ofNode_member_long.symm
  | call skips =>
      cases skips with
      | true => rfl
      | false => rfl
  | index skips =>
      cases skips with
      | true => rfl
      | false =>
          match cs with
          | [owner, key] =>
              rw [List.forall_mem_cons, List.forall_mem_cons] at hparts
              change (inner owner.bare >>= _) = (inner owner >>= _)
              rw [hinner owner hparts.1, hinner key hparts.2.1]
          | [] => rfl
          | [_] => rfl
          | _ :: _ :: _ :: _ => rfl
  | _ => rfl

end

end

/-- A tree is the same expression without its wrappers. -/
theorem ofTreeWithin_bare {levels : Nat} {t : Tree} (h : t.any misplaced = false) :
    ofTreeWithin levels t.bare = ofTreeWithin levels t := by
  induction levels generalizing t with
  | zero => rfl
  | succ levels ih =>
      change ofNode (ofTreeWithin levels) t.bare.unwrap = ofNode (ofTreeWithin levels) t.unwrap
      rw [unwrap_bare, ← bare_unwrap]
      exact ofNode_bare (fun o ho => ih ho) (any_unwrap t h) (isWrapper_unwrap t)

/-- Each wrapper in the tree of a text is in its place. -/
theorem any_misplaced_of_parse {text : String} {t : Tree} (h : Declaration.parse text = .ok t) :
    t.any misplaced = false := by
  unfold Declaration.parse at h
  split at h
  · cases h
  · next program hprogram =>
      have hprogram := Syntax.any_misplaced_of_parseModule hprogram
      split at h
      · next s e hitems =>
          cases h
          have hitem : Syntax.Tree.node .expressionStatement s [e] ∈ program.children :=
            List.mem_of_mem_filter (hitems ▸ List.mem_singleton_self _)
          have hstatement := (any_eq_false_iff.mp hprogram).2 _ hitem
          exact any_unwrap e ((any_eq_false_iff.mp hstatement).2 e (List.mem_singleton_self e))
      · cases h

/-- A tree in which each wrapper is in its place is read if, without the wrappers, each node has
the form of a literal and there are no more levels than there may be.  What it is read as, or
refused for, has nothing to do with the wrappers. -/
theorem ofTree_iff_isLiteral {t : Tree} (hplaced : t.any misplaced = false) :
    ((∃ e, ofTree t = .ok e) ↔
        ∀ n u, StandsBelow n t.bare u → n < maxNesting ∧ u.isLiteral = true) ∧
      ofTree t.bare = ofTree t := by
  have hbare : ofTree t.bare = ofTree t := ofTreeWithin_bare hplaced
  refine ⟨?_, hbare⟩
  rw [← hbare]
  refine exists_ofTreeWithin_iff.trans ?_
  constructor
  · intro h n u hbelow
    rw [← hbelow.unwrap_eq (any_isWrapper_bare t)]
    exact h n u hbelow
  · intro h n u hbelow
    rw [hbelow.unwrap_eq (any_isWrapper_bare t)]
    exact h n u hbelow

/-- Wrappers around a key that is computed, a value and what is spread. -/
theorem ofTree_iff_isLiteral_wrapped :
    ∃ t, Declaration.parse "{[(k)]: a as b, ...(c!)}" = .ok t ∧ t.any isWrapper = true ∧
      t.any misplaced = false ∧
      (∀ n u, StandsBelow n t.bare u → n < maxNesting ∧ u.isLiteral = true) ∧
      ofTree t.bare = ofTree t := by
  obtain ⟨t, hparse, ht⟩ : ∃ t, Declaration.parse "{[(k)]: a as b, ...(c!)}" = .ok t ∧
      (t.any isWrapper, t.any misplaced, (ofTree t).toOption.isSome) = (true, false, true) :=
    Running.exists_of_toOption (by decide +kernel)
  simp only [Prod.mk.injEq] at ht
  obtain ⟨hwrapper, hplaced, hread⟩ := ht
  obtain ⟨hiff, hbare⟩ := ofTree_iff_isLiteral hplaced
  refine ⟨t, hparse, hwrapper, hplaced, hiff.mp ?_, hbare⟩
  cases he : ofTree t with
  | error fault =>
      rw [he] at hread
      cases hread
  | ok e => exact ⟨e, rfl⟩

end Expression

end StaticStyle
