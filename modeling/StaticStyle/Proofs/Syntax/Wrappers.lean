import StaticStyle.Syntax.Tree

/-!
# Trees without wrappers

Parentheses, casts and the mark `!` are wrappers: nodes around an expression that leave its value
alone.  `Tree.unwrap` takes those off that stand around a tree, and `Tree.bare` deletes those
inside as well.

In the tree of a script, a wrapper stands around an expression, and never around a key as it is
written.  A tree in which this fails somewhere has a misplaced node (`Tree.misplaced`).
-/

namespace StaticStyle.Syntax

/-! ## Kinds -/

namespace Kind

/-- Whether a node of the kind is a wrapper if there is something in it. -/
def wraps : Kind → Bool
  | .parenthesized => true
  | .asType => true
  | .satisfiesType => true
  | .nonNull => true
  | _ => false

/-- Whether a node of the kind is an expression. -/
def isExpression : Kind → Bool
  | .reference _ => true
  | .null => true
  | .boolean _ => true
  | .number _ => true
  | .bigint _ => true
  | .string _ => true
  | .regex _ _ => true
  | .template _ => true
  | .this => true
  | .super => true
  | .parenthesized => true
  | .array => true
  | .object => true
  | .function _ _ => true
  | .arrow _ _ => true
  | .unary _ => true
  | .update _ _ => true
  | .binary _ => true
  | .logical _ => true
  | .privateIn => true
  | .conditional => true
  | .assign _ => true
  | .sequence => true
  | .yield _ => true
  | .await => true
  | .member _ => true
  | .index _ => true
  | .call _ => true
  | .construct => true
  | .chain => true
  | .taggedTemplate => true
  | .importCall => true
  | .metaProperty _ => true
  | .asType => true
  | .satisfiesType => true
  | .nonNull => true
  | .cast => true
  | .instantiation => true
  | .classDefinition _ => true
  | .element => true
  | _ => false

theorem isExpression_of_wraps {k : Kind} (h : k.wraps = true) : k.isExpression = true := by
  unfold wraps at h
  split at h
  · rfl
  · rfl
  · rfl
  · rfl
  · cases h

end Kind

/-! ## Trees -/

namespace Tree

/-- Whether the tree is a wrapper with something in it. -/
def isWrapper : Tree → Bool
  | .node k _ (_ :: _) => k.wraps
  | .node _ _ [] => false

/-- Whether the tree is a wrapper of something that is no expression, or has one around a key that
is not computed. -/
def misplaced : Tree → Bool
  | .node (.property _ false _) _ (key :: _) => key.isWrapper
  | .node k _ (e :: _) => k.wraps && !e.kind.isExpression
  | .node _ _ [] => false

mutual

/-- The tree without its wrappers. -/
def bare : Tree → Tree
  | .node k s [] => .node k s []
  | .node k s (e :: rest) => if k.wraps then bare e else .node k s (bare e :: bareAll rest)

/-- Trees without their wrappers. -/
def bareAll : List Tree → List Tree
  | [] => []
  | t :: ts => bare t :: bareAll ts

end

theorem bareAll_eq_map (ts : List Tree) : bareAll ts = ts.map bare := by
  induction ts with
  | nil => rfl
  | cons t ts ih => rw [bareAll, ih, List.map_cons]

/-- Of a tree that is no wrapper, the parts lose their wrappers. -/
theorem bare_eq {t : Tree} (h : t.isWrapper = false) :
    t.bare = .node t.kind t.span (t.children.map bare) := by
  obtain ⟨k, s, cs⟩ := t
  cases cs with
  | nil => rfl
  | cons e rest =>
      have hkind : k.wraps = false := h
      rw [bare, hkind, if_neg Bool.false_ne_true, bareAll_eq_map]
      rfl

theorem bare_wrapper {k : Kind} (h : k.wraps = true) (s : Text.Span) (e : Tree)
    (rest : List Tree) : (node k s (e :: rest)).bare = e.bare := by
  rw [bare, if_pos h]

theorem unwrap_eq {t : Tree} (h : t.isWrapper = false) : t.unwrap = t := by
  unfold unwrap
  split
  · cases h
  · cases h
  · cases h
  · cases h
  · rfl

theorem unwrap_wrapper {k : Kind} (h : k.wraps = true) (s : Text.Span) (e : Tree)
    (rest : List Tree) : (node k s (e :: rest)).unwrap = e.unwrap := by
  unfold Kind.wraps at h
  split at h
  · rfl
  · rfl
  · rfl
  · rfl
  · cases h

theorem isWrapper_unwrap : ∀ t : Tree, t.unwrap.isWrapper = false
  | .node k s [] => by
      rw [unwrap_eq rfl]
      rfl
  | .node k s (e :: rest) => by
      cases hkind : k.wraps with
      | true =>
          rw [unwrap_wrapper hkind]
          exact isWrapper_unwrap e
      | false =>
          rw [unwrap_eq (t := .node k s (e :: rest)) hkind]
          exact hkind

/-- The wrappers around a tree are among its wrappers. -/
theorem bare_unwrap : ∀ t : Tree, t.unwrap.bare = t.bare
  | .node k s [] => by rw [unwrap_eq rfl]
  | .node k s (e :: rest) => by
      cases hkind : k.wraps with
      | true =>
          rw [unwrap_wrapper hkind, bare_wrapper hkind]
          exact bare_unwrap e
      | false => rw [unwrap_eq (t := .node k s (e :: rest)) hkind]

theorem isWrapper_bare (t : Tree) : t.bare.isWrapper = false := by
  have hunwrap := isWrapper_unwrap t
  rw [← bare_unwrap, bare_eq hunwrap]
  generalize t.unwrap = u at hunwrap
  obtain ⟨k, s, cs⟩ := u
  cases cs with
  | nil => rfl
  | cons e rest => exact hunwrap

theorem unwrap_bare (t : Tree) : t.bare.unwrap = t.bare :=
  unwrap_eq (isWrapper_bare t)

theorem kind_bare {t : Tree} (h : t.isWrapper = false) : t.bare.kind = t.kind := by
  rw [bare_eq h]
  rfl

/-! ## Parts -/

theorem anyOf_eq_false_iff {p : Tree → Bool} {ts : List Tree} :
    anyOf p ts = false ↔ ∀ t ∈ ts, t.any p = false := by
  induction ts with
  | nil => simp [anyOf]
  | cons t ts ih => rw [anyOf, Bool.or_eq_false_iff, ih, List.forall_mem_cons]

theorem any_eq_false_iff {p : Tree → Bool} {t : Tree} :
    t.any p = false ↔ p t = false ∧ ∀ c ∈ t.children, c.any p = false := by
  obtain ⟨k, s, cs⟩ := t
  rw [any, Bool.or_eq_false_iff, anyOf_eq_false_iff]
  rfl

/-- No node is misplaced that was not before the wrappers around the tree were taken off. -/
theorem any_unwrap {p : Tree → Bool} : ∀ t : Tree, t.any p = false → t.unwrap.any p = false
  | .node k s [], h => by rwa [unwrap_eq rfl]
  | .node k s (e :: rest), h => by
      cases hkind : k.wraps with
      | true =>
          rw [unwrap_wrapper hkind]
          exact any_unwrap e ((any_eq_false_iff.mp h).2 e List.mem_cons_self)
      | false => rwa [unwrap_eq (t := .node k s (e :: rest)) hkind]

mutual

theorem any_isWrapper_bare : ∀ t : Tree, t.bare.any isWrapper = false
  | .node k s [] => rfl
  | .node k s (e :: rest) => by
      cases hkind : k.wraps with
      | true =>
          rw [bare_wrapper hkind]
          exact any_isWrapper_bare e
      | false =>
          rw [bare, hkind, if_neg Bool.false_ne_true]
          refine any_eq_false_iff.mpr ⟨hkind, ?_⟩
          exact List.forall_mem_cons.mpr ⟨any_isWrapper_bare e, any_isWrapper_bareAll rest⟩

/-- No wrapper is left anywhere in a tree without its wrappers. -/
theorem any_isWrapper_bareAll : ∀ ts : List Tree, ∀ t ∈ bareAll ts, t.any isWrapper = false
  | [] => fun _ ht => nomatch ht
  | t :: ts => List.forall_mem_cons.mpr ⟨any_isWrapper_bare t, any_isWrapper_bareAll ts⟩

end

/-- In a wrapper there is an expression. -/
theorem isExpression_bare : ∀ t : Tree, t.any misplaced = false → t.isWrapper = true →
    t.bare.kind.isExpression = true
  | .node k s [], _, hwrapper => by cases hwrapper
  | .node k s (e :: rest), hplaced, hwrapper => by
      have hkind : k.wraps = true := hwrapper
      obtain ⟨hnode, hparts⟩ := any_eq_false_iff.mp hplaced
      have hexpression : e.kind.isExpression = true := by
        unfold misplaced at hnode
        split at hnode
        · rename_i hsame
          cases hsame
          cases hkind
        · rename_i hsame
          cases hsame
          rw [hkind, Bool.true_and, Bool.not_eq_false'] at hnode
          exact hnode
        · rename_i hsame
          cases hsame
      rw [bare_wrapper hkind]
      cases hinner : e.isWrapper with
      | true => exact isExpression_bare e (hparts e List.mem_cons_self) hinner
      | false => rwa [kind_bare hinner]

end Tree

end StaticStyle.Syntax
