import StaticStyle.Proofs.Syntax.Wrappers
import StaticStyle.Proofs.Text.Offset
import StaticStyle.Script.Call

/-!
# Where the nodes of a tree stand

The landmarks of a tree are its calls and its import declarations.  A tree is placed
between two offsets of a source (`Tree.Placed`) if its landmarks stand there, those of
each part behind those of the part before it, and if each of them covers what it should:
a call its callee and its arguments, an import its names, in braces.  The other nodes may
stand anywhere, but wrappers stand around expressions only.

So of two landmarks with neither inside the other, one stands behind the other
(`Tree.Placed.pairwise_outermost`), and no node is misplaced (`Tree.Placed.any_misplaced`).
-/

namespace StaticStyle.Syntax

open StaticStyle.Text (Span Continues Solid slice?)

/-! ## Landmarks -/

/-- Whether a node with some parts is placed wherever it stands.  It is no landmark then, a
reference has no parts, a key that is not computed is no wrapper, and what a wrapper stands around
is an expression. -/
def Kind.isPlain (cs : List Tree) : Kind → Bool
  | .reference _ => cs.isEmpty
  | .call _ => false
  | .importDeclaration _ _ => false
  | .property _ false _ => !cs.head?.any Tree.isWrapper
  | k => !(k.wraps && cs.head?.any fun e => !e.kind.isExpression)

/-- Whether a node is a call or an import declaration. -/
def isLandmark (t : Tree) : Bool :=
  match t.kind with
  | .call _ => true
  | .importDeclaration _ _ => true
  | _ => false

/-- A span stands between two offsets.  It is not empty, and it starts with a character
that is not blank. -/
structure Stands (source : List Char) (lo hi : Nat) (s : Span) : Prop where
  lower : lo ≤ s.start
  upper : s.stop ≤ hi
  nonempty : s.start < s.stop
  solid : Solid source s.start
  isPart : (slice? source s).isSome

/-- The parts of a call: its callee and its arguments are parts of the source. -/
def CallParts (source : List Char) (cs : List Tree) : Prop :=
  ∃ callee types arguments, cs = callee :: types :: arguments ∧
    ∀ t ∈ callee :: arguments, (slice? source t.span).isSome

/-- A span is a part of the source, and another one covers it with braces around it. -/
structure Braced (source : List Char) (outer inner : Span) : Prop where
  isPart : (slice? source inner).isSome
  opening : ∃ n s, Continues source n ('\x7b' :: s) ∧ outer.start ≤ n ∧ n < inner.start
  closing : ∃ n s, Continues source n ('\x7d' :: s) ∧ inner.stop ≤ n ∧ n < outer.stop

/-- Whether a node is a name of an import, with the name it is given. -/
def isImportName (t : Tree) : Bool :=
  match t.kind with
  | .importName _ => true
  | _ => false

/-- A node covers what it should, between two offsets.  In an import there are no
landmarks. -/
def NodePlaced (source : List Char) (lo hi : Nat) (s : Span) (cs : List Tree) : Kind → Prop
  | .call _ => Stands source lo hi s ∧ CallParts source cs
  | .importDeclaration _ _ =>
      Stands source lo hi s ∧ (∀ t ∈ cs, t.any isLandmark = false) ∧
        ∀ t ∈ cs, isImportName t = true → Braced source s t.span
  | k => k.isPlain cs = true

mutual

/-- The nodes of a tree stand between two offsets. -/
def Tree.Placed (source : List Char) (lo hi : Nat) : Tree → Prop
  | .node k s cs => NodePlaced source lo hi s cs k ∧ PlacedAll source lo hi cs

/-- The nodes of some trees stand between two offsets, those of each tree behind those of
the tree before it. -/
def PlacedAll (source : List Char) (lo hi : Nat) : List Tree → Prop
  | [] => lo ≤ hi
  | t :: ts => ∃ mid, t.Placed source lo mid ∧ PlacedAll source mid hi ts

end

variable {source : List Char} {lo hi lo' hi' : Nat} {k : Kind} {s : Span} {t : Tree}
  {ts us : List Tree}

/-! ## Bounds -/

theorem Stands.mono (h : Stands source lo hi s) (hl : lo' ≤ lo) (hh : hi ≤ hi') :
    Stands source lo' hi' s where
  lower := Nat.le_trans hl h.lower
  upper := Nat.le_trans h.upper hh
  nonempty := h.nonempty
  solid := h.solid
  isPart := h.isPart

theorem NodePlaced.mono (h : NodePlaced source lo hi s ts k) (hl : lo' ≤ lo) (hh : hi ≤ hi') :
    NodePlaced source lo' hi' s ts k := by
  cases k with
  | call skips => exact ⟨h.1.mono hl hh, h.2⟩
  | importDeclaration from_ typeOnly => exact ⟨h.1.mono hl hh, h.2⟩
  | _ => exact h

mutual

theorem Tree.Placed.mono : ∀ {t : Tree} {lo hi lo' hi' : Nat}, t.Placed source lo hi → lo' ≤ lo →
    hi ≤ hi' → t.Placed source lo' hi'
  | .node _ _ _, _, _, _, _, h, hl, hh => ⟨h.1.mono hl hh, h.2.mono hl hh⟩

/-- What stands between two offsets stands between any that are further apart. -/
theorem PlacedAll.mono : ∀ {ts : List Tree} {lo hi lo' hi' : Nat}, PlacedAll source lo hi ts →
    lo' ≤ lo → hi ≤ hi' → PlacedAll source lo' hi' ts
  | [], _, _, _, _, h, hl, hh => Nat.le_trans (Nat.le_trans hl h) hh
  | _ :: _, _, _, _, _, ⟨mid, ht, hts⟩, hl, hh =>
      ⟨mid, ht.mono hl (Nat.le_refl mid), hts.mono (Nat.le_refl mid) hh⟩

end

mutual

theorem Tree.Placed.le : ∀ {t : Tree} {lo hi : Nat}, t.Placed source lo hi → lo ≤ hi
  | .node _ _ _, _, _, h => h.2.le

theorem PlacedAll.le : ∀ {ts : List Tree} {lo hi : Nat}, PlacedAll source lo hi ts → lo ≤ hi
  | [], _, _, h => h
  | _ :: _, _, _, ⟨_, ht, hts⟩ => Nat.le_trans ht.le hts.le

end

theorem NodePlaced.of_isPlain (h : k.isPlain ts = true) : NodePlaced source lo hi s ts k := by
  cases k with
  | call skips => cases h
  | importDeclaration from_ typeOnly => cases h
  | _ => exact h

/-- A wrapper around an expression is placed wherever it stands. -/
theorem isPlain_wrapper (hk : k.wraps = true) (ht : t.kind.isExpression = true) :
    k.isPlain (t :: ts) = true := by
  have hplain : (!(k.wraps && !t.kind.isExpression)) = true := by rw [hk, ht]; rfl
  unfold Kind.wraps at hk
  split at hk
  · exact hplain
  · exact hplain
  · exact hplain
  · exact hplain
  · cases hk

theorem isPlain_property {form : MemberForm} {computed shorthand : Bool}
    (h : computed = false → t.isWrapper = false) :
    (Kind.property form computed shorthand).isPlain (t :: ts) = true := by
  cases computed with
  | true => rfl
  | false => exact (Bool.not_eq_true' _).mpr (h rfl)

theorem Tree.Placed.node (hk : k.isPlain ts = true) (h : PlacedAll source lo hi ts) (s : Span) :
    (Tree.node k s ts).Placed source lo hi := ⟨.of_isPlain hk, h⟩

theorem Tree.Placed.parts (h : t.Placed source lo hi) : PlacedAll source lo hi t.children := by
  obtain ⟨k, s, cs⟩ := t
  exact h.2

theorem placedAll_nil : PlacedAll source lo hi [] ↔ lo ≤ hi := Iff.rfl

theorem placedAll_singleton : PlacedAll source lo hi [t] ↔ t.Placed source lo hi :=
  ⟨fun ⟨_, ht, hle⟩ => ht.mono (Nat.le_refl lo) hle, fun ht => ⟨hi, ht, Nat.le_refl hi⟩⟩

theorem placedAll_append : PlacedAll source lo hi (ts ++ us) ↔
    ∃ mid, PlacedAll source lo mid ts ∧ PlacedAll source mid hi us := by
  induction ts generalizing lo with
  | nil =>
      constructor
      · intro h
        exact ⟨lo, Nat.le_refl lo, h⟩
      · rintro ⟨mid, hle, h⟩
        exact h.mono hle (Nat.le_refl hi)
  | cons t ts ih =>
      constructor
      · rintro ⟨mid, ht, h⟩
        obtain ⟨mid', hts, hus⟩ := ih.mp h
        exact ⟨mid', ⟨mid, ht, hts⟩, hus⟩
      · rintro ⟨mid', ⟨mid, ht, hts⟩, hus⟩
        exact ⟨mid, ht, ih.mpr ⟨mid', hts, hus⟩⟩

theorem PlacedAll.append {mid : Nat} (h : PlacedAll source lo mid ts)
    (h' : PlacedAll source mid hi us) : PlacedAll source lo hi (ts ++ us) :=
  placedAll_append.mpr ⟨mid, h, h'⟩

theorem PlacedAll.of_mem (h : PlacedAll source lo hi ts) (ht : t ∈ ts) : t.Placed source lo hi := by
  induction ts generalizing lo with
  | nil => cases ht
  | cons u ts ih =>
      obtain ⟨mid, hu, hts⟩ := h
      rcases List.mem_cons.mp ht with rfl | ht
      · exact hu.mono (Nat.le_refl lo) hts.le
      · exact (ih hts ht).mono hu.le (Nat.le_refl hi)

/-! ## Nodes of a tree -/

theorem Tree.Placed.misplaced (h : t.Placed source lo hi) : t.misplaced = false := by
  obtain ⟨k, s, cs⟩ := t
  have hnode := h.1
  unfold Tree.misplaced
  split
  · next heq =>
      cases heq
      exact (Bool.not_eq_true' _).mp hnode
  · next e rest hother heq =>
      cases heq
      cases k with
      | reference name => rfl
      | call skips => rfl
      | importDeclaration from_ typeOnly => rfl
      | property form computed shorthand => rfl
      | _ => exact (Bool.not_eq_true' _).mp hnode
  · rfl

mutual

/-- No node of a placed tree is misplaced. -/
theorem Tree.Placed.any_misplaced : ∀ {t : Tree} {lo hi : Nat}, t.Placed source lo hi →
    t.any Tree.misplaced = false
  | .node k s cs, _, _, h => by
      rw [Tree.any, h.misplaced, Bool.false_or]
      exact PlacedAll.anyOf_misplaced h.2

theorem PlacedAll.anyOf_misplaced : ∀ {ts : List Tree} {lo hi : Nat}, PlacedAll source lo hi ts →
    Tree.anyOf Tree.misplaced ts = false
  | [], _, _, _ => rfl
  | t :: ts, _, _, ⟨_, ht, hts⟩ => by
      rw [Tree.anyOf, ht.any_misplaced, Bool.false_or]
      exact PlacedAll.anyOf_misplaced hts

end

/-! ## Landmarks of a tree -/

theorem Tree.Placed.stands (h : t.Placed source lo hi) (ht : isLandmark t = true) :
    Stands source lo hi t.span := by
  obtain ⟨k, s, cs⟩ := t
  cases k with
  | call skips => exact h.1.1
  | importDeclaration from_ typeOnly => exact h.1.1
  | _ => cases ht

section

variable {wanted closed : Tree → Bool}

mutual

theorem wanted_of_mem_outermost {u : Tree} : ∀ {t : Tree}, u ∈ outermost wanted closed t →
    wanted u = true
  | .node k s cs, h => by
      rw [outermost] at h
      split at h
      · next hw => exact List.mem_singleton.mp h ▸ hw
      · split at h
        · cases h
        · exact wanted_of_mem_outermostOf h

theorem wanted_of_mem_outermostOf {u : Tree} : ∀ {ts : List Tree},
    u ∈ outermostOf wanted closed ts → wanted u = true
  | t :: ts, h => by
      rcases List.mem_append.mp h with h | h
      · exact wanted_of_mem_outermost h
      · exact wanted_of_mem_outermostOf h

end

mutual

theorem Tree.Placed.of_mem_outermost {u : Tree} : ∀ {t : Tree} {lo hi : Nat},
    t.Placed source lo hi → u ∈ outermost wanted closed t → u.Placed source lo hi
  | .node k s cs, _, _, h, hu => by
      rw [outermost] at hu
      split at hu
      · exact List.mem_singleton.mp hu ▸ h
      · split at hu
        · cases hu
        · exact PlacedAll.of_mem_outermostOf h.2 hu

/-- The nodes that are found in placed trees are placed. -/
theorem PlacedAll.of_mem_outermostOf {u : Tree} : ∀ {ts : List Tree} {lo hi : Nat},
    PlacedAll source lo hi ts → u ∈ outermostOf wanted closed ts → u.Placed source lo hi
  | t :: ts, _, _, ⟨_, ht, hts⟩, hu => by
      rcases List.mem_append.mp hu with hu | hu
      · exact (ht.of_mem_outermost hu).mono (Nat.le_refl _) hts.le
      · exact (hts.of_mem_outermostOf hu).mono ht.le (Nat.le_refl _)

end

mutual

/-- Of the landmarks that are found in a tree, each stands behind the one before it. -/
theorem Tree.Placed.pairwise_outermost (hw : ∀ t, wanted t = true → isLandmark t = true) :
    ∀ {t : Tree} {lo hi : Nat}, t.Placed source lo hi →
      (outermost wanted closed t).Pairwise fun u v => u.span.stop ≤ v.span.start
  | .node k s cs, _, _, h => by
      rw [outermost]
      split
      · exact List.pairwise_singleton _ _
      · split
        · exact .nil
        · exact PlacedAll.pairwise_outermostOf hw h.2

theorem PlacedAll.pairwise_outermostOf (hw : ∀ t, wanted t = true → isLandmark t = true) :
    ∀ {ts : List Tree} {lo hi : Nat}, PlacedAll source lo hi ts →
      (outermostOf wanted closed ts).Pairwise fun u v => u.span.stop ≤ v.span.start
  | [], _, _, _ => .nil
  | t :: ts, _, _, ⟨mid, ht, hts⟩ => by
      refine List.pairwise_append.mpr ⟨ht.pairwise_outermost hw, hts.pairwise_outermostOf hw, ?_⟩
      intro u hu v hv
      have hfirst := (ht.of_mem_outermost hu).stands (hw u (wanted_of_mem_outermost hu))
      have hsecond := (hts.of_mem_outermostOf hv).stands (hw v (wanted_of_mem_outermostOf hv))
      exact Nat.le_trans hfirst.upper hsecond.lower

end

end

end StaticStyle.Syntax
