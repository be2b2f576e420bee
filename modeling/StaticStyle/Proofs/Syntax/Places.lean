import Mathlib.Data.List.Forall2
import StaticStyle.Proofs.Syntax.Placement

/-!
# Places in a tree

A node of a tree is told by its place: which part to go to at each step from the top
(`Tree.at?`).  `placesOf` lists the places of the outermost nodes that have a property, in
the order in which `outermost` lists the nodes (`forall₂_placesOf`), and a place is listed
just if its node has the property and no node around it ends the search
(`mem_placesOf`).
-/

namespace StaticStyle.Syntax

/-- Which part of a tree to go to, at each step from the top. -/
abbrev Place := List Nat

namespace Tree

/-- The node at a place. -/
def at? : Tree → Place → Option Tree
  | t, [] => some t
  | t, i :: p => t.children[i]?.bind fun u => u.at? p

/-- No node around a place has a property. -/
def ClearTo (t : Tree) (p : Place) (closed : Tree → Bool) : Prop :=
  ∀ q u, q <+: p → q ≠ p → t.at? q = some u → closed u = false

/-- The node at a place has a property, and no node around the place has it or ends the
search. -/
def FindsAt (wanted closed : Tree → Bool) (t : Tree) (p : Place) : Prop :=
  (∃ u, t.at? p = some u ∧ wanted u = true) ∧ t.ClearTo p fun u => wanted u || closed u

end Tree

mutual

/-- The places of the nodes that `outermost` lists. -/
def placesOf (wanted closed : Tree → Bool) : Tree → List Place
  | .node k s cs =>
      if wanted (.node k s cs) then [[]]
      else if closed (.node k s cs) then []
      else placesIn wanted closed 0 cs

/-- The places of the nodes that `outermostOf` lists, in a tree that has the trees for
parts from some part on. -/
def placesIn (wanted closed : Tree → Bool) (i : Nat) : List Tree → List Place
  | [] => []
  | t :: ts => (placesOf wanted closed t).map (i :: ·) ++ placesIn wanted closed (i + 1) ts

end

variable {wanted closed : Tree → Bool} {t u : Tree} {ts : List Tree} {p q : Place} {i : Nat}

/-! ## Going down -/

theorem at?_append (t : Tree) (p q : Place) : t.at? (p ++ q) = (t.at? p).bind (·.at? q) := by
  induction p generalizing t with
  | nil => rfl
  | cons i p ih =>
      rw [List.cons_append, Tree.at?, Tree.at?, Option.bind_assoc]
      exact congrArg _ (funext ih)

theorem clearTo_nil : t.ClearTo [] closed := by
  intro q u hq hne
  exact absurd (List.prefix_nil.mp hq) hne

theorem clearTo_cons : t.ClearTo (i :: p) closed ↔
    closed t = false ∧ ∀ u, t.children[i]? = some u → u.ClearTo p closed := by
  constructor
  · intro h
    refine ⟨h [] t List.nil_prefix nofun rfl, fun u hu q v hq hne hv => ?_⟩
    refine h (i :: q) v (List.cons_prefix_cons.mpr ⟨rfl, hq⟩) ?_ ?_
    · exact fun heq => hne (List.cons.inj heq).2
    · rw [Tree.at?, hu]
      exact hv
  · rintro ⟨ht, h⟩ q u hq hne hu
    cases q with
    | nil =>
        cases hu
        exact ht
    | cons j q =>
        obtain ⟨rfl, hprefix⟩ := List.cons_prefix_cons.mp hq
        obtain ⟨v, hv, hu⟩ := Option.bind_eq_some_iff.mp hu
        exact h v hv q u hprefix (fun heq => hne (heq ▸ rfl)) hu

theorem clearTo_or {other : Tree → Bool} :
    (t.ClearTo p fun u => other u || closed u) ↔ t.ClearTo p other ∧ t.ClearTo p closed := by
  constructor
  · intro h
    exact ⟨fun q u hq hne hu => (Bool.or_eq_false_iff.mp (h q u hq hne hu)).1,
      fun q u hq hne hu => (Bool.or_eq_false_iff.mp (h q u hq hne hu)).2⟩
  · rintro ⟨h, h'⟩ q u hq hne hu
    exact Bool.or_eq_false_iff.mpr ⟨h q u hq hne hu, h' q u hq hne hu⟩

theorem findsAt_iff : t.FindsAt wanted closed p ↔
    (∃ u, t.at? p = some u ∧ wanted u = true) ∧ t.ClearTo p wanted ∧ t.ClearTo p closed :=
  and_congr_right fun _ => clearTo_or

/-- Around a place whose node has a property there is a first one whose node has it. -/
theorem exists_clearTo (h : t.at? p = some u) (hu : wanted u = true) :
    ∃ q v, q <+: p ∧ t.at? q = some v ∧ wanted v = true ∧ t.ClearTo q wanted := by
  induction p generalizing t with
  | nil => exact ⟨[], u, List.nil_prefix, h, hu, clearTo_nil⟩
  | cons i p ih =>
      cases ht : wanted t with
      | true => exact ⟨[], t, List.nil_prefix, rfl, ht, clearTo_nil⟩
      | false =>
          obtain ⟨w, hw, h⟩ := Option.bind_eq_some_iff.mp h
          obtain ⟨q, v, hq, hv, hwanted, hclear⟩ := ih h
          refine ⟨i :: q, v, List.cons_prefix_cons.mpr ⟨rfl, hq⟩, ?_, hwanted, ?_⟩
          · rw [Tree.at?, hw]
            exact hv
          · refine clearTo_cons.mpr ⟨ht, fun w' hw' => ?_⟩
            cases hw.symm.trans hw'
            exact hclear

/-- Of two places around a third, with the same property and with none of it around
them, neither is around the other. -/
theorem eq_of_clearTo {r : Place} {v : Tree} (hp : p <+: r) (hq : q <+: r)
    (hu : t.at? p = some u) (hv : t.at? q = some v) (hwu : wanted u = true)
    (hwv : wanted v = true) (hcp : t.ClearTo p wanted) (hcq : t.ClearTo q wanted) : p = q := by
  rcases List.prefix_or_prefix_of_prefix hp hq with h | h
  · by_contra hne
    exact absurd hwu (Bool.eq_false_iff.mp (hcq p u h hne hu))
  · by_contra hne
    exact absurd hwv (Bool.eq_false_iff.mp (hcp q v h (Ne.symm hne) hv))

/-! ## The places that are listed -/

section

variable (wanted closed)

mutual

theorem forall₂_placesOf : ∀ t : Tree,
    List.Forall₂ (fun p u => t.at? p = some u) (placesOf wanted closed t)
      (outermost wanted closed t)
  | .node k s cs => by
      rw [placesOf, outermost]
      split
      · exact .cons rfl .nil
      · split
        · exact .nil
        · exact forall₂_placesIn (.node k s cs) cs 0 rfl

/-- Each node that is listed is found at its place. -/
theorem forall₂_placesIn (t : Tree) : ∀ (ts : List Tree) (i : Nat), t.children.drop i = ts →
    List.Forall₂ (fun p u => t.at? p = some u) (placesIn wanted closed i ts)
      (outermostOf wanted closed ts)
  | [], _, _ => .nil
  | u :: us, i, h => by
      have hu : t.children[i]? = some u := by
        rw [← List.head?_drop, h]
        rfl
      refine List.rel_append ?_ (forall₂_placesIn t us (i + 1) ?_)
      · rw [List.forall₂_map_left_iff]
        refine (forall₂_placesOf u).imp fun p v hp => ?_
        rw [Tree.at?, hu]
        exact hp
      · rw [← List.drop_drop, h, List.drop_one, List.tail_cons]

end

variable {wanted closed}

mutual

/-- A place is listed if its node has the property and the search gets there. -/
theorem mem_placesOf : ∀ {t : Tree} {p : Place},
    p ∈ placesOf wanted closed t ↔ t.FindsAt wanted closed p
  | .node k s cs, p => by
      cases hw : wanted (.node k s cs) with
      | true =>
          rw [placesOf, if_pos hw, List.mem_singleton]
          constructor
          · rintro rfl
            exact ⟨⟨_, rfl, hw⟩, clearTo_nil⟩
          · rintro ⟨-, hclear⟩
            cases p with
            | nil => rfl
            | cons i p =>
                have hnode := (clearTo_cons.mp hclear).1
                rw [hw, Bool.true_or] at hnode
                cases hnode
      | false =>
          cases hc : closed (.node k s cs) with
          | true =>
              rw [placesOf, hw, hc]
              constructor
              · nofun
              · rintro ⟨⟨u, hu, hwanted⟩, hclear⟩
                cases p with
                | nil =>
                    cases hu
                    rw [hw] at hwanted
                    cases hwanted
                | cons i p =>
                    have hnode := (clearTo_cons.mp hclear).1
                    rw [hc, Bool.or_true] at hnode
                    cases hnode
          | false =>
              rw [placesOf, hw, hc, if_neg Bool.false_ne_true, if_neg Bool.false_ne_true,
                mem_placesIn]
              constructor
              · rintro ⟨j, q, u, rfl, hu, ⟨v, hv, hwanted⟩, hclear⟩
                rw [Nat.zero_add]
                refine ⟨⟨v, ?_, hwanted⟩, clearTo_cons.mpr ⟨by rw [hw, hc]; rfl, ?_⟩⟩
                · rw [Tree.at?, Tree.children, hu]
                  exact hv
                · intro u' hu'
                  cases hu.symm.trans hu'
                  exact hclear
              · rintro ⟨⟨v, hv, hwanted⟩, hclear⟩
                cases p with
                | nil =>
                    cases hv
                    rw [hw] at hwanted
                    cases hwanted
                | cons i p =>
                    obtain ⟨u, hu, hv⟩ := Option.bind_eq_some_iff.mp hv
                    exact ⟨i, p, u, by rw [Nat.zero_add], hu,
                      ⟨v, hv, hwanted⟩, (clearTo_cons.mp hclear).2 u hu⟩

theorem mem_placesIn : ∀ {ts : List Tree} {i : Nat} {p : Place},
    p ∈ placesIn wanted closed i ts ↔
      ∃ j q u, p = (i + j) :: q ∧ ts[j]? = some u ∧ u.FindsAt wanted closed q
  | [], i, p => by
      constructor
      · nofun
      · rintro ⟨j, q, u, -, hu, -⟩
        cases hu
  | t :: ts, i, p => by
      rw [placesIn, List.mem_append, List.mem_map, mem_placesIn]
      constructor
      · rintro (⟨q, hq, rfl⟩ | ⟨j, q, u, rfl, hu, hq⟩)
        · exact ⟨0, q, t, rfl, rfl, mem_placesOf.mp hq⟩
        · exact ⟨j + 1, q, u, by rw [Nat.add_assoc, Nat.add_comm 1], hu, hq⟩
      · rintro ⟨j, q, u, rfl, hu, hq⟩
        cases j with
        | zero =>
            cases hu
            exact Or.inl ⟨q, mem_placesOf.mpr hq, rfl⟩
        | succ j => exact Or.inr ⟨j, q, u, by rw [Nat.add_assoc, Nat.add_comm 1], hu, hq⟩

end

mutual

theorem pairwise_placesOf : ∀ t : Tree, (placesOf wanted closed t).Pairwise (· < ·)
  | .node k s cs => by
      rw [placesOf]
      split
      · exact List.pairwise_singleton _ _
      · split
        · exact .nil
        · exact pairwise_placesIn cs 0

/-- The places are listed in the order of the text. -/
theorem pairwise_placesIn : ∀ (ts : List Tree) (i : Nat),
    (placesIn wanted closed i ts).Pairwise (· < ·)
  | [], _ => .nil
  | t :: ts, i => by
      rw [placesIn]
      refine List.pairwise_append.mpr ⟨?_, pairwise_placesIn ts (i + 1), ?_⟩
      · rw [List.pairwise_map]
        refine (pairwise_placesOf t).imp fun h => ?_
        exact List.cons_lt_cons_iff.mpr (Or.inr ⟨rfl, h⟩)
      · rintro _ hp _ hq
        obtain ⟨p, -, rfl⟩ := List.mem_map.mp hp
        obtain ⟨j, q, u, rfl, -, -⟩ := mem_placesIn.mp hq
        exact List.cons_lt_cons_iff.mpr (Or.inl (by omega))

end

end

end StaticStyle.Syntax
