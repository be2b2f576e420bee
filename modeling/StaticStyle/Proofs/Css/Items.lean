import Mathlib.Data.List.DropRight
import Mathlib.Data.List.Infix
import Mathlib.Data.List.TakeWhile
import StaticStyle.Css.Sheet
import StaticStyle.Proofs.Css.Brackets

/-!
# The items of a row of components

Items are taken off a row one after another (`items_of_cons`).  An item *has ended* when its block
or its semicolon is there, so that it is the same item whatever follows
(`nextItem_append`).  What is left of a row from its first item on that has not ended can
still become something else: `openItem`.  A row that leaves no such item goes on with
the items of what follows (`items_append`).
-/

namespace StaticStyle.Css

open Component (isGap isBraces trim anyFaulty size sizeOfAll)

variable {level : Level} {c : Component} {cs rest : List Component} {item : Item} {name : Token}

/-! ## What an item takes -/

/-- The block of an item. -/
def Item.block? : Item → Option (List Component)
  | .atRule _ _ block => block
  | .rule _ block => some block
  | .declaration _ _ => none
  | .broken => none

/-- What an item leaves is the end of the row, shorter than the row, and its block is inside the
row. -/
structure Takes (cs : List Component) (next : Item × List Component) : Prop where
  suffix : next.2 <:+ cs
  length_le : next.2.length ≤ cs.length - 1
  block_lt : ∀ block ∈ next.1.block?, sizeOfAll block < sizeOfAll cs

theorem Takes.append_left {next : Item × List Component} (h : Takes cs next)
    (front : List Component) : Takes (front ++ cs) next where
  suffix := h.suffix.trans (List.suffix_append front cs)
  length_le := by
    have hle := h.length_le
    rw [List.length_append]
    omega
  block_lt block hblock := by
    have hlt := h.block_lt block hblock
    rw [Component.sizeOfAll_append]
    omega

theorem takes_block (opening : Token) {block : List Component} (hitem : item.block? = some block)
    (rest : List Component) : Takes (.block opening block :: rest) (item, rest) where
  suffix := List.suffix_cons _ _
  length_le := le_rfl
  block_lt block' hblock := by
    rw [hitem] at hblock
    cases hblock
    rw [sizeOfAll, size]
    omega

theorem takes_plain {i : Item} (hitem : i.block? = none) (cs : List Component) :
    Takes cs (i, cs.drop 1) where
  suffix := List.drop_suffix 1 cs
  length_le := by rw [List.length_drop]
  block_lt block hblock := by
    rw [hitem] at hblock
    cases hblock

theorem takes_all (hitem : item.block? = none) (cs : List Component) : Takes cs (item, []) where
  suffix := List.nil_suffix
  length_le := Nat.zero_le _
  block_lt block hblock := by
    rw [hitem] at hblock
    cases hblock

theorem takes_ruleItem (level : Level) (cs : List Component) : Takes cs (ruleItem level cs) := by
  have htext := span_text (fun c => !isBraces c && !(level.inRule && isEnd c)) cs
  unfold ruleItem
  dsimp only
  split
  · rename_i opening block rest heq
    rw [heq] at htext
    rw [← htext]
    exact (takes_block opening rfl rest).append_left _
  · exact takes_all rfl cs

theorem takes_atItem (name : Token) (cs : List Component) : Takes cs (atItem name cs) := by
  have htext := span_text (fun c => !isBraces c && !isEnd c) cs
  unfold atItem
  dsimp only
  split
  · rename_i opening block rest heq
    rw [heq] at htext
    rw [← htext]
    exact (takes_block opening rfl rest).append_left _
  · rename_i c rest _ heq
    rw [heq] at htext
    rw [← htext]
    exact (takes_plain rfl (c :: rest)).append_left _
  · exact takes_all rfl cs

theorem takes_blockItem (cs : List Component) : Takes cs (blockItem cs) := by
  have htext := span_text (fun c => !isEnd c) cs
  unfold blockItem
  dsimp only
  split
  · rename_i name value _
    have hall := (takes_plain (i := .declaration name value) rfl
      (cs.span fun c => !isEnd c).2).append_left (cs.span fun c => !isEnd c).1
    rw [htext] at hall
    exact hall
  · exact takes_ruleItem .rule cs

/-- The next item leaves less than the row. -/
theorem takes_nextItem (level : Level) (c : Component) (rest : List Component) :
    Takes (c :: rest) (nextItem level c rest) := by
  unfold nextItem
  split
  · split
    · exact (takes_atItem _ rest).append_left [_]
    · split
      · exact takes_blockItem _
      · exact takes_ruleItem level _
  · exact takes_ruleItem level _

/-! ## Rows of items -/

/-- Where the next item starts, and what it leaves, is in the row. -/
theorem length_nextItem_lt (h : cs.dropWhile (isFiller level) = c :: rest) :
    (nextItem level c rest).2.length < cs.length := by
  have hrest := (takes_nextItem level c rest).length_le
  have hdrop := (List.dropWhile_suffix (isFiller level) (l := cs)).length_le
  rw [h, List.length_cons] at hdrop
  rw [List.length_cons] at hrest
  omega

theorem itemsWithin_eq {count count' : Nat} (h : cs.length < count) (h' : cs.length < count') :
    itemsWithin level count cs = itemsWithin level count' cs := by
  induction count generalizing count' cs with
  | zero => exact absurd h (Nat.not_lt_zero _)
  | succ count ih =>
      obtain ⟨count', rfl⟩ : ∃ n, count' = n + 1 := ⟨count' - 1, by omega⟩
      rw [itemsWithin, itemsWithin]
      split
      · rfl
      · rename_i c rest heq
        have hlt := length_nextItem_lt heq
        have hrest : itemsWithin level count (nextItem level c rest).2 =
            itemsWithin level count' (nextItem level c rest).2 := ih (by omega) (by omega)
        exact congrArg ((nextItem level c rest).1 :: ·) hrest

theorem items_of_nil (h : cs.dropWhile (isFiller level) = []) : items level cs = [] := by
  rw [items, itemsWithin, h]

theorem items_of_cons (h : cs.dropWhile (isFiller level) = c :: rest) :
    items level cs = (nextItem level c rest).1 :: items level (nextItem level c rest).2 := by
  have hrest : itemsWithin level cs.length (nextItem level c rest).2 =
      items level (nextItem level c rest).2 :=
    itemsWithin_eq (length_nextItem_lt h) (Nat.lt_succ_self _)
  rw [items, itemsWithin, h, ← hrest]

/-- A property of rows holds if it holds of those without an item, and goes from what the first
item leaves to the whole. -/
theorem items_induction (level : Level) {P : List Component → Prop}
    (nil : ∀ cs, cs.dropWhile (isFiller level) = [] → P cs)
    (cons : ∀ cs c rest, cs.dropWhile (isFiller level) = c :: rest →
      P (nextItem level c rest).2 → P cs)
    (cs : List Component) : P cs := by
  induction hlength : cs.length using Nat.strong_induction_on generalizing cs with
  | h length ih =>
      cases heq : cs.dropWhile (isFiller level) with
      | nil => exact nil cs heq
      | cons c rest =>
          have hlt := length_nextItem_lt heq
          exact cons cs c rest heq (ih _ (by omega) _ rfl)

/-- The block of an item is smaller than the row. -/
theorem block_lt_of_mem_items (h : item ∈ items level cs) :
    ∀ block ∈ item.block?, sizeOfAll block < sizeOfAll cs := by
  induction cs using items_induction level with
  | nil cs hnil =>
      rw [items_of_nil hnil] at h
      cases h
  | cons cs c rest heq ih =>
      have htakes := takes_nextItem level c rest
      have hdrop := Component.sizeOfAll_le_of_suffix (List.dropWhile_suffix (isFiller level) (l := cs))
      rw [heq] at hdrop
      rw [items_of_cons heq] at h
      intro block hblock
      rcases List.mem_cons.mp h with rfl | h
      · exact (htakes.block_lt block hblock).trans_le hdrop
      · have hrest := Component.sizeOfAll_le_of_suffix htakes.suffix
        exact (ih h block hblock).trans_le (hrest.trans hdrop)

/-! ## Items that have ended -/

/-- Whether the components behind a name start with a colon. -/
def isNamed (rest : List Component) : Bool :=
  (rest.dropWhile isGap).head?.any (Component.isToken .colon)

/-- Whether an item goes on up to a mark that is not there: an at-rule up to its block or
semicolon, and in a block what starts as a declaration up to its semicolon. -/
def goesOn (level : Level) (c : Component) (rest : List Component) : Bool :=
  match c with
  | .token t =>
      if t.kind == .atKeyword then rest.all fun d => !isBraces d && !isEnd d
      else level.inRule && t.kind == .ident && isNamed rest && rest.all fun d => !isEnd d
  | .block _ _ => false

/-- Whether an item is broken. -/
def Item.isBroken : Item → Bool
  | .broken => true
  | _ => false

/-- Whether the item that starts with a component is the same whatever follows the others. -/
def hasEnded (level : Level) (c : Component) (rest : List Component) : Bool :=
  !goesOn level c rest && !(nextItem level c rest).1.isBroken

theorem span_ne_nil {α : Type} {p : α → Bool} {s : List α} (h : s.all p = false) :
    (s.span p).2 ≠ [] := by
  rw [List.span_eq_takeWhile_dropWhile]
  intro hnil
  rw [List.all_eq_true.mpr (List.dropWhile_eq_nil_iff.mp hnil)] at h
  cases h

theorem ruleItem_append (h : (ruleItem level cs).1.isBroken = false) (more : List Component) :
    ruleItem level (cs ++ more) = ((ruleItem level cs).1, (ruleItem level cs).2 ++ more) := by
  unfold ruleItem at h ⊢
  dsimp only at h ⊢
  split at h
  · rename_i opening block rest heq
    rw [span_append (by rw [heq]; exact List.cons_ne_nil _ _), heq]
    rfl
  · cases h

theorem atItem_append (h : (cs.all fun d => !isBraces d && !isEnd d) = false)
    (more : List Component) :
    atItem name (cs ++ more) = ((atItem name cs).1, (atItem name cs).2 ++ more) := by
  have hne := span_ne_nil h
  unfold atItem
  dsimp only
  rw [span_append hne]
  obtain ⟨d, rest, heq⟩ := List.exists_cons_of_ne_nil hne
  rw [heq]
  cases d <;> rfl

theorem ruleItem_of_all (h : ∀ d ∈ cs, isBraces d = false ∧ (level.inRule && isEnd d) = false) :
    ruleItem level cs = (.broken, []) := by
  have hnil : (cs.span fun c => !isBraces c && !(level.inRule && isEnd c)).2 = [] := by
    rw [List.span_eq_takeWhile_dropWhile]
    refine List.dropWhile_eq_nil_iff.mpr fun d hd => ?_
    rw [(h d hd).1, (h d hd).2]
    rfl
  unfold ruleItem
  dsimp only
  rw [hnil]

theorem isToken_of_isGap (h : isGap c = true) :
    ∃ t, c = .token t ∧ (t.kind = .blank ∨ t.kind = .comment) := by
  cases c with
  | token t =>
      refine ⟨t, rfl, ?_⟩
      simpa [isGap, Component.isToken, Component.kind?] using h
  | block opening items => cases h

theorem not_isBraces_of_isGap (h : isGap c = true) : isBraces c = false := by
  obtain ⟨t, rfl, -⟩ := isToken_of_isGap h
  rfl

theorem not_isEnd_of_isGap (h : isGap c = true) : isEnd c = false := by
  obtain ⟨t, rfl, hkind | hkind⟩ := isToken_of_isGap h <;>
    simp [isEnd, Component.isToken, Component.kind?, hkind]

theorem isNamed_append (h : rest.dropWhile isGap ≠ []) (more : List Component) :
    isNamed (rest ++ more) = isNamed rest := by
  obtain ⟨d, ds, heq⟩ := List.exists_cons_of_ne_nil h
  rw [isNamed, isNamed, List.dropWhile_append, if_neg (by rw [List.isEmpty_iff]; exact h), heq]
  rfl

theorem declaration?_of_not_named (h : isNamed rest = false) (name : Token) :
    declaration? (.token name :: rest) = none := by
  unfold isNamed at h
  unfold declaration?
  dsimp only
  split
  · rename_i d value heq
    rw [heq] at h
    rw [if_neg]
    rw [Bool.and_eq_true, Bool.and_eq_true, Bool.and_eq_true]
    rintro ⟨⟨⟨-, hcolon⟩, -⟩, -⟩
    rw [List.head?_cons, Option.any_some, hcolon] at h
    cases h
  · rfl

/-- What does not start as a declaration is a rule. -/
theorem blockItem_of_not_named (h : isNamed rest = false) (hname : isEnd (.token name) = false) :
    blockItem (.token name :: rest) = ruleItem .rule (.token name :: rest) := by
  have htext : isNamed (rest.takeWhile fun d => !isEnd d) = false := by
    by_contra hnamed
    have hne : (rest.takeWhile fun d => !isEnd d).dropWhile isGap ≠ [] := by
      intro hnil
      rw [isNamed, hnil] at hnamed
      exact hnamed rfl
    have happend := isNamed_append hne (rest.dropWhile fun d => !isEnd d)
    rw [List.takeWhile_append_dropWhile, h] at happend
    exact hnamed happend.symm
  unfold blockItem
  rw [List.span_eq_takeWhile_dropWhile, List.takeWhile_cons_of_pos (by rw [hname]; rfl)]
  dsimp only
  rw [declaration?_of_not_named htext]

theorem blockItem_append
    (hgoes : isNamed rest = true → (rest.all fun d => !isEnd d) = false)
    (hname : isEnd (.token name) = false)
    (h : (blockItem (.token name :: rest)).1.isBroken = false) (more : List Component) :
    blockItem (.token name :: (rest ++ more)) =
      ((blockItem (.token name :: rest)).1, (blockItem (.token name :: rest)).2 ++ more) := by
  cases hnamed : isNamed rest with
  | true =>
      -- the semicolon is there, so what stands in front of it is the same
      have hne : ((Component.token name :: rest).span fun d => !isEnd d).2 ≠ [] := by
        refine span_ne_nil ?_
        rw [List.all_cons, hgoes hnamed, Bool.and_false]
      obtain ⟨d, ds, heq⟩ := List.exists_cons_of_ne_nil hne
      unfold blockItem at h ⊢
      rw [← List.cons_append, span_append hne]
      dsimp only at h ⊢
      split
      · rw [heq]
        rfl
      · rename_i hnone
        rw [hnone] at h
        exact ruleItem_append h more
  | false =>
      rw [blockItem_of_not_named hnamed hname] at h ⊢
      have hne : rest.dropWhile isGap ≠ [] := by
        intro hnil
        rw [ruleItem_of_all] at h
        · cases h
        · intro d hd
          rcases List.mem_cons.mp hd with rfl | hd
          · exact ⟨rfl, by rw [hname]; rfl⟩
          · have hgap := List.dropWhile_eq_nil_iff.mp hnil d hd
            exact ⟨not_isBraces_of_isGap hgap, by rw [not_isEnd_of_isGap hgap]; rfl⟩
      rw [blockItem_of_not_named ((isNamed_append hne more).trans hnamed) hname]
      exact ruleItem_append h more

/-- An item that has ended is the same whatever follows. -/
theorem nextItem_append (h : hasEnded level c rest = true) (more : List Component) :
    nextItem level c (rest ++ more) =
      ((nextItem level c rest).1, (nextItem level c rest).2 ++ more) := by
  rw [hasEnded, Bool.and_eq_true, Bool.not_eq_true', Bool.not_eq_true'] at h
  obtain ⟨hgoes, hbroken⟩ := h
  cases c with
  | block opening block => exact ruleItem_append hbroken more
  | token t =>
      unfold nextItem goesOn at *
      dsimp only at *
      split
      · rename_i hat
        rw [if_pos hat] at hgoes
        exact atItem_append hgoes more
      · rename_i hat
        rw [if_neg hat] at hgoes hbroken
        split
        · rename_i hident
          rw [if_pos hident] at hbroken
          have hname : isEnd (.token t) = false := by
            rw [Bool.and_eq_true, beq_iff_eq] at hident
            simp [isEnd, Component.isToken, Component.kind?, hident.2]
          refine blockItem_append (fun hnamed => ?_) hname hbroken more
          rw [hident, hnamed] at hgoes
          exact hgoes
        · rename_i hident
          rw [if_neg hident] at hbroken
          exact ruleItem_append hbroken more

/-! ## What is left of a row -/

/-- A row from its first item on that has not ended, at most so many items on. -/
def openItemWithin (level : Level) : (count : Nat) → List Component → List Component
  | 0, _ => []
  | count + 1, cs =>
      match cs.dropWhile (isFiller level) with
      | [] => []
      | c :: rest =>
          if hasEnded level c rest then openItemWithin level count (nextItem level c rest).2
          else c :: rest

/-- A row, at a level, from its first item on that has not ended. -/
def openItem (level : Level) (cs : List Component) : List Component :=
  openItemWithin level (cs.length + 1) cs

theorem dropWhile_append_of_cons {p : Component → Bool} (h : cs.dropWhile p = c :: rest)
    (more : List Component) : (cs ++ more).dropWhile p = c :: (rest ++ more) := by
  rw [List.dropWhile_append, if_neg (by rw [h]; exact Bool.false_ne_true), h]
  rfl

theorem items_filler (h : ∀ c ∈ cs, isFiller level c = true) (more : List Component) :
    items level (cs ++ more) = items level more := by
  have hdrop : (cs ++ more).dropWhile (isFiller level) = more.dropWhile (isFiller level) :=
    List.dropWhile_append_of_pos h
  cases heq : more.dropWhile (isFiller level) with
  | nil => rw [items_of_nil heq, items_of_nil (hdrop.trans heq)]
  | cons c rest => rw [items_of_cons heq, items_of_cons (hdrop.trans heq)]

/-- The items of a row that goes on are those that have ended, and those from the first one on that
has not. -/
theorem exists_items_openItem (level : Level) (cs : List Component) :
    ∃ ended, ∀ more,
      items level (cs ++ more) = ended ++ items level (openItem level cs ++ more) := by
  have hwithin : ∀ count (cs : List Component), cs.length < count →
      ∃ ended, ∀ more, items level (cs ++ more) =
        ended ++ items level (openItemWithin level count cs ++ more) := by
    intro count
    induction count with
    | zero => exact fun cs h => absurd h (Nat.not_lt_zero _)
    | succ count ih =>
        intro cs hcount
        rw [openItemWithin]
        split
        · rename_i hnil
          exact ⟨[], items_filler (List.dropWhile_eq_nil_iff.mp hnil)⟩
        · rename_i c rest heq
          split
          · rename_i hended
            have hlt := length_nextItem_lt heq
            obtain ⟨ended, hitems⟩ := ih (nextItem level c rest).2 (by omega)
            refine ⟨(nextItem level c rest).1 :: ended, fun more => ?_⟩
            rw [items_of_cons (dropWhile_append_of_cons heq more), nextItem_append hended, hitems]
            rfl
          · refine ⟨[], fun more => ?_⟩
            have hself : (c :: rest).dropWhile (isFiller level) = c :: rest := by
              rw [← heq, List.dropWhile_idempotent]
            rw [items_of_cons (dropWhile_append_of_cons heq more), List.nil_append,
              items_of_cons (dropWhile_append_of_cons hself more)]
  exact hwithin _ cs (Nat.lt_succ_self _)

/-- What is left of a row starts with an item. -/
theorem not_isFiller_of_openItem (h : openItem level cs = c :: rest) :
    isFiller level c = false := by
  have hwithin : ∀ count cs, openItemWithin level count cs = c :: rest →
      isFiller level c = false := by
    intro count
    induction count with
    | zero => exact fun _ h => absurd h (List.cons_ne_nil _ _).symm
    | succ count ih =>
        intro cs h
        rw [openItemWithin] at h
        split at h
        · cases h
        · rename_i heq
          split at h
          · exact ih _ h
          · cases h
            have hhead := List.head?_dropWhile_not (isFiller level) cs
            rw [heq] at hhead
            exact hhead
  exact hwithin _ cs h

/-- A row whose items have all ended goes on with the items of what follows. -/
theorem items_append (h : openItem level cs = []) (more : List Component) :
    items level (cs ++ more) = items level cs ++ items level more := by
  obtain ⟨ended, hitems⟩ := exists_items_openItem level cs
  have hcs := hitems []
  rw [h] at hitems hcs
  rw [List.append_nil, List.append_nil, items_of_nil List.dropWhile_nil, List.append_nil] at hcs
  rw [hitems, hcs, List.nil_append]

end StaticStyle.Css
