import StaticStyle.Proofs.Css.Items

/-!
# Rows that are sound

A row of components is sound if each of its items is (`sound_iff`).  How deep it may nest does not
matter as long as that is not less than the number of its components, so a text is a
stylesheet if its components are sound at all and in order (`isSheet_iff`).
-/

namespace StaticStyle.Css

open Component (anyFaulty sizeOfAll)

variable {level : Level} {cs block : List Component} {item : Item} {content : Content}
  {P Q : Level → List Component → Prop}

/-! ## Items -/

/-- A block at a level holds what it may, if `P` says which rows of components are valid. -/
def SoundBlock (P : Level → List Component → Prop) (level : Level) : Content → List Component → Prop
  | .items, block => P level.inside block
  | .rule, block => P .rule block
  | .boxes declares names, block => (items .rule block).all (isBoxItem declares names) = true
  | .property, block => isProperty (items .rule block) = true
  | .tokens, block => anyFaulty block = false
  | .anything, _ => True

/-- An item is valid at a level, if `P` says which rows of components are. -/
def SoundItem (P : Level → List Component → Prop) (level : Level) : Item → Prop
  | .atRule name params none =>
      ∃ rule, AtRule.known? level name.keyword = some rule ∧ rule.takes params = true ∧
        rule.isBare params = true
  | .atRule name params (some block) =>
      ∃ rule, AtRule.known? level name.keyword = some rule ∧ rule.takes params = true ∧
        ∃ content, rule.content params = some content ∧ SoundBlock P level content block
  | .rule selector block => Selector.isList level.inRule selector = true ∧ P .rule block
  | .declaration _ _ => True
  | .broken => False

theorem SoundBlock.mono (h : SoundBlock P level content block)
    (hblock : ∀ level, P level block → Q level block) : SoundBlock Q level content block := by
  cases content with
  | items => exact hblock _ h
  | rule => exact hblock _ h
  | boxes | property | tokens | anything => exact h

/-- An item stays valid if its block does. -/
theorem SoundItem.mono (h : SoundItem P level item)
    (hblock : ∀ block ∈ item.block?, ∀ level, P level block → Q level block) :
    SoundItem Q level item := by
  cases item with
  | atRule name params block =>
      cases block with
      | none => exact h
      | some block =>
          obtain ⟨rule, hknown, htakes, content, hcontent, hsound⟩ := h
          exact ⟨rule, hknown, htakes, content, hcontent, hsound.mono (hblock block rfl)⟩
  | rule selector block => exact ⟨h.1, hblock block rfl .rule h.2⟩
  | declaration name value => trivial
  | broken => exact h

variable {judge : Level → List Component → Bool}

theorem isSoundBlock_iff :
    isSoundBlock level judge content block = true ↔
      SoundBlock (fun level row => judge level row = true) level content block := by
  cases content with
  | items | rule | boxes | property => exact Iff.rfl
  | tokens => exact Bool.not_eq_true' _ ▸ Iff.rfl
  | anything => exact iff_of_true rfl trivial

theorem isSoundItem_iff :
    isSoundItem level judge item = true ↔
      SoundItem (fun level row => judge level row = true) level item := by
  cases item with
  | atRule name params block =>
      unfold isSoundItem
      dsimp only
      cases hknown : AtRule.known? level name.keyword with
      | none =>
          refine iff_of_false Bool.false_ne_true fun h => ?_
          cases block <;> obtain ⟨rule, hrule, -⟩ := h <;> rw [hknown] at hrule <;> cases hrule
      | some rule =>
          cases block with
          | none =>
              simp only [SoundItem, hknown, Option.some.injEq, exists_eq_left', Bool.and_eq_true]
          | some block =>
              simp only [SoundItem, hknown, Option.some.injEq, exists_eq_left', Bool.and_eq_true,
                Option.any_eq_true, isSoundBlock_iff]
  | rule selector block => exact Bool.and_eq_true_iff
  | declaration name value => exact iff_of_true rfl trivial
  | broken => exact iff_of_false Bool.false_ne_true id

/-! ## Rows -/

theorem isSound_succ (level : Level) (depth : Nat) (cs : List Component) :
    isSound level (depth + 1) cs = true ↔
      ∀ item ∈ items level cs,
        SoundItem (fun level row => isSound level depth row = true) level item := by
  rw [isSound, List.all_eq_true]
  exact forall₂_congr fun item _ => isSoundItem_iff

/-- A sound row is sound as long as it may nest as deep as it has components. -/
theorem isSound_of_size {depth depth' : Nat} (h : isSound level depth cs = true)
    (hsize : sizeOfAll cs < depth') : isSound level depth' cs = true := by
  induction depth generalizing level cs depth' with
  | zero => cases h
  | succ depth ih =>
      obtain ⟨depth', rfl⟩ : ∃ n, depth' = n + 1 := ⟨depth' - 1, by omega⟩
      rw [isSound_succ] at h ⊢
      intro item hitem
      refine (h item hitem).mono fun block hblock level hsound => ?_
      have hlt := block_lt_of_mem_items hitem block hblock
      exact ih hsound (by omega)

/-- A row of components is made of items that are valid at a level. -/
def Sound (level : Level) (cs : List Component) : Prop := ∃ depth, isSound level depth cs = true

theorem sound_iff_isSound {depth : Nat} (hsize : sizeOfAll cs < depth) :
    Sound level cs ↔ isSound level depth cs = true :=
  ⟨fun ⟨_, h⟩ => isSound_of_size h hsize, fun h => ⟨depth, h⟩⟩

/-- A row is sound exactly if all its items are. -/
theorem sound_iff : Sound level cs ↔ ∀ item ∈ items level cs, SoundItem Sound level item := by
  have hsize : sizeOfAll cs < sizeOfAll cs + 1 := Nat.lt_succ_self _
  rw [sound_iff_isSound hsize, isSound_succ]
  refine forall₂_congr fun item hitem => ?_
  have hblock : ∀ block ∈ item.block?, ∀ level,
      isSound level (sizeOfAll cs) block = true ↔ Sound level block := fun block hblock level =>
    (sound_iff_isSound (block_lt_of_mem_items hitem block hblock)).symm
  exact ⟨fun h => h.mono fun block hmem level => (hblock block hmem level).mp,
    fun h => h.mono fun block hmem level => (hblock block hmem level).mpr⟩

/-! ## Texts -/

/-- A text is a stylesheet exactly if its components are sound and in order. -/
theorem isSheet_iff (s : List Char) :
    isSheet s = true ↔
      Sound .top (Component.ofText s) ∧
        isOrdered .opening (marksOf (Component.ofText s)) = true := by
  have hsize := Component.sizeOfAll_ofText_le s
  have hsound : Sound .top (Component.ofText s) ↔
      isSound .top (s.length + 1) (Component.ofText s) = true :=
    sound_iff_isSound (by omega)
  rw [hsound, isSheet, Bool.and_eq_true]

/-- Whether a text is valid as a part of what stands at a level. -/
def isPartText (level : Level) (s : List Char) : Bool :=
  isSound level (s.length + 1) (Component.ofText s)

theorem isPartText_iff (level : Level) (s : List Char) :
    isPartText level s = true ↔ Sound level (Component.ofText s) := by
  have hsize := Component.sizeOfAll_ofText_le s
  have hsound : Sound level (Component.ofText s) ↔ isPartText level s = true :=
    sound_iff_isSound (by omega)
  exact hsound.symm

end StaticStyle.Css
