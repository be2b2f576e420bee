import Mathlib.Data.List.Basic
import StaticStyle.Style

/-!
# The canonical text determines the style

`Style.canonicalText` escapes nothing.  It can be read back all the same if the
characters that it puts between its parts stand in none of them.  A *mark* is a
character that ends a declaration or that opens or closes a block.  A style is
`Clean` if there is no mark in its keys and texts, and no colon in the key of a
declaration either; the key of a block and a text may have colons.

What the text cannot show is how a property was spelled and whether a value was
written as a number.  `Style.normalized` forgets both, and
`Style.canonicalText_eq_iff` says that two clean styles have one text exactly if
they are equal after that: same entries, same order, same nesting.

The proof reads a text from the front.  The first mark says what comes next, a
declaration, a block or the end, and no part reaches beyond it (`eq_of_cut`).
-/

namespace StaticStyle

/-! ## Texts without marks -/

/-- Whether a character ends a declaration or opens or closes a block. -/
def isMark (c : Char) : Bool := c == ';' || c == '{' || c == '}'

/-- No mark stands in a text. -/
def MarkFree (s : List Char) : Prop := ∀ c ∈ s, isMark c = false

instance (s : List Char) : Decidable (MarkFree s) :=
  List.decidableBAll (isMark · = false) s

theorem MarkFree.append {s t : List Char} (hs : MarkFree s) (ht : MarkFree t) :
    MarkFree (s ++ t) := by
  intro c hc
  rcases List.mem_append.mp hc with hc | hc
  · exact hs c hc
  · exact ht c hc

theorem MarkFree.cons {c : Char} {s : List Char} (hc : isMark c = false) (hs : MarkFree s) :
    MarkFree (c :: s) := by
  intro d hd
  rcases List.mem_cons.mp hd with rfl | hd
  · exact hc
  · exact hs d hd

/-- Two texts that are cut behind their parts without a certain kind of character are cut at
the same place. -/
theorem eq_of_cut {stop : Char → Bool} {u v r s : List Char} {x y : Char}
    (hu : ∀ c ∈ u, stop c = false) (hv : ∀ c ∈ v, stop c = false)
    (hx : stop x = true) (hy : stop y = true) (h : u ++ x :: r = v ++ y :: s) :
    u = v ∧ x = y ∧ r = s := by
  induction u generalizing v with
  | nil =>
      cases v with
      | nil =>
          obtain ⟨hxy, hrs⟩ := List.cons.inj h
          exact ⟨rfl, hxy, hrs⟩
      | cons d v =>
          obtain ⟨hxd, -⟩ := List.cons.inj h
          rw [hxd, hv d List.mem_cons_self] at hx
          cases hx
  | cons c u ih =>
      cases v with
      | nil =>
          obtain ⟨hcy, -⟩ := List.cons.inj h
          rw [← hcy, hu c List.mem_cons_self] at hy
          cases hy
      | cons d v =>
          obtain ⟨rfl, h'⟩ := List.cons.inj h
          obtain ⟨rfl, hxy, hrs⟩ := ih (fun e he => hu e (List.mem_cons_of_mem _ he))
            (fun e he => hv e (List.mem_cons_of_mem _ he)) h'
          exact ⟨rfl, hxy, hrs⟩

/-! ## Numbers -/

namespace Number

theorem isMark_of_isDigit {c : Char} (h : c.isDigit = true) : isMark c = false := by
  have hdigit : 48 ≤ c.toNat ∧ c.toNat ≤ 57 := by
    simpa [Char.isDigit, UInt32.le_iff_toNat_le] using h
  have hne : ∀ d : Char, 57 < d.toNat → c ≠ d := by
    intro d hd heq
    rw [heq] at hdigit
    omega
  have h₁ := hne ';' (by decide)
  have h₂ := hne '{' (by decide)
  have h₃ := hne '}' (by decide)
  simp [isMark, h₁, h₂, h₃]

theorem markFree_digitsOf (n : Nat) : MarkFree (digitsOf n) := by
  intro c hc
  exact isMark_of_isDigit (Nat.isDigit_of_mem_toDigits (by decide) (by decide) hc)

theorem markFree_replicate_zero (n : Nat) : MarkFree (List.replicate n '0') := by
  intro c hc
  rw [List.eq_of_mem_replicate hc]
  rfl

theorem markFree_positional {digits : List Char} (point : Int) (h : MarkFree digits) :
    MarkFree (positional digits point) := by
  unfold positional
  dsimp only
  split
  · exact .cons rfl (.cons rfl ((markFree_replicate_zero _).append h))
  · split
    · exact h.append (markFree_replicate_zero _)
    · have htake : MarkFree (digits.take point.toNat) := fun c hc => h c (List.mem_of_mem_take hc)
      have hdrop : MarkFree (digits.drop point.toNat) := fun c hc => h c (List.mem_of_mem_drop hc)
      exact htake.append (.cons rfl hdrop)

theorem markFree_scientific {digits : List Char} (exponent : Int) (h : MarkFree digits) :
    MarkFree (scientific digits exponent) := by
  have htake : MarkFree (digits.take 1) := fun c hc => h c (List.mem_of_mem_take hc)
  have hdrop : MarkFree (digits.drop 1) := fun c hc => h c (List.mem_of_mem_drop hc)
  have hfraction : MarkFree (if digits.length ≤ 1 then [] else '.' :: digits.drop 1) := by
    split
    · exact fun _ hc => absurd hc List.not_mem_nil
    · exact .cons rfl hdrop
  have hsign : isMark (if exponent < 0 then '-' else '+') = false := by
    split
    · rfl
    · rfl
  exact (htake.append hfraction).append (.cons rfl (.cons hsign (markFree_digitsOf _)))

theorem Decimal.markFree_render (d : Decimal) : MarkFree d.render := by
  unfold Decimal.render
  dsimp only
  split
  · exact markFree_positional _ (markFree_digitsOf _)
  · exact markFree_scientific _ (markFree_digitsOf _)

/-- No mark stands in the text of a number. -/
theorem markFree_render (x : Float) : MarkFree (render x).toList := by
  unfold render
  dsimp only
  split
  · decide
  · split
    · split
      · decide
      · decide
    · split
      · decide
      · rw [String.toList_ofList]
        split
        · exact .cons rfl (Decimal.markFree_render _)
        · exact Decimal.markFree_render _

end Number

namespace Style

/-! ## Property names -/

/-- Whether a character is a mark or the colon after the name of a property. -/
def isStop (c : Char) : Bool := isMark c || c == ':'

theorem isMark_of_isStop {c : Char} (h : isStop c = false) : isMark c = false := by
  unfold isStop at h
  rw [Bool.or_eq_false_iff] at h
  exact h.1

/-- The small letter of a capital ends nothing. -/
theorem isStop_toLower {c : Char} (h : c.isUpper = true) : isStop c.toLower = false := by
  have hrange : c.val ≥ 'A'.val ∧ c.val ≤ 'Z'.val := of_decide_eq_true h
  have hupper : 65 ≤ c.toNat ∧ c.toNat ≤ 90 := by
    simpa [UInt32.le_iff_toNat_le] using hrange
  have hlower : c.toLower.toNat = c.toNat + 32 := by
    have hval : c.toLower.val = c.val + 32 := by
      unfold Char.toLower
      rw [dif_pos hrange]
      rfl
    change c.toLower.val.toNat = c.val.toNat + 32
    rw [hval, UInt32.toNat_add]
    have : c.val.toNat ≤ 90 := hupper.2
    simp only [UInt32.reduceToNat]
    omega
  have hne : ∀ d : Char, d.toNat < 97 ∨ 122 < d.toNat → c.toLower ≠ d := by
    intro d hd heq
    rw [heq] at hlower
    omega
  have h₁ := hne ';' (by decide)
  have h₂ := hne '{' (by decide)
  have h₃ := hne '}' (by decide)
  have h₄ := hne ':' (by decide)
  simp [isStop, isMark, h₁, h₂, h₃, h₄]

theorem isStop_of_mem_hyphenateCapitals {key : List Char} (h : ∀ c ∈ key, isStop c = false) :
    ∀ c ∈ hyphenateCapitals key, isStop c = false := by
  intro c hc
  obtain ⟨d, hd, hcd⟩ := List.mem_flatMap.mp hc
  cases hupper : d.isUpper with
  | false =>
      rw [hupper, if_neg Bool.false_ne_true, List.mem_singleton] at hcd
      rw [hcd]
      exact h d hd
  | true =>
      rw [hupper, if_pos rfl] at hcd
      rcases List.mem_cons.mp hcd with rfl | hcd
      · rfl
      · rw [List.mem_singleton.mp hcd]
        exact isStop_toLower hupper

/-- Naming a property brings in no mark and no colon. -/
theorem isStop_of_mem_hyphenate {key : List Char} (h : ∀ c ∈ key, isStop c = false) :
    ∀ c ∈ hyphenate key, isStop c = false := by
  unfold hyphenate
  split
  · exact h
  · split
    · intro c hc
      rcases List.mem_cons.mp hc with rfl | hc
      · rfl
      rcases List.mem_cons.mp hc with rfl | hc
      · rfl
      rcases List.mem_cons.mp hc with rfl | hc
      · rfl
      · exact isStop_of_mem_hyphenateCapitals
          (fun d hd => h d (List.mem_cons_of_mem _ (List.mem_cons_of_mem _ hd))) c hc
    · exact isStop_of_mem_hyphenateCapitals h
  · exact isStop_of_mem_hyphenateCapitals h

/-! ## Clean and normalized styles -/

/-- No mark stands in a value that is a text. -/
def Leaf.Clean : Leaf → Prop
  | .text s => MarkFree s.toList
  | .number _ => True

/-- No mark stands in the keys and texts of a style, and no colon in the key of a
declaration. -/
def Clean : Style → Prop
  | .nil => True
  | .leaf key value rest => (∀ c ∈ key.toList, isStop c = false) ∧ value.Clean ∧ rest.Clean
  | .block key inner rest => MarkFree key.toList ∧ inner.Clean ∧ rest.Clean

instance (value : Leaf) : Decidable value.Clean :=
  match value with
  | .text s => inferInstanceAs (Decidable (MarkFree s.toList))
  | .number _ => .isTrue trivial

instance decidableClean : (a : Style) → Decidable a.Clean
  | .nil => .isTrue trivial
  | .leaf key value rest =>
      have := decidableClean rest
      have := List.decidableBAll (isStop · = false) key.toList
      inferInstanceAs
        (Decidable ((∀ c ∈ key.toList, isStop c = false) ∧ value.Clean ∧ rest.Clean))
  | .block key inner rest =>
      have := decidableClean inner
      have := decidableClean rest
      inferInstanceAs (Decidable (MarkFree key.toList ∧ inner.Clean ∧ rest.Clean))

/-- A value as the text that stands for it. -/
def Leaf.asText : Leaf → String
  | .text s => s
  | .number x => Number.render x

/-- A style with the properties named as in its text and with texts in the place of
numbers. -/
def normalized : Style → Style
  | .nil => .nil
  | .leaf key value rest =>
      .leaf (String.ofList (hyphenate key.toList)) (.text value.asText) rest.normalized
  | .block key inner rest => .block key inner.normalized rest.normalized

theorem Leaf.toList_asText (value : Leaf) : value.asText.toList = value.render := by
  cases value with
  | text s => rfl
  | number x => rfl

theorem Leaf.Clean.markFree {value : Leaf} (h : value.Clean) : MarkFree value.render := by
  cases value with
  | text s => exact h
  | number x => exact Number.markFree_render x

/-! ## Reading a text from the front -/

/-- What may follow a style: nothing, or the end of the block that it stands in. -/
inductive Ending : List Char → Prop where
  | nil : Ending []
  | close (s : List Char) : Ending ('}' :: s)

variable {key key' : String} {value value' : Leaf} {a b inner rest : Style} {r s : List Char}

/-- The part of a declaration in front of its mark. -/
theorem markFree_declaration (hk : ∀ c ∈ key.toList, isStop c = false) (hv : value.Clean) :
    MarkFree (hyphenate key.toList ++ ':' :: value.render) := by
  have hname : MarkFree (hyphenate key.toList) :=
    fun c hc => isMark_of_isStop (isStop_of_mem_hyphenate hk c hc)
  exact hname.append (.cons rfl hv.markFree)

theorem write_leaf_append (key : String) (value : Leaf) (rest : Style) (r : List Char) :
    (leaf key value rest).write ++ r =
      (hyphenate key.toList ++ ':' :: value.render) ++ ';' :: (rest.write ++ r) := by
  simp [write, List.append_assoc]

theorem write_block_append (key : String) (inner rest : Style) (r : List Char) :
    (block key inner rest).write ++ r =
      key.toList ++ '{' :: (inner.write ++ '}' :: (rest.write ++ r)) := by
  simp [write, List.append_assoc]

/-- The first mark of an ending closes a block. -/
theorem Ending.ne_cut {u : List Char} {x : Char} (h : Ending r) (hu : MarkFree u)
    (hx : isMark x = true) (hne : x ≠ '}') : r ≠ u ++ x :: s := by
  cases h with
  | nil =>
      cases u with
      | nil => nofun
      | cons c u => nofun
  | close t =>
      intro heq
      have hcut : ([] : List Char) ++ '}' :: t = u ++ x :: s := heq
      obtain ⟨-, hclose, -⟩ :=
        eq_of_cut (fun _ hc => absurd hc List.not_mem_nil) hu rfl hx hcut
      exact hne hclose.symm

/-- A declaration is told from what follows it, and its name from its value. -/
theorem eq_of_declaration (hk : ∀ c ∈ key.toList, isStop c = false) (hv : value.Clean)
    (hk' : ∀ c ∈ key'.toList, isStop c = false) (hv' : value'.Clean)
    (h : (hyphenate key.toList ++ ':' :: value.render) ++ ';' :: r =
      (hyphenate key'.toList ++ ':' :: value'.render) ++ ';' :: s) :
    hyphenate key.toList = hyphenate key'.toList ∧ value.asText = value'.asText ∧ r = s := by
  obtain ⟨hparts, -, hrest⟩ :=
    eq_of_cut (markFree_declaration hk hv) (markFree_declaration hk' hv') rfl rfl h
  obtain ⟨hname, -, hvalue⟩ :=
    eq_of_cut (isStop_of_mem_hyphenate hk) (isStop_of_mem_hyphenate hk') rfl rfl hparts
  rw [← Leaf.toList_asText, ← Leaf.toList_asText] at hvalue
  exact ⟨hname, String.toList_inj.mp hvalue, hrest⟩

/-- Two clean styles that are followed by endings make one text only if they agree up to the
spelling of properties and numbers, and the endings are the same. -/
theorem normalized_eq_of_write_append (ha : a.Clean) (hb : b.Clean) (hr : Ending r)
    (hs : Ending s) (h : a.write ++ r = b.write ++ s) :
    a.normalized = b.normalized ∧ r = s := by
  -- The rest of a block follows its inner style, so both texts go on after the styles.
  induction a generalizing b r s with
  | nil =>
      cases b with
      | nil => exact ⟨rfl, h⟩
      | leaf key value rest =>
          rw [write_leaf_append] at h
          exact absurd h (hr.ne_cut (markFree_declaration hb.1 hb.2.1) rfl (by decide))
      | block key inner rest =>
          rw [write_block_append] at h
          exact absurd h (hr.ne_cut hb.1 rfl (by decide))
  | leaf key value rest ih =>
      rw [write_leaf_append] at h
      cases b with
      | nil => exact absurd h.symm (hs.ne_cut (markFree_declaration ha.1 ha.2.1) rfl (by decide))
      | leaf key' value' rest' =>
          rw [write_leaf_append] at h
          obtain ⟨hname, hvalue, htail⟩ := eq_of_declaration ha.1 ha.2.1 hb.1 hb.2.1 h
          obtain ⟨hrest, hend⟩ := ih ha.2.2 hb.2.2 hr hs htail
          refine ⟨?_, hend⟩
          rw [normalized, normalized, hname, hvalue, hrest]
      | block key' inner' rest' =>
          rw [write_block_append] at h
          obtain ⟨-, hmark, -⟩ :=
            eq_of_cut (markFree_declaration ha.1 ha.2.1) hb.1 rfl rfl h
          cases hmark
  | block key inner rest ihInner ihRest =>
      rw [write_block_append] at h
      cases b with
      | nil => exact absurd h.symm (hs.ne_cut ha.1 rfl (by decide))
      | leaf key' value' rest' =>
          rw [write_leaf_append] at h
          obtain ⟨-, hmark, -⟩ :=
            eq_of_cut ha.1 (markFree_declaration hb.1 hb.2.1) rfl rfl h
          cases hmark
      | block key' inner' rest' =>
          rw [write_block_append] at h
          obtain ⟨hkey, -, htail⟩ := eq_of_cut ha.1 hb.1 rfl rfl h
          obtain ⟨hinner, hclosed⟩ :=
            ihInner ha.2.1 hb.2.1 (.close _) (.close _) htail
          obtain ⟨-, hafter⟩ := List.cons.inj hclosed
          obtain ⟨hrest, hend⟩ := ihRest ha.2.2 hb.2.2 hr hs hafter
          refine ⟨?_, hend⟩
          rw [normalized, normalized, String.toList_inj.mp hkey, hinner, hrest]

/-- The text of a style shows no more than the normalized style. -/
theorem write_eq_of_normalized_eq (h : a.normalized = b.normalized) : a.write = b.write := by
  induction a generalizing b with
  | nil =>
      cases b with
      | nil => rfl
      | leaf key value rest => cases h
      | block key inner rest => cases h
  | leaf key value rest ih =>
      cases b with
      | nil => cases h
      | leaf key' value' rest' =>
          injection h with hkey hvalue hrest
          injection hvalue with hvalue
          rw [write, write, String.ofList_inj.mp hkey, ← Leaf.toList_asText,
            ← Leaf.toList_asText, hvalue, ih hrest]
      | block key' inner' rest' => cases h
  | block key inner rest ihInner ihRest =>
      cases b with
      | nil => cases h
      | leaf key' value' rest' => cases h
      | block key' inner' rest' =>
          injection h with hkey hinner hrest
          rw [write, write, hkey, ihInner hinner, ihRest hrest]

/-- Two clean styles have the same canonical text exactly if they have the same entries in
the same order and nesting, up to the spelling of properties and numbers. -/
theorem canonicalText_eq_iff (ha : a.Clean) (hb : b.Clean) :
    a.canonicalText = b.canonicalText ↔ a.normalized = b.normalized := by
  constructor
  · intro h
    have hwrite : a.write = b.write := String.ofList_inj.mp h
    have happend : a.write ++ [] = b.write ++ [] := by rw [hwrite]
    exact (normalized_eq_of_write_append ha hb .nil .nil happend).1
  · intro h
    rw [canonicalText, canonicalText, write_eq_of_normalized_eq h]

/-- A colon in a selector and one in a value do no harm, and two spellings of a property are
not told apart. -/
theorem canonicalText_eq_iff_spelled :
    let a : Style := .block "&:hover" (.leaf "msFlex" (.text "a:b") .nil)
      (.block "" .nil (.leaf "fontSize" (.text "2px") .nil))
    let b : Style := .block "&:hover" (.leaf "-ms-flex" (.text "a:b") .nil)
      (.block "" .nil (.leaf "font-size" (.text "2px") .nil))
    a.Clean ∧ b.Clean ∧ a.canonicalText = b.canonicalText ∧ a.normalized = b.normalized := by
  intro a b
  have ha : a.Clean := by decide
  have hb : b.Clean := by decide
  have htext : a.canonicalText = b.canonicalText := by decide
  exact ⟨ha, hb, htext, (canonicalText_eq_iff ha hb).mp htext⟩

end Style

end StaticStyle
