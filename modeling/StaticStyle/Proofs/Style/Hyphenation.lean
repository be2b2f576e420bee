import Mathlib.Data.List.Basic
import StaticStyle.Style

/-!
# Names of properties

`Style.hyphenate` makes a key into the name of a property.  A name is a key that
stays as it is (`hyphenate_hyphenate`), and no capital is left in it, unless the key is
that of a custom property.

The keys of a style object are written without hyphens.  Then every hyphen of a name
stands for a capital, and the capitals can be read back (`eq_of_hyphenateCapitals`).  The
one thing that cannot is how a vendor was written: `ms` in front of a capital gets
the hyphen that `Ms` has anyway (`hyphenate_eq`).  So two keys without hyphens have one
name exactly if they differ in that letter (`hyphenate_injective_but_vendor`).
-/

namespace StaticStyle.Style

variable {c d : Char} {key key' s t : List Char}

/-! ## Capitals -/

theorem isUpper_iff : c.isUpper = true ↔ 65 ≤ c.toNat ∧ c.toNat ≤ 90 := by
  unfold Char.isUpper
  simp [UInt32.le_iff_toNat_le]

/-- The small letter of a capital is 32 places behind it. -/
theorem toNat_toLower (h : c.isUpper = true) : c.toLower.toNat = c.toNat + 32 := by
  obtain ⟨hlow, hhigh⟩ := isUpper_iff.mp h
  have hcode : c.val ≥ 'A'.val ∧ c.val ≤ 'Z'.val :=
    ⟨UInt32.le_iff_toNat_le.mpr hlow, UInt32.le_iff_toNat_le.mpr hhigh⟩
  unfold Char.toLower
  rw [dif_pos hcode]
  change (c.val + 32).toNat = c.toNat + 32
  rw [UInt32.toNat_add]
  change (c.toNat + 32) % 2 ^ 32 = c.toNat + 32
  omega

theorem isUpper_toLower (h : c.isUpper = true) : c.toLower.isUpper = false := by
  have hlower := toNat_toLower h
  have hupper := isUpper_iff.mp h
  rw [Bool.eq_false_iff]
  intro hcontra
  have := isUpper_iff.mp hcontra
  omega

theorem eq_of_toLower_eq (hc : c.isUpper = true) (hd : d.isUpper = true)
    (h : c.toLower = d.toLower) : c = d := by
  have hcode := congrArg Char.toNat h
  rw [toNat_toLower hc, toNat_toLower hd] at hcode
  exact Char.toNat_inj.mp (Nat.add_right_cancel hcode)

/-! ## Capitals as hyphens -/

theorem hyphenateCapitals_of_upper (h : c.isUpper = true) (s : List Char) :
    hyphenateCapitals (c :: s) = '-' :: c.toLower :: hyphenateCapitals s := by
  simp only [hyphenateCapitals, List.flatMap_cons, h, if_true, List.cons_append, List.nil_append]

theorem hyphenateCapitals_of_other (h : c.isUpper = false) (s : List Char) :
    hyphenateCapitals (c :: s) = c :: hyphenateCapitals s := by
  simp only [hyphenateCapitals, List.flatMap_cons, h, if_neg Bool.false_ne_true, List.cons_append,
    List.nil_append]

theorem isUpper_of_mem_hyphenateCapitals (h : c ∈ hyphenateCapitals s) : c.isUpper = false := by
  obtain ⟨d, -, hc⟩ := List.mem_flatMap.mp h
  cases hd : d.isUpper with
  | true =>
      simp only [hd, if_true, List.mem_cons, List.not_mem_nil, or_false] at hc
      rcases hc with rfl | rfl
      · rfl
      · exact isUpper_toLower hd
  | false =>
      simp only [hd, if_neg Bool.false_ne_true, List.mem_singleton] at hc
      rw [hc, hd]

theorem hyphenateCapitals_eq_self (h : ∀ c ∈ s, c.isUpper = false) : hyphenateCapitals s = s := by
  induction s with
  | nil => rfl
  | cons c s ih =>
      rw [hyphenateCapitals_of_other (h c List.mem_cons_self),
        ih fun d hd => h d (List.mem_cons_of_mem c hd)]

/-- Where a text has no hyphens of its own, its capitals can be read back. -/
theorem eq_of_hyphenateCapitals (hs : '-' ∉ s) (ht : '-' ∉ t)
    (h : hyphenateCapitals s = hyphenateCapitals t) : s = t := by
  induction s generalizing t with
  | nil =>
      cases t with
      | nil => rfl
      | cons d t =>
          cases hd : d.isUpper with
          | true => rw [hyphenateCapitals_of_upper hd] at h; cases h
          | false => rw [hyphenateCapitals_of_other hd] at h; cases h
  | cons c s ih =>
      obtain ⟨hc, hs'⟩ := not_or.mp (List.mem_cons.not.mp hs)
      cases t with
      | nil =>
          cases hup : c.isUpper with
          | true => rw [hyphenateCapitals_of_upper hup] at h; cases h
          | false => rw [hyphenateCapitals_of_other hup] at h; cases h
      | cons d t =>
          obtain ⟨hd, ht'⟩ := not_or.mp (List.mem_cons.not.mp ht)
          cases hcup : c.isUpper with
          | true =>
              cases hdup : d.isUpper with
              | true =>
                  rw [hyphenateCapitals_of_upper hcup, hyphenateCapitals_of_upper hdup] at h
                  obtain ⟨-, htail⟩ := List.cons.inj h
                  obtain ⟨hletter, hrest⟩ := List.cons.inj htail
                  obtain rfl := eq_of_toLower_eq hcup hdup hletter
                  rw [ih hs' ht' hrest]
              | false =>
                  -- the hyphen of `c` would have to be `d` itself
                  rw [hyphenateCapitals_of_upper hcup, hyphenateCapitals_of_other hdup] at h
                  exact absurd (List.cons.inj h).1 hd
          | false =>
              cases hdup : d.isUpper with
              | true =>
                  rw [hyphenateCapitals_of_other hcup, hyphenateCapitals_of_upper hdup] at h
                  exact absurd (List.cons.inj h).1.symm hc
              | false =>
                  rw [hyphenateCapitals_of_other hcup, hyphenateCapitals_of_other hdup] at h
                  obtain ⟨rfl, hrest⟩ := List.cons.inj h
                  rw [ih hs' ht' hrest]

/-! ## Vendors -/

/-- A key with a capital `M` if it starts with the mark of a vendor. -/
def capitalizeVendor : List Char → List Char
  | 'm' :: 's' :: c :: rest => if c.isUpper then 'M' :: 's' :: c :: rest else 'm' :: 's' :: c :: rest
  | key => key

theorem hyphenate_custom (rest : List Char) :
    hyphenate ('-' :: '-' :: rest) = '-' :: '-' :: rest := rfl

/-- A key either starts with the mark of a vendor or is left alone. -/
theorem capitalizeVendor_cases (key : List Char) :
    (∃ c rest, c.isUpper = true ∧ key = 'm' :: 's' :: c :: rest ∧
      capitalizeVendor key = 'M' :: 's' :: c :: rest) ∨
    ((∀ c rest, c.isUpper = true → key ≠ 'm' :: 's' :: c :: rest) ∧
      capitalizeVendor key = key) := by
  unfold capitalizeVendor
  split
  · rename_i c rest
    cases hc : c.isUpper with
    | true => exact Or.inl ⟨c, rest, hc, rfl, rfl⟩
    | false =>
        refine Or.inr ⟨fun d rest' hd heq => ?_, rfl⟩
        cases heq
        rw [hc] at hd
        cases hd
  · rename_i hother
    exact Or.inr ⟨fun c rest _ => hother c rest, rfl⟩

/-- The mark of a vendor is hyphenated as if it started with a capital. -/
theorem hyphenate_eq (h : ∀ rest, key ≠ '-' :: '-' :: rest) :
    hyphenate key = hyphenateCapitals (capitalizeVendor key) := by
  rcases capitalizeVendor_cases key with ⟨c, rest, hc, rfl, heq⟩ | ⟨hother, heq⟩
  · rw [heq, hyphenateCapitals_of_upper (by decide), hyphenateCapitals_of_other (by decide)]
    exact if_pos hc
  · rw [heq]
    unfold hyphenate
    split
    · exact absurd rfl (h _)
    · rename_i c rest
      exact if_neg fun hc => hother c rest hc rfl
    · rfl

theorem hyphen_notMem_capitalizeVendor (h : '-' ∉ key) : '-' ∉ capitalizeVendor key := by
  rcases capitalizeVendor_cases key with ⟨c, rest, -, rfl, heq⟩ | ⟨-, heq⟩
  · rw [heq]
    simp only [List.mem_cons, not_or] at h ⊢
    exact ⟨by decide, h.2⟩
  · rwa [heq]

/-- Two keys are one after that exactly if they are equal or differ in the first letter of
the mark of a vendor. -/
theorem capitalizeVendor_eq_iff (hne : key ≠ key') :
    capitalizeVendor key = capitalizeVendor key' ↔
      ∃ c rest, c.isUpper = true ∧
        (key = 'm' :: 's' :: c :: rest ∧ key' = 'M' :: 's' :: c :: rest ∨
          key = 'M' :: 's' :: c :: rest ∧ key' = 'm' :: 's' :: c :: rest) := by
  constructor
  · intro h
    rcases capitalizeVendor_cases key with ⟨c, rest, hc, hkey, heq⟩ | ⟨-, heq⟩
    · rcases capitalizeVendor_cases key' with ⟨d, rest', -, hkey', heq'⟩ | ⟨-, heq'⟩
      · rw [heq, heq'] at h
        rw [hkey, hkey', (List.cons.inj h).2] at hne
        exact absurd rfl hne
      · exact ⟨c, rest, hc, Or.inl ⟨hkey, by rw [← heq', ← h, heq]⟩⟩
    · rcases capitalizeVendor_cases key' with ⟨d, rest', hd, hkey', heq'⟩ | ⟨-, heq'⟩
      · exact ⟨d, rest', hd, Or.inr ⟨by rw [← heq, h, heq'], hkey'⟩⟩
      · rw [heq, heq'] at h
        exact absurd h hne
  · rintro ⟨c, rest, hc, ⟨rfl, rfl⟩ | ⟨rfl, rfl⟩⟩
    · simp [capitalizeVendor, hc]
    · simp [capitalizeVendor, hc]

/-! ## Names -/

theorem ne_custom_of_hyphen_notMem (h : '-' ∉ key) (rest : List Char) :
    key ≠ '-' :: '-' :: rest := by
  rintro rfl
  exact h List.mem_cons_self

theorem isUpper_of_mem_hyphenate (h : ∀ rest, key ≠ '-' :: '-' :: rest)
    (hc : c ∈ hyphenate key) : c.isUpper = false := by
  rw [hyphenate_eq h] at hc
  exact isUpper_of_mem_hyphenateCapitals hc

/-- A text without capitals is a name. -/
theorem hyphenate_of_lower (h : ∀ c ∈ s, c.isUpper = false) : hyphenate s = s := by
  unfold hyphenate
  split
  · rfl
  · rename_i c rest
    have hc : c.isUpper = false := h c (by simp)
    rw [if_neg (by rw [hc]; exact Bool.false_ne_true)]
    exact hyphenateCapitals_eq_self h
  · exact hyphenateCapitals_eq_self h

theorem hyphenate_hyphenate (key : List Char) : hyphenate (hyphenate key) = hyphenate key := by
  by_cases h : ∃ rest, key = '-' :: '-' :: rest
  · obtain ⟨rest, rfl⟩ := h
    rw [hyphenate_custom, hyphenate_custom]
  · exact hyphenate_of_lower fun c hc => isUpper_of_mem_hyphenate (not_exists.mp h) hc

/-- Naming a property a second time changes nothing, and only custom properties have capitals
in their names.  Two keys without hyphens get one name exactly if they are the two
spellings of a vendor in front of the same rest. -/
theorem hyphenate_injective_but_vendor :
    (∀ key, hyphenate (hyphenate key) = hyphenate key) ∧
    (∀ key, (∀ rest, key ≠ '-' :: '-' :: rest) → ∀ c ∈ hyphenate key, c.isUpper = false) ∧
    (∀ key key', key ≠ key' → '-' ∉ key → '-' ∉ key' →
      (hyphenate key = hyphenate key' ↔
        ∃ c rest, c.isUpper = true ∧
          (key = 'm' :: 's' :: c :: rest ∧ key' = 'M' :: 's' :: c :: rest ∨
            key = 'M' :: 's' :: c :: rest ∧ key' = 'm' :: 's' :: c :: rest))) := by
  refine ⟨hyphenate_hyphenate, fun key hkey c hc => isUpper_of_mem_hyphenate hkey hc, ?_⟩
  intro key key' hne hkey hkey'
  rw [hyphenate_eq (ne_custom_of_hyphen_notMem hkey),
    hyphenate_eq (ne_custom_of_hyphen_notMem hkey'), ← capitalizeVendor_eq_iff hne]
  constructor
  · exact eq_of_hyphenateCapitals (hyphen_notMem_capitalizeVendor hkey)
      (hyphen_notMem_capitalizeVendor hkey')
  · exact congrArg hyphenateCapitals

/-- `msTransform` and `MsTransform` are one property. -/
theorem hyphenate_injective_but_vendor_transform :
    "msTransform".toList ≠ "MsTransform".toList ∧ '-' ∉ "msTransform".toList ∧
      '-' ∉ "MsTransform".toList ∧
      (∀ rest, "MsTransform".toList ≠ '-' :: '-' :: rest) ∧
      hyphenate "msTransform".toList = hyphenate "MsTransform".toList ∧
      (∀ c ∈ hyphenate "MsTransform".toList, c.isUpper = false) := by
  have hcustom : ∀ rest, "MsTransform".toList ≠ '-' :: '-' :: rest := by
    intro rest h
    cases h
  refine ⟨by decide, by decide, by decide, hcustom, ?_, ?_⟩
  · exact (hyphenate_injective_but_vendor.2.2 _ _ (by decide) (by decide) (by decide)).mpr
      ⟨'T', "ransform".toList, rfl, Or.inl ⟨by decide, by decide⟩⟩
  · exact hyphenate_injective_but_vendor.2.1 _ hcustom

end StaticStyle.Style
