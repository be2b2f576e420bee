import StaticStyle.Expression.Value

/-!
# The conversion of arrays and objects

An array or an object takes part in an operator through its text (`Value.primitive`).  Where an
operator converts its operands so, it does the same with the text in the place of the value.

Comparisons overlook some operands (`Value.Overlooks`).  An array or an object equals no number and
no string, whatever its text is, and it is ordered by its number even beside a string, where two
strings are ordered by their characters.  `Value.binary_primitive` says that operators overlook
nothing else.
-/

namespace StaticStyle

namespace Expression.Infix

/-- Whether an operator tells if its operands are equal, types aside. -/
def isLoose : Infix → Bool
  | .looseEqual => true
  | .looseDiffer => true
  | _ => false

/-- Whether an operator tells if its operands are equal and of one type. -/
def isStrict : Infix → Bool
  | .strictEqual => true
  | .strictDiffer => true
  | _ => false

/-- Whether an operator tells how its operands are ordered. -/
def isOrdering : Infix → Bool
  | .less => true
  | .lessEqual => true
  | .greater => true
  | .greaterEqual => true
  | _ => false

end Expression.Infix

namespace Value

open StaticStyle.Expression (Infix)

variable {a b : Value} {op : Infix}

/-! ## Primitive values -/

/-- A value without parts: the text of an array or an object, and any other value itself. -/
def primitive (v : Value) : Value := if v.isComposite then .string v.toText else v

theorem primitive_of_not_composite {v : Value} (h : ¬ v.isComposite) : v.primitive = v :=
  if_neg h

theorem toText_primitive (v : Value) : v.primitive.toText = v.toText := by
  cases v with
  | _ => rfl

theorem toNumber_primitive (v : Value) : v.primitive.toNumber = v.toNumber := by
  cases v with
  | _ => rfl

theorem joinsTexts_primitive (v : Value) : v.primitive.joinsTexts = v.joinsTexts := by
  cases v with
  | _ => rfl

/-! ## Equality -/

/-- Whether a value is a number or a string. -/
def isNumberOrString : Value → Bool
  | .number _ => true
  | .string _ => true
  | _ => false

/-- Whether one of two values is an array or an object and the other a number or a string. -/
def isMixed (a b : Value) : Bool :=
  (a.isComposite && b.isNumberOrString) || (a.isNumberOrString && b.isComposite)

/-- An array or an object equals no number and no string. -/
theorem looseEqual_of_mixed (h : a.isMixed b) : looseEqual a b = false := by
  cases a with
  | array items => cases b with
    | number x => rfl
    | string s => rfl
    | _ => cases h
  | object entries => cases b with
    | number x => rfl
    | string s => rfl
    | _ => cases h
  | number x => cases b with
    | array items => rfl
    | object entries => rfl
    | _ => cases h
  | string s => cases b with
    | array items => rfl
    | object entries => rfl
    | _ => cases h
  | _ => cases b with
    | _ => cases h

/-- Equality converts an array or an object beside any other value. -/
theorem looseEqual_primitive (hboth : ¬ (a.isComposite ∧ b.isComposite)) (h : ¬ a.isMixed b) :
    looseEqual a b = looseEqual a.primitive b.primitive := by
  cases a with
  | array items => cases b with
    | number x => exact absurd rfl h
    | string s => exact absurd rfl h
    | array items => exact absurd ⟨rfl, rfl⟩ hboth
    | object entries => exact absurd ⟨rfl, rfl⟩ hboth
    | _ => rfl
  | object entries => cases b with
    | number x => exact absurd rfl h
    | string s => exact absurd rfl h
    | array items => exact absurd ⟨rfl, rfl⟩ hboth
    | object entries => exact absurd ⟨rfl, rfl⟩ hboth
    | _ => rfl
  | number x => cases b with
    | array items => exact absurd rfl h
    | object entries => exact absurd rfl h
    | _ => rfl
  | string s => cases b with
    | array items => exact absurd rfl h
    | object entries => exact absurd rfl h
    | _ => rfl
  | _ => cases b with
    | _ => rfl

/-! ## Order -/

/-- Whether two values are strings or have texts in their place, one of them at least. -/
def isTextual (a b : Value) : Bool :=
  (a.isComposite || b.isComposite) && a.joinsTexts && b.joinsTexts

/-- An array or an object is ordered by its number, whatever stands beside it. -/
theorem order_of_composite (h : a.isComposite || b.isComposite) :
    order a b = orderNumbers a.toNumber b.toNumber := by
  cases a with
  | string s => cases b with
    | string t => cases h
    | _ => rfl
  | _ => rfl

/-- An order converts an array or an object beside a value that is no text. -/
theorem order_primitive (h : ¬ a.isTextual b) : order a b = order a.primitive b.primitive := by
  by_cases hcomposite : a.isComposite || b.isComposite
  · have hnumbers : ¬ (a.primitive.joinsTexts && b.primitive.joinsTexts) := by
      rw [joinsTexts_primitive, joinsTexts_primitive]
      unfold isTextual at h
      rwa [hcomposite, Bool.true_and] at h
    rw [order_of_composite hcomposite, ← toNumber_primitive a, ← toNumber_primitive b]
    -- Two strings would both join texts.
    unfold order
    split
    · rename_i hleft hright
      rw [hleft, hright] at hnumbers
      exact absurd rfl hnumbers
    · rfl
  · rw [Bool.or_eq_true, not_or] at hcomposite
    rw [primitive_of_not_composite hcomposite.1, primitive_of_not_composite hcomposite.2]

/-! ## Operators -/

/-- The operands that an operator does not convert, although they are arrays and objects. -/
inductive Overlooks (op : Infix) (a b : Value) : Prop where
  | equality : op.isLoose → a.isMixed b → Overlooks op a b
  | ordering : op.isOrdering → a.isTextual b → Overlooks op a b

/-- What an operator gives for operands that it overlooks: they are not equal, and they are ordered
by their numbers. -/
def overlooked (op : Infix) (a b : Value) : Value :=
  match op with
  | .looseEqual => .boolean false
  | .looseDiffer => .boolean true
  | op => (Value.number a.toNumber).binary op (.number b.toNumber)

theorem binary_of_overlooks (h : Overlooks op a b) : a.binary op b = overlooked op a b := by
  cases h with
  | equality hop hmixed =>
      have hdiffer := looseEqual_of_mixed hmixed
      cases op with
      | looseEqual => exact congrArg Value.boolean hdiffer
      | looseDiffer => exact congrArg (fun equal => Value.boolean !equal) hdiffer
      | _ => cases hop
  | ordering hop htextual =>
      unfold isTextual at htextual
      rw [Bool.and_eq_true, Bool.and_eq_true] at htextual
      have hnumbers := order_of_composite htextual.1.1
      cases op with
      | less => exact congrArg (fun order => Value.boolean (order.any (· == .lt))) hnumbers
      | lessEqual => exact congrArg (fun order => Value.boolean (order.any (· != .gt))) hnumbers
      | greater => exact congrArg (fun order => Value.boolean (order.any (· == .gt))) hnumbers
      | greaterEqual => exact congrArg (fun order => Value.boolean (order.any (· != .lt))) hnumbers
      | _ => cases hop

/-- An operator, strict comparison apart, converts arrays and objects to their texts, except for
those that it overlooks, which are not equal and are ordered by their numbers.  Two of them are
not asked to be equal. -/
theorem binary_primitive (hstrict : ¬ op.isStrict)
    (hboth : op.isLoose → ¬ (a.isComposite ∧ b.isComposite)) :
    (¬ Overlooks op a b → a.binary op b = a.primitive.binary op b.primitive) ∧
      (Overlooks op a b → a.binary op b = overlooked op a b) := by
  refine ⟨?_, binary_of_overlooks⟩
  intro hconverts
  unfold binary
  cases op with
  | add => simp only [joinsTexts_primitive, toText_primitive, toNumber_primitive]
  | sub => simp only [toNumber_primitive]
  | mul => simp only [toNumber_primitive]
  | div => simp only [toNumber_primitive]
  | rem => simp only [toNumber_primitive]
  | exp => simp only [toNumber_primitive]
  | strictEqual => exact absurd rfl hstrict
  | strictDiffer => exact absurd rfl hstrict
  | looseEqual =>
      have hequal := looseEqual_primitive (hboth rfl) fun hmixed => hconverts (.equality rfl hmixed)
      simp only [hequal]
  | looseDiffer =>
      have hequal := looseEqual_primitive (hboth rfl) fun hmixed => hconverts (.equality rfl hmixed)
      simp only [hequal]
  | less =>
      have horder := order_primitive fun htextual => hconverts (.ordering rfl htextual)
      simp only [horder]
  | lessEqual =>
      have horder := order_primitive fun htextual => hconverts (.ordering rfl htextual)
      simp only [horder]
  | greater =>
      have horder := order_primitive fun htextual => hconverts (.ordering rfl htextual)
      simp only [horder]
  | greaterEqual =>
      have horder := order_primitive fun htextual => hconverts (.ordering rfl htextual)
      simp only [horder]

/-- An array equals no string, although its text does, and its text is joined to one. -/
theorem binary_primitive_array :
    let v := Value.array [.string "a", .null]
    let text := Value.string "a,"
    ¬ Overlooks .add v text ∧ v.binary .add text = v.primitive.binary .add text.primitive ∧
      Overlooks .looseEqual v text ∧ v.binary .looseEqual text = .boolean false ∧
      v.primitive.binary .looseEqual text.primitive = .boolean true := by
  intro v text
  have hadd : ¬ Overlooks .add v text := by
    intro h
    cases h with
    | equality hop _ => cases hop
    | ordering hop _ => cases hop
  have hequal : Overlooks .looseEqual v text := .equality rfl rfl
  have hone : ¬ (v.isComposite ∧ text.isComposite) := by decide
  refine ⟨hadd, ?_, hequal, ?_, rfl⟩
  · exact (binary_primitive (by decide) fun _ => hone).1 hadd
  · exact (binary_primitive (by decide) fun _ => hone).2 hequal

end Value

end StaticStyle
