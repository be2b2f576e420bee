import StaticStyle.Expression.Basic

/-!
# The names in an expression

The names that an expression has in it (`Expression.names`), and the same expression with other
names in their places (`Expression.rename`).  Nothing in an expression binds a name, so that each
of its names is free.

Expressions stand in lists, in keys and in parts of objects, and so each of the two is one
function for each of these.  A list is renamed item by item.
-/

namespace StaticStyle.Expression

mutual

/-- The names that an expression has in it. -/
def names : Expression → List String
  | .undefined => []
  | .null => []
  | .boolean _ => []
  | .number _ => []
  | .string _ => []
  | .template _ parts => namesOfAll parts
  | .array items => namesOfAll items
  | .object parts => namesOfParts parts
  | .identifier name => [name]
  | .member owner key => owner.names ++ namesOfKey key
  | .conditional test whenTrue whenFalse => test.names ++ (whenTrue.names ++ whenFalse.names)
  | .unary _ operand => operand.names
  | .binary _ left right => left.names ++ right.names
  | .logical _ left right => left.names ++ right.names

/-- The names in a list of expressions. -/
def namesOfAll : List Expression → List String
  | [] => []
  | e :: rest => e.names ++ namesOfAll rest

/-- The names in the parts of an object. -/
def namesOfParts : List (Part Expression) → List String
  | [] => []
  | part :: rest => namesOfPart part ++ namesOfParts rest

/-- The names in a part of an object. -/
def namesOfPart : Part Expression → List String
  | .entry key value => namesOfKey key ++ value.names
  | .spread e => e.names

/-- The names in a key. -/
def namesOfKey : Key Expression → List String
  | .fixed _ => []
  | .computed e => e.names

end

theorem mem_namesOfAll {name : String} {e : Expression} {items : List Expression}
    (he : e ∈ items) (hname : name ∈ e.names) : name ∈ namesOfAll items := by
  induction items with
  | nil => cases he
  | cons first rest ih =>
      rw [namesOfAll, List.mem_append]
      rcases List.mem_cons.mp he with rfl | he
      · exact Or.inl hname
      · exact Or.inr (ih he)

theorem mem_namesOfParts {name : String} {part : Part Expression} {parts : List (Part Expression)}
    (hpart : part ∈ parts) (hname : name ∈ namesOfPart part) : name ∈ namesOfParts parts := by
  induction parts with
  | nil => cases hpart
  | cons first rest ih =>
      rw [namesOfParts, List.mem_append]
      rcases List.mem_cons.mp hpart with rfl | hpart
      · exact Or.inl hname
      · exact Or.inr (ih hpart)

section

variable (ρ : String → String)

mutual

/-- An expression with another name in the place of each of its names. -/
def rename : Expression → Expression
  | .undefined => .undefined
  | .null => .null
  | .boolean b => .boolean b
  | .number x => .number x
  | .string s => .string s
  | .template texts parts => .template texts (renameAll parts)
  | .array items => .array (renameAll items)
  | .object parts => .object (renameParts parts)
  | .identifier name => .identifier (ρ name)
  | .member owner key => .member owner.rename (renameKey key)
  | .conditional test whenTrue whenFalse =>
      .conditional test.rename whenTrue.rename whenFalse.rename
  | .unary op operand => .unary op operand.rename
  | .binary op left right => .binary op left.rename right.rename
  | .logical op left right => .logical op left.rename right.rename

/-- A list of expressions with other names. -/
def renameAll : List Expression → List Expression
  | [] => []
  | e :: rest => e.rename :: renameAll rest

/-- The parts of an object with other names. -/
def renameParts : List (Part Expression) → List (Part Expression)
  | [] => []
  | part :: rest => renamePart part :: renameParts rest

/-- A part of an object with other names. -/
def renamePart : Part Expression → Part Expression
  | .entry key value => .entry (renameKey key) value.rename
  | .spread e => .spread e.rename

/-- A key with other names. -/
def renameKey : Key Expression → Key Expression
  | .fixed name => .fixed name
  | .computed e => .computed e.rename

end

theorem renameAll_eq_map (items : List Expression) : renameAll ρ items = items.map (rename ρ) := by
  induction items with
  | nil => rfl
  | cons e rest ih => rw [renameAll, ih, List.map_cons]

theorem renameParts_eq_map (parts : List (Part Expression)) :
    renameParts ρ parts = parts.map (renamePart ρ) := by
  induction parts with
  | nil => rfl
  | cons part rest ih => rw [renameParts, ih, List.map_cons]

end

/-! ## Names that stay -/

section

variable {ρ : String → String}

mutual

/-- An expression is what it was if each of its names has stayed what it was. -/
theorem rename_eq_self : ∀ e : Expression, (∀ name ∈ e.names, ρ name = name) → e.rename ρ = e
  | .undefined, _ => rfl
  | .null, _ => rfl
  | .boolean _, _ => rfl
  | .number _, _ => rfl
  | .string _, _ => rfl
  | .template texts parts, h => by
      rw [names] at h
      rw [rename, renameAll_eq_self parts h]
  | .array items, h => by
      rw [names] at h
      rw [rename, renameAll_eq_self items h]
  | .object parts, h => by
      rw [names] at h
      rw [rename, renameParts_eq_self parts h]
  | .identifier name, h => by
      rw [rename, h name (List.mem_singleton_self name)]
  | .member owner key, h => by
      rw [names, List.forall_mem_append] at h
      rw [rename, rename_eq_self owner h.1, renameKey_eq_self key h.2]
  | .conditional test whenTrue whenFalse, h => by
      rw [names, List.forall_mem_append, List.forall_mem_append] at h
      rw [rename, rename_eq_self test h.1, rename_eq_self whenTrue h.2.1,
        rename_eq_self whenFalse h.2.2]
  | .unary op operand, h => by
      rw [names] at h
      rw [rename, rename_eq_self operand h]
  | .binary op left right, h => by
      rw [names, List.forall_mem_append] at h
      rw [rename, rename_eq_self left h.1, rename_eq_self right h.2]
  | .logical op left right, h => by
      rw [names, List.forall_mem_append] at h
      rw [rename, rename_eq_self left h.1, rename_eq_self right h.2]

theorem renameAll_eq_self :
    ∀ items : List Expression, (∀ name ∈ namesOfAll items, ρ name = name) →
      renameAll ρ items = items
  | [], _ => rfl
  | e :: rest, h => by
      rw [namesOfAll, List.forall_mem_append] at h
      rw [renameAll, rename_eq_self e h.1, renameAll_eq_self rest h.2]

theorem renameParts_eq_self :
    ∀ parts : List (Part Expression), (∀ name ∈ namesOfParts parts, ρ name = name) →
      renameParts ρ parts = parts
  | [], _ => rfl
  | part :: rest, h => by
      rw [namesOfParts, List.forall_mem_append] at h
      rw [renameParts, renamePart_eq_self part h.1, renameParts_eq_self rest h.2]

theorem renamePart_eq_self :
    ∀ part : Part Expression, (∀ name ∈ namesOfPart part, ρ name = name) →
      renamePart ρ part = part
  | .entry key value, h => by
      rw [namesOfPart, List.forall_mem_append] at h
      rw [renamePart, renameKey_eq_self key h.1, rename_eq_self value h.2]
  | .spread e, h => by
      rw [namesOfPart] at h
      rw [renamePart, rename_eq_self e h]

theorem renameKey_eq_self :
    ∀ key : Key Expression, (∀ name ∈ namesOfKey key, ρ name = name) → renameKey ρ key = key
  | .fixed _, _ => rfl
  | .computed e, h => by
      rw [namesOfKey] at h
      rw [renameKey, rename_eq_self e h]

end

end

end StaticStyle.Expression
