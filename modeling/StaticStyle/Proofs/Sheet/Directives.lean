import Mathlib.Data.List.TakeWhile
import StaticStyle.Css.Sheet
import StaticStyle.Proofs.DevLoop.Operations
import StaticStyle.Proofs.Sheet.Expansion

/-!
# Where the directives of a stylesheet stand

A directive is `@` with its name and any blanks behind it, and it ends with a semicolon
or with the text (`IsDirective`).  `IsCut` says that a text is cut at its directives as
they are found from left to right: each piece that is cut out is a directive, and none
starts anywhere inside the parts between them, not even one that would reach into
the next piece.

`parts` keeps the parts of such a cut (`exists_cut`), so an expanded stylesheet is
the same cut with the rules in the place of the directives
(`generate_expands`).
-/

namespace StaticStyle.Sheet

open StaticStyle.Text (isBlank)

variable {name directive part rest s : List Char} {cuts : List (List Char × List Char)}

/-! ## Directives -/

/-- What is a directive in front of the rest of a text. -/
inductive IsDirective (name : List Char) : (directive rest : List Char) → Prop where
  | closed {blanks : List Char} (h : ∀ c ∈ blanks, isBlank c = true) (rest : List Char) :
      IsDirective name ('@' :: (name ++ blanks ++ [';'])) rest
  | atEnd {blanks : List Char} (h : ∀ c ∈ blanks, isBlank c = true) :
      IsDirective name ('@' :: (name ++ blanks)) []

theorem IsDirective.ne_nil (h : IsDirective name directive rest) : directive ≠ [] := by
  cases h with
  | closed => exact List.cons_ne_nil _ _
  | atEnd => exact List.cons_ne_nil _ _

/-- A text goes on after a row of blanks and a semicolon or the end. -/
theorem afterEnd?_eq_some_iff :
    afterEnd? s = some rest ↔ ∃ blanks, (∀ c ∈ blanks, isBlank c = true) ∧
      (s = blanks ++ ';' :: rest ∨ s = blanks ∧ rest = []) := by
  have hblanks : ∀ c ∈ s.takeWhile isBlank, isBlank c = true := fun c hc => List.mem_takeWhile_imp hc
  have hsplit := List.takeWhile_append_dropWhile (p := isBlank) (l := s)
  constructor
  · intro h
    unfold afterEnd? at h
    refine ⟨s.takeWhile isBlank, hblanks, ?_⟩
    split at h
    · rename_i hnil
      rw [hnil, List.append_nil] at hsplit
      cases h
      exact Or.inr ⟨hsplit.symm, rfl⟩
    · rename_i hcons
      rw [hcons] at hsplit
      cases h
      exact Or.inl hsplit.symm
    · cases h
  · rintro ⟨blanks, hb, rfl | ⟨rfl, rfl⟩⟩
    · have hdrop : (blanks ++ ';' :: rest).dropWhile isBlank = ';' :: rest := by
        rw [List.dropWhile_append_of_pos hb]
        exact List.dropWhile_cons_of_neg (by decide)
      unfold afterEnd?
      rw [hdrop]
      rfl
    · rw [afterEnd?, List.dropWhile_eq_nil_iff.mpr hb]

/-- A text goes on after the directive that it starts with. -/
theorem afterDirective?_eq_some_iff :
    afterDirective? name s = some rest ↔
      ∃ directive, IsDirective name directive rest ∧ s = directive ++ rest := by
  constructor
  · intro h
    unfold afterDirective? at h
    split at h
    · rename_i t
      split at h
      · rename_i hprefix
        obtain ⟨t, rfl⟩ := List.isPrefixOf_iff_prefix.mp hprefix
        rw [List.drop_left] at h
        obtain ⟨blanks, hb, rfl | ⟨rfl, rfl⟩⟩ := afterEnd?_eq_some_iff.mp h
        · exact ⟨_, .closed hb rest, by simp⟩
        · exact ⟨_, .atEnd hb, by simp⟩
      · cases h
    · cases h
  · rintro ⟨directive, hd, rfl⟩
    have hprefix : ∀ t, afterDirective? name ('@' :: (name ++ t)) = afterEnd? t := by
      intro t
      rw [afterDirective?, if_pos (List.isPrefixOf_iff_prefix.mpr (List.prefix_append name t)),
        List.drop_left]
    cases hd with
    | closed hb rest =>
        rw [List.cons_append, List.append_assoc, List.append_assoc, hprefix]
        exact afterEnd?_eq_some_iff.mpr ⟨_, hb, Or.inl (by simp)⟩
    | atEnd hb =>
        rw [List.append_nil, hprefix]
        exact afterEnd?_eq_some_iff.mpr ⟨_, hb, Or.inr ⟨rfl, rfl⟩⟩

/-! ## Cuts -/

/-- The text that some directives make up, each with the part behind it. -/
def textOf (cuts : List (List Char × List Char)) : List Char := cuts.flatMap fun cut => cut.1 ++ cut.2

theorem textOf_cons (directive part : List Char) (cuts : List (List Char × List Char)) :
    textOf ((directive, part) :: cuts) = directive ++ (part ++ textOf cuts) := by
  rw [textOf, List.flatMap_cons, List.append_assoc]
  rfl

/-- No directive starts in a part that stands in front of the rest of a text. -/
def IsFree (name part rest : List Char) : Prop :=
  ∀ before behind, part = before ++ behind → behind ≠ [] →
    ∀ directive after, IsDirective name directive after → behind ++ rest ≠ directive ++ after

/-- A text is cut at its directives: into the part in front of the first one, and the
directives in their order, each with the part up to the next one. -/
inductive IsCut (name : List Char) : (first : List Char) → List (List Char × List Char) → Prop where
  | last {part : List Char} (hfree : IsFree name part []) : IsCut name part []
  | next {part directive part' : List Char} {cuts : List (List Char × List Char)}
      (hfree : IsFree name part (textOf ((directive, part') :: cuts)))
      (hdirective : IsDirective name directive (part' ++ textOf cuts))
      (hcut : IsCut name part' cuts) : IsCut name part ((directive, part') :: cuts)

theorem isFree_nil (name rest : List Char) : IsFree name [] rest := by
  intro before behind h hne
  exact absurd (List.nil_eq_append_iff.mp h).2 hne

theorem IsFree.cons {c : Char} (hc : afterDirective? name (c :: (part ++ rest)) = none)
    (h : IsFree name part rest) : IsFree name (c :: part) rest := by
  intro before behind hpart hne directive after hd heq
  cases before with
  | nil =>
      rw [List.nil_append] at hpart
      rw [← hpart, List.cons_append] at heq
      rw [afterDirective?_eq_some_iff.mpr ⟨directive, hd, heq⟩] at hc
      cases hc
  | cons _ before =>
      obtain ⟨-, hpart⟩ := List.cons.inj hpart
      exact h before behind hpart hne directive after hd heq

theorem IsCut.cons {c : Char} (hc : afterDirective? name (c :: (part ++ textOf cuts)) = none)
    (h : IsCut name part cuts) : IsCut name (c :: part) cuts := by
  cases h with
  | last hfree => exact .last (hfree.cons hc)
  | next hfree hdirective hcut => exact .next (hfree.cons hc) hdirective hcut

/-- The parts of a stylesheet are those of a cut at its directives. -/
theorem exists_cut (name s : List Char) :
    ∃ first cuts, s = first ++ textOf cuts ∧ IsCut name first cuts ∧
      parts name s = first :: cuts.map (·.2) := by
  fun_induction parts name s with
  | case1 s rest hafter ih =>
      obtain ⟨directive, hd, rfl⟩ := afterDirective?_eq_some_iff.mp hafter
      obtain ⟨first, cuts, rfl, hcut, hparts⟩ := ih
      refine ⟨[], (directive, first) :: cuts, ?_, .next (isFree_nil name _) hd hcut, by rw [hparts]; rfl⟩
      rw [List.nil_append, textOf_cons]
  | case2 => exact ⟨[], [], rfl, .last (isFree_nil name []), rfl⟩
  | case3 c s _ hnil => exact absurd hnil (parts_ne_nil name s)
  | case4 c s hafter part ps hps ih =>
      obtain ⟨first, cuts, rfl, hcut, hparts⟩ := ih
      rw [hparts] at hps
      obtain ⟨rfl, rfl⟩ := List.cons.inj hps
      exact ⟨c :: first, cuts, rfl, hcut.cons hafter, rfl⟩

/-- A list that is put together from some lists starts with the first one, and the separator
stands in front of each other one. -/
theorem intercalate_cons {α : Type} (sep x : List α) (xs : List (List α)) :
    sep.intercalate (x :: xs) = x ++ xs.flatMap (sep ++ ·) := by
  induction xs generalizing x with
  | nil => rw [List.intercalate_singleton, List.flatMap_nil, List.append_nil]
  | cons y ys ih => rw [List.intercalate_cons_cons, ih, List.flatMap_cons, List.append_assoc,
      List.append_assoc]

/-- An expanded stylesheet is the rules in the place of each directive of a cut. -/
theorem expanded_of_parts {c : Config} {rules code : String} {first : List Char}
    (h : parts c.directive.toList code.toList = first :: cuts.map (·.2)) :
    expanded c rules code =
      String.ofList (first ++ cuts.flatMap fun cut => rules.toList ++ cut.2) := by
  rw [expanded, expand, h, intercalate_cons, List.flatMap_map]

example : expanded .default "a" "@flow-css;@flow-css" = "aa" := by decide +kernel

/-- There is a directive in a text exactly if a cut of it has one. -/
theorem IsCut.ne_nil_iff {first : List Char} (h : IsCut name first cuts) :
    cuts ≠ [] ↔ ∃ before directive after, IsDirective name directive after ∧
      first ++ textOf cuts = before ++ (directive ++ after) := by
  cases h with
  | last hfree =>
      constructor
      · exact fun hne => absurd rfl hne
      · rintro ⟨before, directive, after, hd, heq⟩
        have hpart : first = before ++ (directive ++ after) := by
          rw [← heq, textOf, List.flatMap_nil, List.append_nil]
        have hne : directive ++ after ≠ [] := fun hnil => hd.ne_nil (List.append_eq_nil_iff.mp hnil).1
        exact absurd (List.append_nil _) (hfree before _ hpart hne directive after hd)
  | next hfree hdirective hcut =>
      refine ⟨fun _ => ⟨first, _, _, hdirective, ?_⟩, fun _ => List.cons_ne_nil _ _⟩
      rw [textOf_cons]

/-! ## Expanded stylesheets -/

variable {c : Config} {p : SheetParser} {code file : String} {r : Registry}

/-- A valid stylesheet is generated from valid rules, if nothing is minified, by putting their
text in the place of each directive, as it is.  The file becomes a stylesheet of the
styles if there is a directive, and nothing else changes. -/
theorem generate_expands (hm : c.minify = false) (hcode : p.fault? code = none)
    (hrules : p.fault? r.rules = none) :
    ∃ first cuts, code.toList = first ++ textOf cuts ∧ IsCut c.directive.toList first cuts ∧
      (generate c p code file).run r =
        (.ok { code := String.ofList (first ++ cuts.flatMap fun cut => r.rules.toList ++ cut.2)
               dependencies := r.dependencies
               isRoot := isRoot c code },
          { r with roots := if cuts ≠ [] ∧ file ∉ r.roots then r.roots ++ [file] else r.roots }) ∧
      (isRoot c code = true ↔ cuts ≠ []) ∧
      (isRoot c code = true ↔ ∃ before directive after,
        IsDirective c.directive.toList directive after ∧
          code.toList = before ++ (directive ++ after)) := by
  obtain ⟨first, cuts, hsplit, hcut, hparts⟩ := exists_cut c.directive.toList code.toList
  have hroot : isRoot c code = true ↔ cuts ≠ [] := by
    rw [isRoot, hasDirective, hparts]
    cases cuts with
    | nil => simp
    | cons => simp
  refine ⟨first, cuts, hsplit, hcut, ?_, hroot, ?_⟩
  · have hnoted : noteRoot c code file r =
        { r with roots := if cuts ≠ [] ∧ file ∉ r.roots then r.roots ++ [file] else r.roots } := by
      rw [noteRoot]
      by_cases hne : cuts ≠ []
      · rw [if_pos (hroot.mpr hne), Registry.addRoot, Roll.enrol]
        by_cases hfile : file ∈ r.roots
        · rw [if_pos hfile, if_neg fun h => h.2 hfile]
        · rw [if_neg hfile, if_pos ⟨hne, hfile⟩]
      · rw [if_neg fun h => hne (hroot.mp h), if_neg fun h => hne h.1]
    rcases generate_cases c p code file r with ⟨_, hfault, _⟩ | ⟨_, _, hfault, _⟩ | ⟨_, _, hrun⟩
    · rw [hcode] at hfault
      cases hfault
    · rw [hrules] at hfault
      cases hfault
    · rw [hrun, hnoted, finished, hm, expanded_of_parts hparts]
      rfl
  · rw [hroot, hcut.ne_nil_iff, hsplit]

/-- A registry with one style, which is written as an object without a theme. -/
def margins : Registry :=
  Registry.empty.add ⟨"flow-38965f9b", .static (.leaf "margin" (.text "0") .nil), "margin:0;"⟩ "./a.ts"

/-- Two directives, the second at the end of the text, with a longer name between them. -/
theorem generate_expands_twice :
    Config.default.minify = false ∧
      Css.parser.fault? "b\x7b\x7d @flow-css ;@flow-css-x;@flow-css\n" = none ∧
      Css.parser.fault? margins.rules = none ∧
      ∃ first cuts, "b\x7b\x7d @flow-css ;@flow-css-x;@flow-css\n".toList = first ++ textOf cuts ∧
        IsCut "flow-css".toList first cuts ∧ cuts ≠ [] ∧
        (generate .default Css.parser "b\x7b\x7d @flow-css ;@flow-css-x;@flow-css\n" "./a.css").run
            margins =
          (.ok { code := String.ofList
                    (first ++ cuts.flatMap fun cut => margins.rules.toList ++ cut.2)
                 dependencies := ["./a.ts"]
                 isRoot := true },
            { margins with roots := ["./a.css"] }) := by
  have hcode : Css.parser.fault? "b\x7b\x7d @flow-css ;@flow-css-x;@flow-css\n" = none := by
    decide +kernel
  have hrules : Css.parser.fault? margins.rules = none := by decide +kernel
  have hroot : isRoot .default "b\x7b\x7d @flow-css ;@flow-css-x;@flow-css\n" = true := by
    decide +kernel
  obtain ⟨first, cuts, hsplit, hcut, hrun, hne, -⟩ :=
    @generate_expands .default Css.parser _ "./a.css" margins rfl hcode hrules
  refine ⟨rfl, hcode, hrules, first, cuts, hsplit, hcut, hne.mp hroot, ?_⟩
  rw [hrun, hroot, if_pos ⟨hne.mp hroot, List.not_mem_nil⟩]
  rfl

end StaticStyle.Sheet
