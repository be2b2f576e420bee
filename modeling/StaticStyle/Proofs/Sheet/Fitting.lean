import StaticStyle.Proofs.Sheet.Endings

/-!
# Rules in the place of directives

A directive that stands at a place of a stylesheet can be replaced by rules that end by themselves
and are valid there.  At the top, what follows the rules must be able to follow rules, so `FitsAt`
asks for no `@import` and no `@namespace` behind the directive unless there are no rules.

With the rules in the place of one directive the others still stand at places of theirs if the last
directive is replaced first.  What follows a directive then holds the rules in the place of those
behind it: that this, too, may follow rules is a matter of counting the rules that have to stand
in front (`countEarly_replace`).
-/

namespace StaticStyle.Css

open Component

variable {c : Char} {s u v w : List Char} {t : Token} {place : Place}

/-! ## Texts that start with a rule -/

/-- The components of a text start with its first token, if that is no bracket. -/
theorem exists_ofText_cons (h : closer? (firstToken c s).1.kind = none) :
    ∃ behind, ofText (c :: s) = .token (firstToken c s).1 :: behind := by
  obtain ⟨behind, outside, hgather⟩ := gather_eq_enclose (tokens (firstToken c s).2) []
  refine ⟨behind, ?_⟩
  rw [ofText, tokens_cons, gather_cons_token h fun _ hf => absurd hf (Option.not_mem_none _),
    hgather _ [] rfl, enclose, List.reverse_singleton, List.singleton_append]

/-- What starts with a token that is no at-keyword starts with a rule. -/
theorem startsBody_of_token (hfiller : isFiller .top (.token t) = false)
    (hkind : t.kind ≠ .atKeyword) (cs : List Component) :
    StartsBody (marksOf (.token t :: cs)) := by
  have hdrop : (Component.token t :: cs).dropWhile (isFiller .top) = .token t :: cs :=
    List.dropWhile_cons_of_neg (by rw [hfiller]; exact Bool.false_ne_true)
  have hnext : nextItem .top (.token t) cs = ruleItem .top (.token t :: cs) := by
    unfold nextItem
    dsimp only
    rw [if_neg (by rw [beq_iff_eq]; exact hkind)]
    rfl
  have hmark : (ruleItem .top (.token t :: cs)).1.mark = .rule := by
    unfold ruleItem
    dsimp only
    split <;> rfl
  intro mark hmark'
  rw [marksOf, items_of_cons hdrop, hnext, List.map_cons, List.head?_cons, Option.mem_some, hmark]
    at hmark'
  exact hmark'.symm

/-- A text that starts with a point starts with a rule. -/
theorem startsBody_of_point (s : List Char) : StartsBody (marksOf (ofText ('.' :: s))) := by
  have hkind : (firstToken '.' s).1.kind = .number ∨
      (firstToken '.' s).1.kind = .delimiter '.' := by
    have hpoint : firstToken '.' s = otherToken '.' s := rfl
    rw [hpoint, otherToken]
    split
    · exact Or.inl (kind_numberToken _)
    · exact Or.inr rfl
  have hplain : closer? (firstToken '.' s).1.kind = none ∧
      isFiller .top (.token (firstToken '.' s).1) = false ∧
        (firstToken '.' s).1.kind ≠ .atKeyword := by
    generalize (firstToken '.' s).1 = t at hkind ⊢
    rcases hkind with hkind | hkind <;> simp [isFiller, isGap, isToken, kind?, hkind, closer?]
  obtain ⟨behind, htext⟩ := exists_ofText_cons hplain.1
  rw [htext]
  exact startsBody_of_token hplain.2.1 hplain.2.2 behind

/-! ## Rules that have to stand in front -/

/-- How many rules of a stylesheet may follow no others. -/
def countEarly (s : List Char) : Nat := (marksOf (ofText s)).countP fun mark => !mark.isLate

theorem countEarly_eq_zero_iff :
    countEarly s = 0 ↔ isOrdered .body (marksOf (ofText s)) = true := by
  rw [countEarly, List.countP_eq_zero, isOrdered_body_iff]
  exact forall₂_congr fun mark _ => by rw [Bool.not_eq_true', Bool.not_eq_false]

theorem countEarly_eq_zero (h : StartsBody (marksOf (ofText s))) (hs : isSheet s = true) :
    countEarly s = 0 :=
  countEarly_eq_zero_iff.mpr (isOrdered_body_iff.mpr (h.isLate ((isSheet_iff s).mp hs).2))

/-- At the top, the rules that have to stand in front add up. -/
theorem countEarly_top (h : place? u = some (.item .top)) (hs : isWhole (.item .top) s = true)
    (v : List Char) :
    countEarly (u ++ (s ++ v)) = countEarly u + (countEarly s + countEarly v) := by
  obtain ⟨around, htop, hfills⟩ := exists_fills h v
  obtain ⟨hfront, hrear⟩ := htop rfl
  rw [countEarly, (hfills s hs).marks_eq, hfront, hrear, List.countP_append, List.countP_append]
  rfl

theorem countEarly_left (h : place? u = some place) (w : List Char) :
    countEarly u ≤ countEarly (u ++ w) :=
  (exists_left h w).2.sublist.countP_le

theorem isWhole_nil (place : Place) : isWhole place [] = true := by
  cases place with
  | item level => cases level <;> rfl
  | tokens | anything => rfl

variable {rules other : List Char}

/-- A text without rules that have to stand in front adds none in the place of another one. -/
theorem countEarly_replace (h : place? u = some place) (hrules : isWhole place rules = true)
    (hother : isWhole place other = true) (hearly : countEarly rules = 0) (v : List Char) :
    countEarly (u ++ (rules ++ v)) ≤ countEarly (u ++ (other ++ v)) := by
  obtain ⟨around, -, hfills⟩ := exists_fills h v
  have hpart : ((marksAt place (ofText rules)).countP fun mark => !mark.isLate) = 0 := by
    by_cases htop : place = .item .top
    · subst htop
      exact hearly
    · rw [marksAt_of_ne_top htop, List.countP_nil]
  rw [countEarly, countEarly, (hfills rules hrules).marks_eq, (hfills other hother).marks_eq]
  simp only [List.countP_append, hpart]
  omega

end StaticStyle.Css

namespace StaticStyle.Sheet

open StaticStyle.Css (Place StartsBody countEarly isOrdered isPlainName isSheet isSoundText isWhole
  marksAt marksOf place? Setting SoundAt)
open StaticStyle.Css.Component (ofText)

variable {name rules before directive after first : List Char} {cuts : List (List Char × List Char)}
  {place : Place}

/-! ## Rules in the place of one directive -/

/-- Rules fit in the place of a directive that stands at a place between two texts. -/
structure FitsAt (place : Place) (name rules before directive after : List Char) : Prop where
  /-- The directive stands at the place. -/
  isPlace : place? before = some place
  /-- The directive has a plain name, or ends by itself, or with the stylesheet. -/
  ends : isPlainName name = true ∨ isWhole place directive = true ∨ after = []
  /-- The rules end by themselves. -/
  rulesEnd : isWhole place rules = true
  /-- In a block, the rules are valid as a part of the block. -/
  rulesSound : place ≠ .item .top → isSoundText place rules = true
  /-- At the top, what follows may follow rules, if there are any. -/
  order : place = .item .top → rules = [] ∨ isOrdered .body (marksOf (ofText after)) = true

/-- Rules fit in the place of a directive that stands between two texts. -/
def Fits (name rules before directive after : List Char) : Prop :=
  ∃ place, FitsAt place name rules before directive after

/-- Valid rules that end by themselves leave the stylesheet valid in the place of a directive that
does so, too, if what follows may follow rules. -/
theorem isSheet_replace (hplace : place? before = some place)
    (hdirective : isWhole place directive = true ∨ after = []) (hwhole : isWhole place rules = true)
    (hsound : place ≠ .item .top → isSoundText place rules = true)
    (horder : place = .item .top → rules = [] ∨ isOrdered .body (marksOf (ofText after)) = true)
    (hrules : isSheet rules = true) (hstarts : StartsBody (marksOf (ofText rules)))
    (hsheet : isSheet (before ++ (directive ++ after)) = true) :
    isSheet (before ++ (rules ++ after)) = true := by
  obtain ⟨hall, hordered⟩ := (Css.isSheet_iff rules).mp hrules
  obtain ⟨around, htop, hfills⟩ := Css.exists_fills hplace after
  -- what is around is valid, with the directive in between or with nothing
  have haround : ∃ middle, isWhole place middle = true ∧
      isSheet (before ++ (middle ++ after)) = true := by
    rcases hdirective with hdirective | rfl
    · exact ⟨directive, hdirective, hsheet⟩
    · refine ⟨[], Css.isWhole_nil place, ?_⟩
      obtain ⟨hleft, hprefix⟩ := Css.exists_left hplace (directive ++ [])
      obtain ⟨rest, hrest⟩ := hprefix
      obtain ⟨hlong, horder⟩ := (Css.isSheet_iff _).mp hsheet
      rw [← hrest] at horder
      rw [List.append_nil, List.append_nil, Css.isSheet_iff]
      exact ⟨hleft hlong, Css.isOrdered_left horder⟩
  obtain ⟨middle, hmiddle, hvalid⟩ := haround
  have hold := hfills middle hmiddle
  have hnew := hfills rules hwhole
  rw [Css.isSheet_iff, hold.sound_iff, hold.marks_eq] at hvalid
  rw [Css.isSheet_iff, hnew.sound_iff, hnew.marks_eq]
  by_cases heq : place = .item .top
  · subst heq
    refine ⟨⟨hvalid.1.1, hall⟩, Css.isOrdered_replace hordered hstarts ?_ hvalid.2⟩
    rw [(htop rfl).2]
    exact (horder rfl).imp_left fun hnil => by rw [hnil]; rfl
  · refine ⟨⟨hvalid.1.1, (Css.isSoundText_iff place rules).mp (hsound heq)⟩, ?_⟩
    rw [Css.marksAt_of_ne_top heq] at hvalid ⊢
    exact hvalid.2

/-! ## Rules in the place of each directive -/

/-- Rules fit in the place of each of some directives, behind the text in front of them. -/
def FitsEach (name rules : List Char) : (before : List Char) → List (List Char × List Char) → Prop
  | _, [] => True
  | before, (directive, part) :: cuts =>
      Fits name rules before directive (part ++ textOf cuts) ∧
        FitsEach name rules (before ++ directive ++ part) cuts

/-- The text that some rules in the place of directives make up, each with the part behind it. -/
def replaced (rules : List Char) (cuts : List (List Char × List Char)) : List Char :=
  cuts.flatMap fun cut => rules ++ cut.2

theorem IsCut.ne_nil (h : IsCut name first cuts) : ∀ cut ∈ cuts, cut.1 ≠ [] := by
  induction h with
  | last => exact fun cut hcut => absurd hcut List.not_mem_nil
  | next hfree hdirective hcut ih =>
      intro cut hmem
      rcases List.mem_cons.mp hmem with rfl | hmem
      · exact hdirective.ne_nil
      · exact ih cut hmem

theorem IsCut.eq_nil_of_textOf (h : IsCut name first cuts) (hnil : textOf cuts = []) :
    cuts = [] := by
  cases cuts with
  | nil => rfl
  | cons cut cuts =>
      rw [textOf_cons] at hnil
      exact absurd (List.append_eq_nil_iff.mp hnil).1 (h.ne_nil cut List.mem_cons_self)

variable {later : List Char}

/-- Rules that fit in the place of a directive still do so when the rules are in the place of the
directives behind it. -/
theorem FitsAt.isSheet_replace (h : FitsAt place name rules before directive after)
    (hends : isWhole place directive = true ∨ after = []) (hnil : after = [] → later = [])
    (hrules : isSheet rules = true) (hstarts : StartsBody (marksOf (ofText rules)))
    (hcount : countEarly (before ++ (directive ++ later)) ≤
      countEarly (before ++ (directive ++ after)))
    (hsheet : isSheet (before ++ (directive ++ later)) = true) :
    isSheet (before ++ (rules ++ later)) = true ∧
      countEarly (before ++ (rules ++ later)) ≤ countEarly (before ++ (directive ++ after)) := by
  have hearly := Css.countEarly_eq_zero hstarts hrules
  constructor
  · refine Sheet.isSheet_replace h.isPlace (hends.imp_right hnil) h.rulesEnd h.rulesSound
      (fun htop => ?_) hrules hstarts hsheet
    subst htop
    refine (h.order rfl).imp_right fun hafter => ?_
    rcases hends with hwhole | hafter'
    · rw [Css.countEarly_top h.isPlace hwhole, Css.countEarly_top h.isPlace hwhole,
        Css.countEarly_eq_zero_iff.mpr hafter] at hcount
      exact Css.countEarly_eq_zero_iff.mp (by omega)
    · rw [hnil hafter']
      rfl
  · rcases hends with hwhole | hafter
    · exact (Css.countEarly_replace h.isPlace h.rulesEnd hwhole hearly later).trans hcount
    · rw [hnil hafter]
      have hreplace := Css.countEarly_replace h.isPlace h.rulesEnd (Css.isWhole_nil place) hearly []
      rw [List.append_nil [], List.append_nil before] at hreplace
      exact hreplace.trans (Css.countEarly_left h.isPlace _)

/-- Valid rules that fit in the place of each directive leave the stylesheet valid, and no more rules
have to stand in front than before. -/
theorem FitsEach.isSheet_replaced (before : List Char) (hcut : IsCut name first cuts)
    (h : FitsEach name rules (before ++ first) cuts) (hrules : isSheet rules = true)
    (hstarts : StartsBody (marksOf (ofText rules)))
    (hsheet : isSheet (before ++ first ++ textOf cuts) = true) :
    isSheet (before ++ first ++ replaced rules cuts) = true ∧
      countEarly (before ++ first ++ replaced rules cuts) ≤
        countEarly (before ++ first ++ textOf cuts) := by
  induction hcut generalizing before with
  | last => exact ⟨hsheet, le_rfl⟩
  | @next first directive part cuts _ hdirective hcut ih =>
      obtain ⟨⟨place, hfits⟩, hbehind⟩ := h
      rw [textOf_cons, ← List.append_assoc, ← List.append_assoc] at hsheet
      -- the directives behind this one are replaced first, while what is in front stays as it is
      obtain ⟨hrest, hcount⟩ := ih (before ++ first ++ directive) hbehind hsheet
      have hassoc : ∀ w, before ++ first ++ directive ++ part ++ w =
          before ++ first ++ (directive ++ (part ++ w)) := fun w => by simp only [List.append_assoc]
      rw [hassoc] at hrest
      rw [hassoc, hassoc] at hcount
      have hends : isWhole place directive = true ∨ part ++ textOf cuts = [] :=
        hfits.ends.elim (isWhole_directive · hdirective place) id
      have hnil : part ++ textOf cuts = [] → part ++ replaced rules cuts = [] := by
        intro h
        obtain ⟨rfl, htext⟩ := List.append_eq_nil_iff.mp h
        rw [hcut.eq_nil_of_textOf htext]
        rfl
      have hreplaced : replaced rules ((directive, part) :: cuts) =
          rules ++ (part ++ replaced rules cuts) := by
        rw [replaced, List.flatMap_cons, List.append_assoc]
        rfl
      rw [hreplaced, textOf_cons]
      exact hfits.isSheet_replace hends hnil hrules hstarts hcount hrest

end StaticStyle.Sheet
