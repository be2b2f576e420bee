import StaticStyle.Proofs.Syntax.Placement.Types
import StaticStyle.Syntax.Grammar.Modules

/-!
# Placement of imports

The trees of an import float: they hold no calls, so they are placed wherever they stand
(`Floats`).  The names in its braces stand between the braces (`importClause_meets`), which
is what an import needs to be placed itself (`Meets.import`).
-/

namespace StaticStyle.Syntax

open StaticStyle.Syntax.Parser StaticStyle.Syntax.Grammar
open StaticStyle.Text (Continues Solid slice?)

variable {β : Type} {source : List Char} {self : Rules} {lo hi n start : Nat}
  {ts us : List Tree} {t u : Tree}
  {k : Kind} {s : Text.Span} {c : Cursor} {P P' : Cursor → Prop}
  {typeOnly : Bool} {Q : β → Cursor → Prop}

/-! ## Trees that float -/

/-- In an empty place stands nothing. -/
theorem not_stands_self : ¬ Stands source n n s := by
  intro h
  have hlower := h.lower
  have hupper := h.upper
  have hnonempty := h.nonempty
  omega

/-- A tree is placed wherever it stands. -/
def Floats (source : List Char) (t : Tree) : Prop := ∀ lo, t.Placed source lo lo

theorem PlacedAll.of_floats (h : ∀ t ∈ ts, Floats source t) (hle : lo ≤ hi) :
    PlacedAll source lo hi ts := by
  induction ts with
  | nil => exact hle
  | cons t ts ih =>
      exact ⟨lo, h t List.mem_cons_self lo, ih fun u hu => h u (List.mem_cons_of_mem t hu)⟩

namespace Floats

theorem node (hk : k.isPlain ts = true) (h : ∀ t ∈ ts, Floats source t) (s : Text.Span) :
    Floats source (.node k s ts) := fun lo => .node hk (.of_floats h (Nat.le_refl lo)) s

theorem leaf (hk : k.isPlain [] = true) (s : Text.Span) : Floats source (.node k s []) :=
  node hk nofun s

theorem part (h : Floats source (.node k s ts)) (ht : t ∈ ts) : Floats source t :=
  fun lo => (h lo).2.of_mem ht

end Floats

mutual

theorem Tree.Placed.any_isLandmark : ∀ {t : Tree}, t.Placed source n n → t.any isLandmark = false
  | .node k s cs, h => by
      have hk : isLandmark (.node k s cs) = false := by
        cases hmark : isLandmark (.node k s cs) with
        | false => rfl
        | true =>
            exact absurd (h.stands hmark) not_stands_self
      rw [Tree.any, hk, Bool.false_or]
      exact PlacedAll.anyOf_isLandmark h.2

/-- What stands in an empty place holds no landmarks. -/
theorem PlacedAll.anyOf_isLandmark : ∀ {ts : List Tree}, PlacedAll source n n ts →
    Tree.anyOf isLandmark ts = false
  | [], _ => rfl
  | t :: ts, ⟨mid, ht, hts⟩ => by
      have hmid : mid = n := Nat.le_antisymm hts.le ht.le
      rw [hmid] at ht hts
      rw [Tree.anyOf, Tree.Placed.any_isLandmark ht, Bool.false_or]
      exact PlacedAll.anyOf_isLandmark hts

end

theorem Behind.floats (h : Behind source lo [] c) (hts : ∀ t ∈ ts, Floats source t) :
    Behind source lo ts c := ⟨h.inSource, .of_floats hts h.le⟩

/-- A tree that floats is read, and what follows it. -/
theorem Meets.floats (source : List Char) {p : Parser Tree} {f : Tree → Parser β}
    (hp : Meets P p fun t c => P' c ∧ Floats source t)
    (hf : ∀ t, Floats source t → Meets P' (f t) Q) : Meets P (p >>= f) Q :=
  .bind hp fun t => .of_fact (fun _ hc => hc.2) fun ht => .pre (fun _ hc => hc.1) (hf t ht)

theorem Meets.floating {start : Nat} (hk : k.isPlain ts = true) (h : ∀ t ∈ ts, Floats source t) :
    Meets P (Parser.node start k ts) fun t c => P c ∧ Floats source t := by
  intro ctx c t d hc hr
  cases hr
  exact ⟨hc, .node hk h _⟩

/-- A list of trees that float is read, and what follows it. -/
theorem Meets.floatingList (source : List Char) {item : Parser Tree} {m : String}
    {f : List Tree → Parser β} (hP : Stable P) (hi : Meets P item fun t c => P c ∧ Floats source t)
    (hf : ∀ ts, (∀ t ∈ ts, Floats source t) → Meets P (f ts) Q) :
    Meets P (Parser.commaList m item >>= f) Q := by
  refine .bind (R := fun ts c => P c ∧ ∀ t ∈ ts, Floats source t) (.pre (fun _ hc =>
    ⟨hc, List.forall_mem_nil _⟩) (.commaList (fun _ _ hc => ⟨hP hc.1, hc.2⟩) fun ts => ?_))
    fun ts => ?_
  · refine .of_fact (fun _ hc => hc.2) fun hts =>
      .post (.pre (fun _ hc => hc.1) hi) fun t c hc => ?_
    exact ⟨hc.1, List.forall_mem_append.mpr ⟨hts, List.forall_mem_singleton.mpr hc.2⟩⟩
  · exact .of_fact (fun _ hc => hc.2) fun hts => .pre (fun _ hc => hc.1) (hf ts hts)

/-! ## Names -/

/-- A token leads from one property to another, which the tokens after it keep. -/
structure Leads (P P' : Cursor → Prop) : Prop where
  first : ∀ c, P c → c.token.isReal = true → P' c.next
  stable : Stable P'

theorem Stable.leads (h : Stable P) : Leads P P := ⟨fun _ hc _ => h hc, h⟩

theorem leads_before : Leads (Before source n) fun c => Solid source n ∧ Behind source n [] c where
  first _ hc ht := hc.toward.next ht
  stable _ hc := ⟨hc.1, hc.2.next⟩

theorem anyWord_meets (h : Leads P P') : Meets P anyWord fun _ => P' := by
  refine .token fun t => ?_
  split
  · exact .bind (.advance fun c hc => h.first c hc.1 (hc.2 ▸ rfl)) fun _ => .pure fun _ hc => hc
  · exact .failure

theorem name_meets (h : Leads P P') : Meets P name fun t c => P' c ∧ Floats source t :=
  .still fun _ => .bind (anyWord_meets h) fun _ => .floating rfl (List.forall_mem_nil _)

theorem binding_meets (h : Leads P P') : Meets P binding fun t c => P' c ∧ Floats source t :=
  .still fun _ => .bind (.still fun _ => .still fun _ => anyWord_meets h) fun _ =>
    .floating rfl (List.forall_mem_nil _)

theorem stringNode_meets (h : Leads P P') :
    Meets P stringNode fun t c => P' c ∧ Floats source t := by
  refine .still fun start => .token fun t => ?_
  split
  · exact .bind (.advance fun c hc => h.first c hc.1 (hc.2 ▸ rfl)) fun _ =>
      .floating rfl (List.forall_mem_nil _)
  · exact .failure

theorem moduleName_meets (h : Leads P P') : Meets P moduleName fun t c => P' c ∧ Floats source t :=
  .orElse (name_meets h) (stringNode_meets h)

/-- A name with another one after `as`. -/
theorem aliased_meets (h : Leads P P') : Meets P (aliased moduleName) fun r c =>
    P' c ∧ Floats source r.2.1 ∧ Floats source (r.2.2.getD r.2.1) := by
  refine .still fun ctx => .get fun c => ?_
  extract_lets second third isWord isAs typeOnly finish
  have hfinish : ∀ {S : Cursor → Prop}, Leads S P' → ∀ r, Meets S (finish r) fun r c =>
      P' c ∧ Floats source r.2.1 ∧ Floats source (r.2.2.getD r.2.1) := by
    intro S hS _
    have hname : Meets S moduleName fun t c => P' c ∧ Floats source t := moduleName_meets hS
    refine .bind hname fun first => .steady (fun c hc => ⟨h.stable hc.1, hc.2⟩) fun _ => ?_
    refine .ite (fun _ => ?_) fun _ => .pure fun c hc => ⟨hc.1, hc.2, hc.2⟩
    refine .of_fact (fun _ hc => hc.2) fun hfirst => .pre (fun _ hc => hc.1) ?_
    exact .bind (moduleName_meets h.stable.leads) fun second => .pure fun c hc =>
      ⟨hc.1, hfirst, hc.2⟩
  refine .ite (fun htype => ?_) fun _ => .pre (fun _ hc => hc.1) (hfinish h ())
  refine .bind (.advance fun d hd => h.first d hd.1 ?_) (hfinish h.stable.leads)
  have htoken : c.token = .word "type" false := by
    simp only [typeOnly, Bool.and_eq_true, beq_iff_eq] at htype
    exact htype.1.1.2
  rw [hd.2, htoken]
  rfl

/-- An imported name floats, and it covers what was read for it. -/
theorem importName_meets : Meets (Before source n) importName fun t c =>
    Whole source n n t c ∧ Floats source t := by
  have haliased : Meets (Before source n) (aliased moduleName) fun r c =>
      (Solid source n ∧ Behind source n [] c) ∧ Floats source r.2.1 ∧
        Floats source (r.2.2.getD r.2.1) := aliased_meets leads_before
  refine .position (.bind haliased fun r => ?_)
  obtain ⟨typeOnly, imported, local?⟩ := r
  refine .of_fact (fun _ hc => hc.2) fun ⟨himported, hlocal⟩ => ?_
  refine .bind (R := fun b c => (Solid source n ∧ Behind source n [] c) ∧ Floats source b) ?_
    fun b => ?_
  · change Floats source (local?.getD imported) at hlocal
    dsimp only
    split
    · exact .still fun ctx => .still fun _ => .pure fun _ hc => ⟨hc.1, .leaf rfl _⟩
    · exact .failure
  · intro ctx c t d hc hr
    cases hr
    obtain ⟨⟨hs, hc⟩, hb⟩ := hc
    have hparts : ∀ t ∈ [imported, b], Floats source t :=
      List.forall_mem_cons.mpr ⟨himported, List.forall_mem_singleton.mpr hb⟩
    exact ⟨⟨(hc.floats hparts).node rfl _, rfl, hs⟩, .node rfl hparts _⟩

/-- The attributes of an import float, and none of them is a name. -/
theorem importAttributes_meets (hP : Stable P) : Meets P importAttributes fun as c =>
    P c ∧ ∀ t ∈ as, Floats source t ∧ isImportName t = false := by
  refine .still fun _ => .still fun _ => .still fun _ => .still fun _ => ?_
  extract_lets there
  refine .still fun _ => .ite (fun _ => ?_) fun _ => .pure fun _ hc => ⟨hc, nofun⟩
  have hname : Meets P moduleName fun t c => P c ∧ Floats source t := moduleName_meets hP.leads
  refine .steady hP fun _ => .steady hP fun _ => .floatingList source hP (.still fun _ => ?_)
    fun ps hps => ?_
  · refine .bind (.given hname gives_moduleName) fun k =>
      .of_fact (fun _ hc => And.intro hc.1 hc.2.2) fun ⟨hkey, hk⟩ => .pre (fun _ hc => hc.2.1) ?_
    refine .steady hP fun _ => .floats source (stringNode_meets hP.leads) fun v hv => ?_
    exact .floating ((Bool.not_eq_true' _).mpr hkey)
      (List.forall_mem_cons.mpr ⟨hk, List.forall_mem_singleton.mpr hv⟩)
  · intro ctx c as d hc hr
    cases hr
    exact ⟨hc, List.forall_mem_singleton.mpr ⟨.node rfl hps _, rfl⟩⟩

/-! ## Clauses -/

/-- An import that starts at an offset is read up to the cursor, with some of its parts. -/
structure Importing (source : List Char) (n : Nat) (ts : List Tree) (c : Cursor) : Prop where
  inSource : c.In source
  solid : Solid source n
  lt : n < c.last
  floats : ∀ t ∈ ts, Floats source t
  braced : ∀ t ∈ ts, isImportName t = true → Braced source ⟨n, c.last⟩ t.span

/-- Names of an import are read behind an opening brace. -/
structure InBraces (source : List Char) (n p : Nat) (ts us : List Tree) (c : Cursor) : Prop
    extends Importing source n ts c where
  opening : ∃ s, Continues source p ('\x7b' :: s)
  lower : n ≤ p
  upper : p < c.last
  names : ∀ t ∈ us, Floats source t ∧ (slice? source t.span).isSome ∧
    p < t.span.start ∧ t.span.stop ≤ c.last

/-- What is covered with braces is covered by more. -/
theorem Braced.mono {s : Text.Span} (h : Braced source ⟨n, lo⟩ s) (hle : lo ≤ hi) :
    Braced source ⟨n, hi⟩ s where
  isPart := h.isPart
  opening := h.opening
  closing := by
    obtain ⟨p, s, hclosing, hstop, hlt⟩ := h.closing
    exact ⟨p, s, hclosing, hstop, Nat.lt_of_lt_of_le hlt hle⟩

theorem Importing.next (h : Importing source n ts c) : Importing source n ts c.next where
  inSource := h.inSource.next
  solid := h.solid
  lt := by
    rw [c.next_last]
    exact Nat.lt_of_lt_of_le h.lt h.inSource.last_le_stop
  floats := h.floats
  braced t ht hname := by
    rw [c.next_last]
    exact (h.braced t ht hname).mono h.inSource.last_le_stop

theorem Importing.stable : Stable (Importing source n ts) := fun _ => Importing.next

theorem Importing.behind (h : Importing source n ts c) : Behind source n [] c :=
  .of_le h.inSource (Nat.le_of_lt h.lt)

/-- Parts that are no names can be added. -/
theorem Importing.append (h : Importing source n ts c)
    (hus : ∀ t ∈ us, Floats source t ∧ isImportName t = false) :
    Importing source n (ts ++ us) c where
  inSource := h.inSource
  solid := h.solid
  lt := h.lt
  floats t ht := (List.mem_append.mp ht).elim (h.floats t) fun ht => (hus t ht).1
  braced t ht hname := (List.mem_append.mp ht).elim (fun ht => h.braced t ht hname) fun ht =>
    absurd hname (by rw [(hus t ht).2]; nofun)

theorem importAttributes_importing : Meets (Importing source n ts) importAttributes fun as =>
    Importing source n (ts ++ as) :=
  .post (importAttributes_meets Importing.stable) fun _ _ hc => hc.1.append hc.2

theorem InBraces.stable {p : Nat} : Stable (InBraces source n p ts us) := fun c h => {
  h.toImporting.next with
  opening := h.opening
  lower := h.lower
  upper := by
    rw [c.next_last]
    exact Nat.lt_of_lt_of_le h.upper h.inSource.last_le_stop
  names := fun t ht => by
    obtain ⟨hfloats, hpart, hlower, hupper⟩ := h.names t ht
    rw [c.next_last]
    exact ⟨hfloats, hpart, hlower, Nat.le_trans hupper h.inSource.last_le_stop⟩ }

/-- A name in the braces of an import is covered by them. -/
theorem importName_inBraces {p : Nat} : Meets (InBraces source n p ts us) importName fun t =>
    InBraces source n p ts (us ++ [t]) := by
  intro ctx c t d hc hr
  obtain ⟨ht, hfloats⟩ := importName_meets ⟨hc.inSource, rfl⟩ hr
  have hle : c.last ≤ d.last := Nat.le_trans hc.inSource.le ht.behind.le
  exact {
    inSource := ht.behind.inSource
    solid := hc.solid
    lt := Nat.lt_of_lt_of_le hc.lt hle
    floats := hc.floats
    braced := fun u hu hname => (hc.braced u hu hname).mono hle
    opening := hc.opening
    lower := hc.lower
    upper := Nat.lt_of_lt_of_le hc.upper hle
    names := fun u hu => by
      rcases List.mem_append.mp hu with hu | hu
      · obtain ⟨hfloats, hpart, hlower, hupper⟩ := hc.names u hu
        exact ⟨hfloats, hpart, hlower, Nat.le_trans hupper hle⟩
      · cases List.mem_singleton.mp hu
        refine ⟨hfloats, ht.isPart, ?_, ?_⟩
        · rw [ht.span]
          exact Nat.lt_of_lt_of_le hc.upper hc.inSource.le
        · rw [ht.span] }

/-- Behind the closing brace the names are parts of the import. -/
theorem InBraces.close {p : Nat} (h : InBraces source n p ts us c) (hm : c.token = .mark "\x7d") :
    Importing source n (ts ++ us) c.next where
  inSource := h.inSource.next
  solid := h.solid
  lt := h.toImporting.next.lt
  floats t ht := (List.mem_append.mp ht).elim (h.floats t) fun ht => (h.names t ht).1
  braced t ht hname := by
    rcases List.mem_append.mp ht with ht | ht
    · exact h.toImporting.next.braced t ht hname
    · obtain ⟨-, hpart, hlower, hupper⟩ := h.names t ht
      obtain ⟨s, hopening⟩ := h.opening
      obtain ⟨hclosing, hstop⟩ := h.inSource.mark hm
      refine ⟨hpart, ⟨p, s, hopening, h.lower, hlower⟩, c.start, c.after, hclosing,
        Nat.le_trans hupper h.inSource.le, ?_⟩
      rw [c.next_last, hstop]
      exact Nat.lt_add_of_pos_right (by decide)

/-- The opening brace of the names of an import. -/
theorem Importing.open (h : Importing source n ts c) (hm : c.token = .mark "\x7b") :
    InBraces source n c.start ts [] c.next := { h.next with
  opening := ⟨c.after, (h.inSource.mark hm).1⟩
  lower := Nat.le_trans (Nat.le_of_lt h.lt) h.inSource.le
  upper := by
    rw [c.next_last, (h.inSource.mark hm).2]
    exact Nat.lt_add_of_pos_right (by decide)
  names := nofun }

theorem importNames_meets : Meets (fun c => ∃ p, InBraces source n p ts [] c)
    (commaList "\x7d" importName) fun us => Importing source n (ts ++ us) :=
  .of_exists fun _ => .commaListTo (fun _ => InBraces.stable) (fun _ => importName_inBraces)
    fun _ _ hc hm => hc.close hm

/-- A node around a binding is a part of an import, and no name. -/
theorem Importing.around {kind : Kind} (hk : ∀ ts, kind.isPlain ts = true)
    (hname : ∀ s ts, isImportName (.node kind s ts) = false) (ht : Floats source t) :
    Meets (Importing source n ts) (Parser.node start kind [t]) fun u =>
      Importing source n (ts ++ [u]) := by
  intro ctx c u d hc hr
  cases hr
  refine hc.append (List.forall_mem_singleton.mpr ⟨.node (hk _) ?_ _, hname _ _⟩)
  exact List.forall_mem_singleton.mpr ht

theorem namespaceImport_meets : Meets (Importing source n ts) namespaceImport fun t =>
    Importing source n (ts ++ [t]) :=
  .still fun _ => .steady Importing.stable fun _ => .steady Importing.stable fun _ =>
    .floats source (binding_meets Importing.stable.leads) fun _ hb =>
      .around (fun _ => rfl) (fun _ _ => rfl) hb

theorem importClause_meets : Meets (Importing source n []) importClause (Importing source n) := by
  refine .still fun isNamed => ?_
  extract_lets withDefaults
  have hdefaults : ∀ ds, Meets (Importing source n ds) (withDefaults ds) (Importing source n) := by
    refine fun ds => .steady Importing.stable fun more => ?_
    extract_lets isMore
    refine .ite (fun _ => .pure fun _ hc => hc) fun _ => .still fun isStar => ?_
    refine .ite (fun _ => .bind namespaceImport_meets fun t => .pure fun _ hc => hc) fun _ => ?_
    refine .bind (R := fun _ c => ∃ p, InBraces source n p ds [] c)
      (.expect fun c hc hm => ⟨c.start, hc.open hm⟩) fun _ => ?_
    exact .bind importNames_meets fun us => .pure fun _ hc => hc
  refine .ite (fun _ => .still fun start => ?_) fun _ => .value (hdefaults [])
  exact .floats source (binding_meets Importing.stable.leads) fun b hb =>
    .bind (.around (fun _ => rfl) (fun _ _ => rfl) hb) fun t => .value (hdefaults [t])

theorem importEquals_meets : Meets (Importing source n []) (importEquals start typeOnly)
    (Whole source n start) := by
  refine .of_fact (fun _ hc => hc.solid) fun hs => .pre (fun _ hc => hc.behind) ?_
  refine .reads expresses_binding.reads fun b => .skip fun _ => .still fun at_ => .still fun _ =>
    .still fun _ => ?_
  extract_lets withTarget
  have htarget : ∀ target, Meets (Behind source n [b, target]) (withTarget target)
      (Whole source n start) := fun target => .skip fun _ => .whole hs rfl
  refine .ite (fun _ => .skip fun _ => .skip fun _ => .skip fun _ => .skip fun _ => ?_) fun _ =>
    .reads Sound.qualifiedName htarget
  exact .bind (.behind [b] [] fun _ => .node rfl) htarget

/-- Around its parts an import is placed. -/
theorem Importing.whole {name : String} :
    Meets (Importing source n ts) (Parser.node n (.importDeclaration name typeOnly) ts)
      (Whole source n n) := by
  intro ctx c t d hc hr
  cases hr
  have hpart : (slice? source ⟨n, c.last⟩).isSome := by
    obtain ⟨e, s, hs, -⟩ := hc.solid
    exact hs.isSome_slice? hc.inSource.last (Nat.le_of_lt hc.lt)
  have hstands : Stands source n c.last ⟨n, c.last⟩ :=
    ⟨Nat.le_refl n, Nat.le_refl c.last, hc.lt, hc.solid, hpart⟩
  refine ⟨⟨hc.inSource, placedAll_singleton.mpr ⟨⟨hstands, fun t ht => ?_, hc.braced⟩, ?_⟩⟩,
    rfl, hc.solid⟩
  · exact (hc.floats t ht 0).any_isLandmark
  · exact .of_floats hc.floats (Nat.le_of_lt hc.lt)

theorem expresses_importDeclaration : Expresses source importDeclaration := by
  refine fun n => .position (.bind (R := fun _ => Importing source n [])
    (.expectWord fun c hc hw => ?_) fun _ => ?_)
  · obtain ⟨hs, hnext⟩ := hc.toward.next (hw ▸ rfl)
    refine ⟨hnext.inSource, hs, ?_, nofun, nofun⟩
    rw [c.next_last, ← hc.start]
    exact hc.inSource.start_lt_stop_of_word hw
  · extract_lets finish
    have hfinish : ∀ typeOnly ts, Meets (Importing source n ts) (finish typeOnly ts)
        (Whole source n n) := by
      exact fun typeOnly ts => .steady Importing.stable fun name =>
        .bind importAttributes_importing fun as => .steady Importing.stable fun _ => Importing.whole
    refine .still fun t => ?_
    split
    · exact hfinish false []
    refine .still fun ctx => .still fun c => ?_
    extract_lets second third typeOnly afterType
    have hafter : ∀ u, Meets (Importing source n []) (afterType u) (Whole source n n) :=
      fun _ => .still fun _ => .still fun _ => .ite (fun _ => importEquals_meets) fun _ =>
        .bind importClause_meets fun ts => .steady Importing.stable fun _ => hfinish typeOnly ts
    exact .ite (fun _ => .steady Importing.stable hafter) fun _ => hafter ()

end StaticStyle.Syntax
