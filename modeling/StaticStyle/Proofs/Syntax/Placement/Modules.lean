import StaticStyle.Proofs.Syntax.Placement.Imports
import StaticStyle.Proofs.Syntax.Placement.Statements

/-!
# Placement of the items of modules

Exports and the other items of a module place what they read.
-/

namespace StaticStyle.Syntax

open StaticStyle.Syntax.Parser StaticStyle.Syntax.Grammar

variable {source : List Char} {self : Rules} {n start : Nat} {ts us : List Tree} {t u : Tree}
  {typeOnly : Bool}
  {P : Cursor → Prop}

theorem reads_importAttributes : Reads source id importAttributes := fun _ =>
  .post (importAttributes_meets Behind.stable) fun _ _ hc => hc.1.floats fun t ht => (hc.2 t ht).1

/-! ## Exported names -/

theorem exportName_meets (hP : Stable P) : Meets P exportName fun t c => P c ∧ Floats source t := by
  have haliased : Meets P (aliased moduleName) fun r c =>
      P c ∧ Floats source r.2.1 ∧ Floats source (r.2.2.getD r.2.1) := aliased_meets hP.leads
  refine .still fun start => .bind haliased fun r => ?_
  obtain ⟨typeOnly, first, second⟩ := r
  refine .of_fact (fun _ hc => hc.2) fun ⟨hfirst, hsecond⟩ => .pre (fun _ hc => hc.1) ?_
  exact .floating rfl (List.forall_mem_cons.mpr ⟨hfirst, List.forall_mem_singleton.mpr hsecond⟩)

/-- A name that is looked up floats as it did before. -/
theorem Floats.localExport {ctx : Context} (ht : Floats source t)
    (hu : localExport ctx t = some u) : Floats source u := by
  fun_cases Grammar.localExport ctx t with
  | case1 typeOnly s text r rest hname =>
      rw [Grammar.localExport, if_pos hname] at hu
      cases hu
      refine .node rfl (List.forall_mem_cons.mpr ⟨.leaf rfl r, fun v hv => ?_⟩) s
      exact ht.part (List.mem_cons_of_mem _ hv)
  | case2 typeOnly s text r rest hname =>
      rw [Grammar.localExport, if_neg hname] at hu
      cases hu
  | case3 t hother =>
      rw [Grammar.localExport] at hu
      · cases hu
      · exact hother

theorem Floats.localExports {ctx : Context} (hts : ∀ t ∈ ts, Floats source t)
    (hus : ts.mapM (Grammar.localExport ctx) = some us) : ∀ u ∈ us, Floats source u := by
  induction ts generalizing us with
  | nil =>
      cases hus
      exact List.forall_mem_nil _
  | cons t ts ih =>
      rw [List.mapM_cons] at hus
      obtain ⟨u, hu, hus⟩ := Option.bind_eq_some_iff.mp hus
      obtain ⟨vs, hvs, hus⟩ := Option.bind_eq_some_iff.mp hus
      cases hus
      obtain ⟨ht, hts⟩ := List.forall_mem_cons.mp hts
      exact List.forall_mem_cons.mpr ⟨ht.localExport hu, ih hts hvs⟩

theorem reads_exportNames : Reads source single (exportNames start typeOnly) := by
  refine fun lo => .skip fun _ =>
    .floatingList source Behind.stable (exportName_meets Behind.stable)
    fun ns hns => .skip fun isFrom => .ite (fun _ => ?_) fun _ => ?_
  · refine .pre (fun _ hc => hc.floats hns) (.skip fun _ => ?_)
    exact .reads reads_importAttributes fun _ => .skip fun _ => .node rfl
  · refine .still fun ctx => .elim fun us hus => ?_
    exact .pre (fun _ hc => hc.floats (.localExports hns hus)) (.skip fun _ => .node rfl)

theorem reads_exportAll : Reads source single (exportAll start typeOnly) := fun _ =>
  .skip fun _ => .skip fun _ => .either expresses_moduleName.reads reads_absent fun _ =>
    .skip fun _ =>
    .skip fun _ => .reads reads_importAttributes fun _ => .skip fun _ => .node rfl

/-! ## Exports -/

namespace Sound

/-- A class without decorators, wherever it stands. -/
theorem plainClass (h : Sound source self) {β : Type} {f : Tree → Parser β}
    {Q : β → Cursor → Prop} {lo : Nat} {isAbstract : Bool}
    (hf : ∀ t, Meets (Behind source lo [t]) (f t) Q) :
    Meets (Behind source lo [])
      (do let ds ← group []; let t ← Grammar.classFrom self start ds isAbstract; f t) Q := by
  have hclass : Reads source single (do Grammar.classFrom self start (← group []) isAbstract) :=
    h.undecoratedClass.reads
  rw [← bind_assoc]
  exact .reads hclass hf

theorem exportDefault (h : Sound source self) : Reads source single (exportDefault self start) := by
  refine fun lo => .still fun here => .still fun ctx => .still fun t => ?_
  extract_lets finish
  have hfinish : ∀ d, Meets (Behind source lo [d]) (finish d) fun t => Behind source lo [t] :=
    fun _ => .node rfl
  have hvalue : Meets (Behind source lo []) (do
      let e ← allowingIn (self (.assignment false)); semicolon; finish (← pure e)) fun t =>
        Behind source lo [t] :=
    .reads (h.assignment false).reads.allowingIn fun e => .skip fun _ => .value (hfinish e)
  split
  · exact .reads h.decoratedClass.reads hfinish
  · exact h.plainClass hfinish
  · exact .reads h.functionDeclaration hfinish
  · refine .still fun _ => .still fun _ => .ite (fun _ => .reads h.functionDeclaration hfinish)
      fun _ => .ite (fun _ => .skip fun _ => h.plainClass hfinish) fun _ => .still fun _ => ?_
    exact .ite (fun _ => .reads h.interfaceDeclaration hfinish) fun _ => hvalue
  · exact hvalue

theorem exportDeclaration (h : Sound source self) :
    Reads source single (exportDeclaration self) := by
  refine fun lo => .still fun start => .skip fun _ => .still fun ctx => .still fun t => ?_
  dsimp only
  split
  · exact reads_exportAll lo
  · exact reads_exportNames lo
  · exact .still fun _ => .skip fun _ => .reads h.expression.reads.allowingIn fun _ =>
      .skip fun _ => .node rfl
  · exact .reads h.decoratedClass.reads fun _ => .node rfl
  · exact .skip fun _ => h.exportDefault lo
  · exact .still fun _ => .reads expresses_importDeclaration.reads fun _ => .node rfl
  · refine .still fun _ => .ite (fun _ => .skip fun _ => .skip fun _ =>
      .reads expresses_name.reads fun _ => .skip fun _ => .node rfl) fun _ => .ite (fun _ => ?_)
        fun _ => ?_
    · exact .skip fun _ => .still fun _ => .ite (fun _ => reads_exportAll lo) fun _ =>
        reads_exportNames lo
    · exact .still fun _ => .still fun _ => .still fun _ => .reads h.declaration fun _ => .node rfl
  · exact .failure

/-- Decorators in front of an export are parts of its class. -/
theorem decoratedExport (h : Sound source self) : Expresses source (decoratedExport self) := by
  refine fun n => .position (.bind (.pre (fun _ => Before.toward) h.decorators_toward) fun ds =>
    .opens (fun _ hc => hc) fun _ hs => .skip fun isDefault => .still fun here => ?_)
  refine .skip fun isAbstract => .bind (.pre (fun _ => Behind.toward hs) h.classFrom) fun c => ?_
  cases isDefault with
  | true => exact .pre (fun _ hc => hc.behind) (.whole hs rfl)
  | false => exact .pre (fun _ hc => hc.behind) (.whole hs rfl)

/-! ## Items -/

theorem decoratedItem (h : Sound source self) : Reads source single (decoratedItem self) :=
  .orElse h.decoratedExport.reads (.orElse h.decoratedClass.reads (h.afterDecorators h.item))

theorem itemRule (h : Sound source self) : Reads source single (itemRule self) := by
  refine fun lo => .still fun t => ?_
  split
  · exact .still fun _ => .ite (fun _ => h.statement lo) fun _ =>
      expresses_importDeclaration.reads lo
  · exact h.exportDeclaration lo
  · exact h.decoratedItem lo
  · exact h.statement lo

end Sound

end StaticStyle.Syntax
