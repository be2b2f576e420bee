import StaticStyle.Proofs.Syntax.Placement.Elements
import StaticStyle.Syntax.Grammar.Expressions

/-!
# Placement of calls

The expressions from the literals up to members and calls.  A call starts where its callee
does, which is where its first token stands, and ends with the parenthesis that closes its
arguments (`Meets.call`).
-/

namespace StaticStyle.Syntax

open StaticStyle.Syntax.Parser StaticStyle.Syntax.Grammar
open StaticStyle.Text (Solid slice?)

variable {source : List Char} {self : Rules} {lo n start : Nat} {ts as : List Tree} {t types : Tree}
  {c : Cursor} {P : Cursor → Prop}

/-- A tree is a part of the source. -/
def IsPart (source : List Char) (t : Tree) : Prop := (slice? source t.span).isSome

namespace Sound

/-! ## Literals -/

theorem itemOrSpread (h : Sound source self) : Expresses source (itemOrSpread self) := fun n =>
  .position (.firstMark (fun _ => Before.toward)
    (fun hs => .reads (h.assignment false).reads fun _ => .whole hs rfl) (h.assignment false n))

theorem arrayLiteral (h : Sound source self) : Expresses source (arrayLiteral self) := by
  refine fun n => .position (.opens (fun _ => Before.toward) fun _ hs =>
    .reads (Reads.allowingIn (.commaList fun lo => .still fun isElision => ?_)) fun _ =>
      .whole hs rfl)
  refine .ite (fun _ => .still fun _ => .pure fun _ hc => hc.leaf rfl _) fun _ => ?_
  exact h.itemOrSpread.reads lo

theorem objectMethod (h : Sound source self) {form : MemberForm} {async generator : Bool} :
    Reads source single (objectMethod self start form async generator) := fun _ =>
  .readsGiven gives_key h.key fun _ hkey => .reads h.methodFunction fun _ =>
    .node (isPlain_property hkey)

theorem objectProperty (h : Sound source self) : Reads source single (objectProperty self) := by
  refine fun lo => .still fun start => .skip fun isSpread => .ite
    (fun _ => .reads (h.assignment false).reads fun _ => .node rfl) fun _ => ?_
  refine .still fun _ => .ite (fun _ => .skip fun _ => h.objectMethod lo) fun _ => ?_
  refine .still fun _ => .ite (fun _ => .skip fun _ => h.objectMethod lo) fun _ => ?_
  refine .still fun _ => .ite (fun _ => .skip fun _ => .skip fun _ => h.objectMethod lo) fun _ => ?_
  refine .skip fun _ => .ite (fun _ => h.objectMethod lo) fun _ => .still fun _ =>
    .still fun _ => ?_
  extract_lets shorthand
  refine .ite (fun _ => .bind (.given look_name gives_look_name) fun k => .of_and fun hkey =>
    .reads expresses_reference.reads fun r => ?_)
    fun _ => .readsGiven gives_key h.key fun k hkey => .still fun _ => ?_
  · refine .skip fun _ => .ite (fun _ => .reads (h.assignment false).reads fun e => ?_) fun _ =>
      .node (isPlain_property fun _ => hkey)
    exact .bind (.behind [k] [r, e] fun lo => .node rfl) fun v =>
      .node (isPlain_property fun _ => hkey)
  · exact .ite (fun _ => .reads h.methodFunction fun _ => .node (isPlain_property hkey)) fun _ =>
      .skip fun _ => .reads (h.assignment false).reads fun _ => .node (isPlain_property hkey)

theorem objectLiteral (h : Sound source self) : Expresses source (objectLiteral self) := fun _ =>
  .position (.opens (fun _ => Before.toward) fun _ hs =>
    .reads (Reads.commaList h.objectProperty).allowingIn fun _ => .whole hs rfl)

theorem templateLiteral (h : Sound source self) {tagged : Bool} :
    Expresses source (templateLiteral self tagged) := fun _ =>
  .position (.bind
    (.pre (fun _ => Before.toward) (templateParts_opens h.expression.reads.allowingIn)) fun _ =>
      .of_and fun hs => .whole hs rfl)

end Sound

theorem solid_of_next {m : String} (h : Before source n c ∧ c.token = .mark m) : Solid source n :=
  h.1.start ▸ h.1.inSource.solid_of_mark h.2

/-- A regular expression covers the text up to its flags. -/
theorem regexLiteral_meets (hs : Solid source n) :
    Meets (Before source n) regexLiteral (Whole source n n) := by
  refine .position (.get fun e => .elim fun r hr => ?_)
  refine .bind (R := fun _ => Before source n) (.set fun c hc => ?_) fun _ =>
    .bind (.advance fun c hc => ?_) fun _ => .whole hs rfl
  · obtain ⟨hc, rfl⟩ := hc
    have hrest := (suffix_of_scanRegex hr).trans (List.drop_suffix 1 c.here)
    exact ⟨hc.inSource.rescan (.literal rfl (take_append_of_suffix hrest)) (absurd rfl), hc.start⟩
  · refine .of_le hc.inSource.next ?_
    rw [c.next_last, ← hc.start]
    exact hc.inSource.start_le_stop

namespace Sound

/-! ## Primary expressions -/

theorem parenthesized (h : Sound source self) : Expresses source (parenthesized self) := fun _ =>
  .position (.opens (fun _ => Before.toward) fun _ hs =>
    .readsGiven h.gives.expression.allowingIn h.expression.reads.allowingIn fun _ he =>
      .skip fun _ => .whole hs (isPlain_wrapper rfl he))

theorem decoratedClass (h : Sound source self) : Expresses source (decoratedClass self) := fun _ =>
  .position (.bind (.pre (fun _ => Before.toward) h.decorators_toward) fun _ =>
    .firstWord (fun _ hc => hc) (fun hs => .pre (fun _ => Behind.toward hs) h.classFrom)
      h.classFrom)

theorem primary (h : Sound source self) : Expresses source (primary self) := by
  refine fun n => .position (.token fun t => ?_)
  split
  · exact .first (fun _ => Before.toward) rfl fun hs => .whole hs rfl
  · exact .first (fun _ => Before.toward) rfl fun hs => .whole hs rfl
  · exact .first (fun _ => Before.toward) rfl fun hs => .whole hs rfl
  · exact .pre (fun _ hc => hc.1) (h.templateLiteral n)
  · exact .pre (fun _ hc => hc.1) (h.parenthesized n)
  · exact .pre (fun _ hc => hc.1) (h.arrayLiteral n)
  · exact .pre (fun _ hc => hc.1) (h.objectLiteral n)
  · exact .of_fact (fun _ => solid_of_next) fun hs =>
      .pre (fun _ hc => hc.1) (regexLiteral_meets hs)
  · exact .of_fact (fun _ => solid_of_next) fun hs =>
      .pre (fun _ hc => hc.1) (regexLiteral_meets hs)
  · exact .pre (fun _ hc => hc.1) (h.decoratedClass n)
  · exact .pre (fun _ hc => hc.1) (.still fun _ => .still fun _ => (h.element n).allowingIn)
  · exact .first (fun _ => Before.toward) rfl fun hs => .whole hs rfl
  · exact .first (fun _ => Before.toward) rfl fun hs => .whole hs rfl
  · exact .first (fun _ => Before.toward) rfl fun hs => .whole hs rfl
  · exact .first (fun _ => Before.toward) rfl fun hs => .whole hs rfl
  · exact .pre (fun _ hc => hc.1.toward) (h.functionFrom n)
  · exact .bind (.pre (fun _ hc => hc.1.toward) .group_toward) fun _ => h.classFrom
  · exact .still fun _ => .ite
      (fun _ => .first (fun _ => Before.toward) rfl fun hs =>
        .pre (fun _ => Behind.toward hs) (h.functionFrom n))
      fun _ => .pre (fun _ hc => hc.1) (expresses_reference n)
  · exact .failure

end Sound

/-! ## Members and calls -/

/-- A tree that members and calls can be built on, wherever the cursor is. -/
structure Base (source : List Char) (n : Nat) (t : Tree) : Prop where
  start : t.span.start = n
  solid : Solid source n
  isPart : IsPart source t

theorem Whole.base (h : Whole source n n t c) : Base source n t :=
  ⟨by rw [h.span], h.solid, h.isPart⟩

theorem Base.whole {k : Kind} (ht : Base source n t) (hk : k.isPlain ts = true) :
    Meets (Behind source n ts) (node t.span.start k ts) (Whole source n n) := by
  rw [ht.start]
  exact .whole ht.solid hk

/-- A call covers its callee and what stands up to its last parenthesis. -/
theorem Meets.call {skips : Bool} (ht : Base source n t) (has : ∀ a ∈ as, IsPart source a) :
    Meets (fun c => Behind source n (t :: types :: as) c ∧ n < c.last)
      (Parser.node t.span.start (.call skips) (t :: types :: as)) (Whole source n n) := by
  intro ctx c u d ⟨hc, hlt⟩ hr
  cases hr
  rw [ht.start]
  obtain ⟨x, s, hx, -⟩ := ht.solid
  have hstands : Stands source n c.last ⟨n, c.last⟩ :=
    ⟨Nat.le_refl n, Nat.le_refl c.last, hlt, ht.solid, hx.isSome_slice? hc.inSource.last hc.le⟩
  have hparts : CallParts source (t :: types :: as) :=
    ⟨t, types, as, rfl, List.forall_mem_cons.mpr ⟨ht.isPart, has⟩⟩
  exact ⟨⟨hc.inSource, placedAll_singleton.mpr ⟨⟨hstands, hparts⟩, hc.placed⟩⟩, rfl, ht.solid⟩

namespace Sound

theorem arguments (h : Sound source self) :
    Meets (Behind source n ts) (arguments self) fun as c =>
      (∀ a ∈ as, IsPart source a) ∧ Behind source n (ts ++ as) c ∧ n < c.last := by
  refine .bind (.expect fun c hc hm => ?_) fun _ =>
    .allowingIn (.commaList (fun as c hc => ?_) fun as => ?_)
  · have hstop : c.stop = c.start + 1 := (hc.inSource.mark hm).2
    have hle := hc.le
    have hstart := hc.inSource.le
    refine ⟨nofun, ?_, ?_⟩
    · rw [List.append_nil]
      exact hc.next
    · rw [c.next_last]
      omega
  · refine ⟨hc.1, hc.2.1.next, ?_⟩
    rw [c.next_last]
    exact Nat.lt_of_lt_of_le hc.2.2 hc.2.1.inSource.last_le_stop
  · intro ctx c a d ⟨has, hc, hlt⟩ hr
    have ha := h.itemOrSpread c.start ⟨hc.inSource, rfl⟩ hr
    have hplaced := hc.placed.mono (Nat.le_refl n) hc.inSource.le
    refine ⟨?_, ?_, ?_⟩
    · exact List.forall_mem_append.mpr ⟨has, List.forall_mem_singleton.mpr ha.isPart⟩
    · rw [← List.append_assoc]
      exact .append hplaced ha.behind
    · exact Nat.lt_of_lt_of_le hlt (Nat.le_trans hc.inSource.le ha.behind.le)

theorem tryTypeArguments (h : Sound source self) (hP : ∀ c, P c → Behind source n ts c) :
    Meets P (tryTypeArguments self) (Found (fun types => Behind source n (ts ++ [types])) P) := by
  refine .still fun _ => .still fun _ => .ite (fun _ => .pure fun _ hc => hc) fun _ => .attempt ?_
  exact .pre hP (.reads h.typeArguments.reads fun _ => .still fun _ => .still fun _ =>
    .still fun _ => .pure fun _ hc => hc)

theorem indexed (h : Sound source self) {isOptional : Bool} (ht : Base source n t) :
    Meets (Behind source n [t]) (indexed self t isOptional) (Whole source n n) :=
  .skip fun _ => .reads h.expression.reads.allowingIn fun _ => .skip fun _ => ht.whole rfl

theorem optionalPart (h : Sound source self) (ht : Base source n t) :
    Meets (Behind source n [t]) (optionalPart self t) (Whole source n n) := by
  refine .still fun _ => .ite (fun _ => ?_) fun _ => .still fun _ => .ite (fun _ => h.indexed ht)
    fun _ => .still fun _ => .ite (fun _ => ?_) fun _ => ?_
  · exact .reads reads_absent fun types => .bind h.arguments fun as => .of_and fun has =>
      .call ht has
  · exact .reads h.typeArguments.reads fun types => .bind h.arguments fun as => .of_and fun has =>
      .call ht has
  · exact .reads expresses_memberName.reads fun _ => ht.whole rfl

theorem memberStep (h : Sound source self) (hexpression : t.kind.isExpression = true) :
    Meets (Whole source n n t) (memberStep self t)
      (Found (Whole source n n) (Whole source n n t)) := by
  refine .of_fact (fun _ => Whole.base) fun ht => .token fun tok => ?_
  split
  · exact .pre (fun _ hc => hc.1.behind) (.skip fun _ => .reads expresses_memberName.reads fun _ =>
      .bind (ht.whole rfl) fun _ => .pure fun _ hc => hc)
  · refine .still fun _ => .ite (fun _ => .pure fun _ hc => hc.1) fun _ => ?_
    exact .pre (fun _ hc => hc.1.behind) (.bind (h.indexed ht) fun _ => .pure fun _ hc => hc)
  · refine .still fun _ => .still fun _ => .ite (fun _ => ?_) fun _ => .pure fun _ hc => hc.1
    exact .pre (fun _ hc => hc.1.behind) (.skip fun _ =>
      .bind (ht.whole (isPlain_wrapper rfl hexpression))
      fun _ => .pure fun _ hc => hc)
  · exact .pre (fun _ hc => hc.1.behind) (.reads reads_absent fun _ =>
      .reads h.templateLiteral.reads fun _ => .bind (ht.whole rfl) fun _ => .pure fun _ hc => hc)
  · exact .pure fun _ hc => hc.1

theorem newExpression (h : Sound source self) : Expresses source (newExpression self) := by
  refine fun n => .position (.opens (fun _ => Before.toward) fun _ hs => .skip fun isTarget => ?_)
  refine .ite (fun _ => .skip fun _ => .whole hs rfl) fun _ => ?_
  refine .reads h.callee.reads fun f => .bind (h.tryTypeArguments fun _ hc => hc) fun found => ?_
  have hrest : ∀ types, Meets (Behind source n [f, types]) (do
      let as ← if ← atMark "(" then Grammar.arguments self else pure []
      node n .construct (f :: types :: as)) (Whole source n n) := fun types =>
    .still fun _ => .ite (fun _ => .bind h.arguments fun _ => .of_and fun _ =>
      .pre (fun _ hc => hc.1) (.whole hs rfl)) fun _ => .value (.whole hs rfl)
  cases found with
  | none => exact .reads reads_absent hrest
  | some types => exact .value (hrest types)

theorem importExpression (h : Sound source self) : Expresses source (importExpression self) := by
  refine fun n => .position (.opens (fun _ => Before.toward) fun _ hs => .skip fun isMeta => ?_)
  refine .ite (fun _ => .skip fun _ => .whole hs rfl) fun _ => ?_
  exact .bind h.arguments fun as => .of_and fun _ => .still fun _ =>
    .pre (fun _ hc => hc.1) (.whole hs rfl)

theorem superExpression : Expresses source superExpression := fun _ =>
  .position (.opens (fun _ => Before.toward) fun _ hs => .still fun _ => .still fun _ =>
    .still fun _ => .still fun _ => .whole hs rfl)

theorem memberBase (h : Sound source self) : Expresses source (memberBase self) := by
  refine fun n => .still fun t => ?_
  split
  · exact h.newExpression n
  · exact h.importExpression n
  · exact superExpression n
  · exact h.primary n

theorem calleeRule (h : Sound source self) : Expresses source (calleeRule self) := fun n =>
  .bind (.given (h.memberBase n) h.gives.memberBase) fun _ => .of_and fun ht =>
    .extendGiven ht (fun _ => gives_memberStep) fun _ => h.memberStep

theorem callStep (h : Sound source self) {r : Tree × Bool} (hr : r.1.kind.isExpression = true) :
    Meets (Whole source n n r.1) (callStep self r)
      (Found (fun r => Whole source n n r.1) (Whole source n n r.1)) := by
  obtain ⟨t, inChain⟩ := r
  refine .of_fact (fun _ => Whole.base) fun ht => ?_
  refine .eat (fun c hc _ => hc.behind.next)
    (.bind (h.optionalPart ht) fun _ => .pure fun _ hc => hc) ?_
  refine .still fun _ => .ite (fun _ => ?_) fun _ => ?_
  · refine .pre (fun _ hc => hc.behind) (.reads reads_absent fun types =>
      .bind h.arguments fun as => ?_)
    exact .of_and fun has => .bind (.call ht has) fun _ => .pure fun _ hc => hc
  refine .bind (h.tryTypeArguments fun _ hc => hc.behind) fun found => ?_
  cases found with
  | some types =>
      refine .still fun _ => .ite (fun _ => ?_) fun _ => .still fun tok => ?_
      · exact .bind h.arguments fun as => .of_and fun has => .bind (.call ht has) fun _ =>
          .pure fun _ hc => hc
      · split
        · exact .reads h.templateLiteral.reads fun _ => .bind (ht.whole rfl) fun _ =>
            .pure fun _ hc => hc
        · exact .bind (ht.whole rfl) fun _ => .pure fun _ hc => hc
  | none =>
      have hstep : Meets (Whole source n n t) (do
          return (← Grammar.memberStep self t).map fun t => (t, inChain))
          (Found (fun r => Whole source n n r.1) (Whole source n n t)) := by
        refine .bind (h.memberStep hr) fun found => .pure fun c hc => ?_
        cases found with
        | some u => exact hc
        | none => exact hc
      refine .ite (fun _ => .still fun tok => ?_) fun _ => hstep
      split
      · exact .bind (R := fun _ => Whole source n n t) .failure fun _ => hstep
      · exact hstep

theorem leftHandSideRule (h : Sound source self) : Expresses source (leftHandSideRule self) := by
  refine fun n => .bind (.given (h.memberBase n) h.gives.memberBase) fun t => .of_and fun ht => ?_
  have hsteps : ∀ r : Tree × Bool, r.1.kind.isExpression = true →
      Meets (Whole source n n r.1) (extend (Grammar.callStep self) r) fun r => Whole source n n r.1 :=
    fun r hr => .extendGiven (φ := fun r : Tree × Bool => r.1.kind.isExpression = true)
      (R := fun r : Tree × Bool => Whole source n n r.1) hr (fun _ => gives_callStep) fun _ => h.callStep
  refine .bind (hsteps (t, false) ht) fun r => ?_
  refine .ite (fun _ => .of_fact (fun _ => Whole.base) fun ht => ?_) fun _ => .pure fun _ hc => hc
  exact .pre (fun _ hc => hc.behind) (ht.whole rfl)

end Sound

end StaticStyle.Syntax
