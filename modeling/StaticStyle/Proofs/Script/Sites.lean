import StaticStyle.Config.Basic
import StaticStyle.Proofs.Running
import StaticStyle.Proofs.Syntax.Placement.Module
import StaticStyle.Proofs.Syntax.Places

/-!
# The sites of the style function

What a script has to do with styles is found in one walk through its tree.  The calls
that are listed are the outermost ones, each at its place and in the order of the text,
and a reference to the function is the callee of a listed call, or stands inside of one,
or is counted (`Script.Partition`).
-/

namespace StaticStyle

open StaticStyle.Syntax
open StaticStyle.Text (slice? Span)

variable {f : StyleFunction} {source : List Char} {lo hi : Nat} {t u program : Tree}
  {ts : List Tree} {p : Place}

/-! ## What is found -/

/-- A node is a call, and its callee is written like the style function. -/
def StyleFunction.Called (f : StyleFunction) (source : List Char) (t : Tree) : Prop :=
  ∃ skips span callee types arguments,
    t = .node (.call skips) span (callee :: types :: arguments) ∧
      slice? source callee.span = some f.callee.toList

/-- What is kept of a call: its span, its text and the text of its first argument. -/
structure StyleCall.Describes (source : List Char) (call : StyleCall) (t : Tree) : Prop where
  span : call.span = t.span
  text : slice? source t.span = some call.text.toList
  argument : (t.children.drop 2).head?.map (fun a => slice? source a.span) =
    call.argument.map fun text => some text.toList

/-- The calls and the references of a script make up the sites of the style function in
its tree, `calls` being the places of the calls and `strays` those of the references that
are counted. -/
structure Script.Partition (f : StyleFunction) (source : List Char) (program : Tree)
    (script : Script) (calls strays : List Place) : Prop where
  ordered : calls.Pairwise (· < ·)
  outermost : ∀ p, p ∈ calls ↔ (∃ t, program.at? p = some t ∧ f.Called source t) ∧
    ∀ q t, q <+: p → q ≠ p → program.at? q = some t → ¬ f.Called source t
  described : List.Forall₂
    (fun p call => ∃ t, program.at? p = some t ∧ StyleCall.Describes source call t)
    calls script.calls
  nonempty : ∀ call ∈ script.calls, call.span.start < call.span.stop
  apart : script.calls.Pairwise fun a b => a.span.stop ≤ b.span.start
  counted : strays.Nodup ∧ strays.length = script.strayReferences
  references : ∀ p ∈ strays, ∃ t, program.at? p = some t ∧ refersTo f.callee t = true ∧
    ∀ q u, q <+: p → program.at? q = some u → isImport u = false
  covered : ∀ p t, program.at? p = some t → refersTo f.callee t = true →
    (∀ q u, q <+: p → program.at? q = some u → isImport u = false) →
    ((∃ q ∈ calls, p = q ++ [0]) ∧ (¬ ∃ q ∈ calls, q <+: p ∧ p ≠ q ++ [0]) ∧ p ∉ strays) ∨
    ((¬ ∃ q ∈ calls, p = q ++ [0]) ∧ (∃ q ∈ calls, q <+: p ∧ p ≠ q ++ [0]) ∧ p ∉ strays) ∨
    ((¬ ∃ q ∈ calls, p = q ++ [0]) ∧ (¬ ∃ q ∈ calls, q <+: p ∧ p ≠ q ++ [0]) ∧ p ∈ strays)

/-! ## Placed trees -/

theorem textOf_toList (h : (slice? source t.span).isSome) :
    slice? source t.span = some (textOf source t).toList := by
  obtain ⟨s, hs⟩ := Option.isSome_iff_exists.mp h
  rw [textOf, hs, String.toList_ofList]
  rfl

theorem isLandmark_of_isCalledBy (h : f.isCalledBy source t = true) : isLandmark t = true := by
  unfold StyleFunction.isCalledBy at h
  split at h
  · rfl
  · cases h

/-- In a placed tree a node counts as a call of the function if its callee is written like
the function. -/
theorem isCalledBy_iff (h : t.Placed source lo hi) :
    f.isCalledBy source t = true ↔ f.Called source t := by
  constructor
  · intro hcall
    unfold StyleFunction.isCalledBy at hcall
    split at hcall
    · obtain ⟨⟨-, callee, types, arguments, ⟨⟩, hparts⟩, -⟩ := h
      refine ⟨_, _, _, _, _, rfl, ?_⟩
      rw [← beq_iff_eq.mp hcall]
      exact textOf_toList (hparts _ List.mem_cons_self)
    · cases hcall
  · rintro ⟨skips, span, callee, types, arguments, rfl, hcallee⟩
    refine beq_iff_eq.mpr ?_
    rw [textOf, hcallee]
    exact String.ofList_toList

/-- What is kept of a placed call describes it. -/
theorem describes_ofTree (h : t.Placed source lo hi) (hcall : f.isCalledBy source t = true) :
    (StyleCall.ofTree source t).Describes source t := by
  unfold StyleFunction.isCalledBy at hcall
  split at hcall
  · obtain ⟨⟨hstands, callee, types, arguments, ⟨⟩, hparts⟩, -⟩ := h
    refine ⟨rfl, textOf_toList hstands.isPart, ?_⟩
    cases arguments with
    | nil => rfl
    | cons a arguments =>
        exact congrArg some (textOf_toList (hparts a (List.mem_cons_of_mem _ List.mem_cons_self)))
  · cases hcall

theorem Syntax.Tree.Placed.at? (h : t.Placed source lo hi) (hp : t.at? p = some u) :
    u.Placed source lo hi := by
  induction p generalizing t with
  | nil =>
      cases hp
      exact h
  | cons i p ih =>
      obtain ⟨v, hv, hp⟩ := Option.bind_eq_some_iff.mp hp
      exact ih (h.parts.of_mem (List.mem_of_getElem? hv)) hp

theorem any_at? {b : Tree → Bool} (h : t.any b = false) (hp : t.at? p = some u) : b u = false := by
  induction p generalizing t with
  | nil =>
      cases hp
      exact (Tree.any_eq_false_iff.mp h).1
  | cons i p ih =>
      obtain ⟨v, hv, hp⟩ := Option.bind_eq_some_iff.mp hp
      exact ih ((Tree.any_eq_false_iff.mp h).2 v (List.mem_of_getElem? hv)) hp

/-- No landmark stands inside an import. -/
theorem not_isLandmark_of_isImport (h : t.Placed source lo hi) (hi : isImport t = true)
    (hne : p ≠ []) (hp : t.at? p = some u) : isLandmark u = false := by
  obtain ⟨k, s, cs⟩ := t
  cases k with
  | importDeclaration from_ typeOnly =>
      cases p with
      | nil => exact absurd rfl hne
      | cons i p =>
          obtain ⟨v, hv, hp⟩ := Option.bind_eq_some_iff.mp hp
          exact any_at? (h.1.2.1 v (List.mem_of_getElem? hv)) hp
  | _ => cases hi

/-- Nothing stands inside a reference. -/
theorem eq_nil_of_refersTo {name : String} (h : t.Placed source lo hi)
    (hr : refersTo name t = true) (hp : t.at? p = some u) : p = [] := by
  obtain ⟨k, s, cs⟩ := t
  cases beq_iff_eq.mp hr
  cases p with
  | nil => rfl
  | cons i p =>
      have hcs : cs = [] := List.isEmpty_iff.mp h.1
      subst hcs
      cases hp

/-! ## Walks for one property -/

section

variable {wanted other closed : Tree → Bool}

mutual

theorem filter_outermost : ∀ t : Tree,
    (outermost (fun u => wanted u || other u) closed t).filter wanted =
      outermost wanted (fun u => other u || closed u) t
  | .node k s cs => by
      rw [outermost, outermost]
      cases hw : wanted (.node k s cs) with
      | true => exact List.filter_cons_of_pos hw
      | false =>
          cases ho : other (.node k s cs) with
          | true =>
              refine List.filter_cons_of_neg ?_
              rw [hw]
              exact Bool.false_ne_true
          | false =>
              cases closed (.node k s cs) with
              | true => rfl
              | false => exact filter_outermostOf cs

/-- A walk for two properties finds what a walk for one of them finds that ends at the
other. -/
theorem filter_outermostOf : ∀ ts : List Tree,
    (outermostOf (fun u => wanted u || other u) closed ts).filter wanted =
      outermostOf wanted (fun u => other u || closed u) ts
  | [] => rfl
  | t :: ts => by
      rw [outermostOf, List.filter_append, filter_outermost t, filter_outermostOf ts]
      rfl

end

mutual

theorem outermost_congr {closed' : Tree → Bool}
    (h : ∀ u lo hi, u.Placed source lo hi → closed u = true → closed' u = false →
      u.children = []) (h' : ∀ u, closed' u = true → closed u = true) :
    ∀ {t : Tree} {lo hi : Nat}, t.Placed source lo hi →
      outermost wanted closed t = outermost wanted closed' t
  | .node k s cs, _, _, ht => by
      rw [outermost, outermost]
      cases hw : wanted (.node k s cs) with
      | true => rfl
      | false =>
          cases hc : closed (.node k s cs) with
          | true =>
              cases hc' : closed' (.node k s cs) with
              | true => rfl
              | false =>
                  have hcs : cs = [] := h _ _ _ ht hc hc'
                  rw [hcs]
                  rfl
          | false =>
              have hc' : closed' (.node k s cs) = false :=
                Bool.eq_false_iff.mpr fun hc' => Bool.false_ne_true (hc.symm.trans (h' _ hc'))
              rw [hc']
              exact outermostOf_congr h h' ht.2

/-- It makes no difference whether a walk goes on to the parts of a node that has none. -/
theorem outermostOf_congr {closed' : Tree → Bool}
    (h : ∀ u lo hi, u.Placed source lo hi → closed u = true → closed' u = false →
      u.children = []) (h' : ∀ u, closed' u = true → closed u = true) :
    ∀ {ts : List Tree} {lo hi : Nat}, PlacedAll source lo hi ts →
      outermostOf wanted closed ts = outermostOf wanted closed' ts
  | [], _, _, _ => rfl
  | t :: ts, _, _, ⟨_, ht, hts⟩ => by
      rw [outermostOf, outermostOf, outermost_congr h h' ht, outermostOf_congr h h' hts]

end

end

/-- The calls among the sites are the outermost ones outside imports. -/
theorem filter_sites (h : program.Placed source lo hi) :
    (f.sites source program).filter (f.isCalledBy source) =
      outermost (f.isCalledBy source) isImport program := by
  rw [StyleFunction.sites, filter_outermost]
  refine outermost_congr ?_ ?_ h
  · rintro ⟨k, s, cs⟩ lo hi hu hclosed hc'
    rw [hc', Bool.or_false] at hclosed
    cases beq_iff_eq.mp hclosed
    exact List.isEmpty_iff.mp hu.1
  · intro u hu
    rw [hu, Bool.or_true]

/-- The references among the sites are the outermost ones outside imports and calls. -/
theorem filter_refersTo_sites (f : StyleFunction) (source : List Char) (program : Tree) :
    (f.sites source program).filter (refersTo f.callee) =
      outermost (refersTo f.callee) (fun t => f.isCalledBy source t || isImport t) program := by
  rw [← filter_outermost, StyleFunction.sites]
  simp only [Bool.or_comm]

/-! ## The partition -/

theorem calls_ofTree (h : program.Placed source lo hi) :
    (Script.ofTree f source program).calls =
      (outermost (f.isCalledBy source) isImport program).map (StyleCall.ofTree source) :=
  congrArg _ (filter_sites h)

/-- The places of the calls that a script lists. -/
def StyleFunction.callPlaces (f : StyleFunction) (source : List Char) (program : Tree) :
    List Place :=
  placesOf (f.isCalledBy source) isImport program

/-- The places of the references that a script counts. -/
def StyleFunction.strayPlaces (f : StyleFunction) (source : List Char) (program : Tree) :
    List Place :=
  placesOf (refersTo f.callee) (fun t => f.isCalledBy source t || isImport t) program

/-- A call is listed if it is in no other call of the function. -/
theorem mem_callPlaces (h : program.Placed source lo hi) :
    p ∈ f.callPlaces source program ↔
      (∃ t, program.at? p = some t ∧ f.Called source t) ∧
        ∀ q t, q <+: p → q ≠ p → program.at? q = some t → ¬ f.Called source t := by
  rw [StyleFunction.callPlaces, mem_placesOf, findsAt_iff]
  constructor
  · rintro ⟨⟨t, ht, hcall⟩, hclear, -⟩
    refine ⟨⟨t, ht, (isCalledBy_iff (h.at? ht)).mp hcall⟩, fun q u hq hne hu hcalled => ?_⟩
    exact absurd ((isCalledBy_iff (h.at? hu)).mpr hcalled)
      (Bool.eq_false_iff.mp (hclear q u hq hne hu))
  · rintro ⟨⟨t, ht, hcalled⟩, hclear⟩
    have hcall := (isCalledBy_iff (h.at? ht)).mpr hcalled
    refine ⟨⟨t, ht, hcall⟩, fun q u hq hne hu => ?_, fun q u hq hne hu => ?_⟩
    · exact Bool.eq_false_iff.mpr fun hc =>
        hclear q u hq hne hu ((isCalledBy_iff (h.at? hu)).mp hc)
    · refine Bool.eq_false_iff.mpr fun himport => ?_
      -- An import around the call would have a landmark in it.
      obtain ⟨r, rfl⟩ := hq
      rw [at?_append, hu] at ht
      have hlandmark := not_isLandmark_of_isImport (h.at? hu) himport
        (fun hr => hne (by rw [hr, List.append_nil])) ht
      rw [isLandmark_of_isCalledBy hcall] at hlandmark
      cases hlandmark

/-- A reference outside imports is counted if no listed call stands around it. -/
theorem mem_strayPlaces (h : program.Placed source lo hi) (ht : program.at? p = some t)
    (hr : refersTo f.callee t = true)
    (hi : ∀ q u, q <+: p → program.at? q = some u → isImport u = false) :
    p ∈ f.strayPlaces source program ↔ ¬ ∃ q ∈ f.callPlaces source program, q <+: p := by
  rw [StyleFunction.strayPlaces, mem_placesOf, findsAt_iff, clearTo_or]
  constructor
  · rintro ⟨-, -, hclear, -⟩ ⟨q, hq, hprefix⟩
    obtain ⟨⟨u, hu, hcall⟩, -⟩ := mem_placesOf.mp hq
    refine absurd hcall (Bool.eq_false_iff.mp (hclear q u hprefix ?_ hu))
    rintro rfl
    cases ht.symm.trans hu
    have hlandmark := isLandmark_of_isCalledBy hcall
    rw [isLandmark, beq_iff_eq.mp hr] at hlandmark
    cases hlandmark
  · intro hnone
    refine ⟨⟨t, ht, hr⟩, fun q u hq hne hu => ?_, fun q u hq hne hu => ?_,
      fun q u hq hne hu => hi q u hq hu⟩
    · refine Bool.eq_false_iff.mpr fun hrefers => ?_
      obtain ⟨r, rfl⟩ := hq
      rw [at?_append, hu] at ht
      have hnil := eq_nil_of_refersTo (h.at? hu) hrefers ht
      exact hne (by rw [hnil, List.append_nil])
    · refine Bool.eq_false_iff.mpr fun hcall => ?_
      -- The first call of the function on the way there is listed.
      obtain ⟨q', v, hq', hv, hcalled, hclear⟩ := exists_clearTo hu hcall
      refine hnone ⟨q', (mem_callPlaces h).mpr ⟨⟨v, hv, (isCalledBy_iff (h.at? hv)).mp hcalled⟩,
        fun r w hr hne hw hcalled' => ?_⟩, hq'.trans hq⟩
      exact absurd ((isCalledBy_iff (h.at? hw)).mpr hcalled')
        (Bool.eq_false_iff.mp (hclear r w hr hne hw))

/-- Around a place there is at most one listed call. -/
theorem eq_of_mem_callPlaces {q r : Place} (hq : q ∈ f.callPlaces source program)
    (hr : r ∈ f.callPlaces source program) (hqp : q <+: p) (hrp : r <+: p) : q = r := by
  obtain ⟨⟨u, hu, hcu⟩, hclear⟩ := mem_placesOf.mp hq
  obtain ⟨⟨v, hv, hcv⟩, hclear'⟩ := mem_placesOf.mp hr
  exact eq_of_clearTo hqp hrp hu hv hcu hcv (clearTo_or.mp hclear).1 (clearTo_or.mp hclear').1

/-- What is read off a placed tree are the sites of the function in it. -/
theorem Script.partition_ofTree (h : program.Placed source lo hi) :
    (Script.ofTree f source program).Partition f source program (f.callPlaces source program)
      (f.strayPlaces source program) := by
  constructor
  case ordered => exact pairwise_placesOf program
  case outermost => exact fun p => mem_callPlaces h
  case described =>
    rw [calls_ofTree h, List.forall₂_map_right_iff]
    have hfound := forall₂_placesOf (f.isCalledBy source) isImport program
    refine List.forall₂_iff_get.mpr ⟨hfound.length_eq, fun i hi hi' => ?_⟩
    have hplace := hfound.get hi hi'
    have hmem := List.get_mem (outermost (f.isCalledBy source) isImport program) ⟨i, hi'⟩
    exact ⟨_, hplace, describes_ofTree (h.of_mem_outermost hmem) (wanted_of_mem_outermost hmem)⟩
  case nonempty =>
    rw [calls_ofTree h, List.forall_mem_map]
    intro t ht
    exact ((h.of_mem_outermost ht).stands
      (isLandmark_of_isCalledBy (wanted_of_mem_outermost ht))).nonempty
  case apart =>
    rw [calls_ofTree h, List.pairwise_map]
    exact h.pairwise_outermost fun t ht => isLandmark_of_isCalledBy ht
  case counted =>
    refine ⟨(pairwise_placesOf program).imp fun hlt heq => ?_, ?_⟩
    · rw [heq] at hlt
      exact List.lt_irrefl _ hlt
    · change _ = ((f.sites source program).filter (refersTo f.callee)).length
      rw [filter_refersTo_sites]
      exact (forall₂_placesOf _ _ program).length_eq
  case references =>
    intro p hp
    obtain ⟨⟨t, ht, hr⟩, hclear⟩ := mem_placesOf.mp hp
    refine ⟨t, ht, hr, fun q u hq hu => ?_⟩
    by_cases hqp : q = p
    · subst hqp
      cases ht.symm.trans hu
      rw [isImport, beq_iff_eq.mp hr]
    · exact (clearTo_or.mp (clearTo_or.mp hclear).2).2 q u hq hqp hu
  case covered =>
    intro p t ht hr himport
    by_cases hstray : p ∈ f.strayPlaces source program
    · have hnone := (mem_strayPlaces h ht hr himport).mp hstray
      refine Or.inr (Or.inr ⟨?_, ?_, hstray⟩)
      · rintro ⟨q, hq, rfl⟩
        exact hnone ⟨q, hq, List.prefix_append q [0]⟩
      · rintro ⟨q, hq, hprefix, -⟩
        exact hnone ⟨q, hq, hprefix⟩
    · obtain ⟨q, hq, hprefix⟩ :=
        not_not.mp fun hnone => hstray ((mem_strayPlaces h ht hr himport).mpr hnone)
      by_cases hcallee : p = q ++ [0]
      · refine Or.inl ⟨⟨q, hq, hcallee⟩, ?_, hstray⟩
        rintro ⟨q', hq', hprefix', hne⟩
        exact hne (eq_of_mem_callPlaces hq' hq hprefix' hprefix ▸ hcallee)
      · refine Or.inr (Or.inl ⟨?_, ⟨q, hq, hprefix, hcallee⟩, hstray⟩)
        rintro ⟨q', hq', heq⟩
        have hsame := eq_of_mem_callPlaces hq' hq (heq ▸ List.prefix_append q' [0]) hprefix
        exact hcallee (hsame ▸ heq)

theorem Script.exists_of_read {code file : String} {script : Script}
    (h : Script.read f code file = .ok script) :
    ∃ program, parseModule (FileId.language file) code.toList = some program ∧
      script = Script.ofTree f code.toList program := by
  unfold Script.read at h
  dsimp only at h
  split at h
  · next program hparse =>
      cases h
      exact ⟨program, hparse, rfl⟩
  · cases h

/-- What is read of a module are the sites of the function in its tree. -/
theorem Script.exists_partition {code file : String} {script : Script}
    (h : Script.read f code file = .ok script) :
    ∃ program calls strays, parseModule (FileId.language file) code.toList = some program ∧
      script.Partition f code.toList program calls strays := by
  obtain ⟨program, hparse, rfl⟩ := exists_of_read h
  exact ⟨program, _, _, hparse, partition_ofTree (placed_of_parseModule hparse)⟩

/-- A call in a call, a reference as an argument and one on its own. -/
theorem Script.exists_partition_nested :
    ∃ script program calls strays,
      Script.read Config.default.function "css(f(css()), css); css;" "a.ts" = .ok script ∧
      script.calls.length = 1 ∧ script.strayReferences = 1 ∧
      parseModule (FileId.language "a.ts") "css(f(css()), css); css;".toList = some program ∧
      script.Partition Config.default.function "css(f(css()), css); css;".toList program calls
        strays := by
  obtain ⟨script, hread, hcount⟩ := Running.exists_of_toOption
    (f := fun script : Script => (script.calls.length, script.strayReferences)) (b := (1, 1))
    (x := Script.read Config.default.function "css(f(css()), css); css;" "a.ts") (by decide +kernel)
  obtain ⟨program, calls, strays, hparse, hpartition⟩ := exists_partition hread
  exact ⟨script, program, calls, strays, hread, congrArg Prod.fst hcount, congrArg Prod.snd hcount,
    hparse, hpartition⟩

end StaticStyle
