import Mathlib.Data.List.Nodup
import StaticStyle.Proofs.Text.Edited

/-!
# Which edits are taken

`splice` puts the edits of a list in order and takes as many of them as one pass can
(`splice_selected`).  The order is stable: edits with the same span stay as they are listed
(`Arranged`).  So the order of the list matters only between edits with the same span
(`splice_perm`).
-/

namespace StaticStyle.Text

variable {source : List Char} {r : Span} {es es' : List Edit}

/-! ## Order -/

/-- A list of edits is put in order, by where they start and then by where they end.  Edits
with the same span keep their order. -/
structure Arranged (es sorted : List Edit) : Prop where
  perm : sorted.Perm es
  ordered : sorted.Pairwise fun e e' => e.span.before e'.span = true
  stable : ∀ r, sorted.filter (·.span == r) = es.filter (·.span == r)

theorem before_antisymm {a b : Span} (hab : a.before b = true) (hba : b.before a = true) :
    a = b := by
  rw [Span.before_iff] at hab hba
  obtain ⟨start, stop⟩ := a
  obtain ⟨start', stop'⟩ := b
  simp only [Span.mk.injEq] at hab hba ⊢
  omega

theorem arranged_mergeSort (es : List Edit) :
    Arranged es (es.mergeSort fun a b => a.span.before b.span) where
  perm := List.mergeSort_perm es _
  ordered := pairwise_mergeSort_before es
  stable := fun r => by
    have hsame : (es.filter (·.span == r)).Pairwise fun a b => a.span.before b.span = true := by
      refine List.pairwise_of_forall_mem_list fun a ha b hb => ?_
      simp only [List.mem_filter, beq_iff_eq] at ha hb
      simp [ha.2, hb.2, Span.before]
    -- Edits with one span are in order already, so sorting keeps them as they are.
    have hsub := List.sublist_mergeSort before_trans before_total hsame List.filter_sublist
    have hfilter := hsub.filter (·.span == r)
    rw [List.filter_filter] at hfilter
    simp only [Bool.and_self] at hfilter
    exact (hfilter.eq_of_length ((List.mergeSort_perm es _).filter _).length_eq.symm).symm

/-- If no two edits have the same span, the order in which they are listed makes no
difference. -/
theorem splice_perm (hne : (es.map (·.span)).Nodup) (hp : es'.Perm es) :
    splice source es' = splice source es := by
  have hsorted : (es'.mergeSort fun a b => a.span.before b.span) =
      es.mergeSort fun a b => a.span.before b.span := by
    have hperm := (List.mergeSort_perm es' fun a b => a.span.before b.span).trans
      (hp.trans (List.mergeSort_perm es fun a b => a.span.before b.span).symm)
    refine hperm.eq_of_pairwise (fun a b ha hb hab hba => ?_)
      (pairwise_mergeSort_before es') (pairwise_mergeSort_before es)
    exact List.inj_on_of_nodup_map hne (hp.mem_iff.mp (List.mem_mergeSort.mp ha))
      (List.mem_mergeSort.mp hb) (before_antisymm hab hba)
  rw [splice, splice, hsorted]

/-! ## Selection -/

/-- A span does not run backwards and cuts no character of a source.  It may reach past the
end of the source. -/
structure Span.Clean (source : List Char) (r : Span) : Prop where
  start_le_stop : r.start ≤ r.stop
  start : Uncut source r.start
  stop : Uncut source r.stop

instance : Decidable (r.Clean source) :=
  decidable_of_iff (r.start ≤ r.stop ∧ Uncut source r.start ∧ Uncut source r.stop)
    ⟨fun ⟨hle, hstart, hstop⟩ => ⟨hle, hstart, hstop⟩, fun h => ⟨h.1, h.2, h.3⟩⟩

theorem Span.Clean.isSome_slice? (h : r.Clean source) (hr : r.stop ≤ byteLength source) :
    (slice? source r).isSome := by
  obtain ⟨s, hs⟩ := exists_continues h.start (Nat.le_trans h.start_le_stop hr)
  obtain ⟨t, ht⟩ := exists_continues h.stop hr
  exact hs.isSome_slice? ht h.start_le_stop

/-- The source is edited by those of the edits that one pass over them in order takes.

If no two edits overlap and all end within the source, this is each of them, once.  If their
spans are distinct as well, it does not matter in which order they are listed. -/
theorem splice_selected (hes : ∀ e ∈ es, e.span.Clean source) :
    ∃ sorted taken out, Arranged es sorted ∧ Taken (byteLength source) 0 sorted taken ∧
      Edited 0 source taken out ∧ splice source es = some out ∧
      ((es.Pairwise fun e e' => Apart e.span e'.span) →
        (∀ e ∈ es, e.span.stop ≤ byteLength source) →
        taken.Perm es ∧
          ((es.map (·.span)).Nodup → ∀ es', es'.Perm es → splice source es' = some out)) := by
  have harranged := arranged_mergeSort es
  have hfits : ∀ e ∈ es.mergeSort fun a b => a.span.before b.span,
      e.span.stop ≤ byteLength source → (slice? source e.span).isSome :=
    fun e he => (hes e (harranged.perm.mem_iff.mp he)).isSome_slice?
  obtain ⟨taken, out, htaken, hout, hsplice⟩ := exists_taken (.zero source) hfits
  refine ⟨_, taken, out, harranged, htaken, hout, hsplice, fun hapart hend => ⟨?_, ?_⟩⟩
  · have hpairwise := (harranged.perm.pairwise_iff fun h => Apart.symm h).mpr hapart
    have hbehind := (harranged.ordered.and hpairwise).imp_of_mem fun _ he' h =>
      stop_le_of_before (hes _ (harranged.perm.mem_iff.mp he')).start_le_stop h.2 h.1
    rw [htaken.eq_self (fun _ _ => Nat.zero_le _)
      (fun e he => hend e (harranged.perm.mem_iff.mp he)) hbehind]
    exact harranged.perm
  · intro hne es' hperm
    rw [splice_perm hne hperm]
    exact hsplice

/-- Of edits that overlap the first in order is taken, and none that ends outside the source.
Two edits that lie side by side are both taken, whichever is listed first. -/
theorem splice_selected_overlapping :
    (∃ sorted taken, Arranged [⟨⟨3, 9⟩, ['z']⟩, ⟨⟨2, 4⟩, ['y']⟩, ⟨⟨0, 3⟩, ['x']⟩, ⟨⟨0, 0⟩, ['1']⟩,
        ⟨⟨0, 0⟩, ['2']⟩] sorted ∧
      Taken 4 0 sorted taken ∧ Edited 0 ['é', 'a', 'b'] taken ['1', '2', 'x', 'b']) ∧
    ∃ taken, taken.Perm [⟨⟨2, 3⟩, ['y']⟩, ⟨⟨0, 2⟩, ['x']⟩] ∧
      Edited 0 ['é', 'a', 'b'] taken ['x', 'y', 'b'] ∧
      splice ['é', 'a', 'b'] [⟨⟨0, 2⟩, ['x']⟩, ⟨⟨2, 3⟩, ['y']⟩] = some ['x', 'y', 'b'] := by
  constructor
  · obtain ⟨sorted, taken, out, harranged, htaken, hout, hsplice, -⟩ :=
      @splice_selected ['é', 'a', 'b'] [⟨⟨3, 9⟩, ['z']⟩, ⟨⟨2, 4⟩, ['y']⟩, ⟨⟨0, 3⟩, ['x']⟩,
        ⟨⟨0, 0⟩, ['1']⟩, ⟨⟨0, 0⟩, ['2']⟩] (by decide)
    have hvalue : splice ['é', 'a', 'b'] [⟨⟨3, 9⟩, ['z']⟩, ⟨⟨2, 4⟩, ['y']⟩, ⟨⟨0, 3⟩, ['x']⟩,
        ⟨⟨0, 0⟩, ['1']⟩, ⟨⟨0, 0⟩, ['2']⟩] = some ['1', '2', 'x', 'b'] := by
      simp [splice, List.mergeSort, List.MergeSort.Internal.splitInTwo, Span.before]
      rfl
    cases hsplice.symm.trans hvalue
    exact ⟨sorted, taken, harranged, htaken, hout⟩
  · obtain ⟨sorted, taken, out, -, -, hout, hsplice, happly⟩ :=
      @splice_selected ['é', 'a', 'b'] [⟨⟨2, 3⟩, ['y']⟩, ⟨⟨0, 2⟩, ['x']⟩] (by decide)
    have hvalue : splice ['é', 'a', 'b'] [⟨⟨2, 3⟩, ['y']⟩, ⟨⟨0, 2⟩, ['x']⟩] =
        some ['x', 'y', 'b'] := by
      simp [splice, List.mergeSort, List.MergeSort.Internal.splitInTwo, Span.before]
      rfl
    cases hsplice.symm.trans hvalue
    obtain ⟨hperm, hany⟩ := happly (List.pairwise_pair.mpr (Or.inr (by decide))) (by decide)
    exact ⟨taken, hperm, hout, hany (by decide) _ (.swap _ _ _)⟩

end StaticStyle.Text
