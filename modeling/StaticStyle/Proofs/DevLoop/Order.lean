import StaticStyle.Proofs.DevLoop.Addressing

/-!
# The order of scans

In which order texts are scanned is seen in the order of the styles and of the dependencies,
and nowhere else (`Registry.SameMembers`).  What stands under a class can depend on the order
where two canonical texts share a class name, because the later takes the place of the
earlier.  Otherwise it is one text in either order, though it may come from another declaration,
and then the rules are the same up to their order (`Registry.SameRules`).

`DevLoop.scans_in_any_order` says so for every registry that a loop can come to.
-/

namespace StaticStyle

open Running

/-! ## Registries that differ in order -/

namespace Registry

variable {r r' : Registry} {row row' : List (ClassRule × String)} {naming : Naming}
  {keys : Set String}

/-- The rules of all styles, one by one. -/
def lines (r : Registry) : List String := r.styles.map fun entry => entry.2.render

/-- Registries with the same classes and dependencies in some order, and with the same
stylesheets and the same mark. -/
structure SameMembers (r r' : Registry) : Prop where
  classes : r.styles.names.Perm r'.styles.names
  dependencies : r.dependencies.Perm r'.dependencies
  roots : r.roots = r'.roots
  stale : r.stale = r'.stale

/-- Registries with the same canonical text under each class, whose texts of all rules are put
together from the same rules in some order. -/
structure SameRules (r r' : Registry) : Prop where
  key : ∀ className, (r.style? className).map ClassRule.key =
    (r'.style? className).map ClassRule.key
  lines : r.lines.Perm r'.lines
  rules : r.rules = "\n".intercalate r.lines ∧ r'.rules = "\n".intercalate r'.lines

/-- Rows with the same rules make the same of a registry, but for the order. -/
theorem sameMembers_addEach (hrow : ∀ pair, pair ∈ row ↔ pair ∈ row') (r : Registry)
    (hclasses : r.styles.names.Nodup) (hdependencies : r.dependencies.Nodup) :
    SameMembers (r.addEach row) (r.addEach row') where
  classes := by
    refine (List.perm_ext_iff_of_nodup (nodup_names_addEach row hclasses)
      (nodup_names_addEach row' hclasses)).mpr fun className => ?_
    rw [names_styles_addEach, names_styles_addEach, Roll.mem_enrolAll, Roll.mem_enrolAll,
      List.mem_map, List.mem_map]
    simp only [hrow]
  dependencies := by
    rw [dependencies_addEach, dependencies_addEach]
    refine (List.perm_ext_iff_of_nodup (Roll.nodup_enrolAll _ hdependencies)
      (Roll.nodup_enrolAll _ hdependencies)).mpr fun file => ?_
    rw [Roll.mem_enrolAll, Roll.mem_enrolAll, List.mem_map, List.mem_map]
    simp only [hrow]
  roots := by rw [roots_addEach, roots_addEach]
  stale := by rw [stale_addEach, stale_addEach]

theorem Sound.addEach (h : Sound naming keys r)
    (hrow : ∀ pair ∈ row, pair.1.className = naming.classOf pair.1.key ∧ pair.1.key ∈ keys) :
    Sound naming keys (r.addEach row) := by
  induction row using List.reverseRecOn with
  | nil => exact h
  | append_singleton row pair ih =>
      obtain ⟨hclass, hkey⟩ := hrow pair (by simp)
      rw [addEach_concat]
      exact (ih fun other hother => hrow other (List.mem_append_left _ hother)).add hclass hkey

/-- What stands under a class is sound. -/
theorem Sound.of_style? {e : ClassRule} {className : String} (h : Sound naming keys r)
    (he : r.style? className = some e) :
    className = naming.classOf e.key ∧ e.key ∈ keys := by
  obtain ⟨hown, hclass, hkey⟩ := h _ (Table.mem_of_get? he)
  exact ⟨hown.trans hclass, hkey⟩

/-- If no two canonical texts share a class name, a class tells its canonical text. -/
theorem SameMembers.map_key (hsame : SameMembers r r') (h : Sound naming keys r)
    (h' : Sound naming keys r') (hinj : Set.InjOn naming.classOf keys) (className : String) :
    (r.style? className).map ClassRule.key = (r'.style? className).map ClassRule.key := by
  cases he : r.style? className with
  | none =>
      have hclass : className ∉ r'.styles.names := fun hmem =>
        style?_eq_none_iff.mp he (hsame.classes.mem_iff.mpr hmem)
      rw [style?_eq_none_iff.mpr hclass]
  | some e =>
      cases he' : r'.style? className with
      | none =>
          have hclass : className ∉ r.styles.names := fun hmem =>
            style?_eq_none_iff.mp he' (hsame.classes.mem_iff.mp hmem)
          rw [style?_eq_none_iff.mpr hclass] at he
          cases he
      | some e' =>
          obtain ⟨hclass, hkey⟩ := h.of_style? he
          obtain ⟨hclass', hkey'⟩ := h'.of_style? he'
          exact congrArg some (hinj hkey hkey' (hclass.symm.trans hclass'))

/-- The rules of a registry are told by its classes and by the canonical texts under them. -/
theorem Sound.lines_eq (h : Sound naming keys r) (hnodup : r.styles.names.Nodup) :
    r.lines = r.styles.names.map fun className =>
      "." ++ className ++ " \x7b" ++ ((r.style? className).map ClassRule.key).getD "" ++ "\x7d" := by
  rw [lines, Table.names, List.map_map]
  refine List.map_congr_left fun entry hentry => ?_
  have hstyle : r.style? entry.1 = some entry.2 := Table.get?_of_mem hnodup hentry
  obtain ⟨hown, -, -⟩ := h entry hentry
  rw [Function.comp_apply, hstyle, hown]
  rfl

theorem SameMembers.sameRules (hsame : SameMembers r r') (hnodup : r.styles.names.Nodup)
    (h : Sound naming keys r) (h' : Sound naming keys r')
    (hinj : Set.InjOn naming.classOf keys) : SameRules r r' where
  key := hsame.map_key h h' hinj
  lines := by
    have hnodup' : r'.styles.names.Nodup := hsame.classes.nodup_iff.mp hnodup
    rw [h.lines_eq hnodup, h'.lines_eq hnodup']
    simp only [hsame.map_key h h' hinj]
    exact hsame.classes.map _
  rules := ⟨rfl, rfl⟩

end Registry

/-! ## Scans of texts -/

namespace Scan

variable {c : Config} {text : String × String} {texts texts' : List (String × String)}
  {r : Registry}

/-- Scans texts, each with its file, one after the other. -/
def sources (c : Config) (texts : List (String × String)) : Registering (List Bool) :=
  texts.mapM fun text => source c text.1 text.2

/-- What the scan of a text adds if it succeeds. -/
def rowOf (c : Config) (text : String × String) : List (ClassRule × String) :=
  if isScript text.2 then
    ((Script.rulesOf c text.1 text.2).toOption.getD []).map fun e => (e, text.2)
  else []

/-- If a text can be scanned, then with any registry. -/
theorem source_run_of_ok {found : Bool} (h : ((source c text.1 text.2).run r).1 = .ok found)
    (r' : Registry) : (source c text.1 text.2).run r' = (.ok found, r'.addEach (rowOf c text)) := by
  cases hs : isScript text.2 with
  | false =>
      have hother : ∀ r, (source c text.1 text.2).run r = (.ok false, r) := by
        intro r
        simp only [source, hs, Bool.not_false, if_true]
        rfl
      rw [hother] at h
      cases h
      rw [hother, rowOf, hs]
      rfl
  | true =>
      rw [source_run hs] at h
      rw [source_run hs, rowOf, hs, if_pos rfl]
      cases hrules : Script.rulesOf c text.1 text.2 with
      | error fault =>
          rw [hrules] at h
          cases h
      | ok rules =>
          rw [hrules] at h
          cases h
          rw [collect, Registry.addAll_eq_addEach]
          rfl

/-- Texts that can each be scanned can be scanned one after the other. -/
theorem sources_run
    (h : ∀ text ∈ texts, ∃ found, ((source c text.1 text.2).run r).1 = .ok found) :
    ∃ founds, ∀ r', (sources c texts).run r' =
      (.ok founds, r'.addEach (texts.flatMap (rowOf c))) := by
  induction texts with
  | nil => exact ⟨[], fun _ => rfl⟩
  | cons text texts ih =>
      obtain ⟨⟨found, hfirst⟩, hrest⟩ := List.forall_mem_cons.mp h
      obtain ⟨founds, hfounds⟩ := ih hrest
      refine ⟨found :: founds, fun r' => ?_⟩
      rw [sources, List.mapM_cons, run_bind_of_ok (source_run_of_ok hfirst r'),
        List.flatMap_cons, Registry.addEach_append]
      exact run_bind_of_ok (hfounds _) _

/-- What is added for a text stands under the class of its canonical text. -/
theorem sound_rowOf {pair : ClassRule × String} (h : pair ∈ rowOf c text) :
    pair.1.className = c.naming.classOf pair.1.key ∧
      pair.1.key ∈ Script.keysOf c text.1 text.2 := by
  unfold rowOf at h
  split at h
  · obtain ⟨e, he, rfl⟩ := List.mem_map.mp h
    cases hrules : Script.rulesOf c text.1 text.2 with
    | error fault =>
        rw [hrules] at he
        cases he
    | ok rules =>
        rw [hrules] at he
        rw [Script.keysOf_of_ok hrules]
        exact ⟨Script.className_of_rulesOf hrules e he, List.mem_map_of_mem he⟩
  · cases h

end Scan

/-! ## Registries of a loop -/

namespace DevLoop

variable {c : Config} {p : SheetParser} {operations : List Operation}
  {texts texts' : List (String × String)}

/-- The canonical texts in a registry and those of some scripts. -/
def keysWith (c : Config) (r : Registry) (texts : List (String × String)) : Set String :=
  {key | (∃ entry ∈ r.styles, entry.2.key = key) ∨
    ∃ text ∈ texts, key ∈ Script.keysOf c text.1 text.2}

theorem nodup_dependencies_performAll (c : Config) (p : SheetParser)
    (operations : List Operation) :
    (DevLoop.initial.performAll c p operations).registry.dependencies.Nodup := by
  rw [(records_performAll c p operations).dependencies, ← Roll.enrolAll_nil]
  exact Roll.nodup_enrolAll _ List.nodup_nil

/-- Texts that can each be scanned can be scanned in any order.  The registry has the same classes
and dependencies in some order, the same stylesheets and the same mark.  If no two of the
canonical texts that it had or that are scanned share a class name, it has the same rules in some
order. -/
theorem scans_in_any_order (c : Config) (p : SheetParser) (operations : List Operation)
    (horder : texts.Perm texts')
    (hscan : ∀ text ∈ texts, ∃ found, ((Scan.source c text.1 text.2).run
      (DevLoop.initial.performAll c p operations).registry).1 = .ok found) :
    ∃ founds founds' r r',
      (Scan.sources c texts).run (DevLoop.initial.performAll c p operations).registry =
        (.ok founds, r) ∧
      (Scan.sources c texts').run (DevLoop.initial.performAll c p operations).registry =
        (.ok founds', r') ∧
      r.SameMembers r' ∧
      (Set.InjOn (Digest.className c.classPrefix)
          (keysWith c (DevLoop.initial.performAll c p operations).registry texts) →
        r.SameRules r') := by
  obtain ⟨founds, hrun⟩ := Scan.sources_run hscan
  obtain ⟨founds', hrun'⟩ := Scan.sources_run fun text htext =>
    hscan text (horder.mem_iff.mpr htext)
  have hrow : ∀ pair, pair ∈ texts.flatMap (Scan.rowOf c) ↔
      pair ∈ texts'.flatMap (Scan.rowOf c) := fun pair =>
    (horder.flatMap_right (Scan.rowOf c)).mem_iff
  have hnodup : (DevLoop.initial.performAll c p operations).registry.styles.names.Nodup :=
    (records_performAll c p operations).nodup
  have hsame := Registry.sameMembers_addEach hrow _ hnodup
    (nodup_dependencies_performAll c p operations)
  refine ⟨founds, founds', _, _, hrun _, hrun' _, hsame, fun hinj => ?_⟩
  have hsound : Registry.Sound c.naming
      (keysWith c (DevLoop.initial.performAll c p operations).registry texts)
      (DevLoop.initial.performAll c p operations).registry := by
    intro entry hentry
    obtain ⟨hown, hclass, -⟩ := entry_genuine hentry
    exact ⟨hown, hclass, Or.inl ⟨entry, hentry, rfl⟩⟩
  have hadded : ∀ pair ∈ texts.flatMap (Scan.rowOf c),
      pair.1.className = c.naming.classOf pair.1.key ∧ pair.1.key ∈
        keysWith c (DevLoop.initial.performAll c p operations).registry texts := by
    intro pair hpair
    obtain ⟨text, htext, hpair⟩ := List.mem_flatMap.mp hpair
    obtain ⟨hclass, hkey⟩ := Scan.sound_rowOf hpair
    exact ⟨hclass, Or.inr ⟨text, htext, hkey⟩⟩
  exact hsame.sameRules (Registry.nodup_names_addEach _ hnodup) (hsound.addEach hadded)
    (hsound.addEach fun pair hpair => hadded pair ((hrow pair).mpr hpair)) hinj

/-- A loop that has another style already. -/
def begun : DevLoop :=
  DevLoop.initial.performAll spaced ⟨fun _ => none, .ok⟩ [.scanText "css(\x7b\x7d)" "./c.ts"]

/-- Two scripts of which one has a style and the other a function of the theme with this style. -/
def pair : List (String × String) :=
  [("css(\x7bmargin: 0\x7d)", "./a.ts"), ("css((t) => (\x7bmargin: t.gap\x7d))", "./b.ts")]

theorem injOn_keysWith_pair :
    Set.InjOn (Digest.className spaced.classPrefix) (keysWith spaced begun.registry pair) := by
  have hbegun : begun.registry.styles.map (fun entry => entry.2.key) = [""] := by decide +kernel
  have hpair : ∀ text ∈ pair, Script.keysOf spaced text.1 text.2 = ["margin:0;"] := by
    decide +kernel
  have hclass : Digest.className spaced.classPrefix "" ≠
      Digest.className spaced.classPrefix "margin:0;" := by decide +kernel
  have hkey : ∀ key ∈ keysWith spaced begun.registry pair, key = "" ∨ key = "margin:0;" := by
    rintro key (⟨entry, hentry, rfl⟩ | ⟨text, htext, hkey⟩)
    · have hmem := List.mem_map_of_mem (f := fun entry => entry.2.key) hentry
      rw [hbegun] at hmem
      exact Or.inl (List.mem_singleton.mp hmem)
    · rw [hpair text htext] at hkey
      exact Or.inr (List.mem_singleton.mp hkey)
  intro key hmem key' hmem' heq
  rcases hkey key hmem with rfl | rfl
  · rcases hkey key' hmem' with rfl | rfl
    · rfl
    · exact absurd heq hclass
  · rcases hkey key' hmem' with rfl | rfl
    · exact absurd heq.symm hclass
    · rfl

/-- The two scripts give the same rules in either order. -/
theorem scans_in_any_order_swapped :
    ∃ founds founds' r r',
      (Scan.sources spaced pair).run begun.registry = (.ok founds, r) ∧
      (Scan.sources spaced pair.reverse).run begun.registry = (.ok founds', r') ∧
      r.SameMembers r' ∧ r.SameRules r' := by
  have hscan : ∀ text ∈ pair, ((Scan.source spaced text.1 text.2).run
      begun.registry).1.toOption = some true := by decide +kernel
  obtain ⟨founds, founds', r, r', hrun, hrun', hsame, hrules⟩ :=
    scans_in_any_order spaced ⟨fun _ => none, .ok⟩ [.scanText "css(\x7b\x7d)" "./c.ts"]
      (List.reverse_perm pair).symm fun text htext =>
        ⟨true, congrArg Prod.fst (run_of_toOption (hscan text htext))⟩
  exact ⟨founds, founds', r, r', hrun, hrun', hsame, hrules injOn_keysWith_pair⟩

end DevLoop

end StaticStyle
