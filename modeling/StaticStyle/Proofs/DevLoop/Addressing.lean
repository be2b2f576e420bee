import StaticStyle.Proofs.DevLoop.History
import StaticStyle.Proofs.Script.Agreement

/-!
# Content addressing

The class name that is written in the place of a call and the rule in the stylesheet come about
apart from each other: a replacement looks only whether there is an entry of the class, and
the stylesheet has whatever text this entry has.  They agree because every entry stands under
the class name of its own canonical text, whatever has been done with the loop before, and
because a class has one entry.

`DevLoop.content_addressed` says so, provided that no two of the canonical texts that have come
up share a class name.
-/

namespace StaticStyle

open Running

/-! ## Replacements that do not abort -/

namespace Script

variable {c : Config} {registry : Registry} {script : Script} {code file : String}
  {calls : List StyleCall} {verdicts : List (StyleCall × Option String)} {replaced : ReplacedScript}
  {reports reports' : List UnknownStyle}

/-- If unknown styles stop a replacement, one that goes through has found every style. -/
theorem exists_rules_of_judgeAll (hpolicy : c.unknown = .abort)
    (h : (judgeAll c registry script file calls).run reports = (.ok verdicts, reports')) :
    ∃ rules, List.Forall₂ (fun call e => script.ruleOf c file call = .ok e) calls rules ∧
      ∀ e ∈ rules, registry.hasClass e.className = true := by
  induction calls generalizing reports reports' verdicts with
  | nil => exact ⟨[], .nil, nofun⟩
  | cons call calls ih =>
      unfold judgeAll at h
      obtain ⟨e, reports₁, hrule, h⟩ := exists_of_run_bind h
      obtain ⟨verdict, reports₂, hjudge, h⟩ := exists_of_run_bind h
      obtain ⟨rest, reports₃, hrest, h⟩ := exists_of_run_bind h
      rw [run_lift] at hrule
      have hknown : registry.hasClass e.className = true := by
        by_contra hunknown
        rw [Bool.not_eq_true] at hunknown
        simp only [judge, hunknown, if_neg Bool.false_ne_true, hpolicy] at hjudge
        cases hjudge
      obtain ⟨rules, hrules, hall⟩ := ih hrest
      exact ⟨e :: rules, .cons (congrArg Prod.fst hrule) hrules,
        List.forall_mem_cons.mpr ⟨hknown, hall⟩⟩

/-- It has put in the class names of the calls. -/
theorem exists_rules_of_replaceCalls (hpolicy : c.unknown = .abort)
    (h : (replaceCalls c registry code file).run reports = (.ok (some replaced), reports')) :
    ∃ script rules, Script.read c.function code file = .ok script ∧
      script.rules c file = .ok rules ∧
      (∀ e ∈ rules, registry.hasClass e.className = true) ∧
      replaced.classNames = rules.map (fun e => e.className) ∧
      replaced = script.carryOut code.toList (script.calls.zip (replaced.classNames.map some)) := by
  unfold replaceCalls at h
  obtain ⟨script, reports₁, hread, h⟩ := exists_of_run_bind h
  rw [run_lift] at hread
  split at h
  · cases h
  · obtain ⟨verdicts, reports₂, hverdicts, h⟩ := exists_of_run_bind h
    obtain ⟨rules, hrules, hall⟩ := exists_rules_of_judgeAll hpolicy hverdicts
    rw [judgeAll_run hrules hall] at hverdicts
    cases hverdicts
    cases h
    have hnames := (carryOut_zip hrules.length_eq code.toList).2
    refine ⟨script, rules, congrArg Prod.fst hread, rules_eq_ok_iff.mpr hrules, hall, hnames, ?_⟩
    rw [hnames, List.map_map]
    rfl

/-- The canonical texts of the calls of a script, if they all have one. -/
def keysOf (c : Config) (code file : String) : List String :=
  ((rulesOf c code file).toOption.getD []).map fun e => e.key

theorem keysOf_of_ok {rules : List ClassRule} (h : rulesOf c code file = .ok rules) :
    keysOf c code file = rules.map fun e => e.key := by
  rw [keysOf, h]
  rfl

end Script

/-! ## Entries -/

namespace Registry

/-- The canonical text of the rule that a change adds. -/
def Change.key? : Change → Option String
  | .add e _ => some e.key
  | _ => none

/-- The text of all rules has one rule of a class, and this has a given canonical text. -/
def SoleRule (r : Registry) (className key : String) : Prop :=
  ∃ before e after,
    r.rules = "\n".intercalate ((before ++ e :: after).map ClassRule.render) ∧
      r.style? className = some e ∧ e.className = className ∧ e.key = key ∧
      ∀ other ∈ before ++ after, other.className ≠ className

/-- A registry has one rule of each class that it has, whatever changes it is made of. -/
theorem Records.soleRule {log : List Change} {r : Registry} {className : String} {e : ClassRule}
    (h : Records log r) (he : r.style? className = some e) : r.SoleRule className e.key := by
  obtain ⟨front, back, hsplit⟩ := List.append_of_mem (Table.mem_of_get? he)
  have hown : ∀ entry ∈ front ++ (className, e) :: back, entry.1 = entry.2.className := by
    intro entry hentry
    exact (h.last entry (hsplit ▸ hentry)).1
  have hnodup := h.nodup
  rw [Table.names, hsplit, List.map_append, List.map_cons, List.nodup_middle, List.nodup_cons,
    ← List.map_append] at hnodup
  refine ⟨front.map Prod.snd, e, back.map Prod.snd, ?_, he, ?_, rfl, ?_⟩
  · rw [h.rules, hsplit, List.map_append, List.map_cons]
  · exact (hown _ (List.mem_append_right _ List.mem_cons_self)).symm
  · intro other hother hclass
    rw [← List.map_append] at hother
    obtain ⟨entry, hentry, rfl⟩ := List.mem_map.mp hother
    have hname : entry.1 = className := by
      rcases List.mem_append.mp hentry with hentry | hentry
      · exact (hown entry (List.mem_append_left _ hentry)).trans hclass
      · exact (hown entry (List.mem_append_right _ (List.mem_cons_of_mem _ hentry))).trans hclass
    have hmem : entry.1 ∈ (front ++ back).map Prod.fst := List.mem_map_of_mem hentry
    exact hnodup.1 (hname ▸ hmem)

end Registry

/-! ## Loops -/

namespace DevLoop

variable {c : Config} {p : SheetParser} {operations : List Operation}

/-- The canonical texts of the styles that some operations have collected. -/
def collectedKeys (c : Config) (p : SheetParser) (operations : List Operation) : List String :=
  (log c p .initial operations).filterMap Registry.Change.key?

theorem records_performAll (c : Config) (p : SheetParser) (operations : List Operation) :
    Registry.Records (log c p .initial operations)
      (DevLoop.initial.performAll c p operations).registry := by
  rw [registry_performAll]
  exact Registry.replay_log _

/-- An entry is the last rule that has been added for its class. -/
theorem exists_add_of_entry {entry : String × ClassRule}
    (h : entry ∈ (DevLoop.initial.performAll c p operations).registry.styles) :
    entry.1 = entry.2.className ∧ ∃ file, .add entry.2 file ∈ log c p .initial operations := by
  obtain ⟨hown, hlast⟩ := (records_performAll c p operations).last entry h
  refine ⟨hown, ?_⟩
  obtain ⟨pair, hpair, hrule⟩ := List.mem_map.mp (List.mem_filter.mp (List.mem_of_getLast? hlast)).1
  exact ⟨pair.2, hrule ▸ Registry.mem_of_mem_additions hpair⟩

/-- An entry stands under the class name of its canonical text, and this is the one of its
declaration. -/
theorem entry_genuine {entry : String × ClassRule}
    (h : entry ∈ (DevLoop.initial.performAll c p operations).registry.styles) :
    entry.1 = entry.2.className ∧
      entry.2.className = Digest.className c.classPrefix entry.2.key ∧
      entry.2.declaration.canonicalKey c.theme = .ok entry.2.key := by
  obtain ⟨hown, file, hadd⟩ := exists_add_of_entry h
  exact ⟨hown, Registry.ruleOf_declaration_iff.mp (genuine_log c p .initial operations _ hadd)⟩

/-- If the class of a canonical text is there, its rule has this text, unless another text of the
same class has come up. -/
theorem soleRule_of_hasClass {keys : List String} {key : String}
    (hinj : Set.InjOn (Digest.className c.classPrefix) {key | key ∈ keys})
    (hkeys : collectedKeys c p operations ⊆ keys) (hkey : key ∈ keys)
    (h : (DevLoop.initial.performAll c p operations).registry.hasClass
      (Digest.className c.classPrefix key) = true) :
    (DevLoop.initial.performAll c p operations).registry.SoleRule
      (Digest.className c.classPrefix key) key := by
  obtain ⟨e, he⟩ := Option.isSome_iff_exists.mp h
  have hentry := Table.mem_of_get? he
  obtain ⟨hown, file, hadd⟩ := exists_add_of_entry hentry
  have hcollected : e.key ∈ collectedKeys c p operations :=
    List.mem_filterMap.mpr ⟨.add e file, hadd, rfl⟩
  have hclass : Digest.className c.classPrefix e.key = Digest.className c.classPrefix key :=
    (entry_genuine hentry).2.1.symm.trans hown.symm
  obtain rfl : e.key = key := hinj (hkeys hcollected) hkey hclass
  exact (records_performAll c p operations).soleRule he

/-- Whatever has been done with a loop, every entry of its registry stands under the class name of
its canonical text, which is the one of its declaration.  If the script of a file is replaced
and unknown styles would have stopped that, then each call has got the class name of its
canonical text, and the text of all rules has one rule of this class, which has this text,
unless two of the canonical texts that have come up share a class name. -/
theorem content_addressed (c : Config) (p : SheetParser) (operations : List Operation) :
    (∀ entry ∈ (DevLoop.initial.performAll c p operations).registry.styles,
      entry.1 = entry.2.className ∧
        entry.2.className = Digest.className c.classPrefix entry.2.key ∧
        entry.2.declaration.canonicalKey c.theme = .ok entry.2.key) ∧
    (c.unknown = .abort → ∀ code file,
      Set.InjOn (Digest.className c.classPrefix)
        {key | key ∈ collectedKeys c p operations ++ Script.keysOf c code file} →
      ∀ reports replaced reports',
        (Script.replaceCalls c (DevLoop.initial.performAll c p operations).registry code file).run
            reports = (.ok (some replaced), reports') →
        ∃ script, Script.read c.function code file = .ok script ∧
          replaced = script.carryOut code.toList
            (script.calls.zip (replaced.classNames.map some)) ∧
          List.Forall₂ (fun call className => ∃ d key,
            script.evaluate call file c.limits = .ok d ∧ d.canonicalKey c.theme = .ok key ∧
              className = Digest.className c.classPrefix key ∧
              (DevLoop.initial.performAll c p operations).registry.SoleRule className key)
            script.calls replaced.classNames) := by
  refine ⟨fun entry hentry => entry_genuine hentry, ?_⟩
  intro hpolicy code file hinj reports replaced reports' hrun
  obtain ⟨script, rules, hread, hrules, hknown, hnames, hreplaced⟩ :=
    Script.exists_rules_of_replaceCalls hpolicy hrun
  refine ⟨script, hread, hreplaced, ?_⟩
  have hkeysOf : ∀ e ∈ rules, e.key ∈ Script.keysOf c code file := by
    intro e he
    rw [Script.keysOf_of_ok (Script.rulesOf_eq_ok_iff.mpr ⟨script, hread, hrules⟩)]
    exact List.mem_map_of_mem he
  obtain ⟨hlength, hcalls⟩ := List.forall₂_iff_zip.mp (Script.rules_eq_ok_iff.mp hrules)
  rw [hnames, List.forall₂_map_right_iff, List.forall₂_iff_zip]
  refine ⟨hlength, fun {call e} hpair => ?_⟩
  have he : e ∈ rules := (List.of_mem_zip hpair).2
  have hkey := hkeysOf e he
  have hclass := hknown e he
  obtain ⟨d, hd, key, hcanonical, rfl⟩ := Script.ruleOf_eq_ok_iff.mp (hcalls hpair)
  exact ⟨d, key, hd, hcanonical, rfl, soleRule_of_hasClass hinj
    (List.subset_append_left _ _) (List.mem_append_right _ hkey) hclass⟩

/-- A build with a theme. -/
def spaced : Config :=
  { Config.default with theme := some (.object [("gap", .number (.integer 0))]) }

/-- Two files have one style, which in the second file is a function of the theme. -/
def sameStyle : List Operation :=
  [.scanText "css({margin: 0})" "./a.ts", .scanText "css((t) => ({margin: t.gap}))" "./b.ts"]

/-- The rules of the two files have one canonical text. -/
theorem rulesOf_sameStyle :
    ∃ e e', Script.rulesOf spaced "css({margin: 0})" "./a.ts" = .ok [e] ∧
      Script.rulesOf spaced "css((t) => ({margin: t.gap}))" "./b.ts" = .ok [e'] ∧
      e'.key = e.key := by
  obtain ⟨rules, hr, hkeys⟩ : ∃ rules, Script.rulesOf spaced "css({margin: 0})" "./a.ts" =
      .ok rules ∧ rules.map ClassRule.key = ["margin:0;"] := exists_of_toOption (by decide +kernel)
  obtain ⟨rules', hr', hkeys'⟩ : ∃ rules,
      Script.rulesOf spaced "css((t) => ({margin: t.gap}))" "./b.ts" = .ok rules ∧
        rules.map ClassRule.key = ["margin:0;"] := exists_of_toOption (by decide +kernel)
  obtain ⟨e, rfl, he⟩ := List.map_eq_singleton_iff.mp hkeys
  obtain ⟨e', rfl, he'⟩ := List.map_eq_singleton_iff.mp hkeys'
  exact ⟨e, e', hr, hr', he'.trans he.symm⟩

/-- The call that is a function of the theme gets the class of the one rule. -/
theorem content_addressed_themed :
    ∃ replaced className key,
      (Script.replaceCalls spaced
          (DevLoop.initial.performAll spaced ⟨fun _ => none, .ok⟩ sameStyle).registry
          "css((t) => ({margin: t.gap}))" "./b.ts").run [] = (.ok (some replaced), []) ∧
      replaced.classNames = [className] ∧
      (DevLoop.initial.performAll spaced ⟨fun _ => none, .ok⟩ sameStyle).registry.SoleRule
        className key := by
  obtain ⟨e, e', hr, hr', hkey⟩ := rulesOf_sameStyle
  have hlog : log spaced ⟨fun _ => none, .ok⟩ .initial sameStyle =
      [.add e "./a.ts", .add e' "./b.ts"] := by
    simp only [sameStyle, log, changes, Scan.changesIn, hr, hr']
    rfl
  have hkeys : collectedKeys spaced ⟨fun _ => none, .ok⟩ sameStyle = [e.key, e'.key] := by
    rw [collectedKeys, hlog]
    rfl
  have hinj : Set.InjOn (Digest.className spaced.classPrefix)
      {key | key ∈ collectedKeys spaced ⟨fun _ => none, .ok⟩ sameStyle ++
        Script.keysOf spaced "css((t) => ({margin: t.gap}))" "./b.ts"} := by
    rw [hkeys, Script.keysOf_of_ok hr']
    intro key hmem key' hmem' _
    simp only [hkey, Set.mem_ofPred_eq, List.map_cons, List.map_nil, List.mem_append,
      List.mem_cons, List.not_mem_nil, or_false, or_self] at hmem hmem'
    rw [hmem, hmem']
  have hknown : ∀ rule ∈ [e'],
      (DevLoop.initial.performAll spaced ⟨fun _ => none, .ok⟩ sameStyle).registry.hasClass
        rule.className = true := by
    intro rule hrule
    rw [List.mem_singleton.mp hrule, registry_performAll, hlog]
    exact (Registry.hasClass_add e' "./b.ts" _ _).mpr (Or.inl rfl)
  obtain ⟨output, hrun, hnone, hsome⟩ := Script.replaceCalls_run hr' hknown []
  obtain ⟨replaced, rfl⟩ := Option.ne_none_iff_exists'.mp fun h => List.cons_ne_nil _ _ (hnone.mp h)
  obtain ⟨-, hnames⟩ := hsome replaced rfl
  obtain ⟨-, hreplace⟩ := content_addressed spaced ⟨fun _ => none, .ok⟩ sameStyle
  obtain ⟨script, -, -, hcalls⟩ := hreplace rfl _ _ hinj [] replaced [] hrun
  have hclass : e'.className ∈ replaced.classNames := hnames ▸ List.mem_singleton_self _
  obtain ⟨-, -, -, key, -, -, -, hrule⟩ := exists_of_forall₂ hcalls hclass
  exact ⟨replaced, e'.className, key, hrun, hnames, hrule⟩

end DevLoop

end StaticStyle
