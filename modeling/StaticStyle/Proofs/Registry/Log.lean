import Mathlib.Data.List.DropRight
import StaticStyle.Proofs.Registry.History

/-!
# The registry as a log

All who have a registry have the same one, so what it has become is told by the changes
that any of them has made to it, one after the other.  `Registry.replay` makes the changes
of a log.

A log can be read without a registry.  What counts are the changes since it was last
cleared: `Registry.additions` are the rules added since then, each with its file, and
`Registry.listing` lists the last rule of each class, in the order in which the classes first
came up.  `Registry.replay_log` says that the registry is the log read in this way.
-/

namespace StaticStyle.Registry

/-- A change of a registry. -/
inductive Change where
  /-- A rule of a file is added. -/
  | add (e : ClassRule) (file : String)
  /-- A stylesheet is added. -/
  | addRoot (file : String)
  /-- Everything is dropped. -/
  | clear
  /-- It is noted that the styles have been collected. -/
  | noteScan

namespace Change

/-- The registry after a change. -/
def apply : Change → Registry → Registry
  | .add e file, r => r.add e file
  | .addRoot file, r => r.addRoot file
  | .clear, r => r.clear
  | .noteScan, r => r.noteScan

/-- Whether a change drops everything. -/
def isClear : Change → Bool
  | .clear => true
  | _ => false

/-- The rule that a change adds, with its file. -/
def addition? : Change → Option (ClassRule × String)
  | .add e file => some (e, file)
  | _ => none

/-- The stylesheet that a change adds. -/
def root? : Change → Option String
  | .addRoot file => some file
  | _ => none

end Change

/-- The registry after the changes of a log. -/
def replay (log : List Change) (r : Registry) : Registry :=
  log.foldl (fun r change => change.apply r) r

theorem replay_append (log log' : List Change) (r : Registry) :
    r.replay (log ++ log') = (r.replay log).replay log' :=
  List.foldl_append

theorem replay_concat (log : List Change) (change : Change) (r : Registry) :
    r.replay (log ++ [change]) = change.apply (r.replay log) := by
  rw [replay_append]
  rfl

/-- A row of rules is a log of additions. -/
theorem replay_additions (row : List (ClassRule × String)) (r : Registry) :
    r.replay (row.map fun pair => .add pair.1 pair.2) = r.addEach row := by
  rw [replay, List.foldl_map]
  rfl

/-! ## Reading a log -/

/-- The changes of a log since it last drops everything. -/
def sinceClear (log : List Change) : List Change := log.rtakeWhile fun change => !change.isClear

/-- The rules that a log adds since it last drops everything, each with its file. -/
def additions (log : List Change) : List (ClassRule × String) :=
  (sinceClear log).filterMap Change.addition?

/-- The stylesheets that a log adds since it last drops everything. -/
def rootAdditions (log : List Change) : List String := (sinceClear log).filterMap Change.root?

/-- The last rule of a class. -/
def lastOf (rules : List ClassRule) (className : String) : Option ClassRule :=
  (rules.filter fun e => e.className = className).getLast?

/-- The last rule of each class, in the order in which the classes first come up. -/
def listing (rules : List ClassRule) : List ClassRule :=
  (rules.map fun e => e.className).eraseDups.filterMap (lastOf rules)

theorem sinceClear_concat (log : List Change) (change : Change) :
    sinceClear (log ++ [change]) = if change.isClear then [] else sinceClear log ++ [change] := by
  rw [sinceClear, List.rtakeWhile_concat, sinceClear]
  cases change.isClear with
  | true => rfl
  | false => rfl

theorem additions_concat (log : List Change) (change : Change) :
    additions (log ++ [change]) =
      match change with
      | .add e file => additions log ++ [(e, file)]
      | .clear => []
      | _ => additions log := by
  rw [additions, sinceClear_concat]
  cases change with
  | add e file => exact List.filterMap_append
  | addRoot file => exact List.filterMap_append.trans (List.append_nil _)
  | clear => rfl
  | noteScan => exact List.filterMap_append.trans (List.append_nil _)

theorem rootAdditions_concat (log : List Change) (change : Change) :
    rootAdditions (log ++ [change]) =
      match change with
      | .addRoot file => rootAdditions log ++ [file]
      | .clear => []
      | _ => rootAdditions log := by
  rw [rootAdditions, sinceClear_concat]
  cases change with
  | add e file => exact List.filterMap_append.trans (List.append_nil _)
  | addRoot file => exact List.filterMap_append
  | clear => rfl
  | noteScan => exact List.filterMap_append.trans (List.append_nil _)

/-- What is read off the end of a log has been written there. -/
theorem mem_of_mem_additions {log : List Change} {pair : ClassRule × String}
    (h : pair ∈ additions log) : .add pair.1 pair.2 ∈ log := by
  obtain ⟨change, hchange, hpair⟩ := List.mem_filterMap.mp h
  have hlog : change ∈ log := (List.rtakeWhile_suffix _ _).subset hchange
  cases change with
  | add e file =>
      cases hpair
      exact hlog
  | addRoot file => cases hpair
  | clear => cases hpair
  | noteScan => cases hpair

/-! ## Rules by class -/

section

variable {rules : List ClassRule} {className : String} {e : ClassRule}

theorem lastOf_concat (rules : List ClassRule) (e : ClassRule) (className : String) :
    lastOf (rules ++ [e]) className =
      if e.className = className then some e else lastOf rules className := by
  rw [lastOf, List.filter_append]
  split
  · rename_i hclass
    rw [List.filter_cons_of_pos (by simpa using hclass), List.filter_nil, List.getLast?_concat]
  · rename_i hclass
    rw [List.filter_cons_of_neg (by simpa using hclass), List.filter_nil, List.append_nil, lastOf]

theorem className_of_lastOf (h : lastOf rules className = some e) : e.className = className := by
  have hmem := List.mem_of_getLast? h
  simpa using (List.mem_filter.mp hmem).2

theorem exists_lastOf (h : className ∈ rules.map fun e => e.className) :
    ∃ e, lastOf rules className = some e := by
  obtain ⟨e, he, rfl⟩ := List.mem_map.mp h
  have hne : rules.filter (fun other => other.className = e.className) ≠ [] :=
    List.ne_nil_of_mem (List.mem_filter.mpr ⟨he, by simp⟩)
  exact ⟨_, List.getLast?_eq_some_getLast hne⟩

theorem classNames_listing (rules : List ClassRule) :
    (listing rules).map (fun e => e.className) = (rules.map fun e => e.className).eraseDups := by
  have hlast : ∀ className ∈ (rules.map fun e => e.className).eraseDups,
      (lastOf rules className).map (fun e => e.className) = some className := by
    intro className hclass
    obtain ⟨e, he⟩ := exists_lastOf (List.mem_eraseDups.mp hclass)
    rw [he, Option.map_some, className_of_lastOf he]
  rw [listing, List.map_filterMap, List.filterMap_congr hlast, List.filterMap_some]

theorem lastOf_of_mem_listing (h : e ∈ listing rules) : lastOf rules e.className = some e := by
  obtain ⟨className, -, he⟩ := List.mem_filterMap.mp h
  rw [className_of_lastOf he, he]

end

/-! ## The registry and the log -/

variable {log : List Change}

/-- The styles and the dependencies are those of the rules added since everything was last
dropped. -/
theorem replay_eq_addEach (log : List Change) :
    (empty.replay log).styles = (empty.addEach (additions log)).styles ∧
      (empty.replay log).dependencies = (empty.addEach (additions log)).dependencies := by
  induction log using List.reverseRecOn with
  | nil => exact ⟨rfl, rfl⟩
  | append_singleton log change ih =>
      rw [replay_concat, additions_concat]
      cases change with
      | add e file =>
          obtain ⟨hstyles, hdependencies⟩ := ih
          dsimp only
          rw [addEach_concat]
          exact ⟨congrArg (Table.put e.className e) hstyles,
            congrArg (Roll.enrol file) hdependencies⟩
      | addRoot file => exact ih
      | clear => exact ⟨rfl, rfl⟩
      | noteScan => exact ih

theorem roots_replay (log : List Change) :
    (empty.replay log).roots = (rootAdditions log).eraseDups := by
  induction log using List.reverseRecOn with
  | nil => rfl
  | append_singleton log change ih =>
      rw [replay_concat, rootAdditions_concat]
      cases change with
      | add e file => exact ih
      | addRoot file =>
          dsimp only
          rw [Roll.eraseDups_concat, ← ih]
          rfl
      | clear => rfl
      | noteScan => exact ih

/-- A log drops everything and does not note a scan after that. -/
def Cleared (log : List Change) : Prop :=
  ∃ before after, log = before ++ .clear :: after ∧ .noteScan ∉ after

theorem cleared_concat (log : List Change) (change : Change) :
    Cleared (log ++ [change]) ↔ change = .clear ∨ change ≠ .noteScan ∧ Cleared log := by
  constructor
  · rintro ⟨before, after, heq, hnote⟩
    rcases List.eq_nil_or_concat after with rfl | ⟨after, last, rfl⟩
    · have hlast := List.append_inj_right' heq rfl
      exact Or.inl (List.singleton_inj.mp hlast)
    · rw [List.concat_eq_append, ← List.cons_append, ← List.append_assoc] at heq
      obtain ⟨hfront, hlast⟩ := List.append_inj' heq rfl
      obtain rfl := List.singleton_inj.mp hlast
      rw [List.concat_eq_append, List.mem_append, List.mem_singleton, not_or] at hnote
      exact Or.inr ⟨Ne.symm hnote.2, before, after, hfront, hnote.1⟩
  · rintro (rfl | ⟨hne, before, after, rfl, hnote⟩)
    · exact ⟨log, [], rfl, List.not_mem_nil⟩
    · refine ⟨before, after ++ [change], by simp, ?_⟩
      rw [List.mem_append, List.mem_singleton, not_or]
      exact ⟨hnote, hne.symm⟩

/-- A registry is stale if it has been emptied and not been scanned since. -/
theorem stale_replay_iff : (empty.replay log).stale = true ↔ Cleared log := by
  induction log using List.reverseRecOn with
  | nil => exact iff_of_false Bool.false_ne_true fun ⟨before, after, h, _⟩ => by simp at h
  | append_singleton log change ih =>
      rw [replay_concat, cleared_concat]
      cases change with
      | add e file => simpa [Change.apply, Registry.add] using ih
      | addRoot file => simpa [Change.apply, Registry.addRoot] using ih
      | clear => simp [Change.apply, Registry.clear]
      | noteScan => simp [Change.apply, Registry.noteScan]

/-- What stands under a class is the last rule of the class. -/
theorem style?_addEach_empty (row : List (ClassRule × String)) (className : String) :
    (empty.addEach row).style? className = lastOf (row.map Prod.fst) className := by
  induction row using List.reverseRecOn with
  | nil => rfl
  | append_singleton row pair ih =>
      rw [addEach_concat, style?_add, List.map_append, List.map_singleton, lastOf_concat, ih]

theorem styles_addEach_empty (row : List (ClassRule × String)) :
    (empty.addEach row).styles =
      (listing (row.map Prod.fst)).map fun e => (e.className, e) := by
  have hnames : (empty.addEach row).styles.names =
      ((row.map Prod.fst).map fun e => e.className).eraseDups := by
    rw [names_styles_addEach, List.map_map]
    exact Roll.enrolAll_nil _
  have hnodup : (empty.addEach row).styles.names.Nodup := nodup_names_addEach row List.nodup_nil
  rw [← Table.filterMap_names hnodup, hnames, listing, List.map_filterMap]
  refine List.filterMap_congr fun className _ => ?_
  have hget : (empty.addEach row).styles.get? className = lastOf (row.map Prod.fst) className :=
    style?_addEach_empty row className
  rw [hget]
  cases hlast : lastOf (row.map Prod.fst) className with
  | none => rfl
  | some e => rw [Option.map_some, Option.map_some, className_of_lastOf hlast]

/-- A look-up in rules that stand under their classes. -/
theorem get?_map_className (rules : List ClassRule) (className : String) :
    Table.get? className (rules.map fun e => (e.className, e)) =
      rules.find? fun e => e.className = className := by
  induction rules with
  | nil => rfl
  | cons e rules ih =>
      rw [List.map_cons, Table.get?, List.find?_cons, ih]
      by_cases hclass : e.className = className
      · simp [hclass]
      · simp [hclass]

/-- A registry is what the log of the changes made to it says. -/
structure Records (log : List Change) (r : Registry) : Prop where
  /-- There is an entry for each class that has come up since everything was last dropped, in
  the order in which the classes came up first. -/
  classes : r.styles.names = (((additions log).map Prod.fst).map fun e => e.className).eraseDups
  /-- No class has two entries. -/
  nodup : r.styles.names.Nodup
  /-- The entry of a class is the last rule added for it. -/
  last : ∀ entry ∈ r.styles, entry.1 = entry.2.className ∧
    lastOf ((additions log).map Prod.fst) entry.1 = some entry.2
  /-- The dependencies are the files of the rules, each where it came up first. -/
  dependencies : r.dependencies = ((additions log).map Prod.snd).eraseDups
  /-- The stylesheets are those added since then, each where it came up first. -/
  roots : r.roots = (rootAdditions log).eraseDups
  /-- It is stale if it has been emptied and not been scanned since. -/
  stale_iff : r.stale = true ↔ Cleared log
  /-- There are as many styles as classes. -/
  length : r.styles.length =
    (((additions log).map Prod.fst).map fun e => e.className).eraseDups.length
  /-- What else can be asked about the styles is a matter of their list. -/
  hasClass : ∀ className, r.hasClass className =
    (r.styles.map Prod.snd).any fun e => e.className = className
  style? : ∀ className, r.style? className =
    (r.styles.map Prod.snd).find? fun e => e.className = className
  rules : r.rules = "\n".intercalate ((r.styles.map Prod.snd).map ClassRule.render)
  /-- There are no styles exactly if there are no dependencies. -/
  isEmpty_iff : r.styles = [] ↔ r.dependencies = []

/-- After any changes, a registry is what the log of the changes says. -/
theorem replay_log (log : List Change) : Records log (empty.replay log) := by
  obtain ⟨hstyles, hdependencies⟩ := replay_eq_addEach log
  have hlisting : (empty.replay log).styles =
      (listing ((additions log).map Prod.fst)).map fun e => (e.className, e) :=
    hstyles.trans (styles_addEach_empty _)
  have hnames : (empty.replay log).styles.names =
      (((additions log).map Prod.fst).map fun e => e.className).eraseDups := by
    rw [hlisting, Table.names, List.map_map]
    exact classNames_listing _
  have hlist : (empty.replay log).styles.map Prod.snd =
      listing ((additions log).map Prod.fst) := by
    rw [hlisting, List.map_map]
    exact List.map_id _
  have hget : ∀ className, (empty.replay log).style? className =
      ((empty.replay log).styles.map Prod.snd).find? fun e => e.className = className := by
    intro className
    rw [hlist, ← get?_map_className, ← hlisting]
    rfl
  have hfiles : (empty.replay log).dependencies = ((additions log).map Prod.snd).eraseDups := by
    rw [hdependencies, dependencies_addEach]
    exact Roll.enrolAll_nil _
  refine
    { classes := hnames
      nodup := ?nodup
      last := ?last
      dependencies := hfiles
      roots := roots_replay log
      stale_iff := stale_replay_iff
      length := hnames ▸ (List.length_map _).symm
      hasClass := ?hasClass
      style? := hget
      rules := ?rendered
      isEmpty_iff := ?isEmpty }
  case nodup =>
    rw [hstyles]
    exact nodup_names_addEach _ List.nodup_nil
  case last =>
    intro entry hentry
    rw [hlisting] at hentry
    obtain ⟨e, he, rfl⟩ := List.mem_map.mp hentry
    exact ⟨rfl, lastOf_of_mem_listing he⟩
  case hasClass =>
    intro className
    change ((empty.replay log).style? className).isSome = _
    rw [hget, Bool.eq_iff_iff, List.find?_isSome, List.any_eq_true]
  case rendered =>
    rw [Registry.rules, List.map_map]
    rfl
  case isEmpty =>
    have hstyles_nil : (empty.replay log).styles = [] ↔ (empty.replay log).styles.names = [] :=
      List.map_eq_nil_iff.symm
    rw [hstyles_nil, hnames, hfiles, Roll.eraseDups_eq_nil_iff, Roll.eraseDups_eq_nil_iff,
      List.map_eq_nil_iff, List.map_eq_nil_iff, List.map_eq_nil_iff]

end StaticStyle.Registry
