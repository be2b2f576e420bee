import StaticStyle.Proofs.DevLoop.History
import StaticStyle.Proofs.DevLoop.Serving
import StaticStyle.Proofs.Scan.Repetition

/-!
# Moves between states of freshness

Whether a loop is fresh, potentially stale or stale is read off two marks, one in the registry
and one in the loop.  What an operation makes of it is a matter of the state before and of
the answer, and `DevLoop.Moves` is the table of these moves: a build that succeeds leaves
the loop fresh, invalid rules leave it stale, a stylesheet that is emitted makes a potentially
stale loop fresh, and an update that finds styles makes the loop potentially stale.

The run of each operation is told in full by one lemma (`start_run`, `update_run`,
`update_run_of_stale`, and `serve_cases` for a module), from which `freshness_moves` reads off the
table.  A loop that is stale stays so until a full scan succeeds, whatever is done with it
and with its parts.
-/

namespace StaticStyle.DevLoop

open Running

variable {c : Config} {p : SheetParser} {view : FileView} {code id file : String} {s : DevLoop}

/-! ## Runs -/

theorem start_run (c : Config) (view : FileView) (s : DevLoop) :
    (start c view).run s =
      match (Scan.all c view).run s.registry with
      | (.ok tally, registry) => (.ok tally, { s with registry, pending := false })
      | (.error fault, registry) => (.error fault, { s with registry }) := by
  simp only [start, run_bind, onRegistry_run]
  rcases (Scan.all c view).run s.registry with ⟨_ | tally, r⟩
  · rfl
  · rfl

/-- The update of a loop whose styles have been dropped. -/
theorem update_run_of_stale (hstale : s.registry.stale = true) (c : Config) (view : FileView)
    (file : String) :
    (update c view file).run s =
      match (Scan.all c view).run s.registry with
      | (.ok _, registry) =>
          (.ok ⟨true, s.roots.enrolAll registry.roots⟩, { s with registry, pending := true })
      | (.error fault, registry) => (.error fault, { s with registry }) := by
  simp only [update, run_bind, run_get, hstale, if_true, run_map, onRegistry_run]
  rcases (Scan.all c view).run s.registry with ⟨_ | tally, r⟩
  · rfl
  · rfl

/-- The update of any other loop. -/
theorem update_run (hstale : s.registry.stale = false) (c : Config) (view : FileView)
    (file : String) :
    (update c view file).run s =
      match (Scan.file c view file).run s.registry with
      | (.ok true, registry) =>
          (.ok ⟨false, s.roots.enrolAll registry.roots⟩, { s with registry, pending := true })
      | (.ok false, registry) => (.ok ⟨false, []⟩, { s with registry })
      | (.error fault, registry) => (.error fault, { s with registry }) := by
  simp only [update, run_bind, run_get, hstale, if_neg Bool.false_ne_true, onRegistry_run]
  rcases (Scan.file c view file).run s.registry with ⟨_ | _ | _, r⟩
  · rfl
  · rfl
  · rfl

/-! ## Freshness -/

/-- Freshness is a matter of the two marks. -/
theorem freshness_congr (s : DevLoop) {s' : DevLoop} (hstale : s'.registry.stale = s.registry.stale)
    (hpending : s'.pending = s.pending) : s'.freshness = s.freshness := by
  rw [freshness, freshness, hstale, hpending]

theorem freshness_of_pending (hstale : s.registry.stale = false) (hpending : s.pending = true) :
    s.freshness = .potentiallyStale := by
  rw [freshness, hstale, hpending]
  rfl

/-- What is served as a stylesheet is a stylesheet with a directive, if it is served at all. -/
theorem exists_sheet_iff (c : Config) (p : SheetParser) (code id : String) (s : DevLoop) :
    (∃ output, ((serve c p code id).run s).1 = .ok (some (.sheet output))) ↔
      FileId.kindOf id = .stylesheet ∧ Sheet.isRoot c code = true ∧
        ∃ served, ((serve c p code id).run s).1 = .ok served := by
  constructor
  · rintro ⟨output, houtput⟩
    rcases serve_cases c p code id s with
      ⟨answer, reports, hrun, hnone, -⟩ | ⟨reason, hrun⟩ | ⟨reason, hrun⟩ | ⟨text, hyields, hrun⟩
    · rw [hrun] at houtput
      exact absurd houtput (hnone output)
    · rw [hrun] at houtput
      cases houtput
    · rw [hrun] at houtput
      cases houtput
    · exact ⟨hyields.isSheet, hyields.isRoot, _, houtput⟩
  · rintro ⟨hk, hroot, served, hserved⟩
    rw [(serve_sheet_run hk hroot p s).1] at hserved ⊢
    cases hgen : ((Sheet.generate c p code id).run s.registry).1 with
    | error fault =>
        rw [hgen] at hserved
        cases hserved
    | ok output => exact ⟨output, rfl⟩

theorem freshness_start (c : Config) (view : FileView) (s : DevLoop) :
    ((start c view).run s).2.freshness =
      match ((start c view).run s).1 with
      | .ok _ => .fresh
      | .error _ => s.freshness := by
  rw [start_run]
  rcases hrun : (Scan.all c view).run s.registry with ⟨fault | tally, r⟩
  · exact freshness_congr s (Scan.stale_all_of_error hrun) rfl
  · exact freshness_eq_fresh_iff.mpr ⟨(Scan.covers_of_all hrun).1, rfl⟩

/-- What serving a module makes of the freshness: it is stale if the rules are invalid, an emitted
stylesheet takes the mark of a change away, and all else leaves it as it was. -/
theorem freshness_serve_cases (c : Config) (p : SheetParser) (code id : String) (s : DevLoop) :
    (∃ reason rules, ((serve c p code id).run s).1 = .error (.invalidRules reason rules) ∧
      ((serve c p code id).run s).2.freshness = .stale) ∨
    (∃ output, ((serve c p code id).run s).1 = .ok (some (.sheet output)) ∧
      ((serve c p code id).run s).2.freshness = if s.freshness = .stale then .stale else .fresh) ∨
    ((∀ reason rules, ((serve c p code id).run s).1 ≠ .error (.invalidRules reason rules)) ∧
      (∀ output, ((serve c p code id).run s).1 ≠ .ok (some (.sheet output))) ∧
      ((serve c p code id).run s).2.freshness = s.freshness) := by
  rcases serve_cases c p code id s with
    ⟨answer, reports, hrun, hnone, hspares⟩ | ⟨reason, hrun⟩ | ⟨reason, hrun⟩ | ⟨text, -, hrun⟩
  · rw [hrun]
    exact Or.inr (Or.inr ⟨fun reason rules h => hspares _ h reason rules rfl, hnone, rfl⟩)
  · rw [hrun]
    exact Or.inl ⟨reason, _, rfl, rfl⟩
  · rw [hrun]
    exact Or.inr (Or.inr ⟨nofun, nofun, rfl⟩)
  · rw [hrun]
    refine Or.inr (Or.inl ⟨_, rfl, ?_⟩)
    split
    · rename_i hstale
      have hmark : s.registry.stale = true := freshness_eq_stale_iff.mp hstale
      exact freshness_eq_stale_iff.mpr hmark
    · rename_i hstale
      have hmark : s.registry.stale = false := stale_of_freshness hstale
      exact freshness_eq_fresh_iff.mpr ⟨hmark, rfl⟩

/-- A file is a script with style calls. -/
def HasCalls (c : Config) (view : FileView) (file : String) : Prop :=
  Scan.isScript file = true ∧ ∃ code script, view.read file = .ok code ∧
    Script.read c.function code file = .ok script ∧ script.calls ≠ []

/-- A scan of a file that succeeds says whether the file has style calls. -/
theorem found_file_iff {found : Bool} {r r' : Registry}
    (h : (Scan.file c view file).run r = (.ok found, r')) :
    found = true ↔ HasCalls c view file := by
  rw [Scan.found_eq_hasCalls h]
  exact Scan.hasCalls_iff

/-- The update of a stale loop is a full scan, and the loop stays stale if it fails. -/
theorem freshness_update_of_stale (hbefore : s.freshness = .stale) (c : Config) (view : FileView)
    (file : String) :
    (∃ roots, ((update c view file).run s).1 = .ok ⟨true, roots⟩ ∧
      ((update c view file).run s).2.freshness = .potentiallyStale) ∨
    (∃ fault, ((update c view file).run s).1 = .error fault ∧
      ((update c view file).run s).2.freshness = .stale) := by
  rw [update_run_of_stale (freshness_eq_stale_iff.mp hbefore)]
  rcases hrun : (Scan.all c view).run s.registry with ⟨fault | tally, r⟩
  · have hsame : freshness { s with registry := r } = s.freshness :=
      freshness_congr s (Scan.stale_all_of_error hrun) rfl
    exact Or.inr ⟨fault, rfl, hsame.trans hbefore⟩
  · exact Or.inl ⟨_, rfl, freshness_of_pending (Scan.covers_of_all hrun).1 rfl⟩

/-- The update of any other loop marks a change if the file has style calls. -/
theorem freshness_update_cases (hbefore : s.freshness ≠ .stale) (c : Config) (view : FileView)
    (file : String) :
    (HasCalls c view file ∧ (∃ roots, ((update c view file).run s).1 = .ok ⟨false, roots⟩) ∧
      ((update c view file).run s).2.freshness = .potentiallyStale) ∨
    (¬ HasCalls c view file ∧ ((update c view file).run s).1 = .ok ⟨false, []⟩ ∧
      ((update c view file).run s).2.freshness = s.freshness) ∨
    (∃ fault, ((update c view file).run s).1 = .error fault ∧
      ((update c view file).run s).2.freshness = s.freshness) := by
  have hstale : s.registry.stale = false := stale_of_freshness hbefore
  have hmark := Scan.stale_file c view file s.registry
  rw [update_run hstale]
  rcases hrun : (Scan.file c view file).run s.registry with ⟨fault | _ | _, r⟩
  · rw [hrun] at hmark
    exact Or.inr (Or.inr ⟨fault, rfl, freshness_congr s hmark rfl⟩)
  · rw [hrun] at hmark
    have hcalls : ¬ HasCalls c view file := (found_file_iff hrun).not.mp Bool.false_ne_true
    exact Or.inr (Or.inl ⟨hcalls, rfl, freshness_congr s hmark rfl⟩)
  · rw [hrun] at hmark
    have hcalls : HasCalls c view file := (found_file_iff hrun).mp rfl
    exact Or.inl ⟨hcalls, ⟨_, rfl⟩, freshness_of_pending (hmark.trans hstale) rfl⟩

/-! ## The table of moves -/

/-- How the operations move a loop between fresh, potentially stale and stale. -/
structure Moves (c : Config) (p : SheetParser) (s : DevLoop) : Prop where
  /-- A build that succeeds makes the loop fresh. -/
  start_ok : ∀ view tally s', (start c view).run s = (.ok tally, s') → s'.freshness = .fresh
  /-- A build that fails leaves it as it was. -/
  start_error : ∀ view fault s', (start c view).run s = (.error fault, s') →
    s'.freshness = s.freshness
  /-- A module leaves the loop stale exactly if the rules are invalid or it was stale. -/
  serve_stale : ∀ code id answer s', (serve c p code id).run s = (answer, s') →
    (s'.freshness = .stale ↔
      (∃ reason rules, answer = .error (.invalidRules reason rules)) ∨ s.freshness = .stale)
  /-- It makes a potentially stale loop fresh exactly if it is a stylesheet with a directive and
  is served. -/
  serve_fresh : ∀ code id answer s', (serve c p code id).run s = (answer, s') →
    s.freshness = .potentiallyStale →
      (s'.freshness = .fresh ↔ FileId.kindOf id = .stylesheet ∧ Sheet.isRoot c code = true ∧
        ∃ served, answer = .ok served)
  /-- Otherwise it leaves the loop as it was. -/
  serve_other : ∀ code id answer s', (serve c p code id).run s = (answer, s') →
    s'.freshness = .stale ∨ s.freshness = .potentiallyStale ∧ s'.freshness = .fresh ∨
      s'.freshness = s.freshness
  /-- An update of a stale loop that succeeds is a full scan and makes it potentially stale. -/
  update_stale_ok : ∀ view file update' s', s.freshness = .stale →
    (update c view file).run s = (.ok update', s') →
      s'.freshness = .potentiallyStale ∧ update'.rescanned = true
  /-- One that fails leaves it stale. -/
  update_stale_error : ∀ view file fault s', s.freshness = .stale →
    (update c view file).run s = (.error fault, s') → s'.freshness = .stale
  /-- Any other loop becomes potentially stale with the update for a script with style calls. -/
  update_calls : ∀ view file update' s', s.freshness ≠ .stale →
    (update c view file).run s = (.ok update', s') → HasCalls c view file →
      s'.freshness = .potentiallyStale
  /-- It is left as it was by one for another file, and nothing is out of date. -/
  update_quiet : ∀ view file update' s', s.freshness ≠ .stale →
    (update c view file).run s = (.ok update', s') → ¬ HasCalls c view file →
      s'.freshness = s.freshness ∧ update' = ⟨false, []⟩
  /-- And by one that fails. -/
  update_error : ∀ view file fault s', s.freshness ≠ .stale →
    (update c view file).run s = (.error fault, s') → s'.freshness = s.freshness

theorem moves (c : Config) (p : SheetParser) (s : DevLoop) : Moves c p s where
  start_ok := by
    intro view tally s' h
    have hfresh := freshness_start c view s
    rw [h] at hfresh
    exact hfresh
  start_error := by
    intro view fault s' h
    have hfresh := freshness_start c view s
    rw [h] at hfresh
    exact hfresh
  serve_stale := by
    intro code id answer s' h
    have hcases := freshness_serve_cases c p code id s
    rw [h] at hcases
    rcases hcases with ⟨reason, rules, rfl, hafter⟩ | ⟨output, rfl, hafter⟩ | ⟨hspares, -, hafter⟩
    · exact iff_of_true hafter (Or.inl ⟨reason, rules, rfl⟩)
    · dsimp only at hafter
      rw [hafter]
      split
      · rename_i hstale
        exact iff_of_true rfl (Or.inr hstale)
      · rename_i hstale
        exact iff_of_false nofun (not_or.mpr ⟨nofun, hstale⟩)
    · dsimp only at hafter hspares
      rw [hafter, or_iff_right]
      rintro ⟨reason, rules, hanswer⟩
      exact hspares reason rules hanswer
  serve_fresh := by
    intro code id answer s' h hbefore
    have hsheet := exists_sheet_iff c p code id s
    have hcases := freshness_serve_cases c p code id s
    rw [h] at hcases hsheet
    rw [← hsheet]
    rcases hcases with ⟨reason, rules, rfl, hafter⟩ | ⟨output, rfl, hafter⟩ | ⟨-, hnone, hafter⟩
    · rw [hafter]
      exact iff_of_false nofun nofun
    · rw [hafter, hbefore]
      exact iff_of_true rfl ⟨output, rfl⟩
    · rw [hafter, hbefore]
      exact iff_of_false nofun fun ⟨output, houtput⟩ => hnone output houtput
  serve_other := by
    intro code id answer s' h
    have hcases := freshness_serve_cases c p code id s
    rw [h] at hcases
    rcases hcases with ⟨reason, rules, rfl, hafter⟩ | ⟨output, rfl, hafter⟩ | ⟨-, -, hafter⟩
    · exact Or.inl hafter
    · rw [hafter]
      cases hbefore : s.freshness with
      | fresh => exact Or.inr (Or.inr rfl)
      | potentiallyStale => exact Or.inr (Or.inl ⟨rfl, rfl⟩)
      | stale => exact Or.inl rfl
    · exact Or.inr (Or.inr hafter)
  update_stale_ok := by
    intro view file update' s' hbefore h
    have hcases := freshness_update_of_stale hbefore c view file
    rw [h] at hcases
    rcases hcases with ⟨roots, hanswer, hafter⟩ | ⟨fault, hanswer, -⟩
    · cases hanswer
      exact ⟨hafter, rfl⟩
    · cases hanswer
  update_stale_error := by
    intro view file fault s' hbefore h
    have hcases := freshness_update_of_stale hbefore c view file
    rw [h] at hcases
    rcases hcases with ⟨roots, hanswer, -⟩ | ⟨fault', -, hafter⟩
    · cases hanswer
    · exact hafter
  update_calls := by
    intro view file update' s' hbefore h hcalls
    have hcases := freshness_update_cases hbefore c view file
    rw [h] at hcases
    rcases hcases with ⟨-, -, hafter⟩ | ⟨hnone, -, -⟩ | ⟨fault, hanswer, -⟩
    · exact hafter
    · exact absurd hcalls hnone
    · cases hanswer
  update_quiet := by
    intro view file update' s' hbefore h hnone
    have hcases := freshness_update_cases hbefore c view file
    rw [h] at hcases
    rcases hcases with ⟨hcalls, -, -⟩ | ⟨-, hanswer, hafter⟩ | ⟨fault, hanswer, -⟩
    · exact absurd hcalls hnone
    · cases hanswer
      exact ⟨hafter, rfl⟩
    · cases hanswer
  update_error := by
    intro view file fault s' hbefore h
    have hcases := freshness_update_cases hbefore c view file
    rw [h] at hcases
    rcases hcases with ⟨-, ⟨roots, hanswer⟩, -⟩ | ⟨-, hanswer, -⟩ | ⟨fault', -, hafter⟩
    · cases hanswer
    · cases hanswer
    · exact hafter

/-! ## Leaving the stale state -/

/-- The files that an operation on a stale loop scans. -/
def Operation.rescanned? : Operation → Option FileView
  | .start view => some view
  | .update view _ => some view
  | .scanAll view => some view
  | _ => none

/-- A full scan that makes up for styles that have been dropped succeeds. -/
theorem exists_tally_of_all {r : Registry} (hstale : r.stale = true)
    (hafter : ((Scan.all c view).run r).2.stale = false) :
    ∃ tally, ((Scan.all c view).run r).1 = .ok tally := by
  rcases hrun : (Scan.all c view).run r with ⟨fault | tally, r'⟩
  · rw [hrun, Scan.stale_all_of_error hrun, hstale] at hafter
    cases hafter
  · exact ⟨tally, rfl⟩

/-- Nothing else that is done with a loop or with its parts makes up for them. -/
theorem exists_scan_of_perform {operation : Operation} (hbefore : s.freshness = .stale)
    (hafter : (s.perform c p operation).freshness ≠ .stale) :
    ∃ view tally, operation.rescanned? = some view ∧
      ((Scan.all c view).run s.registry).1 = .ok tally := by
  have hstale : s.registry.stale = true := freshness_eq_stale_iff.mp hbefore
  have hfresh : (s.perform c p operation).registry.stale = false := stale_of_freshness hafter
  cases operation with
  | start view =>
      rw [perform, registry_start] at hfresh
      obtain ⟨tally, htally⟩ := exists_tally_of_all hstale hfresh
      exact ⟨view, tally, rfl, htally⟩
  | update view file =>
      rw [perform, registry_update, if_pos hstale] at hfresh
      obtain ⟨tally, htally⟩ := exists_tally_of_all hstale hfresh
      exact ⟨view, tally, rfl, htally⟩
  | scanAll view =>
      rw [perform, onRegistry_run] at hfresh
      obtain ⟨tally, htally⟩ := exists_tally_of_all hstale hfresh
      exact ⟨view, tally, rfl, htally⟩
  | serve code id =>
      rw [perform] at hfresh
      rcases registry_serve c p code id s with hregistry | hregistry | hregistry
      · rw [hregistry, hstale] at hfresh
        cases hfresh
      · rw [hregistry, Registry.addRoot, hstale] at hfresh
        cases hfresh
      · rw [hregistry] at hfresh
        cases hfresh
  | scanFile view file =>
      rw [perform, onRegistry_run, Scan.stale_file, hstale] at hfresh
      cases hfresh
  | scanText code file =>
      rw [perform, onRegistry_run, Scan.stale_source, hstale] at hfresh
      cases hfresh
  | replaceCalls code file =>
      rw [perform, replaceCalls_run, hstale] at hfresh
      cases hfresh
  | generate code file =>
      rw [perform, DevLoop.generate, onRegistry_run] at hfresh
      rcases Sheet.generate_cases c p code file s.registry with
        ⟨_, _, hrun⟩ | ⟨_, _, _, hrun⟩ | ⟨_, _, hrun⟩
      · rw [hrun, hstale] at hfresh
        cases hfresh
      · rw [hrun] at hfresh
        cases hfresh
      · rw [hrun, Sheet.noteRoot] at hfresh
        split at hfresh
        · rw [Registry.addRoot, hstale] at hfresh
          cases hfresh
        · rw [hstale] at hfresh
          cases hfresh
  | clear => cases hfresh

/-- The moves of a loop between fresh, potentially stale and stale are those of the table, and a
loop that has been stale and is not any more has had a full scan that succeeded. -/
theorem freshness_moves (c : Config) (p : SheetParser) :
    (∀ s, Moves c p s) ∧
      ∀ (s : DevLoop) (operations : List Operation), s.freshness = .stale →
        (s.performAll c p operations).freshness ≠ .stale →
        ∃ before operation after view tally, operations = before ++ operation :: after ∧
          operation.rescanned? = some view ∧
          ((Scan.all c view).run (s.performAll c p before).registry).1 = .ok tally := by
  refine ⟨moves c p, fun s operations => ?_⟩
  induction operations generalizing s with
  | nil => exact fun hbefore hafter => absurd hbefore hafter
  | cons operation operations ih =>
      intro hbefore hafter
      by_cases hstep : (s.perform c p operation).freshness = .stale
      · obtain ⟨before, op, after, view, tally, rfl, hview, hscan⟩ := ih _ hstep hafter
        exact ⟨operation :: before, op, after, view, tally, rfl, hview, hscan⟩
      · obtain ⟨view, tally, hview, hscan⟩ := exists_scan_of_perform hbefore hstep
        exact ⟨[], operation, operations, view, tally, rfl, hview, hscan⟩

end StaticStyle.DevLoop
