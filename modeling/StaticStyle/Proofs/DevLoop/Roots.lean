import StaticStyle.Proofs.DevLoop.Freshness

/-!
# Stylesheets that are out of date

When the styles change, an update lists the stylesheets that have to be generated again.  They
come from two rolls.  That of the registry has every stylesheet with a directive that has got as
far as its rules, but is emptied together with the styles.  That of the loop has those that have
been emitted, in the order in which each came first, and nothing ever takes one away
(`DevLoop.Emits.roots_eq`): neither invalid rules nor a scan that fails, nor whatever is done to
the registry from outside.

An update puts the two together (`DevLoop.roots_of_update`), so that each emitted stylesheet is
listed, and listed once, however often it has been emitted and wherever it stands
(`DevLoop.update_lists_emitted`).
-/

namespace StaticStyle.DevLoop

open Running

variable {c : Config} {p : SheetParser} {view : FileView} {code id file : String}
  {emitted : List String} {s s' : DevLoop}

/-! ## Emitted stylesheets -/

/-- The stylesheet that an operation emits, which is one with a directive that is served. -/
def emitted? (c : Config) (p : SheetParser) (s : DevLoop) : Operation → Option String
  | .serve code id =>
      match ((serve c p code id).run s).1 with
      | .ok _ =>
          if FileId.kindOf id = .stylesheet ∧ Sheet.isRoot c code = true then some id else none
      | .error _ => none
  | _ => none

/-- A run of a loop from its beginning to a state, with the stylesheets that it has emitted, the
oldest first.  Operations may fail.  The registry is shared, so anything may become of it
between two operations. -/
inductive Emits (c : Config) (p : SheetParser) : List String → DevLoop → Prop where
  | initial : Emits c p [] .initial
  | perform {emitted : List String} {s : DevLoop} (operation : Operation) :
      Emits c p emitted s →
        Emits c p (emitted ++ (s.emitted? c p operation).toList) (s.perform c p operation)
  | share {emitted : List String} {s : DevLoop} (registry : Registry) :
      Emits c p emitted s → Emits c p emitted { s with registry }

theorem emitted?_eq_none
    (h : ∀ output, ((serve c p code id).run s).1 ≠ .ok (some (.sheet output))) :
    s.emitted? c p (.serve code id) = none := by
  rw [emitted?]
  cases hanswer : ((serve c p code id).run s).1 with
  | error fault => rfl
  | ok served =>
      refine if_neg fun hsheet => ?_
      obtain ⟨output, houtput⟩ :=
        (exists_sheet_iff c p code id s).mpr ⟨hsheet.1, hsheet.2, served, hanswer⟩
      exact h output houtput

theorem emitted?_eq_some {output : GeneratedSheet}
    (h : ((serve c p code id).run s).1 = .ok (some (.sheet output))) :
    s.emitted? c p (.serve code id) = some id := by
  obtain ⟨hk, hroot, -⟩ := (exists_sheet_iff c p code id s).mp ⟨output, h⟩
  rw [emitted?, h]
  exact if_pos ⟨hk, hroot⟩

/-! ## The roll of the loop -/

theorem roots_serve (c : Config) (p : SheetParser) (code id : String) (s : DevLoop) :
    ((serve c p code id).run s).2.roots =
      s.roots.enrolAll (s.emitted? c p (.serve code id)).toList := by
  rcases serve_cases c p code id s with
    ⟨answer, reports, hrun, hnone, -⟩ | ⟨reason, hrun⟩ | ⟨reason, hrun⟩ | ⟨text, -, hrun⟩
  · rw [emitted?_eq_none (by rw [hrun]; exact hnone), hrun]
    rfl
  · rw [emitted?_eq_none (by rw [hrun]; exact nofun), hrun]
    rfl
  · rw [emitted?_eq_none (by rw [hrun]; exact nofun), hrun]
    rfl
  · rw [emitted?_eq_some (by rw [hrun]), hrun]
    rfl

/-- An operation adds to the roll the stylesheet that it emits, and does nothing else to it. -/
theorem roots_perform (c : Config) (p : SheetParser) (s : DevLoop) (operation : Operation) :
    (s.perform c p operation).roots = s.roots.enrolAll (s.emitted? c p operation).toList := by
  cases operation with
  | start view =>
      rw [perform, start_run]
      rcases (Scan.all c view).run s.registry with ⟨_ | _, _⟩
      · rfl
      · rfl
  | update view file =>
      rw [perform]
      cases hstale : s.registry.stale with
      | true =>
          rw [update_run_of_stale hstale]
          rcases (Scan.all c view).run s.registry with ⟨_ | _, _⟩
          · rfl
          · rfl
      | false =>
          rw [update_run hstale]
          rcases (Scan.file c view file).run s.registry with ⟨_ | _ | _, _⟩
          · rfl
          · rfl
          · rfl
  | serve code id => exact roots_serve c p code id s
  | scanAll view =>
      rw [perform, onRegistry_run]
      rfl
  | scanFile view file =>
      rw [perform, onRegistry_run]
      rfl
  | scanText code file =>
      rw [perform, onRegistry_run]
      rfl
  | replaceCalls code file =>
      rw [perform, replaceCalls_run]
      rfl
  | generate code file =>
      rw [perform, DevLoop.generate, onRegistry_run]
      rfl
  | clear => rfl

/-- The roll of a loop are the stylesheets that it has emitted, each where it came first. -/
theorem Emits.roots_eq (h : Emits c p emitted s) : s.roots = Roll.enrolAll emitted [] := by
  induction h with
  | initial => rfl
  | @perform emitted s operation _ ih =>
      rw [roots_perform, ih, Roll.enrolAll_append]
  | share registry _ ih => exact ih

/-! ## Updates -/

/-- An update lists the stylesheets of both rolls, or it has found no styles and lists none. -/
theorem roots_of_update {update' : Update} (h : (update c view file).run s = (.ok update', s')) :
    update'.roots = s.roots.enrolAll s'.registry.roots ∨
      update' = ⟨false, []⟩ ∧ ¬ HasCalls c view file := by
  cases hstale : s.registry.stale with
  | true =>
      rw [update_run_of_stale hstale] at h
      rcases hrun : (Scan.all c view).run s.registry with ⟨fault | tally, r⟩
      · rw [hrun] at h
        cases h
      · rw [hrun] at h
        cases h
        exact Or.inl rfl
  | false =>
      rw [update_run hstale] at h
      rcases hrun : (Scan.file c view file).run s.registry with ⟨fault | _ | _, r⟩
      · rw [hrun] at h
        cases h
      · rw [hrun] at h
        cases h
        exact Or.inr ⟨rfl, (found_file_iff hrun).not.mp Bool.false_ne_true⟩
      · rw [hrun] at h
        cases h
        exact Or.inl rfl

/-- An update that succeeds lists no stylesheet twice.  If it was a full scan, or if the file is a
script with style calls, it lists every stylesheet that has ever been emitted. -/
theorem update_lists_emitted {update' : Update} (hrun : Emits c p emitted s)
    (h : (update c view file).run s = (.ok update', s')) :
    update'.roots.Nodup ∧
      (update'.rescanned = true ∨ HasCalls c view file →
        ∀ id ∈ emitted, update'.roots.count id = 1) := by
  have hnodup : s.roots.Nodup := hrun.roots_eq ▸ Roll.nodup_enrolAll emitted List.nodup_nil
  rcases roots_of_update h with hroots | ⟨rfl, hcalls⟩
  · have hlisted : update'.roots.Nodup := hroots ▸ Roll.nodup_enrolAll _ hnodup
    refine ⟨hlisted, fun _ id hid => List.count_eq_one_of_mem hlisted ?_⟩
    have hknown : id ∈ s.roots := by
      rw [hrun.roots_eq, Roll.mem_enrolAll]
      exact Or.inr hid
    rw [hroots, Roll.mem_enrolAll]
    exact Or.inl hknown
  · refine ⟨List.nodup_nil, ?_⟩
    rintro (hrescanned | hfound)
    · cases hrescanned
    · exact absurd hfound hcalls

/-- One script with a style, and beside it maybe another one. -/
def withScript (scripts : List (String × String)) : FileView :=
  Files.view (("./a.ts", "css(\x7bmargin: 0\x7d)") :: scripts)

/-- A loop that has emitted a stylesheet, whose styles have then been dropped, and in which a
script with a fault is in the way of the scan that is to make up for that. -/
def troubled : DevLoop :=
  DevLoop.initial.performAll Config.default ⟨fun _ => none, .ok⟩
    [.start (withScript []), .serve "@flow-css;" "./a.css", .clear,
      .update (withScript [("./b.ts", "css(")]) "./b.ts", .generate "@flow-css;" "./b.css"]

/-- The next scan that succeeds lists it, and once. -/
theorem update_lists_emitted_troubled :
    ∃ update', ((update Config.default (withScript []) "./b.ts").run troubled).1 = .ok update' ∧
      update'.rescanned = true ∧ update'.roots.Nodup ∧ update'.roots.count "./a.css" = 1 := by
  have hstarted : Emits Config.default ⟨fun _ => none, .ok⟩ [] _ :=
    .perform (.start (withScript [])) .initial
  have hanswer : ((serve Config.default ⟨fun _ => none, .ok⟩ "@flow-css;" "./a.css").run
      (DevLoop.initial.perform Config.default ⟨fun _ => none, .ok⟩ (.start (withScript [])))).1 =
        .ok (some (.sheet ⟨".flow-38965f9b \x7bmargin:0;\x7d", ["./a.ts"], true⟩)) := by
    decide +kernel
  have hserved := hstarted.perform (.serve "@flow-css;" "./a.css")
  rw [emitted?_eq_some hanswer] at hserved
  have hrun : Emits Config.default ⟨fun _ => none, .ok⟩ ["./a.css"] troubled :=
    ((hserved.perform .clear).perform (.update (withScript [("./b.ts", "css(")]) "./b.ts")).perform
      (.generate "@flow-css;" "./b.css")
  have hupdate : ((update Config.default (withScript []) "./b.ts").run troubled).1 =
      .ok ⟨true, ["./a.css", "./b.css"]⟩ := by decide +kernel
  obtain ⟨hnodup, hlisted⟩ := update_lists_emitted hrun (Prod.ext hupdate rfl)
  exact ⟨_, hupdate, rfl, hnodup, hlisted (Or.inl rfl) _ (List.mem_singleton_self _)⟩

end StaticStyle.DevLoop
