import StaticStyle.Proofs.DevLoop.Serving
import StaticStyle.Proofs.Scan
import StaticStyle.Proofs.Session.Completeness

/-!
# Current stylesheets

Whether a stylesheet that has been emitted is up to date is a matter of the rules: served
again from the same source text, it gets the same text as long as these are the same
(`Session.sheetText?_eq_some_iff`).  A session that is fresh after a change of a file has the
rules that it had before, for an update that finds a style makes the session potentially
stale (`DevLoop.update_of_fresh`).

But there is one mark for all stylesheets.  Another stylesheet that is emitted takes it away,
and so does a build, and the first stylesheet is then out of date in a fresh session
(`Session.sheet_outdated`).  `Session.sheet_current` says that this is the only way.
-/

namespace StaticStyle

open Running

/-- A loop that is fresh after an update was fresh before and has the styles that it had. -/
theorem DevLoop.update_of_fresh {c : Config} {view : FileView} {file : String} {s : DevLoop}
    (h : ((update c view file).run s).2.freshness = .fresh) :
    s.freshness = .fresh ∧ ((update c view file).run s).2.registry = s.registry := by
  rw [freshness_eq_fresh_iff] at h ⊢
  obtain ⟨hstale', hpending⟩ := h
  have hregistry := registry_update c view file s
  cases hstale : s.registry.stale with
  | true =>
      -- A full scan that fails leaves the loop stale, and after one that succeeds it is marked.
      exfalso
      rw [hstale, if_pos rfl] at hregistry
      rcases hrun : (Scan.all c view).run s.registry with ⟨fault | tally, r⟩
      · rw [hregistry, hrun, Scan.stale_all_of_error hrun, hstale] at hstale'
        cases hstale'
      · simp only [update, run_bind, run_get, hstale, if_true, run_map, onRegistry_run, hrun]
          at hpending
        cases hpending
  | false =>
      rw [hstale, if_neg Bool.false_ne_true] at hregistry
      simp only [update, run_bind, run_get, hstale, if_neg Bool.false_ne_true, onRegistry_run]
        at hpending
      rcases Scan.file_cases c view file s.registry with hfound | hsame
      · rw [hfound] at hpending
        cases hpending
      · refine ⟨⟨rfl, ?_⟩, by rw [hregistry, hsame]⟩
        rcases hanswer : ((Scan.file c view file).run s.registry).1 with fault | _ | _
        · rw [hanswer] at hpending
          exact hpending
        · rw [hanswer] at hpending
          exact hpending
        · rw [hanswer] at hpending
          cases hpending

namespace Session

variable {c : Config} {p : SheetParser} {s : Session} {event : Event} {events : List Event}
  {code id text : String}

/-! ## Emitted texts -/

/-- The text that a stylesheet is emitted with if it is served now. -/
def sheetText? (c : Config) (p : SheetParser) (s : Session) (code id : String) : Option String :=
  match ((DevLoop.serve c p code id).run s.loop).1 with
  | .ok (some (.sheet output)) => some output.code
  | _ => none

/-- With what text a stylesheet is emitted is a matter of the rules. -/
theorem sheetText?_eq_some_iff :
    s.sheetText? c p code id = some text ↔
      Sheet.Yields c p s.loop.registry.rules code id text := by
  constructor
  · intro h
    unfold sheetText? at h
    rcases DevLoop.serve_cases c p code id s.loop with
      ⟨answer, reports, hrun, hnone, -⟩ | ⟨reason, hrun⟩ | ⟨reason, hrun⟩ | ⟨text', hyields, hrun⟩
    · rw [hrun] at h
      split at h
      · rename_i output houtput
        exact absurd houtput (hnone output)
      · cases h
    · rw [hrun] at h
      cases h
    · rw [hrun] at h
      cases h
    · rw [hrun] at h
      obtain rfl := Option.some.inj h
      exact hyields
  · intro h
    rw [sheetText?, DevLoop.serve_of_yields h]

/-! ## Events that keep stylesheets current -/

/-- An event that does not take the mark of a change away: no stylesheet is emitted from a session
that has it, and a build that leaves the session fresh has found it so, with the same rules. -/
def Settles (c : Config) (p : SheetParser) (s : Session) : Event → Prop
  | .start => (s.step c p .start).loop.freshness = .fresh → s.loop.freshness = .fresh ∧
      (s.step c p .start).loop.registry.rules = s.loop.registry.rules
  | .serve code id => (s.sheetText? c p code id).isSome = true →
      s.loop.freshness ≠ .potentiallyStale
  | .write _ _ => True
  | .remove _ => True

/-- Events none of which takes the mark of a change away. -/
def Settled (c : Config) (p : SheetParser) : Session → List Event → Prop
  | _, [] => True
  | s, event :: events => s.Settles c p event ∧ Settled c p (s.step c p event) events

/-- Serving a module leaves a session fresh only if it was, or else a stylesheet is emitted. -/
theorem fresh_of_serve (hsettles : s.Settles c p (.serve code id))
    (hfresh : (s.step c p (.serve code id)).loop.freshness = .fresh) :
    s.loop.freshness = .fresh ∧
      (s.step c p (.serve code id)).loop.registry.rules = s.loop.registry.rules := by
  rw [step] at hfresh ⊢
  rcases DevLoop.serve_cases c p code id s.loop with
    ⟨answer, reports, hrun, -, -⟩ | ⟨reason, hrun⟩ | ⟨reason, hrun⟩ | ⟨text, hyields, hrun⟩
  · rw [hrun] at hfresh ⊢
    exact ⟨hfresh, rfl⟩
  · -- Rules that have been dropped make the session stale.
    rw [hrun, DevLoop.freshness_eq_fresh_iff] at hfresh
    cases hfresh.1
  · rw [hrun] at hfresh ⊢
    exact ⟨hfresh, rfl⟩
  · have hemitted : s.sheetText? c p code id = some text := sheetText?_eq_some_iff.mpr hyields
    have hmark := hsettles (Option.isSome_of_eq_some hemitted)
    rw [hrun] at hfresh ⊢
    obtain ⟨hstale, -⟩ := DevLoop.freshness_eq_fresh_iff.mp hfresh
    change s.loop.registry.stale = false at hstale
    refine ⟨?_, rfl⟩
    cases hbefore : s.loop.freshness with
    | fresh => rfl
    | potentiallyStale => exact absurd hbefore hmark
    | stale =>
        rw [DevLoop.freshness_eq_stale_iff, hstale] at hbefore
        cases hbefore

/-- A session that is fresh after such an event was fresh before and has the rules that it had. -/
theorem Settles.rules_step (h : s.Settles c p event)
    (hfresh : (s.step c p event).loop.freshness = .fresh) :
    s.loop.freshness = .fresh ∧
      (s.step c p event).loop.registry.rules = s.loop.registry.rules := by
  cases event with
  | start => exact h hfresh
  | serve code id => exact fresh_of_serve h hfresh
  | write file text =>
      obtain ⟨hbefore, hregistry⟩ := DevLoop.update_of_fresh hfresh
      exact ⟨hbefore, congrArg Registry.rules hregistry⟩
  | remove file =>
      obtain ⟨hbefore, hregistry⟩ := DevLoop.update_of_fresh hfresh
      exact ⟨hbefore, congrArg Registry.rules hregistry⟩

/-- A session that is fresh after such events has been fresh all along, with the same rules. -/
theorem Settled.rules_run (h : Settled c p s events)
    (hfresh : (s.run c p events).loop.freshness = .fresh) :
    s.loop.freshness = .fresh ∧
      (s.run c p events).loop.registry.rules = s.loop.registry.rules := by
  induction events generalizing s with
  | nil => exact ⟨hfresh, rfl⟩
  | cons event events ih =>
      obtain ⟨hevent, hrest⟩ := h
      obtain ⟨hstep, hrules⟩ := ih hrest hfresh
      obtain ⟨hbefore, hsame⟩ := hevent.rules_step hstep
      exact ⟨hbefore, hrules.trans hsame⟩

/-- In a fresh session a stylesheet that has been emitted is up to date, unless another one or a
build has taken the mark of a change away in the meantime. -/
theorem sheet_current (hemitted : s.sheetText? c p code id = some text)
    (hsettled : Settled c p (s.step c p (.serve code id)) events)
    (hfresh : ((s.step c p (.serve code id)).run c p events).loop.freshness = .fresh) :
    ((s.step c p (.serve code id)).run c p events).sheetText? c p code id = some text := by
  have hyields := sheetText?_eq_some_iff.mp hemitted
  obtain ⟨-, hrules⟩ := hsettled.rules_run hfresh
  have hnow : ((s.step c p (.serve code id)).run c p events).loop.registry.rules =
      s.loop.registry.rules := by
    rw [hrules, step, DevLoop.serve_of_yields hyields]
    rfl
  refine sheetText?_eq_some_iff.mpr ?_
  rw [hnow]
  exact hyields

/-- A parser that takes everything. -/
def lenient : SheetParser := ⟨fun _ => none, .ok⟩

/-- A stylesheet stays up to date when another one is emitted and a script loses its style. -/
theorem sheet_current_two :
    ((single.step .default lenient (.serve "@flow-css;" "./a.css")).run .default lenient
        [.serve "@flow-css;" "./b.css", .write "./a.ts" ""]).sheetText? .default lenient
        "@flow-css;" "./a.css" =
      some ".flow-38965f9b \x7bmargin:0;\x7d" := by
  have hrun : single.sheetText? .default lenient "@flow-css;" "./a.css" =
        some ".flow-38965f9b \x7bmargin:0;\x7d" ∧
      (single.step .default lenient (.serve "@flow-css;" "./a.css")).loop.freshness ≠
        .potentiallyStale ∧
      ((single.step .default lenient (.serve "@flow-css;" "./a.css")).run .default lenient
        [.serve "@flow-css;" "./b.css", .write "./a.ts" ""]).loop.freshness = .fresh := by
    decide +kernel
  obtain ⟨htext, hmark, hfresh⟩ := hrun
  have hsettled : Settled .default lenient
      (single.step .default lenient (.serve "@flow-css;" "./a.css"))
      [.serve "@flow-css;" "./b.css", .write "./a.ts" ""] := by
    refine ⟨?_, ?_, ?_⟩
    · intro _
      exact hmark
    · exact trivial
    · exact trivial
  exact sheet_current htext hsettled hfresh

/-- After some events a session is fresh, but a stylesheet that was emitted before them is not
what it would be now. -/
def Outdates (c : Config) (p : SheetParser) (s : Session) (code id : String)
    (events : List Event) : Prop :=
  ∃ text, s.sheetText? c p code id = some text ∧
    ((s.step c p (.serve code id)).run c p events).loop.freshness = .fresh ∧
    ((s.step c p (.serve code id)).run c p events).sheetText? c p code id ≠ some text

/-- A stylesheet is out of date in a fresh session if, after a change, another one has been
emitted or a build started, or if a build makes up for a first one that has failed. -/
theorem sheet_outdated :
    Outdates .default lenient single "@flow-css;" "./a.css"
        [.write "./a.ts" "css(\x7b\x7d)", .serve "@flow-css;" "./b.css"] ∧
      Outdates .default lenient single "@flow-css;" "./a.css"
        [.write "./a.ts" "css(\x7b\x7d)", .start] ∧
      Outdates .default lenient
        ((unopened [("./a.ts", "css("), ("./b.ts", "css(\x7b\x7d)")]).step .default lenient .start)
        "@flow-css;" "./a.css" [.write "./a.ts" "", .start] := by
  refine ⟨?_, ?_, ?_⟩
  · exact ⟨".flow-38965f9b \x7bmargin:0;\x7d", by decide +kernel⟩
  · exact ⟨".flow-38965f9b \x7bmargin:0;\x7d", by decide +kernel⟩
  · exact ⟨"", by decide +kernel⟩

end Session

end StaticStyle
