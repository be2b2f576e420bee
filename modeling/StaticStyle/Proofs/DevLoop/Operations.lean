import StaticStyle.DevLoop
import StaticStyle.Proofs.Running

/-!
# What the operations of a development loop do

For each operation of the loop, what it answers and what it makes of the state.
A stylesheet is generated in one of three ways (`generate_cases`), and only an
invalid set of rules takes anything from the registry.
-/

namespace StaticStyle

open Running

/-! ## Generating a stylesheet -/

namespace Sheet

variable {c : Config} {p : SheetParser} {code file : String} {r : Registry}

/-- The text of a stylesheet as it is served, or what the minifier finds fault with. -/
def finished (c : Config) (p : SheetParser) (text file : String) : Except StyleError String :=
  if c.minify then (p.minify text).mapError (.invalidSheet file) else .ok text

theorem finish_run (c : Config) (p : SheetParser) (text file : String) (r : Registry) :
    (finish c p text file).run r = (finished c p text file, r) := by
  unfold finish finished
  cases c.minify with
  | false => rfl
  | true =>
      simp only [if_true]
      cases p.minify text with
      | error reason => rfl
      | ok short => rfl

/-- A registry after the stylesheet has been generated from it. -/
def noteRoot (c : Config) (code file : String) (r : Registry) : Registry :=
  if isRoot c code then r.addRoot file else r

/-- A stylesheet is refused, or the rules are, and then nothing is left of them, or the
rules are put in. -/
theorem generate_cases (c : Config) (p : SheetParser) (code file : String) (r : Registry) :
    (∃ reason, p.fault? code = some reason ∧
      (generate c p code file).run r = (.error (.invalidSheet file reason), r)) ∨
    (∃ reason, p.fault? code = none ∧ p.fault? r.rules = some reason ∧
      (generate c p code file).run r = (.error (.invalidRules reason r.rules), r.clear)) ∨
    (p.fault? code = none ∧ p.fault? r.rules = none ∧
      (generate c p code file).run r =
        ((finished c p (expanded c r.rules code) file).map
          fun text => ⟨text, r.dependencies, isRoot c code⟩, noteRoot c code file r)) := by
  unfold generate check checkedRules
  cases hcode : p.fault? code with
  | some reason => exact Or.inl ⟨reason, rfl, rfl⟩
  | none =>
      refine Or.inr ?_
      cases hrules : p.fault? r.rules with
      | some reason =>
          refine Or.inl ⟨reason, rfl, rfl, ?_⟩
          simp only [run_bind, run_pure, run_get, hrules]
          rfl
      | none =>
          refine Or.inr ⟨rfl, rfl, ?_⟩
          simp only [run_bind, run_pure, run_get, hrules, noteRoot]
          cases isRoot c code with
          | false =>
              simp only [if_neg Bool.false_ne_true, run_bind, finish_run]
              cases finished c p (expanded c r.rules code) file with
              | error fault => rfl
              | ok text => rfl
          | true =>
              simp only [if_true, run_bind, run_modify, finish_run]
              cases finished c p (expanded c r.rules code) file with
              | error fault => rfl
              | ok text => rfl

end Sheet

/-! ## The loop -/

namespace DevLoop

variable {c : Config} {p : SheetParser} {view : FileView} {code id file : String} {s : DevLoop}

/-- A loop is stale if its styles have been dropped. -/
theorem stale_of_freshness (h : s.freshness ≠ .stale) : s.registry.stale = false := by
  unfold freshness at h
  cases hs : s.registry.stale with
  | false => rfl
  | true =>
      rw [hs, if_pos rfl] at h
      exact absurd rfl h

theorem freshness_eq_stale_iff : s.freshness = .stale ↔ s.registry.stale = true := by
  unfold freshness
  cases s.registry.stale with
  | true => simp
  | false =>
      cases s.pending with
      | true => simp
      | false => simp

theorem freshness_eq_fresh_iff :
    s.freshness = .fresh ↔ s.registry.stale = false ∧ s.pending = false := by
  unfold freshness
  cases s.registry.stale with
  | true => simp
  | false =>
      cases s.pending with
      | true => simp
      | false => simp

theorem onRegistry_run {α : Type} (x : Registering α) (s : DevLoop) :
    (onRegistry x).run s =
      ((x.run s.registry).1, { s with registry := (x.run s.registry).2 }) := by
  simp only [onRegistry, run_bind, run_get]
  rcases x.run s.registry with ⟨_ | a, r⟩
  · rfl
  · rfl

theorem withReports_run {α : Type} (x : Reporting α) (s : DevLoop) :
    (withReports x).run s =
      ((x.run s.reports).1, { s with reports := (x.run s.reports).2 }) := by
  simp only [withReports, run_bind, run_get]
  rcases x.run s.reports with ⟨_ | a, reports⟩
  · rfl
  · rfl

/-- A build collects the styles of all scripts. -/
theorem registry_start (c : Config) (view : FileView) (s : DevLoop) :
    ((start c view).run s).2.registry = ((Scan.all c view).run s.registry).2 := by
  simp only [start, run_bind, onRegistry_run]
  rcases (Scan.all c view).run s.registry with ⟨_ | tally, r⟩
  · rfl
  · rfl

/-- An update collects the styles of the file, or those of all scripts if the styles have
been dropped. -/
theorem registry_update (c : Config) (view : FileView) (file : String) (s : DevLoop) :
    ((update c view file).run s).2.registry =
      if s.registry.stale then ((Scan.all c view).run s.registry).2
      else ((Scan.file c view file).run s.registry).2 := by
  simp only [update, run_bind, run_get]
  cases s.registry.stale with
  | true =>
      simp only [if_true, run_bind, run_map, onRegistry_run]
      rcases (Scan.all c view).run s.registry with ⟨_ | tally, r⟩
      · rfl
      · rfl
  | false =>
      simp only [if_neg Bool.false_ne_true, run_bind, onRegistry_run]
      rcases (Scan.file c view file).run s.registry with ⟨_ | changed, r⟩
      · rfl
      · cases changed with
        | false => rfl
        | true => rfl

/-- A script is served without a change to the registry. -/
theorem serve_script_run (hk : FileId.kindOf id = .script) (hx : c.excludes id = false)
    (p : SheetParser) (code : String) (s : DevLoop) :
    (serve c p code id).run s =
      (((Script.replaceCalls c s.registry code id).run s.reports).1.map fun output =>
          output.map Served.script,
        { s with reports := ((Script.replaceCalls c s.registry code id).run s.reports).2 }) := by
  simp only [serve, hk, hx, if_neg Bool.false_ne_true, replaceCalls, run_bind, run_get,
    withReports_run]
  rcases (Script.replaceCalls c s.registry code id).run s.reports with ⟨_ | output, reports⟩
  · rfl
  · rfl

/-- A stylesheet with a directive is served with the rules of the registry. -/
theorem serve_sheet_run (hk : FileId.kindOf id = .stylesheet) (hroot : Sheet.isRoot c code = true)
    (p : SheetParser) (s : DevLoop) :
    ((serve c p code id).run s).1 = ((Sheet.generate c p code id).run s.registry).1.map
        (fun output => some (.sheet output)) ∧
      ((serve c p code id).run s).2.registry =
        ((Sheet.generate c p code id).run s.registry).2 := by
  simp only [serve, hk, hroot, Bool.not_true, if_neg Bool.false_ne_true, generate, run_bind,
    onRegistry_run]
  rcases (Sheet.generate c p code id).run s.registry with ⟨_ | output, r⟩
  · exact ⟨rfl, rfl⟩
  · exact ⟨rfl, rfl⟩

/-- What is served of a stylesheet with a directive if nothing is minified. -/
theorem serve_sheet_eq {served : Option Served} {s' : DevLoop} (hm : c.minify = false)
    (hk : FileId.kindOf id = .stylesheet) (hroot : Sheet.isRoot c code = true)
    (h : (serve c p code id).run s = (.ok served, s')) :
    served = some (.sheet ⟨Sheet.expanded c s.registry.rules code,
      s.registry.dependencies, true⟩) := by
  have hrun := (serve_sheet_run hk hroot p s).1
  rw [h] at hrun
  rcases Sheet.generate_cases c p code id s.registry with
    ⟨_, _, hgen⟩ | ⟨_, _, _, hgen⟩ | ⟨_, _, hgen⟩
  · rw [hgen] at hrun
    cases hrun
  · rw [hgen] at hrun
    cases hrun
  · rw [hgen, Sheet.finished, hm, hroot] at hrun
    cases hrun
    rfl

/-- Serving a module leaves the styles alone or drops all of them. -/
theorem registry_serve (c : Config) (p : SheetParser) (code id : String) (s : DevLoop) :
    ((serve c p code id).run s).2.registry = s.registry ∨
      ((serve c p code id).run s).2.registry = s.registry.addRoot id ∨
      ((serve c p code id).run s).2.registry = s.registry.clear := by
  cases hk : FileId.kindOf id with
  | other =>
      simp only [serve, hk]
      exact Or.inl rfl
  | script =>
      cases hx : c.excludes id with
      | true =>
          simp only [serve, hk, hx, if_true]
          exact Or.inl rfl
      | false =>
          rw [serve_script_run hk hx]
          exact Or.inl rfl
  | stylesheet =>
      cases hroot : Sheet.isRoot c code with
      | false =>
          simp only [serve, hk, hroot, Bool.not_false, if_true]
          exact Or.inl rfl
      | true =>
          rw [(serve_sheet_run hk hroot p s).2]
          rcases Sheet.generate_cases c p code id s.registry with
            ⟨_, _, hrun⟩ | ⟨_, _, _, hrun⟩ | ⟨_, _, hrun⟩
          · rw [hrun]
            exact Or.inl rfl
          · rw [hrun]
            exact Or.inr (Or.inr rfl)
          · rw [hrun, Sheet.noteRoot, if_pos hroot]
            exact Or.inr (Or.inl rfl)

end DevLoop

end StaticStyle
