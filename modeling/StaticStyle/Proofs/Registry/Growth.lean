import Mathlib.Data.Set.Function
import StaticStyle.Registry

/-!
# Growth of a registry

Whatever a scan and a stylesheet do to a registry, they take nothing from it,
unless the registry is cleared.  `Registry.Later` says that a registry is reached
from another without being cleared, and `Registry.Grows` that one holds all
classes and dependencies of the other; the first implies the second
(`Later.grows`).

What a registry has to hold for a file is `Registry.Holds`: the classes of its
rules and, if there are rules, the file as a dependency.  `addAll_holds` says
that adding the rules achieves it, and `Holds.grow` that it lasts.

`Registry.Sound` says what the entries are: each stands under the class name of
its own key, and its key is one of a given set.
-/

namespace StaticStyle.Registry

/-! ## Growing -/

/-- A registry holds the classes and the dependencies of another. -/
structure Grows (r r' : Registry) : Prop where
  classes : ∀ className, r.hasClass className = true → r'.hasClass className = true
  dependencies : ∀ file ∈ r.dependencies, file ∈ r'.dependencies

/-- A registry is reached from another without being cleared. -/
inductive Later (r : Registry) : Registry → Prop where
  | refl : Later r r
  | add (e : ClassRule) (file : String) : Later r r' → Later r (r'.add e file)
  | addRoot (file : String) : Later r r' → Later r (r'.addRoot file)
  | noteScan : Later r r' → Later r r'.noteScan

variable {r r' r'' : Registry}

theorem Grows.refl (r : Registry) : r.Grows r := ⟨fun _ h => h, fun _ h => h⟩

theorem Grows.trans (h : r.Grows r') (h' : r'.Grows r'') : r.Grows r'' :=
  ⟨fun n hn => h'.classes n (h.classes n hn), fun f hf => h'.dependencies f (h.dependencies f hf)⟩

theorem hasClass_add (e : ClassRule) (file : String) (r : Registry) (className : String) :
    (r.add e file).hasClass className = true ↔
      e.className = className ∨ r.hasClass className = true :=
  Table.has_put _ _ _ _

theorem mem_dependencies_add (e : ClassRule) (file : String) (r : Registry) (other : String) :
    other ∈ (r.add e file).dependencies ↔ other ∈ r.dependencies ∨ other = file :=
  Roll.mem_enrol

theorem grows_add (e : ClassRule) (file : String) (r : Registry) : r.Grows (r.add e file) :=
  ⟨fun n h => (hasClass_add e file r n).mpr (Or.inr h),
    fun f h => (mem_dependencies_add e file r f).mpr (Or.inl h)⟩

theorem grows_addRoot (file : String) (r : Registry) : r.Grows (r.addRoot file) :=
  ⟨fun _ h => h, fun _ h => h⟩

theorem grows_noteScan (r : Registry) : r.Grows r.noteScan := ⟨fun _ h => h, fun _ h => h⟩

/-- Without being cleared a registry only grows. -/
theorem Later.grows (h : Later r r') : r.Grows r' := by
  induction h with
  | refl => exact .refl _
  | add e file _ ih => exact ih.trans (grows_add e file _)
  | addRoot file _ ih => exact ih.trans (grows_addRoot file _)
  | noteScan _ ih => exact ih.trans (grows_noteScan _)

/-! ## Adding the rules of a file -/

/-- What a registry has to hold for a file with these rules. -/
structure Holds (r : Registry) (rules : List ClassRule) (file : String) : Prop where
  hasClass : ∀ e ∈ rules, r.hasClass e.className = true
  isDependency : rules ≠ [] → file ∈ r.dependencies

theorem Holds.grow {rules : List ClassRule} {file : String} (h : r.Holds rules file)
    (hg : r.Grows r') : r'.Holds rules file :=
  ⟨fun e he => hg.classes _ (h.hasClass e he), fun hne => hg.dependencies _ (h.isDependency hne)⟩

/-- A property that adding one rule keeps is kept by adding them all. -/
theorem addAll_induction {P : Registry → Prop} {rules : List ClassRule} {file : String}
    (step : ∀ e ∈ rules, ∀ r, P r → P (r.add e file)) (h : P r) : P (r.addAll rules file) := by
  induction rules generalizing r with
  | nil => exact h
  | cons e es ih =>
      exact ih (fun e' he' => step e' (List.mem_cons_of_mem _ he')) (step e List.mem_cons_self r h)

theorem grows_addAll (rules : List ClassRule) (file : String) (r : Registry) :
    r.Grows (r.addAll rules file) :=
  addAll_induction (fun e _ r' h => h.trans (grows_add e file r')) (.refl r)

/-- Adding rules does not say that a registry has been scanned or cleared. -/
@[simp] theorem stale_addAll (rules : List ClassRule) (file : String) (r : Registry) :
    (r.addAll rules file).stale = r.stale :=
  addAll_induction (P := fun r' => r'.stale = r.stale) (fun _ _ _ h => h) rfl

/-- A registry holds the rules that are added to it. -/
theorem addAll_holds (rules : List ClassRule) (file : String) (r : Registry) :
    (r.addAll rules file).Holds rules file := by
  induction rules generalizing r with
  | nil => exact ⟨fun _ h => absurd h List.not_mem_nil, fun h => absurd rfl h⟩
  | cons e es ih =>
      -- The first rule has to last while the others are added.
      have hg : (r.add e file).Grows (r.addAll (e :: es) file) := grows_addAll es file _
      refine ⟨fun e' he' => ?_, fun _ => ?_⟩
      · rcases List.mem_cons.mp he' with rfl | he'
        · exact hg.classes _ ((hasClass_add e' file r _).mpr (Or.inl rfl))
        · exact (ih (r.add e file)).hasClass e' he'
      · exact hg.dependencies _ ((mem_dependencies_add e file r file).mpr (Or.inr rfl))

/-! ## Entries -/

/-- Every entry stands under the class name of its key, and its key is one of a set. -/
def Sound (naming : Naming) (keys : Set String) (r : Registry) : Prop :=
  ∀ entry ∈ r.styles, entry.1 = entry.2.className ∧
    entry.2.className = naming.classOf entry.2.key ∧ entry.2.key ∈ keys

variable {naming : Naming} {keys : Set String}

theorem sound_empty : Sound naming keys empty := fun _ h => absurd h List.not_mem_nil

theorem sound_clear (r : Registry) : Sound naming keys r.clear := fun _ h => absurd h List.not_mem_nil

theorem Sound.add {e : ClassRule} {file : String} (h : Sound naming keys r)
    (hc : e.className = naming.classOf e.key) (hk : e.key ∈ keys) :
    Sound naming keys (r.add e file) := by
  intro entry he
  rcases Table.mem_put he with rfl | he
  · exact ⟨rfl, hc, hk⟩
  · exact h entry he

theorem Sound.addAll {rules : List ClassRule} {file : String} (h : Sound naming keys r)
    (hr : ∀ e ∈ rules, e.className = naming.classOf e.key ∧ e.key ∈ keys) :
    Sound naming keys (r.addAll rules file) :=
  addAll_induction (fun e he _ h' => h'.add (hr e he).1 (hr e he).2) h

/-- If no two keys share a class name, the entry of a key's class is the one of the key. -/
theorem Sound.exists_entry (h : Sound naming keys r) (hinj : Set.InjOn naming.classOf keys)
    {key : String} (hk : key ∈ keys) (hc : r.hasClass (naming.classOf key) = true) :
    ∃ entry ∈ r.styles, entry.2.className = naming.classOf key ∧ entry.2.key = key := by
  obtain ⟨e, he⟩ := Option.isSome_iff_exists.mp hc
  have hmem := Table.mem_of_get? he
  obtain ⟨hn, hcn, hke⟩ := h _ hmem
  have heq : naming.classOf e.key = naming.classOf key := hcn.symm.trans hn.symm
  exact ⟨_, hmem, hn.symm, hinj hke hk heq⟩

end StaticStyle.Registry
