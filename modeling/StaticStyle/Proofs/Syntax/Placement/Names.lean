import StaticStyle.Proofs.Syntax.Placement.Covering

/-!
# Placement of names

Names, keys and the parts of templates.
-/

namespace StaticStyle.Syntax

open StaticStyle.Syntax.Parser StaticStyle.Syntax.Grammar

variable {source : List Char} {self : Rules}

theorem expresses_reference : Expresses source reference := fun _ =>
  .position (.opens (fun _ => Before.toward) fun _ hs => .whole hs rfl)

theorem expresses_binding : Expresses source binding := fun _ =>
  .position (.opens (fun _ => Before.toward) fun _ hs => .whole hs rfl)

theorem expresses_name : Expresses source name := fun _ =>
  .position (.opens (fun _ => Before.toward) fun _ hs => .whole hs rfl)

theorem expresses_stringNode : Expresses source stringNode := by
  refine fun _ => .position (.token fun t => ?_)
  split
  · exact .first (fun _ => Before.toward) rfl fun hs => .whole hs rfl
  · exact .failure

theorem expresses_moduleName : Expresses source moduleName := fun n =>
  .orElse (expresses_name n) (expresses_stringNode n)

theorem expresses_memberName : Expresses source memberName := by
  refine fun n => .position (.token fun t => ?_)
  split
  · exact .first (fun _ => Before.toward) rfl fun hs => .whole hs rfl
  · exact .pre (fun _ hc => hc.1) (expresses_name n)

/-- The tree of a key. -/
def keyTree (r : Bool × Tree) : List Tree := [r.2]

theorem reads_key (h : ∀ b, Expresses source (self (.assignment b))) :
    Reads source keyTree (key self) := by
  refine fun lo => .still fun start => .still fun t => ?_
  split
  · exact .skip fun _ => .bind (.node rfl) fun k => .pure fun _ hc => hc
  · exact .skip fun _ => .bind (.node rfl) fun k => .pure fun _ hc => hc
  · exact .skip fun _ => .bind (.node rfl) fun k => .pure fun _ hc => hc
  · exact .skip fun _ => .bind (.node rfl) fun k => .pure fun _ hc => hc
  · exact .skip fun _ => .reads (h false).reads.allowingIn fun e => .skip fun _ =>
      .pure fun _ hc => hc
  · exact .reads expresses_name.reads fun k => .pure fun _ hc => hc

/-- A name that is read again after it was looked at can stand behind any trees. -/
theorem look_name {lo : Nat} {ts : List Tree} :
    Meets (Behind source lo ts) (look name) fun k => Behind source lo (ts ++ [k]) := by
  intro ctx c k d hc hr
  obtain ⟨c', d', hget, hr⟩ := exists_of_bind_run hr
  cases hget
  obtain ⟨k', e, hname, hr⟩ := exists_of_bind_run hr
  cases hr
  obtain ⟨start, d', hstart, hname⟩ := exists_of_bind_run hname
  obtain ⟨w, d'', hword, hname⟩ := exists_of_bind_run hname
  cases hname
  exact hc.leaf rfl _

/-! ## Templates -/

/-- A text of a template, and whether it is the last one. -/
def templateText (tagged : Bool) : Parser (String × Bool) := do
  match ← token with
  | .template cooked raw final =>
      require (tagged || cooked.isSome)
      advance
      return (cooked.getD raw, final)
  | _ => failure

variable {tagged : Bool} {n : Nat} {ts : List Tree} {c : Cursor}

instance : Opens (templateText tagged) where
  opens _ _ _ := by
    refine .token fun t => ?_
    split
    · exact .require fun _ => .bind (.advance fun c hc => hc.1.next (hc.2 ▸ rfl)) fun _ =>
        .pure fun _ hc => hc
    · exact .failure

instance : Steady (templateText tagged) := by
  unfold templateText
  refine .bind inferInstance fun t => ?_
  split <;> infer_instance

/-- After an interpolation the brace that closes it is the front of the next text. -/
theorem Behind.afterInterpolation (h : Behind source n ts c) (hc : c.token = .mark "\x7d") :
    Behind source n ts (c.rescan (scanTemplate '\x7d' (c.here.drop 1))) := by
  obtain ⟨k, hk, -, -, hmark⟩ := h.inSource.exists_lexeme
  have hhere : c.here = '\x7d' :: c.here.drop 1 := by
    rw [hk, hmark _ hc]
    rfl
  refine h.rescan ?_ fun _ => h.inSource.solid_of_mark hc
  have hof := scanTemplate_of '\x7d' (c.here.drop 1)
  rwa [← hhere] at hof

theorem templateParts_opens {item : Parser Tree} (hi : Reads source single item) :
    Meets (Toward source n ts) (templateParts item tagged) fun r c =>
      Text.Solid source n ∧ Behind source n (ts ++ r.2) c := by
  refine .opens (p := templateText tagged) (fun _ h => h) fun first hs => ?_
  obtain ⟨text, final⟩ := first
  refine .bind (R := fun r => Behind source n (ts ++ r.2.1.reverse))
    (.pre (fun c hc => ?_) (.extend fun r => ?_)) fun r => .pure fun c hc => ⟨hs, hc⟩
  · rwa [← List.append_nil ts] at hc
  · obtain ⟨texts, items, final⟩ := r
    refine .ite (fun _ => .pure fun _ hc => hc) fun _ => .reads hi fun t => .atMark ?_ ?_
    · refine .require fun _ => .bind (.modify fun c hc => hc.1.afterInterpolation hc.2) fun _ => ?_
      refine .skip (p := templateText tagged) fun next => .pure fun c hc => ?_
      change Behind source n (ts ++ (t :: items).reverse) c
      rwa [List.reverse_cons, ← List.append_assoc]
    · exact .require nofun

end StaticStyle.Syntax
