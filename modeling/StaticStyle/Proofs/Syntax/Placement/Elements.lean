import StaticStyle.Proofs.Syntax.Placement.Functions
import StaticStyle.Syntax.Grammar.Elements

/-!
# Placement of elements

Elements, their attributes and what stands between their tags.
-/

namespace StaticStyle.Syntax

open StaticStyle.Syntax.Parser StaticStyle.Syntax.Grammar
open StaticStyle.Text (Solid)

variable {source : List Char} {self : Rules} {lo n start : Nat} {ts : List Tree} {c : Cursor}

/-! ## Names -/

/-- A word with hyphens starts where the word does. -/
theorem joinHyphens_meets :
    Meets (Behind source lo ts) joinHyphens fun _ => Behind source lo ts := by
  refine .modify fun c hc => ?_
  cases hword : c.token with
  | word name escaped =>
      rcases hspan : c.after.span fun x => x == '-' || isIdPart x with ⟨more, rest⟩
      obtain ⟨k, hk, -, hne, -⟩ := hc.inSource.exists_lexeme
      have hafter := (span_eq hspan).1
      have hrest : rest <:+ c.here := ⟨k ++ more, by rw [hk, ← hafter, List.append_assoc]⟩
      have htext := take_append_of_suffix hrest
      have hsolid : Solid source c.start := hc.inSource.solid_of_isReal (hword ▸ rfl)
      refine hc.rescan ⟨htext, fun _ _ _ hempty => ?_, fun m hmark => ?_⟩ fun _ => hsolid
      case refine_2 => cases hmark
      -- If nothing were in front of the rest, the word would be empty.
      dsimp only at hempty
      have hlength := congrArg List.length htext
      rw [hempty, hk, ← hafter] at hlength
      simp only [List.length_append, List.nil_append] at hlength
      exact hne name escaped hword (List.eq_nil_of_length_eq_zero (by omega))
  | _ => exact hc

theorem elementWord_meets : Meets (Behind source lo ts) elementWord fun _ => Behind source lo ts :=
  .bind joinHyphens_meets fun _ => Steady.keeps Behind.stable

/-- The tree of the name of a tag. -/
def tagTree (r : String × Tree) : List Tree := [r.2]

theorem reads_tagName : Reads source tagTree tagName := by
  refine fun lo => .still fun start => .bind elementWord_meets fun first => .skip fun found => ?_
  refine .ite (fun _ => .bind elementWord_meets fun _ => .bind (.node rfl) fun _ =>
    .pure fun _ hc => hc) fun _ => .still fun isPath => ?_
  extract_lets withBase
  have hbase : ∀ base, Meets (Behind source lo (tagTree (first, base))) (withBase base) fun r =>
      Behind source lo (tagTree r) := by
    refine fun base => .extend (R := fun r => Behind source lo (tagTree r)) fun r => ?_
    refine .skip fun found => .ite (fun _ => ?_) fun _ => .pure fun _ hc => hc
    exact .bind elementWord_meets fun _ => .bind (.node rfl) fun _ => .pure fun _ hc => hc
  refine .ite (fun _ => .bind (.node rfl) hbase) fun _ => ?_
  exact .ite (fun _ => .bind (.node rfl) hbase) fun _ => .bind (.node rfl) hbase

/-! ## Attributes -/

theorem reads_attributeString : Reads source single attributeString := by
  refine fun lo => .get fun e => ?_
  split
  · next quote s hhere =>
      refine .require fun hquote => .elim fun r hr => .bind (.set fun c hc => ?_) fun _ =>
        expresses_stringNode.reads lo
      obtain ⟨hc, rfl⟩ := hc
      refine hc.rescan (.literal rfl ?_) fun _ => ⟨quote, s, hhere ▸ hc.inSource.start, ?_⟩
      · rw [hhere, ← append_of_scanElementString hr]
        simp
      · rw [Bool.or_eq_true, beq_iff_eq, beq_iff_eq] at hquote
        rcases hquote with rfl | rfl
        · decide
        · decide
  · exact .failure

namespace Sound

theorem braced (h : Sound source self) : Reads source single (braced self) := fun _ =>
  .still fun _ => .skip fun _ => .reads h.expression.reads.allowingIn fun _ => .skip fun _ =>
    .node rfl

theorem attributeValue (h : Sound source self) :
    Reads source single (attributeValue self) := fun lo =>
  .still fun _ => .ite (fun _ => h.braced lo) fun _ => .still fun _ =>
    .ite (fun _ => h.element.reads lo) fun _ => reads_attributeString lo

theorem tagAttribute (h : Sound source self) : Reads source single (tagAttribute self) := by
  refine fun lo => .still fun start => .skip fun isSpread => .ite (fun _ => ?_) fun _ => ?_
  · exact .skip fun _ => .reads (h.assignment false).reads.allowingIn fun _ => .skip fun _ =>
      .node rfl
  · refine .bind elementWord_meets fun first => .skip fun _ => ?_
    extract_lets withName
    have hname : ∀ text, Meets (Behind source lo []) (withName text) fun t =>
        Behind source lo [t] := fun text => .bind (.node rfl) fun _ => .skip fun _ =>
      .either h.attributeValue reads_absent fun _ => .node rfl
    exact .ite (fun _ => .bind elementWord_meets fun _ => hname _) fun _ => hname first

/-! ## Children -/

theorem childInterpolation (h : Sound source self) :
    Reads source single (childInterpolation self) := by
  refine fun lo => .still fun start => .skip fun _ => .skip fun isEmpty => .ite (fun _ => .node rfl)
    fun _ => .skip fun isSpread => .ite (fun _ => ?_) fun _ => ?_
  · exact .reads (h.assignment false).reads.allowingIn fun _ => .skip fun _ => .node rfl
  · exact .reads h.expression.reads.allowingIn fun _ => .skip fun _ => .node rfl

/-- A text between tags starts where the last token ended, and reading goes on behind it. -/
theorem child (h : Sound source self) : Reads source Option.toList (child self) := by
  refine fun lo => .get fun e => ?_
  split
  · exact .pure fun _ hc => hc.1
  · exact .pre (fun _ hc => hc.1)
      (.splitLess (.reads h.element.reads fun _ => .pure fun _ hc => hc))
  · exact .pre (fun _ hc => hc.1) (.reads h.childInterpolation fun _ => .pure fun _ hc => hc)
  · exact .failure
  · refine .bind (R := fun _ => Behind source lo []) (.set fun c hc => ?_) fun _ =>
      .bind (.node rfl) fun _ => .pure fun _ hc => hc
    obtain ⟨hc, rfl⟩ := hc
    have htext := hc.inSource.last
    rw [← scanElementText_append c.before] at htext
    refine .of_le (.of_continues htext.append) ?_
    rw [Cursor.at_last]
    exact Nat.le_trans hc.le (Nat.le_add_right c.last _)

theorem closingTag {expected : String} : Reads source single (closingTag expected) := fun _ =>
  .splitLess (.still fun _ => .skip fun _ => .skip fun _ => .ite
    (fun _ => .skip fun _ => .node rfl)
    fun _ => .reads reads_tagName fun _ => .still fun _ => .skip fun _ => .node rfl)

theorem childrenAndClosing (h : Sound source self) {text : String} :
    Reads source id (childrenAndClosing self text) := fun _ =>
  .reads (.many h.child) fun _ => .reads closingTag fun _ => .pure fun _ hc => hc

theorem elementRule (h : Sound source self) : Expresses source (elementRule self) := by
  refine fun n => .position (.opens (fun _ => Before.toward) fun _ hs => .skip fun isFragment => ?_)
  refine .ite (fun _ => .bind (.node rfl) fun opening => ?_) fun _ => ?_
  · exact .reads h.childrenAndClosing fun _ => .whole hs rfl
  · refine .reads reads_tagName fun name => .still fun _ => .still fun _ =>
      .either h.typeArguments.reads reads_absent fun ts => ?_
    refine .reads (.many fun lo => .still fun _ => .still fun _ =>
      .ite (fun _ => .pure fun _ hc => hc)
      fun _ => .reads h.tagAttribute fun _ => .pure fun _ hc => hc) fun attributes => ?_
    refine .skip fun isClosed => .ite (fun _ => .skip fun _ => ?_) fun _ => .skip fun _ => ?_
    · exact .bind (.node rfl) fun _ => .whole hs rfl
    · exact .bind (.node rfl) fun _ => .reads h.childrenAndClosing fun _ => .whole hs rfl

end Sound

end StaticStyle.Syntax
