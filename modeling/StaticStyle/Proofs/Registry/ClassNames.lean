import StaticStyle.Config.Reader
import StaticStyle.Proofs.Css.NameValues
import StaticStyle.Proofs.Running
import StaticStyle.Proofs.Syntax.Quoted
import StaticStyle.Script.Replacement

/-!
# Class names in stylesheets and scripts

A class name is written as it is behind a point in a stylesheet, and quoted in a script.  The quoted
name always stands for the class.  The name in the stylesheet does exactly if the prefix of the build,
with the hyphen behind it, is a plain name (`className_usable_iff`): nothing is escaped there, and
a configuration is only refused for an empty prefix.
-/

namespace StaticStyle

open Css (tokens nameValue isPlainName isNameChar)

variable {c : Config} {d : Declaration} {rule : ClassRule} {text : String}

/-! ## Class names -/

/-- The text of a rule behind its class name. -/
def ClassRule.body (rule : ClassRule) : String := " \x7b" ++ rule.key ++ "\x7d"

/-- A class name works in a stylesheet: it holds no blank character, the text of its rule starts with
a point and the class name as one name, and that name stands for the class. -/
structure ClassRule.Selects (rule : ClassRule) : Prop where
  blankFree : rule.className.toList.any Text.isBlank = false
  selector : ∀ rest, tokens (rule.render.toList ++ rest) =
    ⟨.delimiter '.', ['.']⟩ :: ⟨.ident, rule.className.toList⟩ :: tokens (rule.body.toList ++ rest)
  value : nameValue rule.className.toList = rule.className.toList

theorem ClassRule.toList_render (rule : ClassRule) :
    rule.render.toList = '.' :: (rule.className.toList ++ rule.body.toList) := by
  simp only [ClassRule.render, ClassRule.body, String.toList_append, List.append_assoc]
  rfl

theorem ClassRule.exists_toList_body (rule : ClassRule) : ∃ block, rule.body.toList = ' ' :: block := by
  rw [ClassRule.body, String.toList_append, String.toList_append]
  exact ⟨_, rfl⟩

/-- A class name works in a stylesheet exactly if it is a plain name without blank characters. -/
theorem ClassRule.selects_iff (hlength : 2 ≤ rule.className.toList.length) :
    rule.Selects ↔ isPlainName rule.className.toList = true ∧
      rule.className.toList.any Text.isBlank = false := by
  obtain ⟨block, hbody⟩ := exists_toList_body rule
  constructor
  · rintro ⟨hblank, hselector, hvalue⟩
    refine ⟨?_, hblank⟩
    replace hselector := hselector []
    rw [List.append_nil, List.append_nil, toList_render, Css.tokens_cons] at hselector
    obtain ⟨hpoint, htokens⟩ := List.cons.inj hselector
    have htext := Css.firstToken_text '.' (rule.className.toList ++ rule.body.toList)
    rw [hpoint] at htext
    have hrest : (Css.firstToken '.' (rule.className.toList ++ rule.body.toList)).2 =
        rule.className.toList ++ rule.body.toList := (List.cons.inj htext).2
    rw [hrest] at htokens
    cases hall : rule.className.toList ++ rule.body.toList with
    | nil =>
        rw [hall] at htokens
        cases htokens
    | cons c s =>
        rw [hall, Css.tokens_cons] at htokens
        have hname := (List.cons.inj htokens).1
        obtain ⟨hstart, hspan⟩ := Css.spanName_of_ident (c := c) (s := s) (by rw [hname])
        have hsplit := Css.firstToken_text c s
        rw [hname, ← hall] at hsplit
        rw [hname, List.append_cancel_left hsplit, ← hall] at hspan
        have hchars := Css.all_isNameChar_of_unescape le_rfl hspan hvalue
        rw [← hall, Css.startsName_append_of_all hchars hlength] at hstart
        exact Css.isPlainName_iff.mpr ⟨hstart, hchars⟩
  · rintro ⟨hplain, hblank⟩
    refine ⟨hblank, fun rest => ?_, Css.nameValue_of_no_escape fun hmem => ?_⟩
    · rw [toList_render, List.cons_append, List.append_assoc, Css.tokens_cons,
        Css.firstToken_point (Css.startsName_append_of_plain hplain _), hbody, List.cons_append,
        Css.tokens_of_plain hplain]
    · exact Css.ne_backslash_of_isNameChar ((Css.isPlainName_iff.mp hplain).2 _ hmem) rfl

theorem plain_fingerprint (text : String) :
    ∀ c ∈ Digest.fingerprint text, isNameChar c = true ∧ Text.isBlank c = false := by
  have hdigit : ∀ n < 16,
      isNameChar (Nat.digitChar n) = true ∧ Text.isBlank (Nat.digitChar n) = false := by decide
  have hdigits : ∀ count n, ∀ c ∈ Digest.hexDigits count n,
      isNameChar c = true ∧ Text.isBlank c = false := by
    intro count
    induction count with
    | zero => exact fun _ _ hc => absurd hc List.not_mem_nil
    | succ count ih =>
        intro n c hc
        rcases List.mem_cons.mp hc with rfl | hc
        · exact hdigit _ (Nat.mod_lt _ (by decide))
        · exact ih n c hc
  exact hdigits 8 _

/-- The digits behind a prefix and its hyphen keep what it takes to work in a stylesheet. -/
theorem plain_className_iff {start digits : List Char} (hstart : start ≠ [])
    (hdigits : ∀ c ∈ digits, isNameChar c = true ∧ Text.isBlank c = false) :
    (isPlainName (start ++ '-' :: digits) = true ∧
        (start ++ '-' :: digits).any Text.isBlank = false) ↔
      isPlainName (start ++ ['-']) = true ∧ start.any Text.isBlank = false := by
  have hsplit : start ++ '-' :: digits = (start ++ ['-']) ++ digits := by
    rw [List.append_assoc, List.singleton_append]
  have hlength : 2 ≤ (start ++ ['-']).length := by
    have := List.length_pos_of_ne_nil hstart
    rw [List.length_append, List.length_singleton]
    omega
  have hname : isPlainName ((start ++ ['-']) ++ digits) = isPlainName (start ++ ['-']) := by
    rw [Bool.eq_iff_iff, Css.isPlainName_iff, Css.isPlainName_iff, List.forall_mem_append]
    constructor
    · rintro ⟨hstarts, hchars, -⟩
      rw [Css.startsName_append_of_all hchars hlength] at hstarts
      exact ⟨hstarts, hchars⟩
    · rintro ⟨hstarts, hchars⟩
      rw [Css.startsName_append_of_all hchars hlength]
      exact ⟨hstarts, hchars, fun c hc => (hdigits c hc).1⟩
  have hblank : (start ++ '-' :: digits).any Text.isBlank = start.any Text.isBlank := by
    have hnone : ('-' :: digits).any Text.isBlank = false := List.any_eq_false.mpr fun c hc => by
      rcases List.mem_cons.mp hc with rfl | hc
      · decide
      · rw [(hdigits c hc).2]
        exact Bool.false_ne_true
    rw [List.any_append, hnone, Bool.or_false]
  rw [hblank, hsplit, hname]

/-- An accepted configuration has a prefix. -/
theorem Config.classPrefix_ne_empty (h : Config.read text = .ok c) : c.classPrefix ≠ "" := by
  intro hempty
  have hfault : c.fault? = none := by
    unfold Config.read at h
    split at h
    · cases h
    · unfold Config.ofJson at h
      split at h
      · cases h
      · split at h
        · cases h
        · rename_i hfault
          cases h
          exact hfault
  rw [Config.fault?, if_pos hempty] at hfault
  cases hfault

/-- A class name is the prefix, a hyphen and the digits of a text. -/
theorem Config.exists_className (h : c.naming.ruleOf d = .ok rule) :
    rule.className.toList = c.classPrefix.toList ++ '-' :: Digest.fingerprint rule.key := by
  unfold Naming.ruleOf at h
  cases hkey : d.canonicalKey c.naming.theme with
  | error e =>
      rw [hkey] at h
      cases h
  | ok key =>
      rw [hkey] at h
      cases h
      simp only [Naming.classOf, Digest.className, String.toList_append, String.toList_ofList,
        List.append_assoc]
      rfl

/-- A class name works in stylesheets exactly if its prefix with the hyphen behind it is a plain name
without blank characters. -/
theorem Config.selects_iff (hne : c.classPrefix ≠ "") (h : c.naming.ruleOf d = .ok rule) :
    rule.Selects ↔ isPlainName (c.classPrefix.toList ++ ['-']) = true ∧
      c.classPrefix.toList.any Text.isBlank = false := by
  have hname := exists_className h
  have hlength : 2 ≤ rule.className.toList.length := by
    rw [hname, List.length_append, List.length_cons, Digest.length_fingerprint]
    omega
  rw [ClassRule.selects_iff hlength, hname]
  exact plain_className_iff (fun hnil => hne (String.toList_eq_nil_iff.mp hnil)) (plain_fingerprint _)

/-- Under an accepted configuration, what takes the place of a call in a script is a string with the
class name as its value, and the class name works in stylesheets exactly if the prefix with the hyphen
behind it is a plain name without blank characters. -/
theorem className_usable_iff (hread : Config.read text = .ok c) (hrule : c.naming.ruleOf d = .ok rule) :
    (∀ call, ∃ written, Script.callEdit (call, some rule.className) = some ⟨call.span, written⟩ ∧
        ∀ rest, Syntax.scanToken (written ++ rest) = ⟨.string rule.className, written, rest⟩) ∧
      (rule.Selects ↔ isPlainName (c.classPrefix.toList ++ ['-']) = true ∧
        c.classPrefix.toList.any Text.isBlank = false) := by
  refine ⟨fun call => ⟨_, rfl, fun rest => ?_⟩,
    Config.selects_iff (Config.classPrefix_ne_empty hread) hrule⟩
  rw [Syntax.scanToken_quoted, String.ofList_toList]

/-! ## Prefixes that are accepted -/

/-- A style that is written as an object without a theme. -/
def marginZero : Declaration := .static (.leaf "margin" (.text "0") .nil)

theorem ruleOf_marginZero (c : Config) :
    c.naming.ruleOf marginZero =
      .ok ⟨Digest.className c.classPrefix "margin:0;", marginZero, "margin:0;"⟩ := rfl

/-- A prefix that is a plain name. -/
theorem className_usable_iff_app :
    ∃ c rule, Config.read "\x7b\"classPrefix\":\"app\"\x7d" = .ok c ∧
      c.naming.ruleOf marginZero = .ok rule ∧ rule.className = "app-38965f9b" ∧ rule.Selects := by
  obtain ⟨c, hread, hstart⟩ := @Running.exists_of_toOption _ _ _
    (Config.read "\x7b\"classPrefix\":\"app\"\x7d") Config.classPrefix "app" (by decide +kernel)
  have hrule := ruleOf_marginZero c
  have hname : Digest.className c.classPrefix "margin:0;" = "app-38965f9b" := by
    rw [hstart]
    decide +kernel
  have hplain : isPlainName (c.classPrefix.toList ++ ['-']) = true ∧
      c.classPrefix.toList.any Text.isBlank = false := by
    rw [hstart]
    decide
  exact ⟨c, _, hread, hrule, hname, (className_usable_iff hread hrule).2.mpr hplain⟩

/-- A configuration is accepted, and a class name of its build does not work in stylesheets. -/
def Misnames (text : String) : Prop :=
  ∃ c rule, Config.read text = .ok c ∧ c.naming.ruleOf marginZero = .ok rule ∧ ¬ rule.Selects

theorem misnames_of {start : String}
    (haccepted : (Config.read text).toOption.map Config.classPrefix = some start)
    (h : ¬ (isPlainName (start.toList ++ ['-']) = true ∧
      start.toList.any Text.isBlank = false)) : Misnames text := by
  obtain ⟨c, hread, rfl⟩ := Running.exists_of_toOption haccepted
  exact ⟨c, _, hread, ruleOf_marginZero c, fun hselects =>
    h ((Config.selects_iff (Config.classPrefix_ne_empty hread) (ruleOf_marginZero c)).mp hselects)⟩

/-- White space in a class name, a class name that is no name, and one that is read as a name for
another class. -/
theorem className_unusable :
    Misnames "\x7b\"classPrefix\":\"a b\"\x7d" ∧ Misnames "\x7b\"classPrefix\":\"1\"\x7d" ∧
      Misnames "\x7b\"classPrefix\":\"a\\\\b\"\x7d" :=
  ⟨@misnames_of _ "a b" (by decide +kernel) (by decide),
    @misnames_of _ "1" (by decide +kernel) (by decide),
    @misnames_of _ "a\\b" (by decide +kernel) (by decide)⟩

end StaticStyle
