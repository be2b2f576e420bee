import StaticStyle.Proofs.Script.Agreement
import StaticStyle.Proofs.Syntax.ImportList
import StaticStyle.Proofs.Text.Splice

/-!
# Taking a name out of an import list

A name of an import is taken out with a comma that stands next to it, blanks aside: the
one behind it (`nameExtent_behind`), otherwise the one in front (`nameExtent_front`).  A
comment between the name and its comma hides the comma, and a name with no comma to be
seen on either side goes alone (`nameExtent_alone`).

For a list at the front of a module this is where tidy and untidy lists part
(`replaceCalls_listed`).  A name that goes alone leaves its comma behind, and what comes
out is no module of any language.  Otherwise the list is left with the names that are
not the function, and nothing else is changed.
-/

namespace StaticStyle

open StaticStyle.Syntax (Gap ListedName ImportHead listed)
open StaticStyle.Text (Span Edit byteLength isBlank trimStart trimEnd slice? spliceFrom nameExtent
  quoted)

/-! ## What goes with a name -/

namespace Text

theorem drop_takeWhile_length (s : List Char) :
    s.drop (s.takeWhile isBlank).length = trimStart s := by
  have happend : s.takeWhile isBlank ++ trimStart s = s := List.takeWhile_append_dropWhile
  calc s.drop (s.takeWhile isBlank).length
      = (s.takeWhile isBlank ++ trimStart s).drop (s.takeWhile isBlank).length := by rw [happend]
    _ = trimStart s := List.drop_left

theorem byteLength_reverse (s : List Char) : byteLength s.reverse = byteLength s := by
  induction s with
  | nil => rfl
  | cons c s ih =>
      rw [List.reverse_cons, byteLength_append, ih, byteLength_cons, byteLength_cons,
        byteLength_nil]
      omega

section

variable {blanks : List Char} {c : Char}

theorem takeWhile_blanks (hb : ∀ d ∈ blanks, isBlank d = true) (hc : isBlank c = false)
    (s : List Char) : (blanks ++ c :: s).takeWhile isBlank = blanks := by
  rw [List.takeWhile_append_of_pos hb, List.takeWhile_cons_of_neg (Bool.eq_false_iff.mp hc),
    List.append_nil]

theorem trimStart_blanks (hb : ∀ d ∈ blanks, isBlank d = true) (hc : isBlank c = false)
    (s : List Char) : trimStart (blanks ++ c :: s) = c :: s := by
  rw [trimStart, List.dropWhile_append_of_pos hb,
    List.dropWhile_cons_of_neg (Bool.eq_false_iff.mp hc)]

theorem reverse_trimEnd_blanks (hb : ∀ d ∈ blanks, isBlank d = true) (hc : isBlank c = false)
    (s : List Char) : (trimEnd (s ++ c :: blanks)).reverse = c :: s.reverse := by
  have hreverse : (s ++ c :: blanks).reverse = blanks.reverse ++ c :: s.reverse := by
    rw [List.reverse_append, List.reverse_cons, List.append_assoc, List.singleton_append]
  have hb' : ∀ d ∈ blanks.reverse, isBlank d = true := by
    intro d hd
    exact hb d (List.mem_reverse.mp hd)
  rw [trimEnd, List.reverse_reverse, hreverse]
  exact trimStart_blanks hb' hc s.reverse

end

section

variable (before name after : List Char)

theorem split?_behind : split? (byteLength (before ++ name)) (before ++ (name ++ after)) =
    some (before ++ name, after) := by
  rw [← List.append_assoc, split?_append]

/-- A comma behind a name goes with it, and so do the blanks around the comma. -/
theorem nameExtent_behind {blanks : List Char} (hb : ∀ c ∈ blanks, isBlank c = true) :
    nameExtent (before ++ (name ++ (blanks ++ ',' :: after)))
        ⟨byteLength before, byteLength (before ++ name)⟩ =
      some ⟨byteLength before,
        byteLength (before ++ (name ++ (blanks ++ ',' :: after.takeWhile isBlank)))⟩ := by
  unfold nameExtent
  rw [split?_behind]
  refine (Option.bind_some _ _).trans ?_
  dsimp only
  rw [drop_takeWhile_length, trimStart_blanks hb (by decide), takeWhile_blanks hb (by decide)]
  refine congrArg some (congrArg (Span.mk _) ?_)
  simp only [byteLength_append, byteLength_cons]
  have hcomma : ','.utf8Size = 1 := rfl
  omega

variable {after}

/-- Without a comma behind a name it is the text in front of it that matters. -/
theorem nameExtent_not_behind (ha : (trimStart after).head? ≠ some ',') :
    nameExtent (before ++ (name ++ after)) ⟨byteLength before, byteLength (before ++ name)⟩ =
      match (trimEnd before).reverse with
      | ',' :: rest => some ⟨byteLength rest, byteLength (before ++ name)⟩
      | _ => some ⟨byteLength before, byteLength (before ++ name)⟩ := by
  unfold nameExtent
  rw [split?_behind, split?_append]
  refine (Option.bind_some _ _).trans ?_
  dsimp only
  rw [drop_takeWhile_length]
  split
  · next rest hs =>
      rw [hs] at ha
      exact absurd rfl ha
  · rfl

/-- Then a comma in front of the name goes with it. -/
theorem nameExtent_front {blanks : List Char} (hb : ∀ c ∈ blanks, isBlank c = true)
    (ha : (trimStart after).head? ≠ some ',') :
    nameExtent ((before ++ ',' :: blanks) ++ (name ++ after))
        ⟨byteLength (before ++ ',' :: blanks), byteLength ((before ++ ',' :: blanks) ++ name)⟩ =
      some ⟨byteLength before, byteLength ((before ++ ',' :: blanks) ++ name)⟩ := by
  rw [nameExtent_not_behind _ _ ha, reverse_trimEnd_blanks hb (by decide)]
  exact congrArg some (congrArg (Span.mk · _) (byteLength_reverse before))

/-- No comma stands right behind or right in front of a place, blanks aside. -/
structure Alone (before after : List Char) : Prop where
  behind : (trimStart after).head? ≠ some ','
  front : (trimEnd before).getLast? ≠ some ','

variable {before}

/-- Without a comma next to it a name goes alone. -/
theorem nameExtent_alone (h : Alone before after) :
    nameExtent (before ++ (name ++ after)) ⟨byteLength before, byteLength (before ++ name)⟩ =
      some ⟨byteLength before, byteLength (before ++ name)⟩ := by
  rw [nameExtent_not_behind _ _ h.behind]
  split
  · next rest ht =>
      have hcomma : (trimEnd before).getLast? = some ',' := by
        rw [List.getLast?_eq_head?_reverse, ht, List.head?_cons]
      exact absurd hcomma h.front
  · rfl

end

end Text

/-! ## Carrying out -/

namespace Script

open Running

variable {c : Config} {registry : Registry} {script : Script} {code file : String}
  {calls : List StyleCall} {verdicts : List (StyleCall × Option String)}
  {reports reports' : List UnknownStyle} {replaced : ReplacedScript} {source : List Char}

/-- Each call gets a verdict, in order. -/
theorem calls_of_judgeAll
    (h : (judgeAll c registry script file calls).run reports = (.ok verdicts, reports')) :
    verdicts.map Prod.fst = calls := by
  induction calls generalizing verdicts reports with
  | nil =>
      cases h
      rfl
  | cons call calls ih =>
      unfold judgeAll at h
      obtain ⟨e, reports₁, -, h⟩ := exists_of_run_bind h
      obtain ⟨verdict, reports₂, -, h⟩ := exists_of_run_bind h
      obtain ⟨rest, reports₃, hrest, h⟩ := exists_of_run_bind h
      cases h
      rw [List.map_cons, ih hrest]

/-- What comes out of a replacement are the verdicts on the calls of the script, carried
out. -/
theorem exists_of_replaceCalls
    (h : (replaceCalls c registry code file).run reports = (.ok (some replaced), reports')) :
    ∃ script verdicts, Script.read c.function code file = .ok script ∧
      verdicts.map Prod.fst = script.calls ∧ replaced = script.carryOut code.toList verdicts := by
  unfold replaceCalls at h
  obtain ⟨script, reports₁, hread, h⟩ := exists_of_run_bind h
  rw [run_lift] at hread
  split at h
  · cases h
  · obtain ⟨verdicts, reports₂, hverdicts, h⟩ := exists_of_run_bind h
    cases h
    exact ⟨script, verdicts, congrArg Prod.fst hread, calls_of_judgeAll hverdicts, rfl⟩

/-- The edits that put class names in the place of calls. -/
def callEdits (calls : List StyleCall) (names : List String) : List Edit :=
  List.zipWith (fun call className => ⟨call.span, quoted className.toList⟩) calls names

/-- If no call is left as it is, there is an edit for every call. -/
theorem filterMap_callEdit (h : verdicts.countP (·.2.isNone) = 0) :
    verdicts.filterMap callEdit = callEdits (verdicts.map Prod.fst) (verdicts.filterMap (·.2)) := by
  induction verdicts with
  | nil => rfl
  | cons v verdicts ih =>
      obtain ⟨call, _ | className⟩ := v
      · rw [List.countP_cons_of_pos rfl] at h
        cases h
      · rw [List.countP_cons_of_neg Bool.false_ne_true] at h
        exact congrArg (_ :: ·) (ih h)

theorem exists_of_mem_callEdits {names : List String} {e : Edit} (h : e ∈ callEdits calls names) :
    ∃ call ∈ calls, e.span = call.span := by
  induction calls generalizing names with
  | nil => cases h
  | cons call calls ih =>
      cases names with
      | nil => cases h
      | cons className names =>
          rcases List.mem_cons.mp h with rfl | h
          · exact ⟨call, List.mem_cons_self, rfl⟩
          · obtain ⟨call', hcall, hspan⟩ := ih h
            exact ⟨call', List.mem_cons_of_mem call hcall, hspan⟩

end Script

/-! ## The style function in a list -/

/-- A module that starts with an import list, with the style function in it and a comma
behind the function. -/
structure ListedFunction where
  /-- What stands in front of the list. -/
  head : ImportHead
  /-- The names in front. -/
  names : List ListedName
  /-- The gap in front of the function. -/
  front : List Char
  /-- The function, with its name in the other module if that is another one. -/
  name : List Char
  /-- The gap between the function and its comma. -/
  back : List Char
  /-- What stands behind the comma. -/
  rest : List Char
  gap_front : Gap front
  gap_back : Gap back

namespace ListedFunction

variable (n : ListedFunction)

/-- The text in front of the function. -/
def before : List Char := n.head.text (listed n.names n.front)

/-- The text of the module. -/
def text : List Char := n.before ++ (n.name ++ (n.back ++ ',' :: n.rest))

/-- Where the function stands. -/
def span : Span := ⟨byteLength n.before, byteLength (n.before ++ n.name)⟩

/-- Where its comma and some of what follows it end. -/
def stopOf (blanks : List Char) : Nat :=
  byteLength (n.before ++ (n.name ++ (n.back ++ ',' :: blanks)))

/-- No comma can be seen from the function. -/
def Alone : Prop := Text.Alone n.before (n.back ++ ',' :: n.rest)

/-- A comma that can be seen in front of the function stands in no comment. -/
def Plain : Prop := (trimEnd n.before).getLast? = some ',' → ∀ c ∈ n.front, isBlank c = true

/-- What is read of a script agrees with where the function stands: it is imported there
and nowhere else, and all that refers to it are calls behind the comma. -/
structure IsImported (script : Script) : Prop where
  imports : ∃ i, script.imports = [i] ∧ i.specifier = n.span ∧ i.specifiers ≠ 1
  strayReferences : script.strayReferences = 0
  calls : ∀ call ∈ script.calls, (slice? n.text call.span).isSome ∧
    n.stopOf (n.rest.takeWhile isBlank) ≤ call.span.start

/-- A text is the module without the function: the list has the other names, and apart
from the edits what follows the comma, or the blanks behind it, is what follows them in
the module. -/
inductive LeftOut (edits : List Edit) : List Char → Prop where
  | intro {names : List ListedName} {front blanks rest out : List Char} {edits' : List Edit} :
      names.map (·.word) = n.names.map (·.word) → Gap front →
      n.rest = blanks ++ rest → (∀ c ∈ blanks, isBlank c = true) →
      edits'.Perm edits → spliceFrom n.text (n.stopOf blanks) edits' = some out →
      LeftOut edits (n.head.text (listed names (front ++ out)))

/-- Without the function alone the module is none. -/
theorem parseModule_eq_none (s : List Char) (language : Syntax.Language) :
    Syntax.parseModule language (n.before ++ (n.back ++ ',' :: s)) = none := by
  have htext : n.before ++ (n.back ++ ',' :: s) =
      n.head.text (listed n.names ((n.front ++ n.back) ++ ',' :: s)) := by
    rw [before, ← Syntax.ImportHead.text_append, ← Syntax.listed_append, List.append_assoc]
  rw [htext]
  exact Syntax.parseModule_eq_none n.head n.names (n.gap_front.append n.gap_back) s language

theorem stopOf_le {blanks rest : List Char} (h : n.rest = blanks ++ rest)
    (hb : ∀ c ∈ blanks, isBlank c = true) :
    n.stopOf blanks ≤ n.stopOf (n.rest.takeWhile isBlank) := by
  have htake : n.rest.takeWhile isBlank = blanks ++ rest.takeWhile isBlank := by
    rw [h, List.takeWhile_append_of_pos hb]
  simp only [stopOf, htake, Text.byteLength_append, Text.byteLength_cons]
  omega

variable {n} {script : Script} {verdicts : List (StyleCall × Option String)}
  {a s k b blanks rest : List Char}

/-- Once all calls are replaced, the extent of the function is taken out and the rest is
left, up to the edits of the calls. -/
theorem exists_carryOut (hi : n.IsImported script) (hv : verdicts.map Prod.fst = script.calls)
    (hu : (script.carryOut n.text verdicts).unresolved = 0)
    (hr : n.rest = blanks ++ rest) (hb : ∀ c ∈ blanks, isBlank c = true)
    (hextent : nameExtent n.text n.span = some ⟨byteLength a, byteLength (a ++ s)⟩)
    (ht : n.text = a ++ (s ++ (k ++ b))) (hne : s ++ k ≠ [])
    (hk : byteLength (a ++ (s ++ k)) = n.stopOf blanks) :
    ∃ edits out, edits.Perm (Script.callEdits script.calls
        (script.carryOut n.text verdicts).classNames) ∧
      spliceFrom n.text (n.stopOf blanks) edits = some out ∧
      (script.carryOut n.text verdicts).code = String.ofList (a ++ (k ++ out)) := by
  obtain ⟨i, himports, hspecifier, hspecifiers⟩ := hi.imports
  have hremovals : script.imports.filterMap (Script.importEdit n.text) =
      [.delete ⟨byteLength a, byteLength (a ++ s)⟩] := by
    rw [himports, List.filterMap_cons, Script.importEdit, if_neg hspecifiers, hspecifier, hextent]
    rfl
  unfold Script.carryOut at hu ⊢
  dsimp only at hu ⊢
  rw [if_pos ⟨hu, hi.strayReferences⟩, hremovals, Script.filterMap_callEdit hu, hv]
  have hcalls : ∀ e ∈ Script.callEdits script.calls (verdicts.filterMap (·.2)),
      (slice? n.text e.span).isSome ∧ byteLength (a ++ (s ++ k)) ≤ e.span.start := by
    intro e he
    obtain ⟨call, hcall, hspan⟩ := Script.exists_of_mem_callEdits he
    rw [hspan, hk]
    exact ⟨(hi.calls call hcall).1, (n.stopOf_le hr hb).trans (hi.calls call hcall).2⟩
  obtain ⟨edits, out, hperm, hout, hsplice⟩ := Text.splice_delete ht hne
    (fun e he => (hcalls e he).1) (fun e he => (hcalls e he).2)
  rw [hsplice]
  exact ⟨edits, out, hperm, hk ▸ hout, rfl⟩

/-- A function that goes alone leaves its comma in its place. -/
theorem exists_carryOut_of_alone (hi : n.IsImported script)
    (hv : verdicts.map Prod.fst = script.calls)
    (hu : (script.carryOut n.text verdicts).unresolved = 0) (ha : n.Alone) :
    ∃ out, (script.carryOut n.text verdicts).code =
      String.ofList (n.before ++ (n.back ++ ',' :: out)) := by
  have hrest : n.rest = [] ++ n.rest := rfl
  have htext : n.text = n.before ++ (n.name ++ ((n.back ++ [',']) ++ n.rest)) := by
    simp only [text, List.append_assoc, List.cons_append, List.nil_append]
  obtain ⟨-, out, -, -, hcode⟩ := exists_carryOut hi hv hu hrest nofun
    (Text.nameExtent_alone n.name ha) htext (by simp) rfl
  refine ⟨out, ?_⟩
  rw [hcode, List.append_assoc n.back]
  rfl

/-- A function goes with a comma behind it. -/
theorem leftOut_of_behind (hi : n.IsImported script) (hv : verdicts.map Prod.fst = script.calls)
    (hu : (script.carryOut n.text verdicts).unresolved = 0)
    (hb : ∀ c ∈ n.back, isBlank c = true) :
    n.LeftOut (Script.callEdits script.calls (script.carryOut n.text verdicts).classNames)
      (script.carryOut n.text verdicts).code.toList := by
  have hr : n.rest = n.rest.takeWhile isBlank ++ n.rest.dropWhile isBlank :=
    List.takeWhile_append_dropWhile.symm
  have hblank : ∀ c ∈ n.rest.takeWhile isBlank, isBlank c = true := fun c hc =>
    List.all_eq_true.mp List.all_takeWhile c hc
  have htext : n.text = n.before ++ ((n.name ++ (n.back ++ ',' :: n.rest.takeWhile isBlank)) ++
      ([] ++ n.rest.dropWhile isBlank)) := by
    simp only [text, List.append_assoc, List.cons_append, List.nil_append,
      List.takeWhile_append_dropWhile]
  obtain ⟨edits, out, hperm, hout, hcode⟩ := exists_carryOut hi hv hu hr hblank
    (Text.nameExtent_behind n.before n.name n.rest hb) htext (by simp)
    (by rw [List.append_nil]; rfl)
  rw [hcode, String.toList_ofList, List.nil_append, before, ← Syntax.ImportHead.text_append,
    ← Syntax.listed_append]
  exact .intro rfl n.gap_front hr hblank hperm hout

/-- A comma in front of the function is the one of the name there, if it stands in no
comment. -/
theorem exists_names_of_front (hb : ∀ c ∈ n.front, isBlank c = true)
    (hfront : (trimEnd n.before).getLast? = some ',') :
    ∃ init last, n.names = init ++ [last] ∧ n.before =
      n.head.text (listed init (last.front ++ (last.word ++ last.back))) ++ ',' :: n.front := by
  rcases List.eq_nil_or_concat' n.names with hnil | ⟨init, last, hnames⟩
  · -- In front of the first name stands the brace.
    obtain ⟨opening, hopening⟩ := n.head.exists_text
    have hbefore : n.before = opening ++ '{' :: n.front := by
      rw [before, hnil]
      exact hopening n.front
    rw [hbefore, List.getLast?_eq_head?_reverse,
      Text.reverse_trimEnd_blanks hb (by decide)] at hfront
    exact absurd (Option.some.inj hfront) (by decide)
  · refine ⟨init, last, hnames, ?_⟩
    rw [before, hnames, Syntax.listed_concat, Syntax.ImportHead.text_append]

/-- Otherwise it goes with a comma in front of it.  Its gap is then behind the name
there. -/
theorem leftOut_of_front (hi : n.IsImported script) (hv : verdicts.map Prod.fst = script.calls)
    (hu : (script.carryOut n.text verdicts).unresolved = 0)
    (hb : ∀ c ∈ n.front, isBlank c = true)
    (hback : (trimStart (n.back ++ ',' :: n.rest)).head? ≠ some ',')
    (hfront : (trimEnd n.before).getLast? = some ',') :
    n.LeftOut (Script.callEdits script.calls (script.carryOut n.text verdicts).classNames)
      (script.carryOut n.text verdicts).code.toList := by
  obtain ⟨init, last, hnames, hbefore⟩ := exists_names_of_front hb hfront
  have hleft : ∀ out, n.head.text (listed (init ++ [last.extend n.gap_back]) out) =
      n.head.text (listed init (last.front ++ (last.word ++ last.back))) ++
        ((n.back ++ [',']) ++ out) := by
    intro out
    rw [Syntax.listed_extend, Syntax.ImportHead.text_append, List.append_assoc n.back]
    rfl
  generalize n.head.text (listed init (last.front ++ (last.word ++ last.back))) = p
    at hbefore hleft
  have hextent : nameExtent n.text n.span =
      some ⟨byteLength p, byteLength (p ++ (',' :: n.front ++ n.name))⟩ := by
    rw [text, span, hbefore, ← List.append_assoc p (',' :: n.front) n.name]
    exact Text.nameExtent_front p n.name hb hback
  have htext : n.text = p ++ ((',' :: n.front ++ n.name) ++ ((n.back ++ [',']) ++ n.rest)) := by
    rw [text, hbefore]
    simp only [List.append_assoc, List.cons_append, List.nil_append]
  have hstop : byteLength (p ++ ((',' :: n.front ++ n.name) ++ (n.back ++ [',']))) =
      n.stopOf [] := by
    rw [stopOf, hbefore]
    simp only [List.append_assoc, List.cons_append]
  have hrest : n.rest = [] ++ n.rest := rfl
  obtain ⟨edits, out, hperm, hout, hcode⟩ := exists_carryOut hi hv hu hrest nofun hextent
    htext (by simp) hstop
  have hwords : (init ++ [last.extend n.gap_back]).map (·.word) = n.names.map (·.word) := by
    rw [hnames, List.map_append, List.map_append]
    rfl
  rw [hcode, String.toList_ofList, ← hleft]
  exact .intro hwords .nil hrest nofun hperm hout

end ListedFunction

namespace Script

open Running

variable {code : String}

/-- What comes out of a script that starts with an import list with the style function in
it.  A function that goes alone leaves its comma behind, and what comes out is no module
of any language.  Otherwise what comes out is the script without the function. -/
theorem replaceCalls_listed {c : Config} {registry : Registry} {file : String}
    {script : Script} {reports reports' : List UnknownStyle} {replaced : ReplacedScript}
    (n : ListedFunction) (hcode : code.toList = n.text)
    (hread : Script.read c.function code file = .ok script) (hi : n.IsImported script)
    (hrun : (replaceCalls c registry code file).run reports = (.ok (some replaced), reports'))
    (hu : replaced.unresolved = 0) :
    (n.Alone → ∀ language, Syntax.parseModule language replaced.code.toList = none) ∧
      (¬ n.Alone → n.Plain →
        n.LeftOut (callEdits script.calls replaced.classNames) replaced.code.toList) := by
  obtain ⟨script', verdicts, hread', hv, rfl⟩ := exists_of_replaceCalls hrun
  rw [hread] at hread'
  cases hread'
  rw [hcode] at hu ⊢
  constructor
  · intro ha language
    obtain ⟨out, hout⟩ := ListedFunction.exists_carryOut_of_alone hi hv hu ha
    rw [hout, String.toList_ofList]
    exact n.parseModule_eq_none out language
  · intro ha hplain
    by_cases hback : (trimStart (n.back ++ ',' :: n.rest)).head? = some ','
    · exact ListedFunction.leftOut_of_behind hi hv hu (n.gap_back.blank_of_trimStart n.rest hback)
    · by_cases hfront : (trimEnd n.before).getLast? = some ','
      · exact ListedFunction.leftOut_of_front hi hv hu (hplain hfront) hback hfront
      · exact absurd ⟨hback, hfront⟩ ha

/-- Settings with names that keep a script short. -/
def shortNames : Config := { Config.default with callee := "c", importSource := "m" }

/-- The style function at the front of a list. -/
def firstName (back : List Char) (hb : Gap back) : ListedFunction where
  head := ⟨[], none, [], .nil, .nil, nofun⟩
  names := []
  front := []
  name := ['c']
  back := back
  rest := "x\x7dfrom\"m\";c(\x7ba:0\x7d)".toList
  gap_front := .nil
  gap_back := hb

theorem exists_isImported (code : String) {n : ListedFunction} (i : StyleImport) (r : Span)
    (h : (Script.read shortNames.function code "a.ts").toOption.map
      (fun s => (s.imports, s.strayReferences, s.calls.map fun call => call.span)) =
        some ([i], 0, [r]))
    (hi : i.specifier = n.span ∧ i.specifiers ≠ 1)
    (hr : (slice? n.text r).isSome ∧ n.stopOf (n.rest.takeWhile isBlank) ≤ r.start) :
    ∃ script, Script.read shortNames.function code "a.ts" = .ok script ∧ n.IsImported script := by
  obtain ⟨script, hread, hscript⟩ := exists_of_toOption h
  rw [Prod.mk.injEq, Prod.mk.injEq] at hscript
  obtain ⟨himports, hstray, hspans⟩ := hscript
  refine ⟨script, hread, ⟨i, himports, hi⟩, hstray, fun call hcall => ?_⟩
  have hspan : call.span = r :=
    List.mem_singleton.mp (hspans ▸ List.mem_map.mpr ⟨call, hcall, rfl⟩)
  rw [hspan]
  exact hr

theorem exists_replaced (code : String)
    (h : (rulesOf shortNames code "a.ts").toOption.map List.length = some 1) :
    ∃ registry replaced, (replaceCalls shortNames registry code "a.ts").run [] =
      (.ok (some replaced), []) ∧ replaced.unresolved = 0 := by
  obtain ⟨rules, hrules, hlength⟩ := exists_of_toOption h
  have hk := (Registry.addAll_holds rules "a.ts" .empty).hasClass
  obtain ⟨output, hrun, hnone, hsome⟩ := replaceCalls_run hrules hk []
  cases output with
  | none =>
      rw [hnone.mp rfl] at hlength
      cases hlength
  | some replaced => exact ⟨_, replaced, hrun, (hsome replaced rfl).1⟩

theorem gap_comment : Gap ['/', '*', '*', '/'] :=
  .block (by decide : ¬ ['*', '/'] <:+: []) .nil

theorem gap_blank : Gap [' '] := .space rfl .nil

/-- A comment in front of the comma spoils the script, and a blank does not. -/
theorem replaceCalls_listed_first :
    (∃ registry replaced, (replaceCalls shortNames registry
        "import\x7bc/**/,x\x7dfrom\"m\";c(\x7ba:0\x7d)" "a.ts").run [] = (.ok (some replaced), []) ∧
      ∀ language, Syntax.parseModule language replaced.code.toList = none) ∧
    ∃ registry replaced, ∃ script : Script, (replaceCalls shortNames registry
        "import\x7bc ,x\x7dfrom\"m\";c(\x7ba:0\x7d)" "a.ts").run [] = (.ok (some replaced), []) ∧
      (firstName [' '] gap_blank).LeftOut (callEdits script.calls replaced.classNames)
        replaced.code.toList := by
  constructor
  · obtain ⟨script, hread, hi⟩ := exists_isImported
      "import\x7bc/**/,x\x7dfrom\"m\";c(\x7ba:0\x7d)" (n := firstName _ gap_comment)
      ⟨⟨0, 23⟩, ⟨7, 8⟩, 2⟩ ⟨23, 31⟩ (by decide +kernel) (by decide +kernel) (by decide +kernel)
    obtain ⟨registry, replaced, hrun, hu⟩ := exists_replaced
      "import\x7bc/**/,x\x7dfrom\"m\";c(\x7ba:0\x7d)" (by decide +kernel)
    have hlisted := replaceCalls_listed _ (by decide +kernel) hread hi hrun hu
    exact ⟨registry, replaced, hrun, hlisted.1 ⟨by decide, by decide⟩⟩
  · obtain ⟨script, hread, hi⟩ := exists_isImported
      "import\x7bc ,x\x7dfrom\"m\";c(\x7ba:0\x7d)" (n := firstName _ gap_blank)
      ⟨⟨0, 20⟩, ⟨7, 8⟩, 2⟩ ⟨20, 28⟩ (by decide +kernel) (by decide +kernel) (by decide +kernel)
    obtain ⟨registry, replaced, hrun, hu⟩ := exists_replaced
      "import\x7bc ,x\x7dfrom\"m\";c(\x7ba:0\x7d)" (by decide +kernel)
    have hlisted := replaceCalls_listed _ (by decide +kernel) hread hi hrun hu
    exact ⟨registry, replaced, script, hrun,
      hlisted.2 (fun ha => ha.behind (by decide)) fun _ => nofun⟩

end Script

end StaticStyle
