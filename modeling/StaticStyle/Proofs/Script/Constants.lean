import StaticStyle.Proofs.Declaration
import StaticStyle.Proofs.Running

/-!
# Constants of scripts

The arguments of all calls of a script are evaluated with one table of constants.  It holds the
constants that statements at the top of the program declare, as far as their initial values can
be evaluated, and no others (`Script.hasConstant_of_constants`,
`Script.has_constants_of_hasConstant`).

Where a call stands makes no difference.  A name that has no constant at the top has no value,
whatever it is bound to around the call, and one that has a constant at the top stands for that
constant (`Script.ruleOf_constants`), even where a parameter of a function around the call has
the same name (`Script.ruleOf_shadowed`).
-/

namespace StaticStyle

open StaticStyle.Syntax (Tree)

/-! ## Constants at the top -/

/-- A statement declares a constant of a name with an initial value. -/
inductive DeclaresConstant (name : String) (initial : Tree) : Tree → Prop where
  | list {span declarators declarator pattern} :
      declarator ∈ declarators → declarator.children = [pattern, initial] →
      boundName? pattern = some name →
      DeclaresConstant name initial (.node (.variableList "const") span declarators)
  | exported {span declaration} :
      DeclaresConstant name initial declaration →
      DeclaresConstant name initial (.node .exportDeclaration span [declaration])
  | declared {span declaration} :
      DeclaresConstant name initial declaration →
      DeclaresConstant name initial (.node .declare span [declaration])

section

variable {name : String} {constants : Constants} {e : Expression} {declarator statement : Tree}

/-- A declarator adds nothing, or the constant of its name with its initial value. -/
theorem addConstant_cases (constants : Constants) (declarator : Tree) :
    addConstant constants declarator = constants ∨
      ∃ pattern initial name e, declarator.children = [pattern, initial] ∧
        boundName? pattern = some name ∧ Expression.ofTree initial = .ok e ∧
        addConstant constants declarator = constants.put name e := by
  unfold addConstant
  split
  · rename_i pattern initial hchildren
    cases hname : boundName? pattern with
    | none => exact Or.inl rfl
    | some name =>
        dsimp only
        split
        · exact Or.inl rfl
        · cases he : Expression.ofTree initial with
          | error fault => exact Or.inl rfl
          | ok e => exact Or.inr ⟨pattern, initial, name, e, hchildren, hname, he, rfl⟩
  · exact Or.inl rfl

/-- The constants of declarators are those that they declare. -/
theorem exists_of_get?_foldl_addConstant {declarators : List Tree}
    (h : (declarators.foldl addConstant constants).get? name = some e) :
    constants.get? name = some e ∨ ∃ declarator ∈ declarators, ∃ pattern initial,
      declarator.children = [pattern, initial] ∧ boundName? pattern = some name ∧
        Expression.ofTree initial = .ok e := by
  induction declarators generalizing constants with
  | nil => exact Or.inl h
  | cons declarator rest ih =>
      rw [List.foldl_cons] at h
      rcases ih h with hadded | ⟨other, hother, hdeclares⟩
      · rcases addConstant_cases constants declarator with
          hsame | ⟨pattern, initial, name', e', hchildren, hname, he, hput⟩
        · rw [hsame] at hadded
          exact Or.inl hadded
        · rw [hput, Table.get?_put] at hadded
          split at hadded
          · rename_i heq
            subst heq
            cases hadded
            exact Or.inr ⟨declarator, List.mem_cons_self, pattern, initial, hchildren, hname, he⟩
          · exact Or.inl hadded
      · exact Or.inr ⟨other, List.mem_cons_of_mem _ hother, hdeclares⟩

/-- The constants of a statement are those that it declares. -/
theorem exists_of_get?_addConstants
    (h : (addConstants constants statement).get? name = some e) :
    constants.get? name = some e ∨
      ∃ initial, DeclaresConstant name initial statement ∧ Expression.ofTree initial = .ok e := by
  fun_induction addConstants constants statement with
  | case1 declarators span =>
      rcases exists_of_get?_foldl_addConstant h with
        hbefore | ⟨declarator, hmem, pattern, initial, hchildren, hname, he⟩
      · exact Or.inl hbefore
      · exact Or.inr ⟨initial, .list hmem hchildren hname, he⟩
  | case2 kind span declarators hkind => exact Or.inl h
  | case3 span declaration ih =>
      rcases ih h with hbefore | ⟨initial, hdeclares, he⟩
      · exact Or.inl hbefore
      · exact Or.inr ⟨initial, .exported hdeclares, he⟩
  | case4 span declaration ih =>
      rcases ih h with hbefore | ⟨initial, hdeclares, he⟩
      · exact Or.inl hbefore
      · exact Or.inr ⟨initial, .declared hdeclares, he⟩
  | case5 => exact Or.inl h

/-- No declarator takes a constant away. -/
theorem has_addConstant (h : constants.has name = true) (declarator : Tree) :
    (addConstant constants declarator).has name = true := by
  rcases addConstant_cases constants declarator with hsame | ⟨_, _, name', e', _, _, _, hput⟩
  · rw [hsame]
    exact h
  · rw [hput, Table.has_put]
    exact Or.inr h

theorem has_foldl_addConstant (h : constants.has name = true) (declarators : List Tree) :
    (declarators.foldl addConstant constants).has name = true := by
  induction declarators generalizing constants with
  | nil => exact h
  | cons declarator rest ih => exact ih (has_addConstant h declarator)

/-- No statement takes a constant away. -/
theorem has_addConstants (h : constants.has name = true) (statement : Tree) :
    (addConstants constants statement).has name = true := by
  fun_induction addConstants constants statement with
  | case1 declarators span => exact has_foldl_addConstant h _
  | case2 kind span declarators hkind => exact h
  | case3 span declaration ih => exact ih
  | case4 span declaration ih => exact ih
  | case5 => exact h

theorem has_foldl_addConstants (h : constants.has name = true) (statements : List Tree) :
    (statements.foldl addConstants constants).has name = true := by
  induction statements generalizing constants with
  | nil => exact h
  | cons statement rest ih => exact ih (has_addConstants h statement)

/-- A declarator with a name and an initial value that can be evaluated makes a constant. -/
theorem has_addConstant_self {pattern initial : Tree} (constants : Constants)
    (hchildren : declarator.children = [pattern, initial]) (hname : boundName? pattern = some name)
    (he : Expression.ofTree initial = .ok e) :
    (addConstant constants declarator).has name = true := by
  have hpresent : initial.isAbsent = false := by
    cases habsent : initial.isAbsent with
    | false => rfl
    | true =>
        -- A part that is left out is no expression.
        obtain ⟨kind, span, children⟩ := initial
        obtain rfl : kind = .absent := eq_of_beq habsent
        cases he
  unfold addConstant
  rw [hchildren]
  dsimp only
  rw [hname]
  dsimp only
  rw [hpresent, if_neg Bool.false_ne_true, he]
  exact (Table.has_put _ _ _ _).mpr (Or.inl rfl)

theorem has_addConstants_of_declares {initial : Tree} (constants : Constants)
    (h : DeclaresConstant name initial statement) (he : Expression.ofTree initial = .ok e) :
    (addConstants constants statement).has name = true := by
  induction h with
  | @list span declarators declarator pattern hmem hchildren hname =>
      unfold addConstants
      rw [if_pos rfl]
      obtain ⟨before, after, rfl⟩ := List.append_of_mem hmem
      rw [List.foldl_append, List.foldl_cons]
      exact has_foldl_addConstant (has_addConstant_self _ hchildren hname he) after
  | exported _ ih =>
      unfold addConstants
      exact ih
  | declared _ ih =>
      unfold addConstants
      exact ih

/-- A program has a constant of a name: a statement at its top declares it, with an initial value
that can be evaluated. -/
def HasConstant (program : Tree) (name : String) (e : Expression) : Prop :=
  ∃ statement ∈ program.children, ∃ initial,
    DeclaresConstant name initial statement ∧ Expression.ofTree initial = .ok e

theorem hasConstant_of_get? {statements : List Tree}
    (h : (statements.foldl addConstants constants).get? name = some e) :
    constants.get? name = some e ∨ ∃ statement ∈ statements, ∃ initial,
      DeclaresConstant name initial statement ∧ Expression.ofTree initial = .ok e := by
  induction statements generalizing constants with
  | nil => exact Or.inl h
  | cons statement rest ih =>
      rcases ih h with hadded | ⟨other, hother, hdeclares⟩
      · rcases exists_of_get?_addConstants hadded with hbefore | hdeclares
        · exact Or.inl hbefore
        · exact Or.inr ⟨statement, List.mem_cons_self, hdeclares⟩
      · exact Or.inr ⟨other, List.mem_cons_of_mem _ hother, hdeclares⟩

end

namespace Script

variable {f : StyleFunction} {source : List Char} {program : Tree} {name : String}
  {e : Expression}

/-- The table of a script holds constants at the top of its program. -/
theorem hasConstant_of_constants (h : (Script.ofTree f source program).constants.get? name = some e) :
    HasConstant program name e := by
  rcases hasConstant_of_get? h with hempty | hdeclares
  · cases hempty
  · exact hdeclares

/-- The table of a script holds all constants at the top of its program. -/
theorem has_constants_of_hasConstant (h : HasConstant program name e) :
    (Script.ofTree f source program).constants.has name = true := by
  obtain ⟨statement, hmem, initial, hdeclares, he⟩ := h
  obtain ⟨before, after, hprogram⟩ := List.append_of_mem hmem
  change (program.children.foldl addConstants []).has name = true
  rw [hprogram, List.foldl_append, List.foldl_cons]
  exact has_foldl_addConstants (has_addConstants_of_declares _ hdeclares he) after

theorem eq_ofTree_of_read {code file : String} {script : Script}
    (hprogram : Syntax.parseModule (FileId.language file) code.toList = some program)
    (hread : Script.read f code file = .ok script) :
    script = Script.ofTree f code.toList program := by
  unfold Script.read at hread
  dsimp only at hread
  rw [hprogram] at hread
  cases hread
  rfl

/-! ## Calls -/

variable {c : Config} {script : Script} {call : StyleCall} {code file argument : String}

/-- The key of the rule of a call is the canonical text of the style of its argument. -/
theorem key_ruleOf (hargument : call.argument = some argument) (c : Config) (script : Script)
    (file : String) :
    (script.ruleOf c file call).map ClassRule.key =
      ((Declaration.styleOf argument script.constants c.limits c.theme).map
        Style.canonicalText).mapError (.inScript file) := by
  unfold ruleOf evaluate Declaration.styleOf
  rw [hargument]
  dsimp only
  cases Declaration.read argument script.constants c.limits with
  | error fault => rfl
  | ok d =>
      change (((d.canonicalKey c.theme).map _).mapError _).map _ =
        ((d.styleFor c.theme).map _).mapError _
      unfold Declaration.canonicalKey
      cases d.styleFor c.theme with
      | error fault => rfl
      | ok style => rfl

/-- A name is looked up among the constants at the top of the program, wherever the call stands.
If there is none of the name, the call has no rule for want of it, or it has the same with any
constant of the name.  The rule of a call is that of the style that its argument means with the
constants at the top. -/
theorem ruleOf_constants
    (hprogram : Syntax.parseModule (FileId.language file) code.toList = some program)
    (hread : Script.read c.function code file = .ok script)
    (hargument : call.argument = some argument) (name : String) :
    ((∀ e, ¬ HasConstant program name e) →
      script.ruleOf c file call =
          .error (.inScript file (.malformed argument (.unresolved name))) ∨
        ∀ initial, (Script.ruleOf c { script with constants := script.constants.put name initial }
            file call).map ClassRule.key =
          (script.ruleOf c file call).map ClassRule.key) ∧
      (script.constants.has name = true ↔ ∃ e, HasConstant program name e) ∧
      (∀ e, script.constants.get? name = some e → HasConstant program name e) ∧
      ∀ rule, script.ruleOf c file call = .ok rule → ∃ style,
        Declaration.Means argument (c.limits.level.restrict script.constants) c.theme style ∧
          rule.key = style.canonicalText := by
  obtain rfl := eq_ofTree_of_read hprogram hread
  have htable : ∀ e, (Script.ofTree c.function code.toList program).constants.get? name = some e →
      HasConstant program name e := fun e => hasConstant_of_constants
  refine ⟨?_, ?_, htable, ?_⟩
  · intro hnone
    have habsent : (Script.ofTree c.function code.toList program).constants.get? name = none := by
      rw [Option.eq_none_iff_forall_ne_some]
      intro e he
      exact hnone e (htable e he)
    have hkey := key_ruleOf hargument c (Script.ofTree c.function code.toList program) file
    by_cases hfault : Declaration.styleOf argument
        (Script.ofTree c.function code.toList program).constants c.limits c.theme =
        .error (.malformed argument (.unresolved name))
    · rw [hfault] at hkey
      left
      cases hrule : (Script.ofTree c.function code.toList program).ruleOf c file call with
      | ok rule =>
          rw [hrule] at hkey
          cases hkey
      | error fault =>
          rw [hrule] at hkey
          cases hkey
          rfl
    · right
      intro initial
      have hsame := (Declaration.styleOf_eq_or habsent
        (Expression.differAt_put name initial _) argument c.limits c.theme).resolve_left hfault
      rw [hkey, key_ruleOf hargument, hsame]
  · constructor
    · intro hhas
      obtain ⟨e, he⟩ := Option.isSome_iff_exists.mp hhas
      exact ⟨e, htable e he⟩
    · rintro ⟨e, he⟩
      exact has_constants_of_hasConstant he
  · intro rule hrule
    have hkey := key_ruleOf hargument c (Script.ofTree c.function code.toList program) file
    rw [hrule] at hkey
    cases hstyle : Declaration.styleOf argument
        (Script.ofTree c.function code.toList program).constants c.limits c.theme with
    | error fault =>
        rw [hstyle] at hkey
        cases hkey
    | ok style =>
        rw [hstyle] at hkey
        exact ⟨style, Declaration.means_of_styleOf hstyle, Except.ok.inj hkey⟩

/-- A build in which arguments may refer to constants. -/
def folding : Config :=
  { Config.default with limits := { Expression.Limits.default with level := .moduleConstants } }

/-- A call whose rule depends on a name without a constant has none. -/
theorem ruleOf_constants_none :
    ∃ script, Script.read folding.function "css({margin: a})" "./a.ts" = .ok script ∧
      script.ruleOf folding "./a.ts" ⟨⟨0, 16⟩, some "{margin: a}", "css({margin: a})"⟩ =
        .error (.inScript "./a.ts" (.malformed "{margin: a}" (.unresolved "a"))) := by
  obtain ⟨program, hprogram⟩ : ∃ program, Syntax.parseModule (FileId.language "./a.ts")
      "css({margin: a})".toList = some program := Option.isSome_iff_exists.mp (by decide +kernel)
  obtain ⟨script, hread, hscript⟩ : ∃ script,
      Script.read folding.function "css({margin: a})" "./a.ts" = .ok script ∧
        (script.constants.has "a", (script.ruleOf folding "./a.ts"
            ⟨⟨0, 16⟩, some "{margin: a}", "css({margin: a})"⟩).toOption.isSome,
          (Script.ruleOf folding { script with constants := script.constants.put "a" (.string "1") }
            "./a.ts" ⟨⟨0, 16⟩, some "{margin: a}", "css({margin: a})"⟩).toOption.isSome) =
          (false, false, true) := Running.exists_of_toOption (by decide +kernel)
  obtain ⟨habsent, hscript⟩ := Prod.mk.inj hscript
  obtain ⟨hwithout, hwith⟩ := Prod.mk.inj hscript
  have hargument : StyleCall.argument ⟨⟨0, 16⟩, some "{margin: a}", "css({margin: a})"⟩ =
      some "{margin: a}" := rfl
  obtain ⟨hcall, htable, -, -⟩ := ruleOf_constants hprogram hread hargument "a"
  have hnone : ∀ e, ¬ HasConstant program "a" e := by
    intro e he
    rw [htable.mpr ⟨e, he⟩] at habsent
    cases habsent
  refine ⟨script, hread, ?_⟩
  rcases hcall hnone with hfault | hsame
  · exact hfault
  · -- With a constant of the name there is a rule, so the call has come to the name.
    have hsome : ∀ x : Except StyleError ClassRule,
        (x.map ClassRule.key).toOption.isSome = x.toOption.isSome := by
      intro x
      cases x with
      | error fault => rfl
      | ok rule => rfl
    have hkey := congrArg (fun key => key.toOption.isSome) (hsame (.string "1"))
    rw [hsome, hsome, hwith, hwithout] at hkey
    cases hkey

/-- Whether a function around a piece of text has a parameter of a name. -/
def isParameterAround (name : String) (inner : Text.Span) (program : Tree) : Bool :=
  program.any fun t =>
    match t with
    | .node (.function _ _) span (_ :: _ :: parameters :: _) =>
        decide (span.start ≤ inner.start ∧ inner.stop ≤ span.stop) &&
          parameters.any (·.kind == .binding name)
    | .node (.arrow _ _) span (_ :: parameters :: _) =>
        decide (span.start ≤ inner.start ∧ inner.stop ≤ span.stop) &&
          parameters.any (·.kind == .binding name)
    | _ => false

/-- In the argument of a call, a parameter of the function around it stands for the constant at
the top that has the same name. -/
theorem ruleOf_shadowed :
    ∃ program script call rule,
      Syntax.parseModule (FileId.language "./a.ts")
          "const a = 1;\n(a) => css({margin: a})".toList = some program ∧
        Script.read folding.function "const a = 1;\n(a) => css({margin: a})" "./a.ts" = .ok script ∧
        script.calls = [call] ∧ call.argument = some "{margin: a}" ∧
        isParameterAround "a" call.span program = true ∧
        script.ruleOf folding "./a.ts" call = .ok rule ∧ rule.key = "margin:1;" := by
  obtain ⟨program, hprogram, haround⟩ : ∃ program, Syntax.parseModule (FileId.language "./a.ts")
      "const a = 1;\n(a) => css({margin: a})".toList = some program ∧
        isParameterAround "a" ⟨20, 36⟩ program = true := by
    refine Option.map_eq_some_iff.mp ?_
    decide +kernel
  obtain ⟨script, hread, hscript⟩ : ∃ script,
      Script.read folding.function "const a = 1;\n(a) => css({margin: a})" "./a.ts" = .ok script ∧
        (script.calls, (script.ruleOf folding "./a.ts" ⟨⟨20, 36⟩, some "{margin: a}",
          "css({margin: a})"⟩).toOption.map ClassRule.key) =
          ([⟨⟨20, 36⟩, some "{margin: a}", "css({margin: a})"⟩], some "margin:1;") :=
    Running.exists_of_toOption (by decide +kernel)
  obtain ⟨hcalls, hkey⟩ := Prod.mk.inj hscript
  obtain ⟨rule, hrule, hkey⟩ := Running.exists_of_toOption hkey
  exact ⟨program, script, _, rule, hprogram, hread, hcalls, rfl, haround, hrule, hkey⟩

end Script

end StaticStyle
