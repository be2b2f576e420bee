import StaticStyle.Proofs.Syntax.Running
import StaticStyle.Proofs.Syntax.Giving

/-!
# Expressions that start with a parenthesis

Each rule of expressions reads what the rule below it reads, and goes on if an operator of its own
follows (`GoesOn`).  So an expression that starts with a parenthesis starts with an expression in
parentheses, and is nothing but that if the text ends behind it (`goesOn_parenthesized`), unless the
parenthesis belongs to an arrow function (`exists_of_expression_run`).
-/

namespace StaticStyle.Syntax

open StaticStyle.Syntax.Parser StaticStyle.Syntax.Grammar

variable {ctx : Context} {c d : Cursor}

/-! ## Rules that go on -/

/-- A rule goes on behind what another one reads.  It fails if the other does, and at the end of
the text it reads nothing more. -/
structure GoesOn (ctx : Context) (c : Cursor) (p q : Parser Tree) : Prop where
  starts : ∀ {r}, p ctx c = some r → ∃ r', q ctx c = some r'
  ends : ∀ {t d}, q ctx c = some (t, d) → d.token = .endOfText → p ctx c = some (t, d)

theorem GoesOn.trans {p q r : Parser Tree} (h : GoesOn ctx c p q) (h' : GoesOn ctx c q r) :
    GoesOn ctx c p r where
  starts := fun hp => let ⟨_, hq⟩ := h.starts hp; h'.starts hq
  ends := fun hr hend => h.ends (h'.ends hr hend) hend

theorem GoesOn.congr {p p' q : Parser Tree} (h : p ctx c = p' ctx c) (h' : GoesOn ctx c p' q) :
    GoesOn ctx c p q where
  starts := fun hp => h'.starts (h ▸ hp)
  ends := fun hq hend => h.trans (h'.ends hq hend)

theorem GoesOn.bind {p q : Parser Tree} {f : Tree → Parser Tree} (h : p ctx c = q ctx c)
    (hend : ∀ t d, q ctx c = some (t, d) → d.token = .endOfText → f t ctx d = some (t, d)) :
    GoesOn ctx c (p >>= f) q := by
  constructor
  · intro r hr
    obtain ⟨t, d, ht, -⟩ := exists_of_bind_run hr
    exact ⟨(t, d), h ▸ ht⟩
  · intro t d ht htoken
    rw [bind_run_of_some (h.trans ht)]
    exact hend t d ht htoken

variable {self : Rules}

/-- No member and no call follows at the end of the text. -/
theorem leftHandSide_goesOn (hbound : 0 < ctx.bound) (hmark : c.token = .mark "(") :
    GoesOn ctx c (leftHandSideRule self) (parenthesized self) := by
  have hbase : memberBase self ctx c = parenthesized self ctx c := by
    obtain ⟨last, before, newline, start, here, token, stop, after⟩ := c
    cases hmark
    rfl
  unfold leftHandSideRule
  refine .bind hbase ?_
  intro t d ht hend
  have hstep : callStep self (t, false) ctx d = some (none, d) := by
    -- Every test of the next token fails, so it is enough to compute the step.
    obtain ⟨last, before, newline, start, here, token, stop, after⟩ := d
    obtain ⟨⟨typed, elements, ambient⟩, _, _, _, _, _, _, _, _⟩ := ctx
    cases hend
    cases typed with
    | false => rfl
    | true => rfl
  rw [bind_run_of_some (extend_run_of_end hbound hstep)]
  rfl

/-- No `++` and no `--` follows at the end of the text, and a parenthesis is no operator. -/
theorem unary_goesOn (hmark : c.token = .mark "(") :
    GoesOn ctx c (unaryRule self) (self .leftHandSide) := by
  unfold unaryRule
  refine .congr (?h : _ = (self .leftHandSide >>= ?f) ctx c) (.bind rfl ?e)
  case h =>
    rw [bind_run_of_some (position_run ctx c), bind_run_of_some (read_run ctx c)]
    dsimp only
    rw [bind_run_of_some (token_run ctx c), hmark]
    rfl
  intro t d ht hend
  obtain ⟨last, before, newline, start, here, token, stop, after⟩ := d
  cases hend
  rfl

/-- No operator follows at the end of the text, and an expression is a row of its own. -/
theorem infix_goesOn (hunary : GivesExpression (self .unary)) (hbound : 0 < ctx.bound)
    (hmark : c.token = .mark "(") : GoesOn ctx c (infixExpression self) (self .unary) := by
  have hoperand : operand self ctx c = self .unary ctx c := by
    obtain ⟨last, before, newline, start, here, token, stop, after⟩ := c
    cases hmark
    rfl
  unfold infixExpression
  refine .bind hoperand ?_
  intro t d ht hend
  have hstep : follower self ctx d = some (none, d) := by
    obtain ⟨last, before, newline, start, here, token, stop, after⟩ := d
    cases hend
    rfl
  have hrow : isRow (isPrivateName t) false [] = true :=
    (Bool.not_eq_true' _).mpr (isPrivateName_of_isExpression (hunary trivial ht))
  rw [bind_run_of_some (many_run_of_end hbound hstep), hrow]
  rfl

/-- Nothing is assigned and nothing depends on a condition at the end of the text. -/
theorem assignment_goesOn {inCondition : Bool} (hmark : c.token = .mark "(")
    (harrow : arrowFunction self inCondition ctx c = some (none, c)) :
    GoesOn ctx c (assignmentRule self inCondition) (infixExpression self) := by
  unfold assignmentRule
  refine .congr (?h : _ = (infixExpression self >>= ?f) ctx c) (.bind rfl ?e)
  case h =>
    rw [bind_run_of_some (read_run ctx c), bind_run_of_some (position_run ctx c)]
    dsimp only
    rw [bind_run_of_some (atWord_run_of_mark hmark "yield"), Bool.and_false,
      if_neg Bool.false_ne_true, bind_run_of_some harrow]
  intro t d ht hend
  obtain ⟨last, before, newline, start, here, token, stop, after⟩ := d
  cases hend
  rfl

/-- No comma follows at the end of the text. -/
theorem expression_goesOn (hbound : 0 < ctx.bound) :
    GoesOn ctx c (expressionRule self) (self (.assignment false)) := by
  unfold expressionRule separated
  refine .congr (?h : _ = (self (.assignment false) >>= ?f) ctx c) (.bind rfl ?e)
  case h =>
    rw [bind_run_of_some (position_run ctx c), bind_assoc]
  intro t d ht hend
  have hcomma : eat "," ctx d = some (false, d) := by
    obtain ⟨last, before, newline, start, here, token, stop, after⟩ := d
    cases hend
    rfl
  rw [bind_assoc, bind_run_of_some (many_run_of_end hbound (bind_run_of_some hcomma _))]
  rfl

/-! ## Arrow functions -/

/-- Whether a parenthesis starts an arrow function is decided without moving. -/
theorem arrowVerdict_run (async : Bool) (ctx : Context) (hmark : c.token = .mark "(") :
    ∃ verdict, arrowVerdict async ctx c = some (verdict, c) := by
  have hite : ∀ (b : Prop) [Decidable b] (p q : Parser (Option Bool)),
      (∃ verdict, p ctx c = some (verdict, c)) → (∃ verdict, q ctx c = some (verdict, c)) →
      ∃ verdict, (if b then p else q) ctx c = some (verdict, c) := by
    intro b _ p q hp hq
    split
    · exact hp
    · exact hq
  unfold arrowVerdict
  rw [bind_run_of_some (read_run ctx c), bind_run_of_some (get_run ctx c)]
  dsimp only
  rw [hmark]
  -- The verdict looks at three more tokens, and for some marks among them.
  cases c.next.token with
  | mark m =>
      by_cases hclose : m = ")"
      · subst hclose
        exact ⟨_, rfl⟩
      · by_cases hrest : m = "..."
        · subst hrest
          exact ⟨_, rfl⟩
        · simp only
          exact ⟨_, rfl⟩
  | word w escaped =>
      simp only
      refine hite _ _ _ ⟨_, rfl⟩ (hite _ _ _ ⟨_, rfl⟩ ?_)
      cases c.next.next.token with
      | mark m =>
          by_cases htype : m = ":"
          · subst htype
            exact ⟨_, rfl⟩
          · by_cases hoptional : m = "?"
            · subst hoptional
              cases c.next.next.next.token with
              | mark m => exact ⟨_, rfl⟩
              | _ => exact ⟨_, rfl⟩
            · simp only
              exact ⟨_, rfl⟩
      | _ => exact ⟨_, rfl⟩
  | _ => exact ⟨_, rfl⟩

/-- Where no arrow function is found, nothing has been read. -/
theorem arrow_run_of_none {inCondition : Bool} (hmark : c.token = .mark "(")
    (h : arrowFunction self inCondition ctx c = some (none, d)) : d = c := by
  have hname : isIdentifierToken ctx c.token = false := by
    rw [hmark]
    rfl
  have hasync : (c.token == .word "async" false) = false := by
    rw [hmark]
    rfl
  have hopen : (c.token == .mark "(") = true := by rw [hmark, beq_self_eq_true]
  obtain ⟨verdict, hverdict⟩ := arrowVerdict_run false ctx hmark
  unfold arrowFunction at h
  rw [bind_run_of_some (position_run ctx c), bind_run_of_some (read_run ctx c),
    bind_run_of_some (get_run ctx c)] at h
  simp only [hname, hasync, hopen, Bool.false_and, Bool.true_or, if_neg Bool.false_ne_true,
    if_true] at h
  rw [bind_run_of_some hverdict] at h
  cases verdict with
  | none => exact eq_of_attempt_run h
  | some starts => cases starts with
    | false =>
        cases h
        rfl
    | true =>
        obtain ⟨t, d', -, h⟩ := exists_of_bind_run h
        cases h

/-! ## The rules together -/

/-- The context of what stands in a parenthesis. -/
def Context.inside (ctx : Context) : Context := { ctx with allowIn := true, decorating := false }

/-- In a parenthesis there is an expression, and a closing parenthesis behind it. -/
theorem exists_of_parenthesized_run {t : Tree} (hmark : c.token = .mark "(")
    (h : parenthesized self ctx c = some (t, d)) :
    ∃ inner c₁, self .expression ctx.inside c.next = some (inner, c₁) ∧ c₁.token = .mark ")" ∧
      t = .node .parenthesized ⟨c.start, c₁.next.last⟩ [inner] ∧ d = c₁.next := by
  unfold parenthesized at h
  rw [bind_run_of_some (position_run ctx c), bind_run_of_some (expect_run_of_mark hmark)] at h
  obtain ⟨inner, c₁, hinner, h⟩ := exists_of_bind_run h
  obtain ⟨_, c₂, hclose, h⟩ := exists_of_bind_run h
  obtain ⟨htoken, rfl⟩ := eq_of_expect_run hclose
  cases h
  exact ⟨inner, c₁, hinner, htoken, rfl, rfl⟩

variable {depth : Nat}

/-- An expression that starts with a parenthesis and is no arrow function starts with an expression
in parentheses. -/
theorem goesOn_parenthesized (hbound : 0 < ctx.bound) (hmark : c.token = .mark "(")
    (harrow : arrowFunction (rules (depth + 2)) false ctx c = some (none, c)) :
    GoesOn ctx c (rules (depth + 4) .expression) (parenthesized (rules depth)) := by
  have hexpression : GoesOn ctx c (rules (depth + 4) .expression)
      (rules (depth + 3) (.assignment false)) := expression_goesOn hbound
  have hassignment : GoesOn ctx c (rules (depth + 3) (.assignment false))
      (infixExpression (rules (depth + 2))) := assignment_goesOn hmark harrow
  have hinfix : GoesOn ctx c (infixExpression (rules (depth + 2))) (rules (depth + 2) .unary) :=
    infix_goesOn (givesExpressions_rules _).unary hbound hmark
  have hunary : GoesOn ctx c (rules (depth + 2) .unary) (rules (depth + 1) .leftHandSide) :=
    unary_goesOn hmark
  have hleft : GoesOn ctx c (rules (depth + 1) .leftHandSide) (parenthesized (rules depth)) :=
    leftHandSide_goesOn hbound hmark
  exact (((hexpression.trans hassignment).trans hinfix).trans hunary).trans hleft

/-- An expression that starts with a parenthesis is looked at for an arrow function first. -/
theorem exists_of_expression_run {r : Tree × Cursor} (hbound : 0 < ctx.bound)
    (hmark : c.token = .mark "(") (h : rules (depth + 4) .expression ctx c = some r) :
    (∃ t d, arrowFunction (rules (depth + 2)) false ctx c = some (some t, d)) ∨
      arrowFunction (rules (depth + 2)) false ctx c = some (none, c) := by
  have hexpression : GoesOn ctx c (rules (depth + 4) .expression)
      (rules (depth + 3) (.assignment false)) := expression_goesOn hbound
  obtain ⟨r', hassignment⟩ := hexpression.starts h
  change assignmentRule (rules (depth + 2)) false ctx c = _ at hassignment
  unfold assignmentRule at hassignment
  rw [bind_run_of_some (read_run ctx c), bind_run_of_some (position_run ctx c)] at hassignment
  dsimp only at hassignment
  rw [bind_run_of_some (atWord_run_of_mark hmark "yield"), Bool.and_false,
    if_neg Bool.false_ne_true] at hassignment
  obtain ⟨found, d, harrow, -⟩ := exists_of_bind_run hassignment
  cases found with
  | some t => exact Or.inl ⟨t, d, harrow⟩
  | none =>
      obtain rfl := arrow_run_of_none hmark harrow
      exact Or.inr harrow

section

variable (hmark : c.token = .mark "(")

include hmark

/-- An item of a module that starts with a parenthesis is an expression as a statement. -/
theorem item_run : rules (depth + 6) .item ctx c =
    (do
      let e ← allowingIn (rules (depth + 4) .expression)
      semicolon
      node c.start .expressionStatement [e]) ctx c := by
  obtain ⟨last, before, newline, start, here, token, stop, after⟩ := c
  cases hmark
  rfl

theorem exists_of_item_run {r : Tree × Cursor} (h : rules (depth + 6) .item ctx c = some r) :
    ∃ r', rules (depth + 4) .expression ctx.inside c = some r' := by
  rw [item_run hmark] at h
  obtain ⟨t, d, ht, -⟩ := exists_of_bind_run h
  exact ⟨(t, d), ht⟩

theorem item_run_of_end {t : Tree} (h : rules (depth + 4) .expression ctx.inside c = some (t, d))
    (hend : d.token = .endOfText) :
    rules (depth + 6) .item ctx c = some (.node .expressionStatement ⟨c.start, d.last⟩ [t], d) := by
  have hsemicolon : semicolon ctx d = some ((), d) := by
    obtain ⟨last, before, newline, start, here, token, stop, after⟩ := d
    cases hend
    rfl
  have ht : allowingIn (rules (depth + 4) .expression) ctx c = some (t, d) := h
  rw [item_run hmark, bind_run_of_some ht, bind_run_of_some hsemicolon]
  rfl

end

end StaticStyle.Syntax
