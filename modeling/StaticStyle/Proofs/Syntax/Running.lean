import StaticStyle.Syntax.Module

/-!
# Running parsers

The lemmas here run a parser one step at a time on a cursor whose next token is
known.  A parser that fails at a step fails as a whole (`bind_run_of_none`), and one
that succeeds has succeeded at every step (`exists_of_bind_run`).
-/

namespace StaticStyle.Syntax

open StaticStyle.Syntax.Parser StaticStyle.Syntax.Grammar

variable {α β : Type} {ctx : Context} {c d : Cursor} {w m : String}

theorem bind_run (p : Parser α) (f : α → Parser β) (ctx : Context) (c : Cursor) :
    (p >>= f) ctx c = (p ctx c).bind fun r => f r.1 ctx r.2 := rfl

theorem bind_run_of_some {p : Parser α} {a : α} (h : p ctx c = some (a, d))
    (f : α → Parser β) : (p >>= f) ctx c = f a ctx d := by
  rw [bind_run, h]
  rfl

theorem bind_run_of_none {p : Parser α} (h : p ctx c = none) (f : α → Parser β) :
    (p >>= f) ctx c = none := by
  rw [bind_run, h]
  rfl

theorem exists_of_bind_run {p : Parser α} {f : α → Parser β} {r : β × Cursor}
    (h : (p >>= f) ctx c = some r) : ∃ a d, p ctx c = some (a, d) ∧ f a ctx d = some r := by
  rw [bind_run] at h
  obtain ⟨⟨a, d⟩, hp, hf⟩ := Option.bind_eq_some_iff.mp h
  exact ⟨a, d, hp, hf⟩

theorem map_run (f : α → β) (p : Parser α) (ctx : Context) (c : Cursor) :
    (f <$> p) ctx c = (p ctx c).bind fun r => some (f r.1, r.2) := rfl

theorem orElse_run_of_some {p : Parser α} {r : α × Cursor} (h : p ctx c = some r)
    (q : Parser α) : (p <|> q) ctx c = some r := by
  change (p ctx c <|> q ctx c) = some r
  rw [h]
  rfl

/-- What is tried without success does not move. -/
theorem eq_of_attempt_run {p : Parser α} (h : attempt p ctx c = some (none, d)) : d = c := by
  change ((some <$> p) ctx c <|> some (none, c)) = _ at h
  rw [map_run] at h
  cases hp : p ctx c with
  | none =>
      rw [hp] at h
      cases h
      rfl
  | some r =>
      rw [hp] at h
      cases h

/-! ## Looking at a cursor -/

section

variable (ctx c)

theorem read_run : (read : Parser Context) ctx c = some (ctx, c) := rfl

theorem get_run : (get : Parser Cursor) ctx c = some (c, c) := rfl

theorem token_run : token ctx c = some (c.token, c) := rfl

theorem position_run : position ctx c = some (c.start, c) := rfl

theorem peek_run : peek ctx c = some ((c.next.token, c.next.newline), c) := rfl

theorem atMark_run (m : String) : atMark m ctx c = some (c.token == .mark m, c) := rfl

theorem atIdentifier_run : atIdentifier ctx c = some (isIdentifierToken ctx c.token, c) := rfl

end

/-! ## Lists -/

theorem many_run_of_none {step : Parser (Option α)} (h : step ctx c = none) :
    many step ctx c = none := by
  unfold many
  rw [bind_run_of_some (a := ctx) (d := c) rfl]
  cases ctx.bound with
  | zero => rfl
  | succ n => exact bind_run_of_none h _

theorem many_run_of_end {step : Parser (Option α)} (hbound : 0 < ctx.bound)
    (h : step ctx c = some (none, c)) : many step ctx c = some ([], c) := by
  unfold many
  rw [bind_run_of_some (read_run ctx c)]
  obtain ⟨n, hn⟩ := Nat.exists_eq_add_one_of_ne_zero (Nat.ne_of_gt hbound)
  rw [hn, repeatAtMost, bind_run_of_some h]
  rfl

theorem many_run_of_single {step : Parser (Option α)} {a : α} (hbound : 1 < ctx.bound)
    (hfirst : step ctx c = some (some a, d)) (hend : step ctx d = some (none, d)) :
    many step ctx c = some ([a], d) := by
  unfold many
  rw [bind_run_of_some (read_run ctx c)]
  obtain ⟨n, hn⟩ : ∃ n, ctx.bound = n + 2 := ⟨ctx.bound - 2, by omega⟩
  rw [hn, repeatAtMost, bind_run_of_some hfirst]
  dsimp only
  rw [repeatAtMost, bind_run_of_some hend]
  rfl

/-- A list is only read if a step can be taken. -/
theorem exists_of_many_run {step : Parser (Option α)} {r : List α × Cursor}
    (h : many step ctx c = some r) : ∃ found d, step ctx c = some (found, d) := by
  unfold many at h
  rw [bind_run_of_some (read_run ctx c)] at h
  cases hbound : ctx.bound with
  | zero =>
      rw [hbound] at h
      cases h
  | succ n =>
      rw [hbound] at h
      obtain ⟨found, d, hstep, -⟩ := exists_of_bind_run h
      exact ⟨found, d, hstep⟩

theorem extend_run_of_end {step : α → Parser (Option α)} {a : α} (hbound : 0 < ctx.bound)
    (h : step a ctx c = some (none, c)) : extend step a ctx c = some (a, c) := by
  unfold extend
  rw [bind_run_of_some (read_run ctx c)]
  obtain ⟨n, hn⟩ := Nat.exists_eq_add_one_of_ne_zero (Nat.ne_of_gt hbound)
  rw [hn, extendAtMost, bind_run_of_some h]
  rfl

/-! ## Marks -/

theorem eat_run_of_mark (h : c.token = .mark m) : eat m ctx c = some (true, c.next) := by
  have hat : atMark m ctx c = some (true, c) := by rw [atMark_run, h, beq_self_eq_true]
  exact bind_run_of_some hat _

theorem expect_run_of_mark (h : c.token = .mark m) : expect m ctx c = some ((), c.next) := by
  unfold expect
  rw [bind_run_of_some (eat_run_of_mark h)]
  rfl

theorem eq_of_expect_run {m : String} {u : Unit} (h : expect m ctx c = some (u, d)) :
    c.token = .mark m ∧ d = c.next := by
  by_cases hmark : c.token = .mark m
  · rw [expect_run_of_mark hmark] at h
    cases h
    exact ⟨hmark, rfl⟩
  · have hat : atMark m ctx c = some (false, c) := by
      rw [atMark_run, beq_false_of_ne hmark]
    unfold expect eat at h
    rw [bind_assoc, bind_run_of_some hat] at h
    cases h

theorem atMark_run_of_word (h : c.token = .word w false) (m : String) :
    atMark m ctx c = some (false, c) := by
  rw [atMark_run, h]
  rfl

theorem eat_run_of_word (h : c.token = .word w false) (m : String) :
    eat m ctx c = some (false, c) :=
  bind_run_of_some (atMark_run_of_word h m) _

theorem expect_run_of_word (h : c.token = .word w false) (m : String) :
    expect m ctx c = none := by
  unfold expect
  rw [bind_run_of_some (eat_run_of_word h m)]
  rfl

/-! ## Words -/

theorem atWord_run_of_mark (h : c.token = .mark m) (w : String) :
    atWord w ctx c = some (false, c) := by
  change some (c.token == .word w false, c) = _
  rw [h]
  rfl

theorem eatWord_run_of_mark (h : c.token = .mark m) (w : String) :
    eatWord w ctx c = some (false, c) :=
  bind_run_of_some (atWord_run_of_mark h w) _

theorem expectWord_run (h : c.token = .word w false) :
    expectWord w ctx c = some ((), c.next) := by
  have hat : atWord w ctx c = some (true, c) := by
    change some (c.token == .word w false, c) = _
    rw [h, beq_self_eq_true]
  unfold expectWord
  rw [bind_run_of_some (bind_run_of_some hat _)]
  rfl

theorem anyWord_run (h : c.token = .word w false) : anyWord ctx c = some (w, c.next) := by
  unfold anyWord
  rw [bind_run_of_some (token_run ctx c), h]
  rfl

theorem moduleName_run (h : c.token = .word w false) :
    moduleName ctx c = some (.node (.name w) ⟨c.start, c.next.last⟩ [], c.next) := by
  have hname : name ctx c = some (.node (.name w) ⟨c.start, c.next.last⟩ [], c.next) := by
    unfold name
    rw [bind_run_of_some (position_run ctx c), bind_run_of_some (anyWord_run h)]
    rfl
  exact orElse_run_of_some hname _

theorem binding_run (h : c.token = .word w false) (hi : isIdentifier ctx w = true) :
    binding ctx c = some (.node (.binding w) ⟨c.start, c.next.last⟩ [], c.next) := by
  have hid : identifier ctx c = some (w, c.next) := by
    unfold identifier
    rw [bind_run_of_some (atIdentifier_run ctx c), h, isIdentifierToken, hi]
    exact anyWord_run h
  unfold binding
  rw [bind_run_of_some (position_run ctx c), bind_run_of_some hid]
  rfl

end StaticStyle.Syntax
