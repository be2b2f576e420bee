import StaticStyle.Proofs.Syntax.Running

/-!
# What parsers ensure

A parser meets a condition if it takes every cursor with one property to a result and a
cursor with another (`Meets`).  The lemmas here are the rules for this, one for each way of
putting parsers together: a sequence needs a property in the middle (`Meets.bind`), and a
list needs one that every item keeps (`Meets.many`).

Parsers that only look leave the cursor where it is (`Still`), and those that go past tokens
keep every property that going past a token keeps (`Steady`).
-/

namespace StaticStyle.Syntax

open StaticStyle.Syntax.Parser StaticStyle.Syntax.Grammar

/-- Where the parser succeeds on a cursor with the first property, its result and the cursor
after it have the second. -/
def Meets {α : Type} (P : Cursor → Prop) (p : Parser α) (Q : α → Cursor → Prop) : Prop :=
  ∀ ⦃ctx c a d⦄, P c → p ctx c = some (a, d) → Q a d

/-- Going past a token keeps the property. -/
def Stable (P : Cursor → Prop) : Prop := ∀ ⦃c⦄, P c → P c.next

/-- The parser does not move. -/
class Still {α : Type} (p : Parser α) : Prop where
  eq : ∀ {ctx : Context} {c : Cursor} {a : α} {d : Cursor}, p ctx c = some (a, d) → d = c

/-- The parser keeps what going past a token keeps. -/
class Steady {α : Type} (p : Parser α) : Prop where
  keeps : ∀ {P : Cursor → Prop}, Stable P → Meets P p fun _ => P

/-- A step that finds something leads to one property, and one that does not to another. -/
def Found {α : Type} (R : α → Cursor → Prop) (P : Cursor → Prop) : Option α → Cursor → Prop
  | some a => R a
  | none => P

variable {α β : Type} {P P' : Cursor → Prop} {p q : Parser α} {f : α → Parser β}
  {Q : β → Cursor → Prop} {R R' : α → Cursor → Prop} {m w : String}

namespace Meets

/-! ## Sequences and choices -/

theorem pre (h : ∀ c, P c → P' c) (hp : Meets P' p R) : Meets P p R :=
  fun _ _ _ _ hc hr => hp (h _ hc) hr

theorem post (hp : Meets P p R) (h : ∀ a c, R a c → R' a c) : Meets P p R' :=
  fun _ _ _ _ hc hr => h _ _ (hp hc hr)

/-- What the property says of anything but the cursor can be used on the way. -/
theorem of_fact {φ : Prop} (h : ∀ c, P c → φ) (hp : φ → Meets P p R) : Meets P p R :=
  fun _ _ _ _ hc hr => hp (h _ hc) hc hr

theorem of_exists {γ : Type} {S : γ → Cursor → Prop} (hp : ∀ x, Meets (S x) p R) :
    Meets (fun c => ∃ x, S x c) p R := fun _ _ _ _ ⟨x, hc⟩ hr => hp x hc hr

theorem pure {a : α} (h : ∀ c, P c → R a c) : Meets P (pure a) R := by
  intro ctx c b d hc hr
  cases hr
  exact h c hc

theorem value {a : α} (h : Meets P (f a) Q) : Meets P (Pure.pure a >>= f) Q := h

theorem failure : Meets P (failure : Parser α) R := fun _ _ _ _ _ hr => nomatch hr

theorem bind (hp : Meets P p R) (hf : ∀ a, Meets (R a) (f a) Q) : Meets P (p >>= f) Q := by
  intro ctx c b d hc hr
  obtain ⟨a, e, hp', hf'⟩ := exists_of_bind_run hr
  exact hf a (hp hc hp') hf'

theorem map {g : α → β} (hp : Meets P p fun a => Q (g a)) : Meets P (g <$> p) Q := by
  intro ctx c b d hc hr
  rw [map_run] at hr
  obtain ⟨⟨a, e⟩, hp', he⟩ := Option.bind_eq_some_iff.mp hr
  cases he
  exact hp hc hp'

theorem discard {Q : Unit → Cursor → Prop} (hp : Meets P p fun _ => Q ()) :
    Meets P (discard p) Q := map hp

theorem ite {b : Prop} [Decidable b] (hp : b → Meets P p R) (hq : ¬b → Meets P q R) :
    Meets P (if b then p else q) R := by
  split
  · next h => exact hp h
  · next h => exact hq h

theorem orElse (hp : Meets P p R) (hq : Meets P q R) : Meets P (p <|> q) R := by
  intro ctx c a d hc hr
  change (p ctx c <|> q ctx c) = _ at hr
  cases hpr : p ctx c with
  | none =>
      rw [hpr] at hr
      exact hq hc hr
  | some r =>
      rw [hpr] at hr
      cases hr
      exact hp hc hpr

theorem attempt (hp : Meets P p R) : Meets P (attempt p) (Found R P) :=
  orElse (map hp) (pure fun _ hc => hc)

theorem inContext {change : Context → Context} (hp : Meets P p R) :
    Meets P (inContext change p) R := fun _ _ _ _ hc hr => hp hc hr

theorem allowingIn (hp : Meets P p R) : Meets P (allowingIn p) R := inContext hp

theorem elim {o : Option α} (h : ∀ a, o = some a → Meets P (f a) Q) :
    Meets P (o.elim Alternative.failure Pure.pure >>= f) Q := by
  cases o with
  | none => exact bind (R := fun _ _ => False) failure fun _ _ _ _ _ h => h.elim
  | some a => exact value (h a rfl)

/-! ## Lists -/

theorem repeatAtMost {step : Parser (Option α)} {I : List α → Cursor → Prop}
    (hstep : ∀ as, Meets (I as) step (Found (fun a => I (as ++ [a])) (I as))) :
    ∀ fuel done, Meets (I done.reverse) (repeatAtMost step fuel done) I
  | 0, _ => failure
  | fuel + 1, done => by
      refine bind (hstep done.reverse) fun found => ?_
      cases found with
      | some a =>
          refine pre (fun c hc => ?_) (repeatAtMost hstep fuel (a :: done))
          rw [List.reverse_cons]
          exact hc
      | none => exact pure fun _ hc => hc

/-- A list keeps what each of its items keeps. -/
theorem many {step : Parser (Option α)} {I : List α → Cursor → Prop}
    (hstep : ∀ as, Meets (I as) step (Found (fun a => I (as ++ [a])) (I as))) :
    Meets (I []) (many step) I := by
  intro ctx c as d hc hr
  obtain ⟨bound, e, hread, hr⟩ := exists_of_bind_run hr
  cases hread
  exact repeatAtMost hstep _ [] hc hr

theorem extendAtMost {step : α → Parser (Option α)}
    (hstep : ∀ a, Meets (R a) (step a) (Found R (R a))) :
    ∀ fuel a, Meets (R a) (extendAtMost step fuel a) R
  | 0, _ => failure
  | fuel + 1, a => by
      refine bind (hstep a) fun found => ?_
      cases found with
      | some b => exact extendAtMost hstep fuel b
      | none => exact pure fun _ hc => hc

/-- A value keeps what each step that extends it keeps. -/
theorem extend {step : α → Parser (Option α)} {a : α}
    (hstep : ∀ a, Meets (R a) (step a) (Found R (R a))) :
    Meets (R a) (extend step a) R := by
  intro ctx c b d hc hr
  obtain ⟨bound, e, hread, hr⟩ := exists_of_bind_run hr
  cases hread
  exact extendAtMost hstep _ a hc hr

/-! ## Parsers that do not move -/

/-- What a parser that does not move finds leaves the property as it is. -/
theorem still [Still p] (hf : ∀ a, Meets P (f a) Q) : Meets P (p >>= f) Q :=
  bind (fun _ _ _ _ hc hr => Still.eq hr ▸ hc) hf

/-- The next token is known once it has been looked at. -/
theorem token {f : Token → Parser β} (hf : ∀ t, Meets (fun c => P c ∧ c.token = t) (f t) Q) :
    Meets P (token >>= f) Q := by
  intro ctx c b d hc hr
  exact hf c.token ⟨hc, rfl⟩ hr

theorem get {f : Cursor → Parser β} (hf : ∀ e, Meets (fun c => P c ∧ c = e) (f e) Q) :
    Meets P (get >>= f) Q := by
  intro ctx c b d hc hr
  exact hf c ⟨hc, rfl⟩ hr

theorem atMark {f : Bool → Parser β} (ht : Meets (fun c => P c ∧ c.token = .mark m) (f true) Q)
    (hf : Meets P (f false) Q) : Meets P (atMark m >>= f) Q := by
  intro ctx c b d hc hr
  rw [bind_run, atMark_run] at hr
  change f (c.token == .mark m) ctx c = _ at hr
  cases hmark : c.token == .mark m with
  | true =>
      rw [hmark] at hr
      exact ht ⟨hc, beq_iff_eq.mp hmark⟩ hr
  | false =>
      rw [hmark] at hr
      exact hf hc hr

theorem require {f : Unit → Parser β} {b : Bool} (hf : b = true → Meets P (f ()) Q) :
    Meets P (require b >>= f) Q := by
  cases b with
  | false => exact bind (R := fun _ _ => False) failure fun _ _ _ _ _ h => h.elim
  | true => exact hf rfl

/-! ## Parsers that go past one token -/

theorem advance (h : ∀ c, P c → P' c.next) : Meets P advance fun _ => P' := by
  intro ctx c _ d hc hr
  cases hr
  exact h c hc

theorem modify {g : Cursor → Cursor} (h : ∀ c, P c → P' (g c)) :
    Meets P (modify g : Parser Unit) fun _ => P' := by
  intro ctx c _ d hc hr
  cases hr
  exact h c hc

theorem set {e : Cursor} (h : ∀ c, P c → P' e) : Meets P (set e : Parser Unit) fun _ => P' := by
  intro ctx c _ d hc hr
  cases hr
  exact h c hc

theorem eat {f : Bool → Parser β} (h : ∀ c, P c → c.token = .mark m → P' c.next)
    (ht : Meets P' (f true) Q) (hf : Meets P (f false) Q) : Meets P (eat m >>= f) Q := by
  refine bind (R := fun b => if b then P' else P) ?_ fun b => ?_
  · refine atMark ?_ (pure fun _ hc => hc)
    exact bind (advance fun c hc => h c hc.1 hc.2) fun _ => pure fun _ hc => hc
  · cases b with
    | false => exact hf
    | true => exact ht

theorem expect (h : ∀ c, P c → c.token = .mark m → P' c.next) :
    Meets P (expect m) fun _ => P' :=
  eat h (pure fun _ hc => hc) failure

theorem eatWord {f : Bool → Parser β} (h : ∀ c, P c → c.token = .word w false → P' c.next)
    (ht : Meets P' (f true) Q) (hf : Meets P (f false) Q) : Meets P (eatWord w >>= f) Q := by
  intro ctx c b d hc hr
  obtain ⟨ate, e, heat, hr⟩ := exists_of_bind_run hr
  obtain ⟨at_, e', hat, heat⟩ := exists_of_bind_run heat
  cases hat
  cases hword : c.token == .word w false with
  | true =>
      rw [hword] at heat
      cases heat
      exact ht (h c hc (beq_iff_eq.mp hword)) hr
  | false =>
      rw [hword] at heat
      cases heat
      exact hf hc hr

theorem expectWord (h : ∀ c, P c → c.token = .word w false → P' c.next) :
    Meets P (expectWord w) fun _ => P' :=
  eatWord h (pure fun _ hc => hc) failure

/-- Going past tokens keeps what going past each of them keeps. -/
theorem steady [Steady p] (hP : Stable P) (hf : ∀ a, Meets P (f a) Q) : Meets P (p >>= f) Q :=
  bind (Steady.keeps hP) hf

end Meets

/-! ## Parsers that only look -/

section Still

instance {a : α} : Still (pure a : Parser α) where
  eq h := by
    cases h
    rfl

instance : Still (failure : Parser α) where
  eq h := nomatch h

theorem Still.bind (hp : Still p) (hf : ∀ a, Still (f a)) : Still (p >>= f) where
  eq h := by
    obtain ⟨a, e, hp', hf'⟩ := exists_of_bind_run h
    exact ((hf a).eq hf').trans (hp.eq hp')

instance [Still p] [∀ a, Still (f a)] : Still (p >>= f) := .bind inferInstance inferInstance

instance {b : Prop} [Decidable b] [Still p] [Still q] : Still (if b then p else q) where
  eq h := by
    split at h
    · exact Still.eq h
    · exact Still.eq h

instance : Still (read : Parser Context) where
  eq h := by
    cases h
    rfl

instance : Still (get : Parser Cursor) where
  eq h := by
    cases h
    rfl

instance : Still token := by unfold token; infer_instance

instance : Still position := by unfold position; infer_instance

instance : Still afterNewline := by unfold afterNewline; infer_instance

instance : Still peek := by unfold peek; infer_instance

instance {b : Bool} : Still (require b) := by unfold require; infer_instance

instance : Still (atMark m) := by unfold atMark; infer_instance

instance : Still (atWord w) := by unfold atWord; infer_instance

instance : Still mayEnd := by unfold mayEnd; infer_instance

instance : Still atIdentifier := by unfold atIdentifier; infer_instance

instance : Still atLess := by unfold atLess; infer_instance

instance : Still atSignature := by unfold atSignature; infer_instance

instance : Still (atMemberWord w) := by unfold atMemberWord; infer_instance

instance : Still atIndexSignature := by unfold atIndexSignature; infer_instance

instance : Still atAsyncFunction := by unfold atAsyncFunction; infer_instance

instance : Still atConstructorType := by unfold atConstructorType; infer_instance

instance : Still (look p) where
  eq h := by
    obtain ⟨c, d, hget, h⟩ := exists_of_bind_run h
    cases hget
    obtain ⟨a, e, -, h⟩ := exists_of_bind_run h
    cases h
    rfl

instance [Still p] : Still (attempt p) where
  eq {ctx c a d} h := by
    change ((some <$> p) ctx c <|> some (none, c)) = _ at h
    rw [map_run] at h
    cases hp : p ctx c with
    | none =>
        rw [hp] at h
        cases h
        rfl
    | some r =>
        rw [hp] at h
        cases h
        exact Still.eq hp

instance : Still (lookAhead p) := by unfold lookAhead; infer_instance

instance : Still atMappedType := by unfold atMappedType; infer_instance

instance {self : Rules} : Still (atFunctionType self) := by unfold atFunctionType; infer_instance

instance : Still canFollowTypeArguments := by
  unfold canFollowTypeArguments
  refine .bind inferInstance fun newline => ?_
  cases newline with
  | true => exact inferInstanceAs (Still (pure true))
  | false =>
      refine .bind inferInstance fun t => ?_
      split <;> infer_instance

instance {async : Bool} : Still (arrowVerdict async) := by
  unfold arrowVerdict
  refine .bind inferInstance fun ctx => .bind inferInstance fun c => ?_
  dsimp only
  -- A name after the parenthesis or the bracket is followed by more cases.
  split
  case h_4 => (repeat' split) <;> infer_instance
  case h_6 => (repeat' split) <;> infer_instance
  all_goals infer_instance

instance : Still atVariables := by
  unfold atVariables
  refine .bind inferInstance fun ctx => .bind inferInstance fun c => ?_
  dsimp only
  split <;> infer_instance

instance : Still atTypeDeclaration := by
  unfold atTypeDeclaration
  refine .bind inferInstance fun ctx => .bind inferInstance fun c => ?_
  dsimp only
  split <;> infer_instance

instance : Still atDeclaration := by
  unfold atDeclaration
  refine .bind inferInstance fun ctx => .bind inferInstance fun there => ?_
  cases there with
  | true => exact inferInstanceAs (Still (pure true))
  | false =>
      refine .bind inferInstance fun t => ?_
      split <;> infer_instance

end Still

/-! ## Parsers that go past tokens -/

section Steady

instance (priority := low) [Still p] : Steady p where
  keeps _ := by
    intro ctx c a d hc h
    exact Still.eq h ▸ hc

theorem Steady.bind (hp : Steady p) (hf : ∀ a, Steady (f a)) : Steady (p >>= f) where
  keeps hP := .bind (hp.keeps hP) fun a => (hf a).keeps hP

instance [Steady p] [∀ a, Steady (f a)] : Steady (p >>= f) := .bind inferInstance inferInstance

instance {b : Prop} [Decidable b] [Steady p] [Steady q] : Steady (if b then p else q) where
  keeps hP := .ite (fun _ => Steady.keeps hP) fun _ => Steady.keeps hP

instance [Steady p] : Steady (discard p) where
  keeps hP := .discard (Steady.keeps hP)

instance Steady.many {step : Parser (Option α)} [Steady step] : Steady (many step) where
  keeps {P} hP := by
    refine .many (I := fun _ => P) fun _ => .post (Steady.keeps hP) fun found c hc => ?_
    cases found with
    | some a => exact hc
    | none => exact hc

instance : Steady advance where
  keeps hP := .advance fun _ hc => hP hc

instance {p q : Parser Bool} [Steady p] [Steady q] : Steady (p <||> q) := by
  refine .bind inferInstance fun found => ?_
  cases found with
  | true => exact inferInstanceAs (Steady (pure true))
  | false => exact inferInstanceAs (Steady q)

instance : Steady (eat m) := by unfold eat; infer_instance

instance : Steady (eatWord w) := by unfold eatWord; infer_instance

instance : Steady (expect m) := by unfold expect; infer_instance

instance : Steady (expectWord w) := by unfold expectWord; infer_instance

instance : Steady semicolon := by unfold semicolon; infer_instance

instance : Steady memberEnd := by unfold memberEnd; infer_instance

instance : Steady fieldEnd := by unfold fieldEnd; infer_instance

instance : Steady anyWord := by
  unfold anyWord
  refine .bind inferInstance fun t => ?_
  split <;> infer_instance

instance : Steady stringValue := by
  unfold stringValue
  refine .bind inferInstance fun t => ?_
  split <;> infer_instance

instance {words : List String} {continues : String → Token → Bool → Bool} :
    Steady (modifiers words continues) := by
  unfold modifiers
  refine @Steady.many _ _ (.bind inferInstance fun t => ?_)
  split <;> infer_instance

instance {isThere : Parser Bool} [Steady isThere] : Steady (mappedModifier isThere) := by
  unfold mappedModifier
  infer_instance

end Steady

/-- A list with commas keeps what its items and going past a token keep, up to the mark that
closes it. -/
theorem Meets.commaListTo {item : Parser α} {I J : List α → Cursor → Prop}
    (hI : ∀ as, Stable (I as))
    (hitem : ∀ as, Meets (I as) item fun a => I (as ++ [a]))
    (hclosing : ∀ as c, I as c → c.token = .mark m → J as c.next) :
    Meets (I []) (commaList m item) J := by
  refine .bind (.many fun as => .still fun there => ?_) fun as =>
    .bind (.expect (hclosing as)) fun _ => .pure fun _ hc => hc
  cases there with
  | true => exact .pure fun _ hc => hc
  | false =>
      exact .bind (hitem as) fun a => .still fun ended =>
        .ite (fun _ => .steady (hI _) fun _ => .pure fun _ hc => hc) fun _ => .pure fun _ hc => hc

theorem Meets.commaList {item : Parser α} {I : List α → Cursor → Prop} (hI : ∀ as, Stable (I as))
    (hitem : ∀ as, Meets (I as) item fun a => I (as ++ [a])) : Meets (I []) (commaList m item) I :=
  .commaListTo hI hitem fun as _ hc _ => hI as hc

end StaticStyle.Syntax
