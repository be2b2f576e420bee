import StaticStyle.Proofs.Syntax.Running
import StaticStyle.Proofs.Syntax.Word

/-!
# Import lists with an empty place

An import list may end in a comma, but it may not hold two commas in a row or start with
one.  A module that starts with such an import is no module, whatever follows
(`parseModule_eq_none`).

The names in front of the empty place are read one at a time: behind a name and its
comma the cursor is at the next name (`listItem_run`), and in front of a comma no name
can be read (`listItem_eq_none`).
-/

namespace StaticStyle.Syntax

open StaticStyle.Syntax.Parser StaticStyle.Syntax.Grammar

variable {ctx : Context} {c : Cursor} {w : String} {g s : List Char}

/-! ## Single names -/

/-- In front of a comma a name stands for itself. -/
theorem aliased_run {item : Parser Tree} {t : Tree} (hn : c.next.token = .mark ",")
    (hi : item ctx c = some (t, c.next)) :
    aliased item ctx c = some ((false, t, none), c.next) := by
  unfold aliased
  rw [bind_run_of_some (read_run ctx c), bind_run_of_some (get_run ctx c)]
  simp only [hn, Bool.and_false, Bool.false_and, if_neg Bool.false_ne_true]
  rw [bind_run_of_some hi, bind_run_of_some (eatWord_run_of_mark hn "as")]
  rfl

theorem importName_run (h : c.token = .word w false) (hn : c.next.token = .mark ",") :
    importName ctx c = none ∨ ∃ t, importName ctx c = some (t, c.next) := by
  unfold importName
  rw [bind_run_of_some (position_run ctx c), bind_run_of_some (aliased_run hn (moduleName_run h))]
  dsimp only [Option.getD]
  -- A reserved word is a name, but it cannot be introduced.
  cases hid : isIdentifier ctx w with
  | false =>
      refine Or.inl ?_
      rw [bind_run, bind_run_of_some (read_run ctx c.next), hid]
      rfl
  | true =>
      refine Or.inr ?_
      rw [bind_run, bind_run_of_some (read_run ctx c.next), hid]
      exact ⟨_, rfl⟩

theorem importName_eq_none (h : c.token = .mark ",") : importName ctx c = none := by
  obtain ⟨last, before, newline, start, here, token, stop, after⟩ := c
  obtain ⟨⟨typed, elements, ambient⟩, _, _, _, _, _, _, _, _⟩ := ctx
  cases h
  cases typed with
  | false => rfl
  | true => rfl

/-! ## Items of a list -/

/-- One step through an import list: the end of the list, or a name with its comma. -/
def listItem : Parser (Option Tree) := do
  if ← atMark "\x7d" then return none
  else
    let a ← importName
    if !(← atMark "\x7d") then expect ","
    return some a

theorem listItem_eq_none (h : c.token = .mark ",") : listItem ctx c = none := by
  unfold listItem
  rw [bind_run_of_some (atMark_run ctx c "\x7d"), h]
  exact bind_run_of_none (importName_eq_none h) _

/-- Behind a name and its comma the list goes on. -/
theorem listItem_run (h : c.token = .word w false) (hn : c.next.token = .mark ",") :
    listItem ctx c = none ∨ ∃ t, listItem ctx c = some (some t, c.next.next) := by
  unfold listItem
  rw [bind_run_of_some (atMark_run ctx c "\x7d"), h]
  have hname : importName ctx c = none ∨ ∃ t, importName ctx c = some (t, c.next) :=
    importName_run h hn
  rcases hname with hi | ⟨t, hi⟩
  · exact Or.inl (bind_run_of_none hi _)
  · refine Or.inr ⟨t, (bind_run_of_some hi _).trans ?_⟩
    generalize c.next = d at hn
    obtain ⟨last, before, newline, start, here, token, stop, after⟩ := d
    cases hn
    rfl

/-! ## Lists -/

/-- A name in an import list, with the gaps around it. -/
structure ListedName where
  /-- The gap in front of it. -/
  front : List Char
  /-- The name. -/
  word : List Char
  /-- The gap behind it. -/
  back : List Char
  gap_front : Gap front
  isWord : IsWord word
  gap_back : Gap back

/-- Names with a comma behind each, in front of a text. -/
def listed : List ListedName → List Char → List Char
  | [], tail => tail
  | n :: ns, tail => n.front ++ (n.word ++ (n.back ++ ',' :: listed ns tail))

theorem listed_append (names : List ListedName) (s t : List Char) :
    listed names (s ++ t) = listed names s ++ t := by
  induction names with
  | nil => rfl
  | cons n names ih => simp only [listed, ih, List.append_assoc, List.cons_append]

theorem listed_concat (names : List ListedName) (n : ListedName) (s : List Char) :
    listed (names ++ [n]) s =
      listed names (n.front ++ (n.word ++ n.back)) ++ ',' :: s := by
  rw [← listed_append]
  induction names with
  | nil => simp only [List.nil_append, listed, List.append_assoc]
  | cons m names ih => simp only [List.cons_append, listed, ih]

/-- A name with a longer gap behind it. -/
def ListedName.extend (n : ListedName) (hg : Gap g) : ListedName :=
  { n with back := n.back ++ g, gap_back := n.gap_back.append hg }

theorem listed_extend (names : List ListedName) (n : ListedName) (hg : Gap g) (s : List Char) :
    listed (names ++ [n.extend hg]) s =
      listed names (n.front ++ (n.word ++ n.back)) ++ (g ++ ',' :: s) := by
  have hback : n.front ++ (n.word ++ (n.back ++ g)) = (n.front ++ (n.word ++ n.back)) ++ g := by
    simp only [List.append_assoc]
  rw [listed_concat, ListedName.extend, hback, listed_append names _ g, List.append_assoc]

/-- Behind a gap and a mark of one character a cursor is at what follows. -/
theorem Cursor.at_mark {d : Char} {m : String} (hg : Gap g)
    (hd : isLineBreak d = false ∧ isSpace d = false ∧ d ≠ '/')
    (hm : scanToken (d :: s) = ⟨.mark m, [d], s⟩) (last : Nat) :
    (Cursor.at last (g ++ d :: s)).token = .mark m ∧
      ∃ last', (Cursor.at last (g ++ d :: s)).next = Cursor.at last' s := by
  obtain ⟨newline, hat⟩ := Cursor.at_gap hg hd.1 hd.2.1 hd.2.2 last s
  rw [hat, hm]
  exact ⟨rfl, _, rfl⟩

theorem Cursor.at_comma (hg : Gap g) (last : Nat) (s : List Char) :
    (Cursor.at last (g ++ ',' :: s)).token = .mark "," ∧
      ∃ last', (Cursor.at last (g ++ ',' :: s)).next = Cursor.at last' s :=
  Cursor.at_mark hg (by decide) rfl last

theorem Cursor.at_brace (hg : Gap g) (last : Nat) (s : List Char) :
    (Cursor.at last (g ++ '{' :: s)).token = .mark "\x7b" ∧
      ∃ last', (Cursor.at last (g ++ '{' :: s)).next = Cursor.at last' s :=
  Cursor.at_mark hg (by decide) rfl last

/-- Behind a gap and a word a cursor is at what follows. -/
theorem Cursor.at_word {v : List Char} (hg : Gap g) (hv : IsWord v) (hs : EndsWord s)
    (last : Nat) :
    (Cursor.at last (g ++ (v ++ s))).token = .word (String.ofList v) false ∧
      ∃ last', (Cursor.at last (g ++ (v ++ s))).next = Cursor.at last' s := by
  have hscan := scanToken_word hv hs
  obtain ⟨c, t, rfl, hc⟩ := hv.starts
  obtain ⟨hb, hsp, hne⟩ := not_gap_of_isIdStart hc
  obtain ⟨newline, hat⟩ := Cursor.at_gap hg hb hsp hne last (t ++ s)
  rw [List.cons_append] at hscan ⊢
  rw [hat, hscan]
  exact ⟨rfl, _, rfl⟩

/-- Behind a listed name a cursor is at its comma, and then at the rest of the list. -/
theorem Cursor.at_listed (n : ListedName) (last : Nat) (s : List Char) :
    (Cursor.at last (listed [n] s)).token = .word (String.ofList n.word) false ∧
      (Cursor.at last (listed [n] s)).next.token = .mark "," ∧
      ∃ last', (Cursor.at last (listed [n] s)).next.next = Cursor.at last' s := by
  have hend : EndsWord (n.back ++ ',' :: s) :=
    n.gap_back.endsWord fun _ => endsWord_cons (by decide) (by decide) s
  obtain ⟨hword, last₁, hnext⟩ := Cursor.at_word n.gap_front n.isWord hend last
  change (Cursor.at last (listed [n] s)).next = _ at hnext
  rw [hnext]
  exact ⟨hword, Cursor.at_comma n.gap_back last₁ s⟩

/-- In front of a comma that follows no name a list cannot be read. -/
theorem repeatAtMost_listItem (hg : Gap g) (names : List ListedName) (s : List Char)
    (fuel : Nat) (done : List Tree) (last : Nat) :
    repeatAtMost listItem fuel done ctx (Cursor.at last (listed names (g ++ ',' :: s))) =
      none := by
  induction names generalizing fuel done last with
  | nil =>
      cases fuel with
      | zero => rfl
      | succ fuel => exact bind_run_of_none (listItem_eq_none (Cursor.at_comma hg last s).1) _
  | cons n names ih =>
      cases fuel with
      | zero => rfl
      | succ fuel =>
          obtain ⟨hword, hcomma, last', hnext⟩ :=
            Cursor.at_listed n last (listed names (g ++ ',' :: s))
          have hstep : listItem ctx _ = none ∨ ∃ t, listItem ctx _ = some (some t, _) :=
            listItem_run hword hcomma
          rcases hstep with hitem | ⟨t, hitem⟩
          · exact bind_run_of_none hitem _
          · refine (bind_run_of_some hitem _).trans ?_
            rw [hnext]
            exact ih fuel (t :: done) last'

theorem commaList_importName (hg : Gap g) (names : List ListedName) (s : List Char)
    (last : Nat) :
    commaList "\x7d" importName ctx (Cursor.at last (listed names (g ++ ',' :: s))) = none :=
  bind_run_of_none (p := many listItem) (repeatAtMost_listItem hg names s _ [] last) _

/-! ## Imports -/

/-- Whether a cursor is in front of what an import names: names in braces, or a default
name with a comma behind it. -/
def Cursor.AtClause (c : Cursor) : Prop :=
  c.token = .mark "\x7b" ∨ ∃ w, c.token = .word w false ∧ c.next.token = .mark ","

theorem importClause_braces (h : c.token = .mark "\x7b")
    (hl : commaList "\x7d" importName ctx c.next = none) : importClause ctx c = none := by
  obtain ⟨last, before, newline, start, here, token, stop, after⟩ := c
  cases h
  exact bind_run_of_none hl _

theorem importClause_default (h : c.token = .word w false) (hn : c.next.token = .mark ",")
    (hb : c.next.next.token = .mark "\x7b")
    (hl : commaList "\x7d" importName ctx c.next.next.next = none) :
    importClause ctx c = none := by
  unfold importClause
  rw [bind_run_of_some (atIdentifier_run ctx c), h]
  change (if isIdentifier ctx w then (_ : Parser (List Tree)) else _) ctx c = none
  cases hid : isIdentifier ctx w with
  | true =>
      rw [if_pos rfl, bind_run_of_some (position_run ctx c), bind_run_of_some (binding_run h hid),
        bind_run_of_some (d := c.next) rfl, bind_run_of_some (d := c.next) rfl]
      dsimp only
      rw [bind_run_of_some (eat_run_of_mark hn), Bool.or_true, if_neg (by decide),
        bind_run_of_some (atMark_run ctx c.next.next "*"), hb, if_neg (by decide),
        bind_run_of_some (expect_run_of_mark hb)]
      exact bind_run_of_none hl _
  | false =>
      rw [if_neg Bool.false_ne_true, bind_run_of_some (d := c) rfl]
      dsimp only
      rw [bind_run_of_some (eat_run_of_word h ","), List.isEmpty_nil, Bool.true_or,
        if_neg (by decide), bind_run_of_some (atMark_run_of_word h "*"),
        if_neg Bool.false_ne_true]
      exact bind_run_of_none (expect_run_of_word h _) _

theorem importDeclaration_eq_none (h : c.token = .word "import" false)
    (hc : c.next.AtClause) (hl : importClause ctx c.next = none) :
    importDeclaration ctx c = none := by
  unfold importDeclaration
  rw [bind_run_of_some (position_run ctx c), bind_run_of_some (expectWord_run h)]
  generalize c.next = d at hc hl
  rw [bind_run_of_some (token_run ctx d)]
  rcases hc with hb | ⟨w, hw, hn⟩
  · have htype : (Token.mark "\x7b" == Token.word "type" false) = false := rfl
    rw [hb]
    dsimp only
    rw [bind_run_of_some (read_run ctx d), bind_run_of_some (get_run ctx d)]
    simp only [hb, htype, Bool.and_false, Bool.false_and, if_neg Bool.false_ne_true]
    rw [bind_run_of_some (atIdentifier_run ctx d), bind_run_of_some (peek_run ctx d), hb]
    simp only [isIdentifierToken, Bool.and_false, Bool.false_and, if_neg Bool.false_ne_true]
    exact bind_run_of_none hl _
  · -- A comma follows a name that is not `type` and has no value.
    have hopen : (Token.mark "," == Token.mark "\x7b") = false := rfl
    have hstar : (Token.mark "," == Token.mark "*") = false := rfl
    have hequals : (Token.mark "," == Token.mark "=") = false := rfl
    rw [hw]
    dsimp only
    rw [bind_run_of_some (read_run ctx d), bind_run_of_some (get_run ctx d)]
    simp only [hn, hopen, hstar, isIdentifierToken, Bool.or_false, Bool.and_false,
      Bool.false_and, if_neg Bool.false_ne_true]
    rw [bind_run_of_some (atIdentifier_run ctx d), bind_run_of_some (peek_run ctx d)]
    simp only [hn, hequals, Bool.and_false, if_neg Bool.false_ne_true]
    exact bind_run_of_none hl _

theorem itemRule_eq_none (self : Rules) (h : c.token = .word "import" false)
    (hc : c.next.AtClause) (hl : importClause ctx c.next = none) : itemRule self ctx c = none := by
  have hcall : ¬ (c.next.token == .mark "(" || c.next.token == .mark ".") = true := by
    rcases hc with hb | ⟨w, hw, -⟩
    · rw [hb]
      decide
    · rw [hw]
      exact Bool.false_ne_true
  unfold itemRule
  rw [bind_run_of_some (token_run ctx c), h]
  simp only
  rw [bind_run_of_some (peek_run ctx c)]
  dsimp only
  rw [if_neg hcall]
  exact importDeclaration_eq_none h hc hl

/-! ## Modules -/

/-- What stands in front of the names of an import list at the front of a module:
`import`, a default name if there is one, and the brace. -/
structure ImportHead where
  /-- The gap in front of `import`. -/
  lead : List Char
  /-- The default name. -/
  default? : Option ListedName
  /-- The gap in front of the brace. -/
  inner : List Char
  gap_lead : Gap lead
  gap_inner : Gap inner
  /-- `import` and the default name are two words. -/
  apart : ∀ n ∈ default?, n.front ≠ []

/-- The text of the head of an import, in front of a text. -/
def ImportHead.text (h : ImportHead) (tail : List Char) : List Char :=
  h.lead ++ ("import".toList ++ listed h.default?.toList (h.inner ++ '{' :: tail))

theorem ImportHead.text_append (head : ImportHead) (s t : List Char) :
    head.text (s ++ t) = head.text s ++ t := by
  unfold ImportHead.text
  rw [← List.cons_append, ← List.append_assoc head.inner, listed_append]
  simp only [List.append_assoc]

theorem ImportHead.exists_text (head : ImportHead) :
    ∃ opening, ∀ tail, head.text tail = opening ++ '{' :: tail := by
  refine ⟨head.lead ++ ("import".toList ++ listed head.default?.toList head.inner), fun tail => ?_⟩
  unfold ImportHead.text
  rw [listed_append]
  simp only [List.append_assoc]

theorem ImportHead.endsWord (h : ImportHead) (tail : List Char) :
    EndsWord (listed h.default?.toList (h.inner ++ '{' :: tail)) := by
  cases hd : h.default? with
  | none => exact h.gap_inner.endsWord fun _ => endsWord_cons (by decide) (by decide) tail
  | some n => exact n.gap_front.endsWord fun hnil => absurd hnil (h.apart n hd)

/-- Behind `import` a cursor is in front of a default name or the brace. -/
theorem ImportHead.atClause (h : ImportHead) (last : Nat) (tail : List Char) :
    (Cursor.at last (listed h.default?.toList (h.inner ++ '{' :: tail))).AtClause := by
  cases h.default? with
  | none => exact Or.inl (Cursor.at_brace h.gap_inner last tail).1
  | some n =>
      obtain ⟨hword, hcomma, -⟩ := Cursor.at_listed n last (h.inner ++ '{' :: tail)
      exact Or.inr ⟨_, hword, hcomma⟩

theorem ImportHead.importClause_eq_none (h : ImportHead) (names : List ListedName) (hg : Gap g)
    (s : List Char) (last : Nat) :
    importClause ctx (Cursor.at last (listed h.default?.toList
      (h.inner ++ '{' :: listed names (g ++ ',' :: s)))) = none := by
  generalize ht : listed names (g ++ ',' :: s) = tail
  have hlist : ∀ last', commaList "\x7d" importName ctx (Cursor.at last' tail) = none := by
    intro last'
    rw [← ht]
    exact commaList_importName hg names s last'
  cases h.default? with
  | none =>
      obtain ⟨hbrace, last', hnext⟩ := Cursor.at_brace h.gap_inner last tail
      refine importClause_braces hbrace ?_
      change commaList "\x7d" importName ctx (Cursor.at last (h.inner ++ '{' :: tail)).next = none
      rw [hnext]
      exact hlist last'
  | some n =>
      obtain ⟨hword, hcomma, last₁, hnext⟩ := Cursor.at_listed n last (h.inner ++ '{' :: tail)
      obtain ⟨hbrace, last₂, hnext₂⟩ := Cursor.at_brace h.gap_inner last₁ tail
      rw [← hnext] at hbrace hnext₂
      refine importClause_default hword hcomma hbrace ?_
      change commaList "\x7d" importName ctx
        (Cursor.at last (listed [n] (h.inner ++ '{' :: tail))).next.next.next = none
      rw [hnext₂]
      exact hlist last₂

theorem dropInterpreter_gap (hg : Gap g) (s : List Char) :
    dropInterpreter (g ++ 'i' :: s) = (0, g ++ 'i' :: s) := by
  cases hg with
  | nil => rfl
  | @space c g hc _ =>
      have hne : c ≠ '#' := by
        rintro rfl
        exact absurd hc (by decide)
      rw [List.cons_append, dropInterpreter]
      rintro s' h
      exact hne (List.cons.inj h).1
  | line _ _ _ => rfl
  | block _ _ => rfl

/-- A module has to have a first item. -/
theorem parseModule_eq_none_of_item {language : Language} (hd : dropInterpreter s = (0, s))
    (ht : (Cursor.at 0 s).token ≠ .endOfText)
    (hi : ∀ self ctx, itemRule self ctx (Cursor.at 0 s) = none) :
    parseModule language s = none := by
  have hdepth : depthFor s.length = 16 * (s.length + 3) + 15 + 1 := by
    unfold depthFor
    omega
  have hstep : ∀ ctx, (do
      if (← token) == .endOfText then return none
      else return some (← rules (depthFor s.length) .item) : Parser (Option Tree)) ctx
        (Cursor.at 0 s) = none := by
    intro ctx
    rw [bind_run_of_some (token_run ctx (Cursor.at 0 s)), if_neg, hdepth]
    · exact bind_run_of_none (hi _ ctx) _
    · rwa [beq_iff_eq]
  unfold parseModule
  rw [hd]
  exact congrArg (Option.bind · _) (many_run_of_none (hstep _))

/-- A module does not start with an import list that has an empty place. -/
theorem parseModule_eq_none (head : ImportHead) (names : List ListedName) (hg : Gap g)
    (s : List Char) (language : Language) :
    parseModule language (head.text (listed names (g ++ ',' :: s))) = none := by
  have hletters : "import".toList.all isIdPart = true := by decide
  have himport : IsWord "import".toList :=
    ⟨List.all_eq_true.mp hletters, 'i', _, rfl, by decide⟩
  obtain ⟨hword, last, hnext⟩ :=
    Cursor.at_word head.gap_lead himport (head.endsWord (listed names (g ++ ',' :: s))) 0
  refine parseModule_eq_none_of_item (dropInterpreter_gap head.gap_lead _) ?_ fun self ctx => ?_
  · intro hend
    rw [ImportHead.text, hword] at hend
    cases hend
  · refine itemRule_eq_none self hword ?_ ?_
    · rw [ImportHead.text, hnext]
      exact head.atClause last _
    · rw [ImportHead.text, hnext]
      exact head.importClause_eq_none names hg s last

end StaticStyle.Syntax
