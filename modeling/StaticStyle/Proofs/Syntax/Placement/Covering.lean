import StaticStyle.Proofs.Syntax.Placement.Reading

/-!
# Reading trees that cover what was read

An expression covers what was read for it: its span starts with its first token, which is
no blank, and ends where the last token does (`Whole`).  So a rule that makes one is followed
from its first token on.  In front of that only trees without parts can have been made
(`Toward`), and behind it the trees of the parts are read as for any other rule.
-/

namespace StaticStyle.Syntax

open StaticStyle.Syntax.Parser StaticStyle.Syntax.Grammar
open StaticStyle.Text (Continues Solid slice?)

variable {α β : Type} {source : List Char} {lo n : Nat} {ts us : List Tree} {t : Tree} {k : Kind}
  {c : Cursor} {p q : Parser α} {f : α → Parser β} {tr : α → List Tree} {P : Cursor → Prop}
  {Q : β → Cursor → Prop} {R : α → Cursor → Prop} {m w : String}

/-- Whether a token is one at all. -/
def Token.isReal : Token → Bool
  | .endOfText => false
  | .invalid => false
  | _ => true

/-- The next token starts at an offset. -/
structure Before (source : List Char) (n : Nat) (c : Cursor) : Prop where
  inSource : c.In source
  start : c.start = n

/-- Trees that were read stand behind an offset where a token starts, or where the next
one does and the trees have no parts. -/
structure Toward (source : List Char) (n : Nat) (ts : List Tree) (c : Cursor) : Prop where
  inSource : c.In source
  placed : (c.start = n ∧ PlacedAll source n n ts) ∨
    (Solid source n ∧ PlacedAll source n c.last ts)

/-- A tree was read from an offset on, where a token starts.  Its span starts where it
should and ends with the last token. -/
structure Whole (source : List Char) (n start : Nat) (t : Tree) (c : Cursor) : Prop where
  behind : Behind source n [t] c
  span : t.span = ⟨start, c.last⟩
  solid : Solid source n

/-- A tree that was read ends with the last token. -/
structure Closed (source : List Char) (lo : Nat) (t : Tree) (c : Cursor) : Prop where
  behind : Behind source lo [t] c
  stop : t.span.stop = c.last

/-- The parser reads a tree that covers what it reads. -/
def Expresses (source : List Char) (p : Parser Tree) : Prop :=
  ∀ n, Meets (Before source n) p (Whole source n n)

/-- The parser reads a tree whose span starts at an offset, maybe in front of what it reads. -/
def Covers (source : List Char) (start : Nat) (p : Parser Tree) : Prop :=
  ∀ n, Meets (Toward source n []) p (Whole source n start)

/-- The parser reads a tree that ends with what it reads. -/
def Closes (source : List Char) (p : Parser Tree) : Prop :=
  ∀ lo, Meets (Behind source lo []) p (Closed source lo)

/-! ## From the first token on -/

theorem Before.toward (h : Before source n c) : Toward source n [] c :=
  ⟨h.inSource, .inl ⟨h.start, placedAll_nil.mpr (Nat.le_refl n)⟩⟩

theorem Behind.toward (hs : Solid source n) (h : Behind source n ts c) : Toward source n ts c :=
  ⟨h.inSource, .inr ⟨hs, h.placed⟩⟩

theorem Cursor.In.solid_of_isReal (h : c.In source) (ht : c.token.isReal = true) :
    Solid source c.start := by
  refine h.solid (fun hend => ?_) fun hinvalid => ?_
  · rw [hend] at ht
    cases ht
  · rw [hinvalid] at ht
    cases ht

namespace Toward

/-- Going past the first token. -/
theorem next (h : Toward source n ts c) (ht : c.token.isReal = true) :
    Solid source n ∧ Behind source n ts c.next := by
  obtain ⟨hstart, hts⟩ | ⟨hs, hts⟩ := h.placed
  · refine ⟨hstart ▸ h.inSource.solid_of_isReal ht, h.inSource.next, ?_⟩
    rw [c.next_last]
    exact hts.mono (Nat.le_refl n) (hstart ▸ h.inSource.start_le_stop)
  · exact ⟨hs, Behind.next ⟨h.inSource, hts⟩⟩

theorem node (h : Toward source n ts c) (hk : k.isPlain ts = true) (s : Text.Span) :
    Toward source n [.node k s ts] c := by
  refine ⟨h.inSource, h.placed.imp (fun ⟨hstart, hts⟩ => ⟨hstart, ?_⟩) fun ⟨hs, hts⟩ => ⟨hs, ?_⟩⟩
  · exact placedAll_singleton.mpr (.node hk hts s)
  · exact placedAll_singleton.mpr (.node hk hts s)

theorem leaf (h : Toward source n ts c) (hk : k.isPlain [] = true) (s : Text.Span) :
    Toward source n (ts ++ [.node k s []]) c := by
  refine ⟨h.inSource, h.placed.imp (fun ⟨hstart, hts⟩ => ⟨hstart, ?_⟩) fun ⟨hs, hts⟩ => ⟨hs, ?_⟩⟩
  · exact hts.append (placedAll_singleton.mpr (.node hk (placedAll_nil.mpr (Nat.le_refl n)) s))
  · exact hts.append (placedAll_singleton.mpr (.node hk (placedAll_nil.mpr (Nat.le_refl c.last)) s))

end Toward

/-- The parser goes past a token, at least. -/
class Opens (p : Parser α) : Prop where
  opens : ∀ (source : List Char) (n : Nat) (ts : List Tree),
    Meets (Toward source n ts) p fun _ c => Solid source n ∧ Behind source n ts c

section Opens

instance : Opens (expect m) where
  opens _ _ _ := .expect fun _ hc hm => hc.next (hm ▸ rfl)

instance : Opens (expectWord w) where
  opens _ _ _ := .expectWord fun _ hc hw => hc.next (hw ▸ rfl)

instance : Opens anyWord where
  opens _ _ _ := by
    refine .token fun t => ?_
    split
    · exact .bind (.advance fun c hc => hc.1.next (hc.2 ▸ rfl)) fun _ => .pure fun _ hc => hc
    · exact .failure

instance [Still p] [∀ a, Opens (f a)] : Opens (p >>= f) where
  opens _ _ _ := .still fun _ => Opens.opens _ _ _

instance : Opens identifier := by unfold identifier; infer_instance

end Opens

namespace Meets

theorem of_and {φ : Prop} (h : φ → Meets P p R) : Meets (fun c => φ ∧ P c) p R :=
  fun _ _ _ _ hc hr => h hc.1 hc.2 hr

theorem opens [Opens p] (hP : ∀ c, P c → Toward source n ts c)
    (hf : ∀ a, Solid source n → Meets (Behind source n ts) (f a) Q) : Meets P (p >>= f) Q :=
  bind (pre hP (Opens.opens _ _ _)) fun a => of_and (hf a)

/-- Going past a token that was looked at. -/
theorem first {f : Unit → Parser β} {tok : Token} (hP : ∀ c, P c → Toward source n ts c)
    (ht : tok.isReal = true) (hf : Solid source n → Meets (Behind source n ts) (f ()) Q) :
    Meets (fun c => P c ∧ c.token = tok) (Parser.advance >>= f) Q :=
  bind (advance fun c hc => (hP c hc.1).next (hc.2 ▸ ht)) fun _ => of_and hf

theorem firstMark {f : Bool → Parser β} (hP : ∀ c, P c → Toward source n ts c)
    (ht : Solid source n → Meets (Behind source n ts) (f true) Q) (hf : Meets P (f false) Q) :
    Meets P (Parser.eat m >>= f) Q :=
  eat (fun c hc hm => (hP c hc).next (hm ▸ rfl)) (of_and ht) hf

theorem firstWord {f : Bool → Parser β} (hP : ∀ c, P c → Toward source n ts c)
    (ht : Solid source n → Meets (Behind source n ts) (f true) Q) (hf : Meets P (f false) Q) :
    Meets P (Parser.eatWord w >>= f) Q :=
  eatWord (fun c hc hw => (hP c hc).next (hw ▸ rfl)) (of_and ht) hf

/-- The offset of the next token is known. -/
theorem positionOf {f : Nat → Parser β} (hP : ∀ c, P c → c.start = n) (hf : Meets P (f n) Q) :
    Meets P (Parser.position >>= f) Q := by
  intro ctx c b d hc hr
  change f c.start ctx c = _ at hr
  rw [hP c hc] at hr
  exact hf hc hr

theorem position {f : Nat → Parser β} (hf : Meets (Before source n) (f n) Q) :
    Meets (Before source n) (Parser.position >>= f) Q := positionOf (fun _ hc => hc.start) hf

/-- A part that is left out can stand behind any others. -/
theorem absent_toward : Meets (Toward source n ts) absent fun t => Toward source n (ts ++ [t]) := by
  intro ctx c t d hc hr
  cases hr
  exact hc.leaf rfl _

theorem group_nil_toward :
    Meets (Toward source n ts) (Parser.group []) fun t => Toward source n (ts ++ [t]) := by
  intro ctx c t d hc hr
  cases hr
  exact hc.leaf rfl _

theorem whole {start : Nat} (hs : Solid source n) (hk : k.isPlain ts = true) :
    Meets (Behind source n ts) (Parser.node start k ts) (Whole source n start) := by
  intro ctx c t d hc hr
  cases hr
  exact ⟨hc.node hk _, rfl, hs⟩

theorem group_toward :
    Meets (Toward source n ts) (Parser.group ts) fun t => Toward source n [t] := by
  intro ctx c t d hc hr
  cases ts with
  | nil =>
      cases hr
      exact hc.node rfl _
  | cons first rest =>
      cases hr
      exact hc.node rfl _

theorem closed {start : Nat} (hk : k.isPlain ts = true) :
    Meets (Behind source lo ts) (Parser.node start k ts) (Closed source lo) := by
  intro ctx c t d hc hr
  cases hr
  exact ⟨hc.node hk _, rfl⟩

end Meets

namespace Expresses

variable {p : Parser Tree}

/-- An expression is read from its first token on, or behind it. -/
theorem toward (hp : Expresses source p) :
    Meets (Toward source n ts) p fun t c => Solid source n ∧ Behind source n (ts ++ [t]) c := by
  intro ctx c t d hc hr
  have ht := hp c.start ⟨hc.inSource, rfl⟩ hr
  obtain ⟨rfl, hts⟩ | ⟨hs, hts⟩ := hc.placed
  · exact ⟨ht.solid, .append hts ht.behind⟩
  · exact ⟨hs, .append (hts.mono (Nat.le_refl n) hc.inSource.le) ht.behind⟩

theorem closes (hp : Expresses source p) : Closes source p := by
  intro lo ctx c t d hc hr
  have ht := hp c.start ⟨hc.inSource, rfl⟩ hr
  exact ⟨.append (hc.placed.mono (Nat.le_refl lo) hc.inSource.le) ht.behind, by rw [ht.span]⟩

end Expresses

theorem Closes.reads {p : Parser Tree} (hp : Closes source p) : Reads source single p :=
  fun lo => (hp lo).post fun _ _ ht => ht.behind

theorem Expresses.reads {p : Parser Tree} (hp : Expresses source p) : Reads source single p :=
  hp.closes.reads

theorem Covers.reads {start : Nat} {p : Parser Tree} (hp : Covers source start p) :
    Reads source single p := by
  intro lo ctx c t d hc hr
  have ht := hp c.start (Before.toward ⟨hc.inSource, rfl⟩) hr
  exact .append (hc.placed.mono (Nat.le_refl lo) hc.inSource.le) ht.behind

/-- What holds of the first item holds of a single one. -/
theorem Meets.separated {item : Parser Tree} {φ : Prop} {F : Tree → Cursor → Prop}
    (hfirst : Meets P item fun t c => φ ∧ Behind source lo [t] c ∧ F t c)
    (hi : Reads source single item) :
    Meets P (separated m item) fun ts c => φ ∧ Behind source lo ts c ∧ ∀ t, ts = [t] → F t c := by
  refine .bind hfirst fun first => .of_and fun hφ => .bind (R := fun more c =>
    Behind source lo (first :: more) c ∧ ∀ t, first :: more = [t] → F t c)
    (.pre (fun c hc => ⟨hc.1, ?_⟩) (.many fun more => ?_)) fun more => .pure fun _ hc => ⟨hφ, hc⟩
  · refine .eat (fun c hc _ => hc.1.next)
      (.reads hi fun t => .pure fun _ hc => ⟨hc, fun u hu => ?_⟩)
      (.pure fun _ hc => hc)
    exact absurd (List.cons.inj hu).2
      (List.append_ne_nil_of_right_ne_nil more (List.cons_ne_nil t []))
  · rintro _ ⟨⟩
    exact hc.2

/-- What covers what was read is a part of the source. -/
theorem Whole.isPart (h : Whole source n n t c) : (slice? source t.span).isSome := by
  obtain ⟨d, s, hd, -⟩ := h.solid
  rw [h.span]
  exact hd.isSome_slice? h.behind.inSource.last h.behind.le

end StaticStyle.Syntax
