import StaticStyle.Proofs.Syntax.Giving
import StaticStyle.Proofs.Syntax.Placement
import StaticStyle.Proofs.Syntax.Placement.Cursor

/-!
# Reading placed trees

While a rule of the grammar is read, the trees of its parts stand one behind the other, all
of them in front of the cursor (`Behind`).  A parser that adds its trees to them is one that
reads trees (`Reads`), and a node is put around the trees that were read last
(`Meets.node`).

Of an expression more is known: its span starts with its first token and ends where the
cursor is (`Expresses`).  Of a type only its end is (`Closes`).
-/

namespace StaticStyle.Syntax

open StaticStyle.Syntax.Parser
open StaticStyle.Text (Continues Solid slice?)

variable {α β : Type} {source : List Char} {lo n : Nat} {ts us : List Tree} {t : Tree} {k : Kind}
  {c : Cursor} {p q : Parser α} {f : α → Parser β} {tr : α → List Tree} {P : Cursor → Prop}
  {Q : β → Cursor → Prop} {R : α → Cursor → Prop}

/-! ## Trees behind a cursor -/

/-- Trees that were read stand between an offset and the last token. -/
structure Behind (source : List Char) (lo : Nat) (ts : List Tree) (c : Cursor) : Prop where
  inSource : c.In source
  placed : PlacedAll source lo c.last ts

namespace Behind

theorem next (h : Behind source lo ts c) : Behind source lo ts c.next where
  inSource := h.inSource.next
  placed := by
    rw [c.next_last]
    exact h.placed.mono (Nat.le_refl lo) h.inSource.last_le_stop

theorem stable : Stable (Behind source lo ts) := fun _ => next

theorem rescan {t : Scan} (h : Behind source lo ts c) (ht : t.Of c.here)
    (hsolid : t.token ≠ .invalid → Solid source c.start) : Behind source lo ts (c.rescan t) :=
  ⟨h.inSource.rescan ht hsolid, h.placed⟩

theorem le (h : Behind source lo ts c) : lo ≤ c.last := h.placed.le

theorem of_le (hc : c.In source) (h : lo ≤ c.last) : Behind source lo [] c := ⟨hc, h⟩

theorem append {hi : Nat} (h : PlacedAll source lo hi ts) (h' : Behind source hi us c) :
    Behind source lo (ts ++ us) c := ⟨h'.inSource, h.append h'.placed⟩

/-- A node around trees stands where they do. -/
theorem node (h : Behind source lo ts c) (hk : k.isPlain ts = true) (s : Text.Span) :
    Behind source lo [.node k s ts] c :=
  ⟨h.inSource, placedAll_singleton.mpr (.node hk h.placed s)⟩

theorem dropLast (ts : List Tree) (h : Behind source lo (ts ++ us) c) : Behind source lo ts c := by
  obtain ⟨mid, hts, hus⟩ := placedAll_append.mp h.placed
  exact ⟨h.inSource, hts.mono (Nat.le_refl lo) hus.le⟩

theorem dropFirst (h : Behind source lo (ts ++ us) c) : Behind source lo us c := by
  obtain ⟨mid, hts, hus⟩ := placedAll_append.mp h.placed
  exact ⟨h.inSource, hus.mono hts.le (Nat.le_refl c.last)⟩

/-- The parts of the last tree stand where it does. -/
theorem parts (ts : List Tree) (h : Behind source lo (ts ++ [t]) c) :
    Behind source lo (ts ++ t.children) c := by
  obtain ⟨mid, hts, ht⟩ := placedAll_append.mp h.placed
  exact ⟨h.inSource, hts.append (placedAll_singleton.mp ht).parts⟩

/-- A tree without parts can stand behind any others. -/
theorem leaf (h : Behind source lo ts c) (hk : k.isPlain [] = true) (s : Text.Span) :
    Behind source lo (ts ++ [.node k s []]) c :=
  ⟨h.inSource, h.placed.append
    (placedAll_singleton.mpr (.node hk (placedAll_nil.mpr (Nat.le_refl c.last)) s))⟩

end Behind

/-! ## Reading trees -/

/-- The parser adds trees to those that were read. -/
def Reads (source : List Char) (tr : α → List Tree) (p : Parser α) : Prop :=
  ∀ lo, Meets (Behind source lo []) p fun a => Behind source lo (tr a)

/-- The only tree of a result. -/
def single (t : Tree) : List Tree := [t]

/-- What happens to the trees that were read last happens behind any others. -/
theorem Meets.behind (ts us : List Tree)
    (hp : ∀ lo, Meets (Behind source lo us) p fun a => Behind source lo (tr a)) :
    Meets (Behind source lo (ts ++ us)) p fun a => Behind source lo (ts ++ tr a) := by
  intro ctx c a d hc hr
  obtain ⟨mid, hts, hus⟩ := placedAll_append.mp hc.placed
  exact .append hts (hp mid ⟨hc.inSource, hus⟩ hr)

theorem Reads.after (hp : Reads source tr p) :
    Meets (Behind source lo ts) p fun a => Behind source lo (ts ++ tr a) :=
  .pre (fun c hc => by rwa [List.append_nil]) (.behind ts [] hp)

namespace Meets

theorem skip [Steady p] (hf : ∀ a, Meets (Behind source lo ts) (f a) Q) :
    Meets (Behind source lo ts) (p >>= f) Q := steady Behind.stable hf

theorem reads (hp : Reads source tr p) (hf : ∀ a, Meets (Behind source lo (ts ++ tr a)) (f a) Q) :
    Meets (Behind source lo ts) (p >>= f) Q := bind hp.after hf

/-- What is known of the trees that are read is known behind them. -/
theorem readsGiven {φ : α → Prop} (hφ : Gives φ p) (hp : Reads source tr p)
    (hf : ∀ a, φ a → Meets (Behind source lo (ts ++ tr a)) (f a) Q) :
    Meets (Behind source lo ts) (p >>= f) Q :=
  bind (hp.after.given hφ) fun a => of_fact (fun _ h => h.1) fun ha =>
    pre (fun _ h => h.2) (hf a ha)

theorem node {start : Nat} (hk : k.isPlain ts = true) :
    Meets (Behind source lo ts) (node start k ts) fun t => Behind source lo [t] := by
  intro ctx c t d hc hr
  cases hr
  exact hc.node hk _

/-- A part that is read in one of two ways. -/
theorem either {b : Prop} [Decidable b] (hp : Reads source tr p) (hq : Reads source tr q)
    (hf : ∀ a, Meets (Behind source lo (ts ++ tr a)) (f a) Q) :
    Meets (Behind source lo ts) (if b then p >>= f else q >>= f) Q :=
  .ite (fun _ => .reads hp hf) fun _ => .reads hq hf

end Meets

theorem reads_absent : Reads source single absent := by
  intro lo ctx c t d hc hr
  cases hr
  exact hc.node rfl _

theorem Meets.group : Meets (Behind source lo ts) (group ts) fun t => Behind source lo [t] := by
  intro ctx c t d hc hr
  cases ts with
  | nil =>
      cases hr
      exact hc.node rfl _
  | cons first rest =>
      cases hr
      exact hc.node rfl _

theorem reads_group_nil : Reads source single (group []) := fun _ => .group

theorem Reads.group {g : Parser (List Tree)} (hg : Reads source id g) :
    Reads source single (g >>= Parser.group) := fun _ => .reads hg fun _ => .group

theorem Reads.inContext {change : Context → Context} (hp : Reads source tr p) :
    Reads source tr (inContext change p) := fun lo => (hp lo).inContext

theorem Reads.allowingIn (hp : Reads source tr p) : Reads source tr (allowingIn p) := hp.inContext

theorem Reads.orElse (hp : Reads source tr p) (hq : Reads source tr q) :
    Reads source tr (p <|> q) := fun lo => (hp lo).orElse (hq lo)

theorem Reads.attempt {p : Parser Tree} (hp : Reads source single p) :
    Reads source Option.toList (attempt p) := by
  refine fun lo => (hp lo).attempt.post fun found c hc => ?_
  cases found with
  | some t => exact hc
  | none => exact hc

/-- A part that is left out where it was not found. -/
theorem Meets.orAbsent {o : Option Tree} {f : Tree → Parser β}
    (hf : ∀ t, Meets (Behind source lo (ts ++ single t)) (f t) Q) :
    Meets (Behind source lo (ts ++ o.toList)) (o.elim absent Pure.pure >>= f) Q := by
  cases o with
  | none => exact .pre (fun _ hc => List.append_nil ts ▸ hc) (.reads reads_absent hf)
  | some t => exact .value (hf t)

/-! ## Lists -/

theorem Reads.many {step : Parser (Option Tree)} (hs : Reads source Option.toList step) :
    Reads source id (many step) := by
  intro lo
  refine .many fun as => .post hs.after fun found c hc => ?_
  cases found with
  | some t => exact hc
  | none => rwa [Option.toList_none, List.append_nil] at hc

section

variable {item : Parser Tree} {m : String}

theorem Reads.manyUntil (hi : Reads source single item) : Reads source id (manyUntil m item) := by
  refine .many fun lo => .skip fun found => ?_
  cases found with
  | true => exact .pure fun _ hc => hc
  | false => exact .reads hi fun t => .pure fun _ hc => hc

theorem Reads.commaList (hi : Reads source single item) : Reads source id (commaList m item) :=
  fun _ => .commaList (fun _ => Behind.stable) fun _ => hi.after

theorem Reads.separated (hi : Reads source single item) : Reads source id (separated m item) := by
  intro lo
  refine .reads hi fun first => .reads (.many fun lo => .skip fun found => ?_) fun more =>
    .pure fun _ hc => hc
  cases found with
  | true => exact .reads hi fun t => .pure fun _ hc => hc
  | false => exact .pure fun _ hc => hc

end

end StaticStyle.Syntax
