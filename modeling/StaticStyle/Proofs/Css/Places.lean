import Mathlib.Data.List.DropRight
import StaticStyle.Proofs.Css.Order
import StaticStyle.Proofs.Css.Soundness

/-!
# Places in a stylesheet

A text can be put into a stylesheet at a place between two items, or inside the block of an
at-rule that may hold other things.  `place?` finds out from what stands in front whether there is
such a place, and `isWhole` whether a text that is put there ends by itself: outside strings,
comments and brackets, and with its last item.

At a place, a stylesheet is sound if what is around is sound and the text that is put there
is, and its rules are those in front, those of the text if the place is at the top, and those
behind (`exists_fills`).
-/

namespace StaticStyle.Css

open Component

variable {level : Level} {c : Component} {cs ds : List Component} {f : Frame} {frames : List Frame}

/-! ## Faulty tokens -/

theorem anyFaulty_append_iff :
    anyFaulty (cs ++ ds) = false ↔ anyFaulty cs = false ∧ anyFaulty ds = false := by
  induction cs with
  | nil => exact (and_iff_right rfl).symm
  | cons c cs ih => rw [List.cons_append, anyFaulty, anyFaulty, Bool.or_eq_false_iff, ih,
      Bool.or_eq_false_iff, and_assoc]

theorem not_isFaulty_of_isGap (h : isGap c = true) : isFaulty c = false := by
  obtain ⟨t, rfl, hkind | hkind⟩ := isToken_of_isGap h <;> rw [isFaulty, isFaultyToken, hkind]

theorem anyFaulty_of_gaps (h : ∀ c ∈ cs, isGap c = true) : anyFaulty cs = false := by
  induction cs with
  | nil => rfl
  | cons c cs ih =>
      rw [anyFaulty, Bool.or_eq_false_iff]
      exact ⟨not_isFaulty_of_isGap (h c List.mem_cons_self),
        ih fun d hd => h d (List.mem_cons_of_mem c hd)⟩

/-! ## Places -/

/-- Where a text may stand. -/
inductive Place where
  /-- Between the items of a level. -/
  | item (level : Level)
  /-- In the block of an at-rule that may hold whatever is not faulty. -/
  | tokens
  /-- In the block of an at-rule that may hold anything. -/
  | anything
deriving DecidableEq, Repr

variable {place inner : Place}

/-- A row of components is valid at a place. -/
def SoundAt : Place → List Component → Prop
  | .item level, cs => Sound level cs
  | .tokens, cs => anyFaulty cs = false
  | .anything, _ => True

/-- The marks that a row of components at a place adds to those of the stylesheet. -/
def marksAt : Place → List Component → List Mark
  | .item .top, cs => marksOf cs
  | _, _ => []

/-- Whether a row of components at a place is the same whatever follows it. -/
def isClosedAt : Place → List Component → Bool
  | .item level, cs => (openItem level cs).isEmpty
  | _, _ => true

theorem soundAt_append (h : isClosedAt place cs = true) :
    SoundAt place (cs ++ ds) ↔ SoundAt place cs ∧ SoundAt place ds := by
  cases place with
  | item level =>
      rw [isClosedAt, List.isEmpty_iff] at h
      simp only [SoundAt, sound_iff, items_append h, List.forall_mem_append]
  | tokens => exact anyFaulty_append_iff
  | anything => exact (and_self_iff).symm

theorem marksAt_append (h : isClosedAt place cs = true) :
    marksAt place (cs ++ ds) = marksAt place cs ++ marksAt place ds := by
  match place with
  | .item .top =>
      rw [isClosedAt, List.isEmpty_iff] at h
      rw [marksAt, marksAt, marksAt, marksOf, items_append h, List.map_append]
      rfl
  | .item .group | .item .rule | .tokens | .anything => rfl

theorem items_gap_append (h : ∀ c ∈ cs, isGap c = true) :
    items level (cs ++ ds) = items level ds := by
  refine items_filler (fun c hc => ?_) ds
  unfold isFiller
  rw [h c hc, Bool.true_or]

theorem soundAt_gap_append (h : ∀ c ∈ cs, isGap c = true) :
    SoundAt place (cs ++ ds) ↔ SoundAt place ds := by
  cases place with
  | item level => simp only [SoundAt, sound_iff, items_gap_append h]
  | tokens => exact anyFaulty_append_iff.trans (and_iff_right (anyFaulty_of_gaps h))
  | anything => exact Iff.rfl

theorem marksAt_gap_append (h : ∀ c ∈ cs, isGap c = true) :
    marksAt place (cs ++ ds) = marksAt place ds := by
  match place with
  | .item .top => rw [marksAt, marksAt, marksOf, marksOf, items_gap_append h]
  | .item .group | .item .rule | .tokens | .anything => rfl

theorem soundAt_nil (place : Place) : SoundAt place [] := by
  cases place with
  | item level => exact sound_iff.mpr fun item hitem => by rw [items_of_nil rfl] at hitem; cases hitem
  | tokens => rfl
  | anything => trivial

theorem marksAt_nil (place : Place) : marksAt place [] = [] := by
  match place with
  | .item .top => rfl
  | .item .group | .item .rule | .tokens | .anything => rfl

theorem soundAt_gaps (h : ∀ c ∈ cs, isGap c = true) : SoundAt place cs := by
  rw [← List.append_nil cs, soundAt_gap_append h]
  exact soundAt_nil place

theorem marksAt_gaps (h : ∀ c ∈ cs, isGap c = true) : marksAt place cs = [] := by
  rw [← List.append_nil cs, marksAt_gap_append h, marksAt_nil]

/-! ## Blocks -/

/-- The at-rule whose block comes next behind a row of components: its name, and what follows it. -/
def atRule? (cs : List Component) : Option (Token × List Component) :=
  match cs with
  | .token name :: params =>
      if name.kind == .atKeyword && params.all fun d => !isBraces d && !isEnd d then
        some (name, trim params)
      else none
  | _ => none

/-- Whether the block of a rule comes next behind a row of components. -/
def isRuleHead (level : Level) (cs : List Component) : Bool :=
  cs.all (fun d => !isBraces d && !(level.inRule && isEnd d)) &&
    match cs with
    | .token t :: rest => t.kind != .atKeyword && !(level.inRule && t.kind == .ident && isNamed rest)
    | .block _ _ :: _ => true
    | [] => false

/-- Where a text stands in a block at a level. -/
def Content.place? (level : Level) : Content → Option Place
  | .items => some (.item level.inside)
  | .rule => some (.item .rule)
  | .tokens => some .tokens
  | .anything => some .anything
  | .boxes _ _ => none
  | .property => none

/-- Where a text stands in the block that comes next behind an item that has not ended. -/
def blockPlace? (level : Level) (head : List Component) : Option Place :=
  match atRule? head with
  | some (name, params) =>
      (AtRule.known? level name.keyword).bind fun rule =>
        (rule.content params).bind (Content.place? level)
  | none => if isRuleHead level head then some (.item .rule) else none

/-- Where a text stands in a frame that is open at a place. -/
def framePlace? (place : Place) (f : Frame) : Option Place :=
  match place with
  | .item level =>
      if f.opening.kind == .opening '{' then
        blockPlace? level (openItem level f.before.reverse)
      else none
  | .tokens => some .tokens
  | .anything => some .anything

/-- Where a text stands in the innermost of some open frames. -/
def placeIn? : List Frame → Option Place
  | [] => some (.item .top)
  | f :: outer => (placeIn? outer).bind fun place => framePlace? place f

theorem span_of_stop {α : Type} {p : α → Bool} {xs : List α} {a : α} (hxs : xs.all p = true)
    (ha : p a = false) (rest : List α) : (xs ++ a :: rest).span p = (xs, a :: rest) := by
  have hpos := fun x hx => List.all_eq_true.mp hxs x hx
  have hneg : ¬ p a = true := by rw [ha]; exact Bool.false_ne_true
  rw [List.span_eq_takeWhile_dropWhile, List.takeWhile_append_of_pos hpos,
    List.dropWhile_append_of_pos hpos, List.takeWhile_cons_of_neg hneg,
    List.dropWhile_cons_of_neg hneg, List.append_nil]

theorem isBraces_block {opening : Token} (h : opening.kind = .opening '{')
    (block : List Component) :
    isBraces (.block opening block) = true := by
  rw [isBraces, h]
  rfl

theorem atItem_block {name opening : Token} {params : List Component}
    (hparams : (params.all fun d => !isBraces d && !isEnd d) = true)
    (h : opening.kind = .opening '{') (block rest : List Component) :
    atItem name (params ++ .block opening block :: rest) =
      (.atRule name (trim params) (some block), rest) := by
  unfold atItem
  rw [span_of_stop hparams (by rw [isBraces_block h]; rfl)]

theorem ruleItem_block {opening : Token} {selector : List Component}
    (hselector : (selector.all fun d => !isBraces d && !(level.inRule && isEnd d)) = true)
    (h : opening.kind = .opening '{') (block rest : List Component) :
    ruleItem level (selector ++ .block opening block :: rest) =
      (.rule (trim selector) block, rest) := by
  unfold ruleItem
  rw [span_of_stop hselector (by rw [isBraces_block h]; rfl)]

theorem isNamed_block {opening : Token} (hnamed : isNamed cs = false)
    (block rest : List Component) :
    isNamed (cs ++ .block opening block :: rest) = false := by
  cases hdrop : cs.dropWhile isGap with
  | nil =>
      rw [isNamed, List.dropWhile_append, hdrop]
      rfl
  | cons d ds => rw [isNamed_append (by rw [hdrop]; exact List.cons_ne_nil _ _), hnamed]

/-- The block that comes next behind a rule's head makes the rule. -/
theorem nextItem_rule {c : Component} {head : List Component} {opening : Token}
    (hhead : isRuleHead level (c :: head) = true) (h : opening.kind = .opening '{')
    (block rest : List Component) :
    nextItem level c (head ++ .block opening block :: rest) =
      (.rule (trim (c :: head)) block, rest) := by
  unfold isRuleHead at hhead
  rw [Bool.and_eq_true] at hhead
  obtain ⟨hselector, hstart⟩ := hhead
  have hrule := ruleItem_block hselector h block rest
  cases c with
  | block opening' block' => exact hrule
  | token t =>
      rw [Bool.and_eq_true, bne_iff_ne, Bool.not_eq_true'] at hstart
      obtain ⟨hat, hdeclaration⟩ := hstart
      unfold nextItem
      dsimp only
      rw [if_neg (by rw [beq_iff_eq]; exact hat)]
      split
      · rename_i hident
        rw [hident, Bool.true_and] at hdeclaration
        obtain rfl : level = .rule := beq_iff_eq.mp (Bool.and_eq_true_iff.mp hident).1
        have hname : isEnd (.token t) = false := by
          rw [Bool.and_eq_true, beq_iff_eq] at hident
          simp [isEnd, isToken, kind?, hident.2]
        exact (blockItem_of_not_named (isNamed_block hdeclaration block rest) hname).trans hrule
      · exact hrule

/-- A block makes an item of what stands in front of it, whose mark does not depend on the block, and
which is valid if both are. -/
theorem exists_blockItem {head : List Component} {opening : Token}
    (hplace : blockPlace? level (c :: head) = some inner) (h : opening.kind = .opening '{') :
    ∃ (front : Prop) (mark : Mark), ∀ block rest, ∃ item,
      nextItem level c (head ++ .block opening block :: rest) = (item, rest) ∧ item.mark = mark ∧
        (SoundItem Sound level item ↔ front ∧ SoundAt inner block) := by
  unfold blockPlace? at hplace
  split at hplace
  · rename_i name params hname
    unfold atRule? at hname
    split at hname
    · rename_i t behind heq
      obtain ⟨rfl, rfl⟩ := List.cons.inj heq
      split at hname
      · rename_i hat
        cases hname
        obtain ⟨hkind, hparams⟩ := Bool.and_eq_true_iff.mp hat
        obtain ⟨rule, hknown, hrule⟩ := Option.bind_eq_some_iff.mp hplace
        obtain ⟨content, hcontent, hinner⟩ := Option.bind_eq_some_iff.mp hrule
        refine ⟨rule.takes (trim head) = true, (Item.atRule name (trim head) (some [])).mark,
          fun block rest => ⟨.atRule name (trim head) (some block), ?_, rfl, ?_⟩⟩
        · unfold nextItem
          dsimp only
          rw [if_pos hkind, atItem_block hparams h]
        · have hblock : SoundBlock Sound level content block ↔ SoundAt inner block := by
            cases content <;> cases hinner <;> rfl
          simp only [SoundItem, hknown, hcontent, Option.some.injEq, exists_eq_left', hblock]
      · cases hname
    · cases hname
  · split at hplace
    · rename_i hhead
      cases hplace
      exact ⟨Selector.isList level.inRule (trim (c :: head)) = true, .rule, fun block rest =>
        ⟨.rule (trim (c :: head)) block, nextItem_rule hhead h block rest, rfl, Iff.rfl⟩⟩
    · cases hplace

/-- The items of a row with a block in it are those in front, the one that the block belongs to, and
those behind. -/
theorem exists_items_block {head : List Component} {opening : Token}
    (hopen : openItem level cs = c :: head) (hplace : blockPlace? level (c :: head) = some inner)
    (h : opening.kind = .opening '{') :
    ∃ (ended : List Item) (front : Prop) (mark : Mark), ∀ block rest, ∃ item,
      items level (cs ++ .block opening block :: rest) = ended ++ item :: items level rest ∧
        item.mark = mark ∧ (SoundItem Sound level item ↔ front ∧ SoundAt inner block) := by
  obtain ⟨ended, hitems⟩ := exists_items_openItem level cs
  obtain ⟨front, mark, hfront⟩ := exists_blockItem hplace h
  have hstart : isFiller level c = false := not_isFiller_of_openItem hopen
  refine ⟨ended, front, mark, fun block rest => ?_⟩
  obtain ⟨item, hnext, hitem⟩ := hfront block rest
  have hdrop : (c :: (head ++ .block opening block :: rest)).dropWhile (isFiller level) = _ :=
    List.dropWhile_cons_of_neg (by rw [hstart]; exact Bool.false_ne_true)
  refine ⟨item, ?_, hitem⟩
  rw [hitems, hopen, List.cons_append, items_of_cons hdrop, hnext]

theorem marksAt_of_ne_top (h : place ≠ .item .top) (cs : List Component) :
    marksAt place cs = [] := by
  match place with
  | .item .top => exact absurd rfl h
  | .item .group | .item .rule | .tokens | .anything => rfl

/-- No place in a block is at the top. -/
theorem ne_top_of_framePlace? (h : framePlace? place f = some inner) : inner ≠ .item .top := by
  have hblock : ∀ level content, Content.place? level content = some inner → inner ≠ .item .top := by
    intro level content hinner
    cases content <;> cases hinner <;> cases level <;> decide
  cases place with
  | item level =>
      unfold framePlace? blockPlace? at h
      dsimp only at h
      split at h
      · split at h
        · obtain ⟨rule, -, hrule⟩ := Option.bind_eq_some_iff.mp h
          obtain ⟨content, -, hinner⟩ := Option.bind_eq_some_iff.mp hrule
          exact hblock level content hinner
        · split at h
          · cases h
            decide
          · cases h
      · cases h
  | tokens =>
      cases h
      decide
  | anything =>
      cases h
      decide

/-- Only what stands in no block is at the top. -/
theorem eq_nil_of_placeIn? (h : placeIn? frames = some (.item .top)) : frames = [] := by
  cases frames with
  | nil => rfl
  | cons f outer =>
      obtain ⟨outside, -, hframe⟩ := Option.bind_eq_some_iff.mp h
      exact absurd rfl (ne_top_of_framePlace? hframe)

/-- Where a block is valid inside a row, what is around it and what is in it are valid.  What is in
it makes no difference to the marks of the row. -/
theorem exists_soundAt_block (h : framePlace? place f = some inner) :
    ∃ (around : Prop) (front : List Mark), ∀ block rest,
      (SoundAt place (f.before.reverse ++ .block f.opening block :: rest) ↔
        around ∧ SoundAt inner block ∧ SoundAt place rest) ∧
      marksAt place (f.before.reverse ++ .block f.opening block :: rest) =
        front ++ marksAt place rest := by
  cases place with
  | tokens =>
      cases h
      refine ⟨anyFaulty f.before.reverse = false, [], fun block rest => ⟨?_, rfl⟩⟩
      refine anyFaulty_append_iff.trans (and_congr_right' ?_)
      rw [anyFaulty, Bool.or_eq_false_iff]
      rfl
  | anything =>
      cases h
      exact ⟨True, [], fun block rest => ⟨by simp only [SoundAt, and_self], rfl⟩⟩
  | item level =>
      rw [framePlace?] at h
      split at h
      · rename_i hbraces
        rw [beq_iff_eq] at hbraces
        cases hopen : openItem level f.before.reverse with
        | nil =>
            rw [hopen] at h
            cases h
        | cons c head =>
            rw [hopen] at h
            obtain ⟨ended, front, mark, hrow⟩ := exists_items_block hopen h hbraces
            refine ⟨(∀ item ∈ ended, SoundItem Sound level item) ∧ front,
              if level = .top then ended.map Item.mark ++ [mark] else [], fun block rest => ?_⟩
            obtain ⟨item, hrow, hmark, hsound⟩ := hrow block rest
            constructor
            · rw [SoundAt, SoundAt, sound_iff, sound_iff, hrow, List.forall_mem_append,
                List.forall_mem_cons, hsound]
              simp only [and_assoc]
            · cases level with
              | top =>
                  rw [marksAt, marksAt, marksOf, marksOf, hrow, List.map_append, List.map_cons, hmark,
                    if_pos rfl, List.append_assoc]
                  rfl
              | group | rule => rfl
      · cases h

/-! ## Stylesheets around a place -/

/-- What surrounds a place in a stylesheet. -/
structure Setting where
  /-- What is around is valid. -/
  sound : Prop
  /-- The marks in front of the place. -/
  front : List Mark
  /-- The marks behind the place. -/
  rear : List Mark

/-- A stylesheet is what surrounds a place with a part at the place. -/
structure Setting.Fills (around : Setting) (place : Place) (part sheet : List Component) :
    Prop where
  sound_iff : Sound .top sheet ↔ around.sound ∧ SoundAt place part
  marks_eq : marksOf sheet = around.front ++ (marksAt place part ++ around.rear)

variable {around : Setting} {part rest sheet sheet' : List Component}

/-- With a part that is closed at its place in front of it, what is around a text holds the part,
too. -/
def Setting.push (around : Setting) (place : Place) (part : List Component) : Setting where
  sound := around.sound ∧ SoundAt place part
  front := around.front ++ marksAt place part
  rear := around.rear

/-- With a rest behind it, what is around a text holds the rest, too. -/
def Setting.pushBehind (around : Setting) (place : Place) (rest : List Component) : Setting where
  sound := around.sound ∧ SoundAt place rest
  front := around.front
  rear := marksAt place rest ++ around.rear

theorem Setting.Fills.push (h : around.Fills place (part ++ rest) sheet)
    (hclosed : isClosedAt place part = true) : (around.push place part).Fills place rest sheet where
  sound_iff := by rw [h.sound_iff, soundAt_append hclosed, Setting.push, and_assoc]
  marks_eq := by
    rw [h.marks_eq, marksAt_append hclosed, Setting.push, List.append_assoc, List.append_assoc]

/-- Gaps make no difference at a place. -/
theorem Setting.Fills.of_gap (h : around.Fills place (part ++ rest) sheet)
    (hgap : ∀ c ∈ part, isGap c = true) : around.Fills place rest sheet where
  sound_iff := by rw [h.sound_iff, soundAt_gap_append hgap]
  marks_eq := by rw [h.marks_eq, marksAt_gap_append hgap]

/-- A part inside open frames fills a place, and what is around it does not depend on the part.  What
stands behind the frames can be left out. -/
theorem exists_setting_enclose (h : placeIn? frames = some place) :
    ∃ around : List (List Component) → Setting,
      (∀ behind part, (around behind).Fills place part (enclose frames behind part)) ∧
        ∀ behind, ((around behind).sound → (around []).sound) ∧
          (around []).front = (around behind).front ∧ (around []).rear = [] := by
  induction frames generalizing place with
  | nil =>
      cases h
      refine ⟨fun _ => ⟨True, [], []⟩, fun behind part => ⟨(and_iff_right trivial).symm, ?_⟩,
        fun _ => ⟨id, rfl, rfl⟩⟩
      exact (List.append_nil _).symm
  | cons f outer ih =>
      obtain ⟨outside, houter, hframe⟩ := Option.bind_eq_some_iff.mp h
      obtain ⟨around, hfills, hnil⟩ := ih houter
      obtain ⟨sound, front, hblock⟩ := exists_soundAt_block hframe
      refine ⟨fun behind => ⟨(around behind.tail).sound ∧ sound ∧ SoundAt outside (behind.headD []),
          (around behind.tail).front ++ front,
          marksAt outside (behind.headD []) ++ (around behind.tail).rear⟩,
        fun behind part => ⟨?_, ?_⟩, fun behind => ⟨fun h => ?_, ?_, ?_⟩⟩
      · rw [enclose, (hfills _ _).sound_iff, (hblock _ _).1]
        constructor
        · rintro ⟨haround, hfront, hpart, hbehind⟩
          exact ⟨⟨haround, hfront, hbehind⟩, hpart⟩
        · rintro ⟨⟨haround, hfront, hbehind⟩, hpart⟩
          exact ⟨haround, hfront, hpart, hbehind⟩
      · rw [enclose, (hfills _ _).marks_eq, (hblock _ _).2,
          marksAt_of_ne_top (ne_top_of_framePlace? hframe)]
        simp only [List.append_assoc, List.nil_append]
      · exact ⟨(hnil _).1 h.1, h.2.1, soundAt_nil outside⟩
      · exact congrArg (· ++ front) (hnil behind.tail).2.1
      · exact (congrArg (· ++ (around []).rear) (marksAt_nil outside)).trans (hnil []).2.2

/-! ## Texts -/

/-- What is done and the open frames at the end of a text, if it ends between tokens and its
closing brackets match. -/
def stateOf? (s : List Char) : Option (List Component × List Frame) :=
  let text := s.rdropWhile isBlank
  if endsComplete text then follow? (tokens text) [] [] else none

/-- Where a text stands that is put behind another one. -/
def place? (s : List Char) : Option Place :=
  match stateOf? s with
  | some (done, frames) => (placeIn? frames).filter fun place => isClosedAt place done.reverse
  | none => none

/-- Whether a text at a place ends by itself, whatever follows it. -/
def isWhole (place : Place) (s : List Char) : Bool :=
  match stateOf? s with
  | some (done, []) => isClosedAt place done.reverse
  | _ => false

variable {s text u v w : List Char} {ts blanks : List Token} {done : List Component}

theorem follow?_blanks (h : ∀ t ∈ blanks, t.kind = .blank) (done : List Component)
    (frames : List Frame) :
    follow? blanks done frames = some ((blanks.map Component.token).reverse ++ done, frames) :=
  follow?_of_flat (fun t ht => by rw [h t ht]; exact ⟨rfl, rfl⟩) done frames

theorem isGap_of_blanks (h : ∀ t ∈ blanks, t.kind = .blank) :
    ∀ c ∈ blanks.map Component.token, isGap c = true := by
  intro c hc
  obtain ⟨t, ht, rfl⟩ := List.mem_map.mp hc
  rw [isGap, isToken, kind?, h t ht]
  rfl

/-- Whether a text is valid at a place. -/
def isSoundText (place : Place) (s : List Char) : Bool :=
  match place with
  | .item level => isPartText level s
  | .tokens => !anyFaulty (ofText s)
  | .anything => true

theorem isSoundText_iff (place : Place) (s : List Char) :
    isSoundText place s = true ↔ SoundAt place (ofText s) := by
  cases place with
  | item level => exact isPartText_iff level s
  | tokens => exact Bool.not_eq_true' _ ▸ Iff.rfl
  | anything => exact iff_of_true rfl trivial

/-- A row of tokens leads to a place. -/
structure LeadsTo (ts : List Token) (place : Place) (done : List Component) (frames : List Frame) :
    Prop where
  state : follow? ts [] [] = some (done, frames)
  isPlace : placeIn? frames = some place
  isClosed : isClosedAt place done.reverse = true

/-- Behind a row that leads to a place, what follows fills the place. -/
theorem LeadsTo.exists_fills (h : LeadsTo ts place done frames) (vs : List Token) :
    ∃ (around : Setting) (behind : List Component),
      (place = .item .top → around.front = marksOf done.reverse ∧ around.rear = [] ∧
        behind = gather vs [] []) ∧
      ∀ ms middle, follow? ms [] [] = some (middle, []) →
        around.Fills place (middle.reverse ++ behind) (gather (ts ++ (ms ++ vs)) [] []) := by
  obtain ⟨behind, outside, hgather⟩ := gather_eq_enclose vs (frames.map Frame.opening)
  obtain ⟨around, hfills, -⟩ := exists_setting_enclose h.isPlace
  refine ⟨(around outside).push place done.reverse, behind, fun htop => ?_, fun ms middle hms => ?_⟩
  · subst htop
    obtain rfl := eq_nil_of_placeIn? h.isPlace
    have hempty := (hfills outside []).marks_eq
    obtain ⟨hfront, hrear⟩ := List.append_eq_nil_iff.mp hempty.symm
    refine ⟨?_, (List.append_eq_nil_iff.mp hrear).2, (hgather [] [] rfl).symm⟩
    exact congrArg (· ++ marksOf done.reverse) hfront
  · have hsheet := hfills outside (done.reverse ++ (middle.reverse ++ behind))
    rw [← List.append_assoc, ← List.reverse_append, ← hgather _ _ rfl,
      ← gather_append (follow?_of_closed hms done frames), ← gather_append h.state,
      List.reverse_append, List.append_assoc] at hsheet
    exact hsheet.push h.isClosed

/-- Two rows are both valid as stylesheets or both not, and have the same marks. -/
def Alike (cs ds : List Component) : Prop :=
  (Sound .top cs ↔ Sound .top ds) ∧ marksOf cs = marksOf ds

theorem Setting.Fills.congr (h : around.Fills place part sheet) (hsheet : Alike sheet' sheet) :
    around.Fills place part sheet' where
  sound_iff := hsheet.1.trans h.sound_iff
  marks_eq := hsheet.2.trans h.marks_eq

theorem Setting.Fills.alike (h : around.Fills place part sheet) (h' : around.Fills place part sheet') :
    Alike sheet sheet' :=
  ⟨h.sound_iff.trans h'.sound_iff.symm, h.marks_eq.trans h'.marks_eq.symm⟩

/-- Blanks at a place change nothing. -/
theorem LeadsTo.alike_blanks (h : LeadsTo ts place done frames)
    (hblanks : ∀ t ∈ blanks, t.kind = .blank) (vs : List Token) :
    Alike (gather (ts ++ (blanks ++ vs)) [] []) (gather (ts ++ vs) [] []) := by
  obtain ⟨around, behind, -, hfills⟩ := h.exists_fills vs
  have hgaps := hfills blanks _ (follow?_blanks hblanks [] [])
  rw [List.append_nil, List.reverse_reverse] at hgaps
  exact (hgaps.of_gap (isGap_of_blanks hblanks)).alike (hfills [] [] rfl)

/-- The text of a place, up to the blanks in front of it, leads to the place. -/
theorem exists_leadsTo (h : place? s = some place) :
    ∃ done frames, endsComplete (s.rdropWhile isBlank) = true ∧
      LeadsTo (tokens (s.rdropWhile isBlank)) place done frames := by
  unfold place? stateOf? at h
  dsimp only at h
  split at h
  · rename_i done frames heq
    split at heq
    · rename_i hends
      obtain ⟨hplace, hclosed⟩ := Option.filter_eq_some_iff.mp h
      exact ⟨done, frames, hends, heq, hplace, hclosed⟩
    · cases heq
  · cases h

theorem exists_of_isWhole (h : isWhole place s = true) :
    ∃ done, endsComplete (s.rdropWhile isBlank) = true ∧
      follow? (tokens (s.rdropWhile isBlank)) [] [] = some (done, []) ∧
        isClosedAt place done.reverse = true := by
  unfold isWhole stateOf? at h
  dsimp only at h
  split at h
  · rename_i done heq
    split at heq
    · rename_i hends
      exact ⟨done, hends, heq, h⟩
    · cases heq
  · cases h

/-- Behind a complete token, blanks are cut off what follows it. -/
theorem exists_tokens_append (h : endsComplete (s.rdropWhile isBlank) = true) (w : List Char) :
    ∃ blanks, (∀ t ∈ blanks, t.kind = .blank) ∧
      tokens (s ++ w) =
        tokens (s.rdropWhile isBlank) ++ (blanks ++ tokens (w.dropWhile isBlank)) := by
  have htail : ∀ c ∈ s.rtakeWhile isBlank, isBlank c = true := fun c hc => List.mem_rtakeWhile_imp hc
  obtain ⟨blanks, hblanks, htokens⟩ := exists_tokens_dropWhile (s.rtakeWhile isBlank ++ w)
  refine ⟨blanks, hblanks, ?_⟩
  rw [List.dropWhile_append_of_pos htail] at htokens
  rw [← htokens, ← tokens_append h, ← List.append_assoc,
    List.rdropWhile_append_rtakeWhile]

/-- The tokens of what follows a place can be taken on their own. -/
theorem LeadsTo.alike_append (h : LeadsTo (tokens (u.rdropWhile isBlank)) place done frames)
    (hends : endsComplete (u.rdropWhile isBlank) = true) (w : List Char) :
    Alike (ofText (u ++ w)) (gather (tokens (u.rdropWhile isBlank) ++ tokens w) [] []) := by
  obtain ⟨behind, hbehind, hu⟩ := exists_tokens_append hends w
  obtain ⟨front, hfront, hw⟩ := exists_tokens_dropWhile w
  have halike := h.alike_blanks hbehind (tokens (w.dropWhile isBlank))
  have halike' := h.alike_blanks hfront (tokens (w.dropWhile isBlank))
  rw [ofText, hu, hw]
  exact ⟨halike.1.trans halike'.1.symm, halike.2.trans halike'.2.symm⟩

/-- At the top, blanks in front of a text make no difference to its marks. -/
theorem marksOf_dropWhile (w : List Char) :
    marksOf (ofText (w.dropWhile isBlank)) = marksOf (ofText w) := by
  obtain ⟨blanks, hblanks, htokens⟩ := exists_tokens_dropWhile w
  have htop : LeadsTo [] (.item .top) [] [] := ⟨rfl, rfl, rfl⟩
  rw [ofText, ofText, htokens]
  exact (htop.alike_blanks hblanks _).2.symm

/-- At a place, a stylesheet is what is around with the text that is put there. -/
theorem exists_fills (h : place? u = some place) (v : List Char) :
    ∃ around : Setting,
      (place = .item .top → around.front = marksOf (ofText u) ∧ around.rear = marksOf (ofText v)) ∧
      ∀ s, isWhole place s = true → around.Fills place (ofText s) (ofText (u ++ (s ++ v))) := by
  obtain ⟨done, frames, hends, hleads⟩ := exists_leadsTo h
  obtain ⟨around, behind, htop, hfills⟩ := hleads.exists_fills (tokens (v.dropWhile isBlank))
  refine ⟨around.pushBehind place behind, fun heq => ?_, fun s hs => ?_⟩
  · obtain ⟨hfront, hrear, hbehind⟩ := htop heq
    subst heq
    obtain rfl := eq_nil_of_placeIn? hleads.isPlace
    constructor
    · have hu := (hleads.alike_append hends []).2
      have hgather := gather_append hleads.state []
      rw [List.append_nil, tokens_nil, hgather, gather_nil] at hu
      exact hfront.trans hu.symm
    · rw [Setting.pushBehind, hrear, List.append_nil, hbehind, ← marksOf_dropWhile]
      rfl
  · obtain ⟨part, hspart, hfollow, hclosed⟩ := exists_of_isWhole hs
    have hwhole : ∀ w, ∃ blanks, (∀ t ∈ blanks, t.kind = .blank) ∧
        tokens (s ++ w) =
          (tokens (s.rdropWhile isBlank) ++ blanks) ++ tokens (w.dropWhile isBlank) ∧
        follow? (tokens (s.rdropWhile isBlank) ++ blanks) [] [] =
          some ((part.reverse ++ blanks.map Component.token).reverse, []) := by
      intro w
      obtain ⟨blanks, hblanks, htokens⟩ := exists_tokens_append hspart w
      refine ⟨blanks, hblanks, by rw [htokens, List.append_assoc], ?_⟩
      rw [follow?_append hfollow, follow?_blanks hblanks, List.reverse_append, List.reverse_reverse]
    obtain ⟨blanks, hblanks, htokens, hstate⟩ := hwhole v
    obtain ⟨blanks', hblanks', htokens', hstate'⟩ := hwhole []
    have htext : ofText s = part.reverse ++ blanks'.map Component.token := by
      have hgather := gather_append hstate' []
      rw [List.append_nil] at htokens' hgather
      rw [ofText, htokens', List.dropWhile_nil, tokens_nil, List.append_nil, hgather, gather_nil,
        enclose, List.reverse_reverse]
    have hsheet := hfills _ _ hstate
    rw [← htokens, List.reverse_reverse, List.append_assoc] at hsheet
    have hgaps := isGap_of_blanks hblanks
    have hgaps' := isGap_of_blanks hblanks'
    refine Setting.Fills.congr ⟨?_, ?_⟩ (hleads.alike_append hends (s ++ v))
    · rw [hsheet.sound_iff, soundAt_append hclosed, soundAt_gap_append hgaps, htext,
        soundAt_append hclosed, and_iff_left (soundAt_gaps hgaps'), Setting.pushBehind, and_assoc,
        and_comm (a := SoundAt place behind)]
    · rw [hsheet.marks_eq, marksAt_append hclosed, marksAt_gap_append hgaps, htext,
        marksAt_append hclosed, marksAt_gaps hgaps', List.append_nil, List.append_assoc]
      rfl

/-- At a place, what follows can be left out of a stylesheet. -/
theorem exists_left (h : place? u = some place) (w : List Char) :
    (Sound .top (ofText (u ++ w)) → Sound .top (ofText u)) ∧
      marksOf (ofText u) <+: marksOf (ofText (u ++ w)) := by
  obtain ⟨done, frames, hends, hleads⟩ := exists_leadsTo h
  obtain ⟨behind, outside, hgather⟩ := gather_eq_enclose (tokens w) (frames.map Frame.opening)
  obtain ⟨around, hfills, hnil⟩ := exists_setting_enclose hleads.isPlace
  have hlong := hfills outside (done.reverse ++ behind)
  rw [← hgather _ _ rfl, ← gather_append hleads.state] at hlong
  have hlong := hlong.congr (hleads.alike_append hends w)
  have hshort := hfills [] done.reverse
  have hstate := gather_append hleads.state []
  rw [← gather_nil, ← hstate, ← tokens_nil] at hshort
  have hshort := hshort.congr (hleads.alike_append hends [])
  rw [List.append_nil] at hshort
  obtain ⟨hsound, hfront, hrear⟩ := hnil outside
  constructor
  · rw [hlong.sound_iff, hshort.sound_iff, soundAt_append hleads.isClosed]
    exact fun hboth => ⟨hsound hboth.1, hboth.2.1⟩
  · rw [hlong.marks_eq, hshort.marks_eq, hfront, hrear, List.append_nil,
      marksAt_append hleads.isClosed, List.append_assoc, ← List.append_assoc]
    exact List.prefix_append _ _

end StaticStyle.Css
