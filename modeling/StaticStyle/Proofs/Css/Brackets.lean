import Mathlib.Algebra.GroupWithZero.Nat
import Mathlib.Algebra.Order.BigOperators.Group.List
import Mathlib.Algebra.Order.Group.Nat
import StaticStyle.Css.Component
import StaticStyle.Proofs.Css.Tokens

/-!
# Brackets that are open

A row of tokens leaves some brackets open.  `follow?` goes over a row whose closing
brackets all match and keeps what is done and the open frames, so `gather` goes on from
there (`gather_append`).  A row that leaves nothing open adds its own components to whatever
is around it (`follow?_around`).

Whatever follows the open frames, its components fill the innermost one up and then stand
behind the block that each frame becomes (`gather_eq_enclose`): they do not depend on what
is done in a frame so far.  A text has at most as many components as characters
(`sizeOfAll_ofText_le`).
-/

namespace StaticStyle.Css.Component

variable {t : Token} {ts : List Token} {done done' : List Component} {f : Frame}
  {frames frames' : List Frame}

/-! ## Steps -/

/-- Whether a token closes what another one opens. -/
def closes (t opening : Token) : Bool :=
  match t.kind with
  | .closing c => closer? opening.kind == some c
  | _ => false

theorem closer?_of_closes {opening : Token} (h : closes t opening = true) : closer? t.kind = none := by
  unfold closes at h
  split at h
  · rename_i heq
    rw [heq]
    rfl
  · cases h

/-- How a row goes on behind a token depends on whether it closes a frame, opens one or is
no bracket. -/
theorem gather_cons :
    gather (t :: ts) done frames =
      match frames with
      | f :: outer =>
          if closes t f.opening then gather ts (close done f) outer
          else if (closer? t.kind).isSome then gather ts [] (⟨t, done⟩ :: f :: outer)
          else gather ts (.token t :: done) (f :: outer)
      | [] =>
          if (closer? t.kind).isSome then gather ts [] [⟨t, done⟩]
          else gather ts (.token t :: done) [] := by
  obtain ⟨kind, text⟩ := t
  cases kind <;> cases frames <;> rfl

theorem gather_cons_close (h : closes t f.opening = true) :
    gather (t :: ts) done (f :: frames) = gather ts (close done f) frames := by
  rw [gather_cons]
  exact if_pos h

theorem gather_cons_open (h : (closer? t.kind).isSome = true) :
    gather (t :: ts) done frames = gather ts [] (⟨t, done⟩ :: frames) := by
  have hno : ∀ opening, closes t opening = false := by
    intro opening
    by_contra hclose
    rw [closer?_of_closes (Bool.not_eq_false _ ▸ hclose)] at h
    cases h
  rw [gather_cons]
  cases frames with
  | nil => exact if_pos h
  | cons f outer =>
      dsimp only
      rw [hno, if_neg Bool.false_ne_true, if_pos h]

theorem gather_cons_token (h : closer? t.kind = none)
    (hstay : ∀ f ∈ frames.head?, closes t f.opening = false) :
    gather (t :: ts) done frames = gather ts (.token t :: done) frames := by
  rw [gather_cons, h]
  cases frames with
  | nil => rfl
  | cons f outer =>
      dsimp only
      rw [hstay f rfl]
      rfl

/-- Whether tokens of a kind are closing brackets. -/
def isClosing (kind : TokenKind) : Bool :=
  match kind with
  | .closing _ => true
  | _ => false

theorem not_closes (h : isClosing t.kind = false) (opening : Token) : closes t opening = false := by
  unfold closes
  split
  · rename_i heq
    rw [heq] at h
    cases h
  · rfl

/-- What is done and the open frames behind a row of tokens, or nothing if one of them is a
closing bracket that closes nothing. -/
def follow? : List Token → (done : List Component) → List Frame →
    Option (List Component × List Frame)
  | [], done, frames => some (done, frames)
  | t :: ts, done, frames =>
      if isClosing t.kind then
        match frames with
        | f :: outer => if closes t f.opening then follow? ts (close done f) outer else none
        | [] => none
      else if (closer? t.kind).isSome then follow? ts [] (⟨t, done⟩ :: frames)
      else follow? ts (.token t :: done) frames

theorem isClosing_of_closes {opening : Token} (h : closes t opening = true) :
    isClosing t.kind = true := by
  by_contra hno
  rw [not_closes (Bool.not_eq_true _ ▸ hno)] at h
  cases h

theorem not_isClosing_of_isSome (h : (closer? t.kind).isSome = true) : isClosing t.kind = false := by
  unfold isClosing
  split
  · rename_i heq
    rw [heq] at h
    cases h
  · rfl

theorem follow?_cons_close (h : closes t f.opening = true) :
    follow? (t :: ts) done (f :: frames) = follow? ts (close done f) frames := by
  rw [follow?.eq_def]
  dsimp only
  rw [if_pos (isClosing_of_closes h), if_pos h]

theorem follow?_cons_open (h : (closer? t.kind).isSome = true) :
    follow? (t :: ts) done frames = follow? ts [] (⟨t, done⟩ :: frames) := by
  rw [follow?.eq_def]
  dsimp only
  rw [not_isClosing_of_isSome h, if_neg Bool.false_ne_true, if_pos h]

theorem follow?_cons_token (hclosing : isClosing t.kind = false) (h : closer? t.kind = none) :
    follow? (t :: ts) done frames = follow? ts (.token t :: done) frames := by
  rw [follow?.eq_def]
  dsimp only
  rw [hclosing, if_neg Bool.false_ne_true, h]
  rfl

/-- A row that can be followed starts with the bracket that closes the innermost frame, with
one that opens another, or with a token that is no bracket. -/
theorem follow?_cons_cases {state : List Component × List Frame}
    (h : follow? (t :: ts) done frames = some state) :
    (∃ f outer, frames = f :: outer ∧ closes t f.opening = true ∧
        follow? ts (close done f) outer = some state) ∨
      ((closer? t.kind).isSome = true ∧ follow? ts [] (⟨t, done⟩ :: frames) = some state) ∨
      (isClosing t.kind = false ∧ closer? t.kind = none ∧
        follow? ts (.token t :: done) frames = some state) := by
  unfold follow? at h
  split at h
  · split at h
    · rename_i f outer
      split at h
      · exact Or.inl ⟨f, outer, rfl, ‹_›, h⟩
      · cases h
    · cases h
  · rename_i hclosing
    split at h
    · exact Or.inr (Or.inl ⟨‹_›, h⟩)
    · rename_i hopen
      exact Or.inr (Or.inr ⟨Bool.not_eq_true _ ▸ hclosing, Option.not_isSome_iff_eq_none.mp hopen, h⟩)

/-- The components of a row that goes on are those from where its first part leads. -/
theorem gather_append (h : follow? ts done frames = some (done', frames')) (vs : List Token) :
    gather (ts ++ vs) done frames = gather vs done' frames' := by
  induction ts generalizing done frames with
  | nil =>
      obtain ⟨rfl, rfl⟩ := Prod.mk.inj (Option.some.inj h)
      rfl
  | cons t ts ih =>
      rw [List.cons_append]
      rcases follow?_cons_cases h with ⟨f, outer, rfl, hclose, hnext⟩ | ⟨hopen, hnext⟩ |
        ⟨hkind, htoken, hnext⟩
      · rw [gather_cons_close hclose, ih hnext]
      · rw [gather_cons_open hopen, ih hnext]
      · rw [gather_cons_token htoken fun f _ => not_closes hkind f.opening, ih hnext]

theorem follow?_append (h : follow? ts done frames = some (done', frames')) (vs : List Token) :
    follow? (ts ++ vs) done frames = follow? vs done' frames' := by
  induction ts generalizing done frames with
  | nil =>
      obtain ⟨rfl, rfl⟩ := Prod.mk.inj (Option.some.inj h)
      rfl
  | cons t ts ih =>
      rw [List.cons_append]
      rcases follow?_cons_cases h with ⟨f, outer, rfl, hclose, hnext⟩ | ⟨hopen, hnext⟩ |
        ⟨hkind, htoken, hnext⟩
      · rw [follow?_cons_close hclose, ih hnext]
      · rw [follow?_cons_open hopen, ih hnext]
      · rw [follow?_cons_token hkind htoken, ih hnext]

/-- Tokens that are no brackets are done one after the other. -/
theorem follow?_of_flat (h : ∀ t ∈ ts, isClosing t.kind = false ∧ closer? t.kind = none)
    (done : List Component) (frames : List Frame) :
    follow? ts done frames = some ((ts.map token).reverse ++ done, frames) := by
  induction ts generalizing done with
  | nil => rfl
  | cons t ts ih =>
      obtain ⟨hclosing, hopen⟩ := h t List.mem_cons_self
      rw [follow?_cons_token hclosing hopen, ih fun u hu => h u (List.mem_cons_of_mem t hu),
        List.map_cons, List.reverse_cons, List.append_assoc]
      rfl

/-! ## Something around a row -/

/-- What is done and the open frames with more around them: components in front of all that is
done, and frames that are open outside. -/
def around (front : List Component) (outside : List Frame) :
    (done : List Component) → List Frame → List Component × List Frame
  | done, [] => (done ++ front, outside)
  | done, f :: frames =>
      (done, ⟨f.opening, (around front outside f.before frames).1⟩ ::
        (around front outside f.before frames).2)

theorem around_cons (front : List Component) (outside : List Frame) (c : Component)
    (done : List Component) (frames : List Frame) :
    around front outside (c :: done) frames =
      (c :: (around front outside done frames).1, (around front outside done frames).2) := by
  cases frames <;> rfl

/-- A row is followed the same way whatever is around it. -/
theorem follow?_around (front : List Component) (outside : List Frame)
    (h : follow? ts done frames = some (done', frames')) :
    follow? ts (around front outside done frames).1 (around front outside done frames).2 =
      some (around front outside done' frames') := by
  induction ts generalizing done frames with
  | nil =>
      obtain ⟨rfl, rfl⟩ := Prod.mk.inj (Option.some.inj h)
      rfl
  | cons t ts ih =>
      rcases follow?_cons_cases h with ⟨f, outer, rfl, hclose, hnext⟩ | ⟨hopen, hnext⟩ |
        ⟨hkind, htoken, hnext⟩
      · have hrest := ih hnext
        rw [close, around_cons] at hrest
        have hframe : closes t (Frame.mk f.opening (around front outside f.before outer).1).opening = true :=
          hclose
        exact (follow?_cons_close hframe).trans hrest
      · exact (follow?_cons_open hopen).trans (ih hnext)
      · have hrest := ih hnext
        rw [around_cons] at hrest
        exact (follow?_cons_token hkind htoken).trans hrest

/-- A row that leaves nothing open adds its components to what is done. -/
theorem follow?_of_closed (h : follow? ts [] [] = some (done', [])) (done : List Component)
    (frames : List Frame) : follow? ts done frames = some (done' ++ done, frames) :=
  follow?_around done frames h

/-! ## What follows -/

/-- The components of a row with some of its frames around a part of it: the part in the
innermost frame, and what stands behind each frame. -/
def enclose : List Frame → (behind : List (List Component)) → (part : List Component) →
    List Component
  | [], _, part => part
  | f :: frames, behind, part =>
      enclose frames behind.tail (f.before.reverse ++ .block f.opening part :: behind.headD [])

theorem gather_nil (done : List Component) (frames : List Frame) :
    gather [] done frames = enclose frames [] done.reverse := by
  induction frames generalizing done with
  | nil => rfl
  | cons f frames ih =>
      refine (ih (close done f)).trans ?_
      rw [close, List.reverse_cons]
      rfl

/-- Whatever follows the open frames fills the innermost one up and stands behind the blocks
that the frames become, in the same way whatever is in the frames. -/
theorem gather_eq_enclose (vs openings : List Token) :
    ∃ part behind, ∀ done frames, frames.map Frame.opening = openings →
      gather vs done frames = enclose frames behind (done.reverse ++ part) := by
  induction vs generalizing openings with
  | nil =>
      refine ⟨[], [], fun done frames _ => ?_⟩
      rw [List.append_nil, gather_nil]
  | cons t vs ih =>
      by_cases hclose : openings.head?.any (closes t) = true
      · cases openings with
        | nil => cases hclose
        | cons o openings =>
            obtain ⟨part, behind, hgather⟩ := ih openings
            refine ⟨[], part :: behind, fun done frames hframes => ?_⟩
            cases frames with
            | nil => cases hframes
            | cons f frames =>
                obtain ⟨rfl, rfl⟩ := List.cons.inj hframes
                rw [gather_cons_close hclose, hgather _ _ rfl, close, List.reverse_cons,
                  List.append_assoc, List.append_nil]
                rfl
      · by_cases hopen : (closer? t.kind).isSome = true
        · obtain ⟨part, behind, hgather⟩ := ih (t :: openings)
          refine ⟨.block t part :: behind.headD [], behind.tail, fun done frames hframes => ?_⟩
          rw [gather_cons_open hopen, hgather [] (⟨t, done⟩ :: frames) (congrArg (t :: ·) hframes)]
          rfl
        · obtain ⟨part, behind, hgather⟩ := ih openings
          refine ⟨.token t :: part, behind, fun done frames hframes => ?_⟩
          have hstay : ∀ f ∈ frames.head?, closes t f.opening = false := by
            intro f hf
            by_contra hcloses
            refine hclose ?_
            rw [← hframes, List.head?_map, hf]
            exact Bool.not_eq_false _ ▸ hcloses
          rw [gather_cons_token (Option.not_isSome_iff_eq_none.mp hopen) hstay, hgather _ _ hframes,
            List.reverse_cons, List.append_assoc]
          rfl

/-! ## Sizes -/

mutual

/-- The number of components in a component. -/
def size : Component → Nat
  | .token _ => 1
  | .block _ items => 1 + sizeOfAll items

/-- The number of components in some components. -/
def sizeOfAll : List Component → Nat
  | [] => 0
  | c :: cs => size c + sizeOfAll cs

end

theorem sizeOfAll_eq_sum (cs : List Component) : sizeOfAll cs = (cs.map size).sum := by
  induction cs with
  | nil => rfl
  | cons c cs ih => rw [sizeOfAll, ih, List.map_cons, List.sum_cons]

theorem sizeOfAll_append (cs ds : List Component) :
    sizeOfAll (cs ++ ds) = sizeOfAll cs + sizeOfAll ds := by
  simp only [sizeOfAll_eq_sum, List.map_append, List.sum_append]

theorem sizeOfAll_reverse (cs : List Component) : sizeOfAll cs.reverse = sizeOfAll cs := by
  simp only [sizeOfAll_eq_sum, List.map_reverse, List.sum_reverse]

theorem sizeOfAll_le_of_suffix {cs ds : List Component} (h : ds <:+ cs) :
    sizeOfAll ds ≤ sizeOfAll cs := by
  obtain ⟨front, rfl⟩ := h
  rw [sizeOfAll_append]
  omega

/-- Each token becomes one component at most. -/
theorem sizeOfAll_gather_le (ts : List Token) (done : List Component) (frames : List Frame) :
    sizeOfAll (gather ts done frames) ≤
      ts.length + sizeOfAll done + (frames.map fun f => 1 + sizeOfAll f.before).sum := by
  induction ts generalizing done frames with
  | nil =>
      induction frames generalizing done with
      | nil =>
          rw [gather, List.foldl_nil, sizeOfAll_reverse]
          omega
      | cons f frames ih =>
          refine (ih (close done f)).trans ?_
          rw [close, sizeOfAll, size, sizeOfAll_reverse, List.map_cons, List.sum_cons]
          omega
  | cons t ts ih =>
      rw [gather_cons, List.length_cons]
      split
      · rename_i f outer
        rw [List.map_cons, List.sum_cons]
        split
        · refine (ih (close done f) outer).trans ?_
          rw [close, sizeOfAll, size, sizeOfAll_reverse]
          omega
        · split
          · refine (ih [] (⟨t, done⟩ :: f :: outer)).trans ?_
            rw [sizeOfAll, List.map_cons, List.sum_cons, List.map_cons, List.sum_cons]
            dsimp only
            omega
          · refine (ih (.token t :: done) (f :: outer)).trans ?_
            rw [sizeOfAll, size, List.map_cons, List.sum_cons]
            omega
      · split
        · refine (ih [] [⟨t, done⟩]).trans ?_
          rw [sizeOfAll, List.map_cons, List.sum_cons]
          dsimp only
          omega
        · refine (ih (.token t :: done) []).trans ?_
          rw [sizeOfAll, size]
          omega

theorem sizeOfAll_ofText_le (s : List Char) : sizeOfAll (ofText s) ≤ s.length := by
  have hgather := sizeOfAll_gather_le (tokens s) [] []
  rw [sizeOfAll, List.map_nil, List.sum_nil] at hgather
  exact hgather.trans (length_tokens_le s)

end StaticStyle.Css.Component
