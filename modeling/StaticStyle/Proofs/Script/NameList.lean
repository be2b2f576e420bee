import StaticStyle.Proofs.Script.Extent

/-!
# Lists of names

The names of an import stand between braces, with commas between them, blanks around them
and maybe one more comma behind the last.  If what goes with one of several names is taken
out, such a list of the other names is left (`NameList.leaves_others`).

A name with a comma behind it goes with that comma, and what stands behind the comma then
follows the blanks in front of the name (`removes_behind`).  A last name without a comma goes
with the one in front of it, and the blanks behind the name then follow the name in front
(`removes_front`).

Whatever stands around a part of a source, what goes with it as a name or as a declaration
is again a part of the source, and it holds the part (`extents_wellFormed`).
-/

namespace StaticStyle.Text

variable {blanks name before after s : List Char}

/-! ## Lists -/

/-- A name of a list, with the blanks around it.  It may be several words, as when it has
another name in the module. -/
structure ListEntry where
  /-- The blanks in front of the name. -/
  front : List Char
  /-- The name. -/
  name : List Char
  /-- The blanks behind the name. -/
  back : List Char
  isBlank_front : ∀ c ∈ front, isBlank c = true
  isBlank_back : ∀ c ∈ back, isBlank c = true
  comma_notMem : ',' ∉ name
  solid_head : ∃ c ∈ name.head?, isBlank c = false
  solid_last : ∃ c ∈ name.getLast?, isBlank c = false

namespace ListEntry

/-- The text of a name with the blanks around it. -/
def text (e : ListEntry) : List Char := e.front ++ (e.name ++ e.back)

/-- A name with the blanks that are in front of another. -/
def inPlaceOf (e other : ListEntry) : ListEntry :=
  { e with front := other.front, isBlank_front := other.isBlank_front }

/-- A name with the blanks behind another added to its own. -/
def extend (e other : ListEntry) : ListEntry where
  front := e.front
  name := e.name
  back := e.back ++ other.back
  isBlank_front := e.isBlank_front
  isBlank_back := fun c hc =>
    (List.mem_append.mp hc).elim (e.isBlank_back c) (other.isBlank_back c)
  comma_notMem := e.comma_notMem
  solid_head := e.solid_head
  solid_last := e.solid_last

end ListEntry

/-- Names with commas between them. -/
structure NameList where
  /-- The names. -/
  entries : List ListEntry
  /-- The blanks behind a trailing comma, if there is one. -/
  trailing : Option (List Char)
  isBlank_trailing : ∀ blanks ∈ trailing, ∀ c ∈ blanks, isBlank c = true

namespace NameList

/-- The names of a list, without the blanks. -/
def names (l : NameList) : List (List Char) := l.entries.map (·.name)

/-- The text of a list. -/
def text (l : NameList) : List Char :=
  [','].intercalate (l.entries.map ListEntry.text ++ l.trailing.toList)

/-- A source with a list in braces somewhere. -/
def inBraces (l : NameList) (opening closing : List Char) : List Char :=
  opening ++ '{' :: (l.text ++ '}' :: closing)

/-- Entries with a comma behind each. -/
def led (es : List ListEntry) : List Char := (es.map ListEntry.text).flatMap (· ++ [','])

/-- What stands in front of a name in such a source, behind the names before it. -/
def frontOf (opening : List Char) (init : List ListEntry) (e : ListEntry) : List Char :=
  opening ++ '{' :: (led init ++ e.front)

/-- Where a name of the list stands in such a source. -/
def spanOf (l : NameList) (opening : List Char) (i : Fin l.entries.length) : Span :=
  let front := frontOf opening (l.entries.take i) l.entries[i]
  ⟨byteLength front, byteLength (front ++ l.entries[i].name)⟩

end NameList

open NameList (led)

/-! ## Commas -/

/-- Parts in front of others have a comma behind each. -/
theorem intercalate_append {xs ys : List (List Char)} (h : ys ≠ []) :
    [','].intercalate (xs ++ ys) = xs.flatMap (· ++ [',']) ++ [','].intercalate ys := by
  induction xs with
  | nil => simp
  | cons x xs ih => simp [List.intercalate_cons_of_ne_nil, h, ih]

/-- What the first part starts with, the text starts with. -/
theorem intercalate_cons_append (x y : List Char) (zs : List (List Char)) :
    [','].intercalate ((x ++ y) :: zs) = x ++ [','].intercalate (y :: zs) := by
  cases zs with
  | nil => simp
  | cons z zs => simp

theorem led_concat (es : List ListEntry) (e : ListEntry) :
    led (es ++ [e]) = led es ++ (e.text ++ [',']) := by
  simp [led]

/-- The text of a list, from one of its names on. -/
theorem NameList.text_eq {l : NameList} {front back : List ListEntry} {e : ListEntry}
    (h : l.entries = front ++ e :: back) :
    l.text = led front ++
      [','].intercalate (e.text :: (back.map ListEntry.text ++ l.trailing.toList)) := by
  rw [NameList.text, h, List.map_append, List.append_assoc, intercalate_append (by simp)]
  rfl

theorem dropWhile_blanks (hb : ∀ c ∈ blanks, isBlank c = true)
    (hs : ∃ c ∈ s.head?, isBlank c = false) : (blanks ++ s).dropWhile isBlank = s := by
  obtain ⟨c, hc, hsolid⟩ := hs
  obtain ⟨s, rfl⟩ := List.head?_eq_some_iff.mp hc
  exact trimStart_blanks hb hsolid s

/-! ## What is left -/

/-- Taking out what goes with a name of a source leaves a text. -/
def Removes (source : List Char) (r : Span) (left : List Char) : Prop :=
  ∃ extent, nameExtent source r = some extent ∧ splice source [.delete extent] = some left

/-- A name with a comma behind it goes with the comma and the blanks around that. -/
theorem removes_behind (before name after : List Char) (hb : ∀ c ∈ blanks, isBlank c = true) :
    Removes (before ++ (name ++ (blanks ++ ',' :: after)))
      ⟨byteLength before, byteLength (before ++ name)⟩ (before ++ after.dropWhile isBlank) := by
  refine ⟨_, nameExtent_behind before name after hb, ?_⟩
  have htext : before ++ (name ++ (blanks ++ ',' :: after)) =
      before ++ ((name ++ (blanks ++ ',' :: after.takeWhile isBlank)) ++
        after.dropWhile isBlank) := by
    simp
  rw [htext]
  exact splice_delete_part before (by simp) _

/-- Otherwise a name with a comma in front of it goes with that one and the blanks behind
it. -/
theorem removes_front (before name : List Char) (hb : ∀ c ∈ blanks, isBlank c = true)
    (ha : (trimStart after).head? ≠ some ',') :
    Removes ((before ++ ',' :: blanks) ++ (name ++ after))
      ⟨byteLength (before ++ ',' :: blanks), byteLength ((before ++ ',' :: blanks) ++ name)⟩
      (before ++ after) := by
  refine ⟨_, nameExtent_front before name hb ha, ?_⟩
  have htext : (before ++ ',' :: blanks) ++ (name ++ after) =
      before ++ ((',' :: blanks ++ name) ++ after) := by
    simp
  have hstop : (before ++ ',' :: blanks) ++ name = before ++ (',' :: blanks ++ name) := by simp
  rw [htext, hstop]
  exact splice_delete_part before (by simp) after

namespace NameList

variable {l : NameList} {init rest : List ListEntry} {e : ListEntry}

/-- A name that is not the last, or that has a trailing comma behind it. -/
theorem inBraces_of_comma (h : l.entries = init ++ e :: rest)
    (hne : rest.map ListEntry.text ++ l.trailing.toList ≠ []) (opening closing : List Char) :
    l.inBraces opening closing = frontOf opening init e ++ (e.name ++ (e.back ++
      ',' :: ([','].intercalate (rest.map ListEntry.text ++ l.trailing.toList) ++
        '}' :: closing))) := by
  rw [inBraces, text_eq h, List.intercalate_cons_of_ne_nil hne]
  simp [frontOf, ListEntry.text]

/-- A last name without a comma. -/
theorem inBraces_of_last (h : l.entries = init ++ [e]) (hl : l.trailing = none)
    (opening closing : List Char) :
    l.inBraces opening closing =
      frontOf opening init e ++ (e.name ++ (e.back ++ '}' :: closing)) := by
  rw [inBraces, text_eq h, hl]
  simp [frontOf, ListEntry.text]

/-- Wherever a list stands in a source, taking out the name of one of its entries leaves a list of
others, with as many trailing commas. -/
def Leaves (l : NameList) (init : List ListEntry) (e : ListEntry) (others : List ListEntry) : Prop :=
  ∀ opening closing, ∃ l' : NameList, l'.names = others.map (·.name) ∧
    l'.trailing.isSome = l.trailing.isSome ∧
    Removes (l.inBraces opening closing) ⟨byteLength (frontOf opening init e),
      byteLength (frontOf opening init e ++ e.name)⟩ (l'.inBraces opening closing)

/-- The name behind one that is taken out follows the blanks in front of that. -/
theorem leaves_middle {r : ListEntry} (h : l.entries = init ++ e :: r :: rest) :
    l.Leaves init e (init ++ r :: rest) := by
  intro opening closing
  let left : NameList := ⟨init ++ r.inPlaceOf e :: rest, l.trailing, l.isBlank_trailing⟩
  refine ⟨left, by simp [left, names, ListEntry.inPlaceOf], rfl, ?_⟩
  -- From the name behind on, both lists are the same.
  let tail := r.name ++ ([','].intercalate (r.back :: (rest.map ListEntry.text ++
    l.trailing.toList)) ++ '}' :: closing)
  have htail : [','].intercalate ((r :: rest).map ListEntry.text ++ l.trailing.toList) ++
      '}' :: closing = r.front ++ tail := by
    simp [tail, ListEntry.text, intercalate_cons_append]
  have hleft : left.inBraces opening closing = frontOf opening init e ++ tail := by
    rw [inBraces, text_eq (l := left) rfl]
    simp [left, tail, frontOf, ListEntry.text, ListEntry.inPlaceOf, intercalate_cons_append]
  have hsolid : ∃ c ∈ tail.head?, isBlank c = false := by
    obtain ⟨c, hc, hsolid⟩ := r.solid_head
    exact ⟨c, by simp [tail, List.head?_append, Option.mem_def.mp hc], hsolid⟩
  have hremoves := removes_behind (frontOf opening init e) e.name (r.front ++ tail)
    e.isBlank_back
  rwa [dropWhile_blanks r.isBlank_front hsolid, ← hleft, ← htail,
    ← inBraces_of_comma h (by simp)] at hremoves

/-- The comma in front of a last name becomes the trailing comma. -/
theorem leaves_trailing (h : l.entries = init ++ [e]) (hl : l.trailing = some blanks) :
    l.Leaves init e init := by
  intro opening closing
  let left : NameList := ⟨init, some e.front, by simpa using e.isBlank_front⟩
  refine ⟨left, rfl, by rw [hl]; rfl, ?_⟩
  have hleft : left.inBraces opening closing = frontOf opening init e ++ '}' :: closing := by
    rw [inBraces, text, intercalate_append (by simp [left])]
    simp [left, frontOf, led]
  have hblanks : (blanks ++ '}' :: closing).dropWhile isBlank = '}' :: closing :=
    dropWhile_blanks (l.isBlank_trailing blanks hl) ⟨'}', rfl, by decide⟩
  have htext := inBraces_of_comma h (by simp [hl]) opening closing
  simp only [hl, List.map_nil, List.nil_append, Option.toList_some,
    List.intercalate_singleton] at htext
  have hremoves := removes_behind (frontOf opening init e) e.name (blanks ++ '}' :: closing)
    e.isBlank_back
  rwa [hblanks, ← hleft, ← htext] at hremoves

/-- The blanks behind a last name then follow the name in front of it. -/
theorem leaves_last {p : ListEntry} (h : l.entries = init ++ [p] ++ [e]) (hl : l.trailing = none) :
    l.Leaves (init ++ [p]) e (init ++ [p]) := by
  intro opening closing
  let left : NameList := ⟨init ++ [p.extend e], none, nofun⟩
  refine ⟨left, by simp [left, names, ListEntry.extend], by rw [hl], ?_⟩
  let before := opening ++ '{' :: (led init ++ p.text)
  have hfront : frontOf opening (init ++ [p]) e = before ++ ',' :: e.front := by
    simp [frontOf, led_concat, before]
  have hleft : left.inBraces opening closing = before ++ (e.back ++ '}' :: closing) := by
    rw [inBraces, text_eq (l := left) rfl]
    simp [left, before, ListEntry.text, ListEntry.extend]
  have hcomma : (trimStart (e.back ++ '}' :: closing)).head? ≠ some ',' := by
    rw [trimStart_blanks e.isBlank_back (by decide)]
    simp
  have hremoves := removes_front before e.name e.isBlank_front hcomma
  rwa [← hleft, ← hfront, ← inBraces_of_last h hl] at hremoves

/-- Without one of several names a list is one of the others. -/
theorem leaves_others (h : l.entries = init ++ e :: rest) (hother : init ++ rest ≠ []) :
    l.Leaves init e (init ++ rest) := by
  cases rest with
  | cons r rest => exact leaves_middle h
  | nil =>
      rw [List.append_nil] at hother ⊢
      cases hl : l.trailing with
      | some blanks => exact leaves_trailing h hl
      | none =>
          obtain ⟨init, p, rfl⟩ := (List.eq_nil_or_concat' init).resolve_left hother
          exact leaves_last h hl

theorem slice?_spanOf (l : NameList) (opening closing : List Char) (i : Fin l.entries.length) :
    slice? (l.inBraces opening closing) (l.spanOf opening i) = some l.entries[i].name := by
  have hentries : l.entries = l.entries.take i ++ l.entries[i] :: l.entries.drop (i + 1) := by simp
  obtain ⟨behind, hbehind⟩ : ∃ behind, l.inBraces opening closing =
      frontOf opening (l.entries.take i) l.entries[i] ++ (l.entries[i].name ++ behind) := by
    refine ⟨[','].intercalate (l.entries[i].back :: ((l.entries.drop (i + 1)).map ListEntry.text ++
      l.trailing.toList)) ++ '}' :: closing, ?_⟩
    rw [inBraces, text_eq hentries]
    simp [frontOf, ListEntry.text, intercalate_cons_append]
  have hslice := slice?_append (frontOf opening (l.entries.take i) l.entries[i])
    l.entries[i].name behind
  rwa [← byteLength_append, ← hbehind] at hslice

end NameList

/-! ## Extents -/

/-- Both ends of a span fall between characters of a source, or at an end of it. -/
structure Span.Fits (source : List Char) (r : Span) : Prop where
  start : ∃ s, Continues source r.start s
  stop : ∃ s, Continues source r.stop s

instance {source : List Char} {r : Span} : Decidable (r.Fits source) :=
  decidable_of_iff ((split? r.start source).isSome ∧ (split? r.stop source).isSome)
    (by rw [← exists_continues_iff, ← exists_continues_iff]
        exact ⟨fun ⟨hstart, hstop⟩ => ⟨hstart, hstop⟩, fun h => ⟨h.1, h.2⟩⟩)

/-- A span holds another. -/
def Span.Holds (outer inner : Span) : Prop :=
  outer.start ≤ inner.start ∧ inner.stop ≤ outer.stop

/-- What goes with a name holds the name. -/
theorem nameExtent_holds {source : List Char} {r : Span} (h : r.Fits source) :
    ∃ extent, nameExtent source r = some extent ∧ extent.Fits source ∧ extent.Holds r := by
  obtain ⟨s, hstart⟩ := h.start
  obtain ⟨after, hstop⟩ := h.stop
  rcases nameExtent_cases hstart hstop with
    ⟨wide, rest, rfl, -, hextent⟩ | ⟨wide, n, hn, hsum, -, hextent⟩
  · exact ⟨_, hextent, ⟨⟨s, hstart⟩, rest, hstop.append⟩, Nat.le_refl _, Nat.le_add_right _ _⟩
  · exact ⟨_, hextent, ⟨⟨_, hn⟩, after, hstop⟩, Nat.le.intro hsum, Nat.le_refl _⟩

/-- A part of a source is the end of a line, and none that starts there is longer. -/
structure LongestLineEnd (source : List Char) (r : Span) (s : List Char) : Prop where
  slice : slice? source r = some s
  isLineEnd : IsLineEnd s
  longest : ∀ other, IsLineEnd other →
    slice? source ⟨r.start, r.start + byteLength other⟩ = some other →
    byteLength other ≤ byteLength s

/-- What goes with a declaration holds the declaration and the end of its line. -/
theorem importExtent_holds {source : List Char} {r : Span} (h : r.Fits source) :
    ∃ extent added, importExtent source r = some extent ∧ extent.Fits source ∧
      extent.Holds r ∧ extent.start = r.start ∧
      LongestLineEnd source ⟨r.stop, extent.stop⟩ added := by
  obtain ⟨rest, hstop⟩ := h.stop
  obtain ⟨added, after, rfl, hadded, hextent, hlongest⟩ := importExtent_eq hstop
  refine ⟨_, added, hextent, ⟨h.start, after, hstop.append⟩,
    ⟨Nat.le_refl _, Nat.le_add_right _ _⟩, rfl, hstop.slice?, hadded,
    fun other hother hslice => ?_⟩
  obtain ⟨t, ht, -, -⟩ := continues_of_slice? hslice
  obtain ⟨k, hk, hzero⟩ := hstop.exists_append ht (Nat.le_refl _)
  have hnil : k = [] := byteLength_eq_zero (by dsimp only at hzero; omega)
  subst hnil
  exact hlongest other t hk hother

/-- If what goes with one of several names of a list is taken out, the other names are left,
in a list with as many trailing commas.  Anywhere in a source, what goes with a name or with
a declaration is a part of the source that holds it, and behind a declaration this is the
longest end of a line. -/
theorem extents_wellFormed :
    (∀ (l : NameList) (i : Fin l.entries.length) (opening closing : List Char),
      2 ≤ l.entries.length →
      slice? (l.inBraces opening closing) (l.spanOf opening i) = some l.entries[i].name ∧
        ∃ l' : NameList, l'.names = l.names.eraseIdx i ∧
          l'.trailing.isSome = l.trailing.isSome ∧
          Removes (l.inBraces opening closing) (l.spanOf opening i)
            (l'.inBraces opening closing)) ∧
    ∀ (source : List Char) (r : Span), r.Fits source →
      (∃ extent, nameExtent source r = some extent ∧ extent.Fits source ∧ extent.Holds r) ∧
      ∃ extent added, importExtent source r = some extent ∧ extent.Fits source ∧
        extent.Holds r ∧ extent.start = r.start ∧
        LongestLineEnd source ⟨r.stop, extent.stop⟩ added := by
  refine ⟨fun l i opening closing hl => ⟨l.slice?_spanOf opening closing i, ?_⟩,
    fun source r hr => ⟨nameExtent_holds hr, importExtent_holds hr⟩⟩
  have hentries : l.entries = l.entries.take i ++ l.entries[i] :: l.entries.drop (i + 1) := by simp
  have hother : l.entries.take i ++ l.entries.drop (i + 1) ≠ [] := by
    rw [← List.eraseIdx_eq_take_drop_succ]
    intro hnil
    have hlength := congrArg List.length hnil
    rw [List.length_eraseIdx_of_lt i.isLt, List.length_nil] at hlength
    omega
  obtain ⟨l', hnames, htrailing, hremoves⟩ := l.leaves_others hentries hother opening closing
  refine ⟨l', ?_, htrailing, hremoves⟩
  rw [hnames, ← List.eraseIdx_eq_take_drop_succ, NameList.names, List.eraseIdx_map]

/-- A list of two names, with a blank of three bytes and a trailing comma. -/
def twoNames : NameList where
  entries :=
    [{ front := [' ']
       name := ['a']
       back := [' ']
       isBlank_front := List.forall_mem_singleton.mpr rfl
       isBlank_back := List.forall_mem_singleton.mpr rfl
       comma_notMem := by decide
       solid_head := ⟨'a', rfl, rfl⟩
       solid_last := ⟨'a', rfl, rfl⟩ },
     { front := ['\u3000']
       name := ['b', ' ', 'a', 's', ' ', 'c']
       back := []
       isBlank_front := List.forall_mem_singleton.mpr rfl
       isBlank_back := List.forall_mem_nil _
       comma_notMem := by decide
       solid_head := ⟨'b', rfl, rfl⟩
       solid_last := ⟨'c', rfl, rfl⟩ }]
  trailing := some [' ']
  isBlank_trailing := by
    rintro _ ⟨rfl⟩
    exact List.forall_mem_singleton.mpr rfl

/-- Without its second name this is a list of the first, and a declaration goes with the
blank and the line break behind it. -/
theorem extents_wellFormed_wide :
    (∃ l' : NameList, l'.names = [['a']] ∧ l'.trailing.isSome = true ∧
      Removes (twoNames.inBraces [] []) ⟨8, 14⟩ (l'.inBraces [] [])) ∧
    ∃ extent added, importExtent ['é', ';', ' ', '\r', '\n', '\n'] ⟨0, 3⟩ = some extent ∧
      extent.start = 0 ∧
      LongestLineEnd ['é', ';', ' ', '\r', '\n', '\n'] ⟨3, extent.stop⟩ added := by
  constructor
  · obtain ⟨-, l', hnames, htrailing, hremoves⟩ :=
      extents_wellFormed.1 twoNames ⟨1, by decide⟩ [] [] (by decide)
    exact ⟨l', hnames, htrailing, hremoves⟩
  · obtain ⟨-, extent, added, hextent, -, -, hstart, hlongest⟩ :=
      extents_wellFormed.2 ['é', ';', ' ', '\r', '\n', '\n'] ⟨0, 3⟩ (by decide)
    exact ⟨extent, added, hextent, hstart, hlongest⟩

end StaticStyle.Text
