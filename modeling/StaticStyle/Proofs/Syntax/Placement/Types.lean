import StaticStyle.Proofs.Syntax.Placement.Bindings

/-!
# Placement of types

Every rule of the grammar of types places what it reads, and the types themselves end
with what was read for them.
-/

namespace StaticStyle.Syntax

open StaticStyle.Syntax.Parser StaticStyle.Syntax.Grammar

variable {source : List Char} {self : Rules} {lo n : Nat} {ts : List Tree} {c : Cursor} {m : String}

/-! ## Parameters and arguments -/

/-- A mark that starts with `<` can be taken for the mark `<`. -/
theorem Meets.splitLess {β : Type} {f : Unit → Parser β} {Q : β → Cursor → Prop}
    (hf : Meets (Behind source lo ts) (f ()) Q) :
    Meets (Behind source lo ts) (Grammar.splitLess >>= f) Q := by
  refine .bind (.modify fun c hc => ?_) fun _ => hf
  split
  · next m rest hm hrest =>
      refine hc.rescan ⟨hrest.symm, nofun, ?_⟩ fun _ => hc.inSource.solid_of_mark hm
      rintro _ ⟨⟩
      rfl
  · exact hc

namespace Sound

theorem typeParameter (h : Sound source self) : Reads source single (typeParameter self) := fun _ =>
  .still fun _ => .skip fun _ => .reads expresses_binding.reads fun _ =>
    .skip fun _ => .either h.wholeType.reads reads_absent fun _ =>
      .skip fun _ => .either h.wholeType.reads reads_absent fun _ => .node rfl

theorem typeParameters (h : Sound source self) : Reads source single (typeParameters self) := by
  refine fun lo => .still fun ctx => .still fun there => .ite (fun _ => ?_) fun _ => reads_absent lo
  exact .still fun start => .skip fun _ => .reads (.commaList h.typeParameter) fun ps =>
    .still fun _ => .node rfl

theorem typeArguments (h : Sound source self) : Closes source (typeArguments self) := fun _ =>
  .still fun _ => .splitLess (.skip fun _ => .reads (.commaList h.wholeType.reads) fun _ =>
    .still fun _ => .closed rfl)

theorem typeArgumentsHere (h : Sound source self) : Reads source single (typeArgumentsHere self) :=
  fun lo => .still fun _ => .still fun _ =>
    .ite (fun _ => h.typeArguments.reads lo) fun _ => reads_absent lo

/-! ## Names -/

theorem qualifiedName : Reads source single qualifiedName := by
  refine fun lo => .still fun start => .skip fun isThis => ?_
  extract_lets withFirst
  have hfirst : ∀ first, Meets (Behind source lo [first]) (withFirst first) fun t =>
      Behind source lo [t] := by
    refine fun first => .extend (R := fun t => Behind source lo [t]) fun t => .skip fun found =>
      .ite (fun _ => ?_) fun _ => ?_
    · exact .reads expresses_memberName.reads fun k => .bind (.node rfl) fun t =>
        .pure fun _ hc => hc
    · exact .pure fun _ hc => hc
  exact .ite (fun _ => .bind (.node rfl) hfirst) fun _ => .reads expresses_reference.reads hfirst

theorem typeReference (h : Sound source self) : Closes source (typeReference self) := fun _ =>
  .still fun _ => .reads qualifiedName fun _ => .reads h.typeArgumentsHere fun _ => .closed rfl

theorem importType (h : Sound source self) : Closes source (importType self) := by
  refine fun lo => .still fun _ => .skip fun _ => .skip fun _ =>
    .reads (.commaList h.wholeType.reads) fun ts => .skip fun _ =>
      .either qualifiedName reads_absent fun path => .reads h.typeArgumentsHere fun as_ => ?_
  exact .pre (fun _ hc => by simpa [single] using hc) (.closed rfl)

theorem typeQuery (h : Sound source self) : Closes source (typeQuery self) := fun _ =>
  .still fun _ => .skip fun _ => .still fun _ => .ite
    (fun _ => .reads h.importType.reads fun _ => .closed rfl)
    fun _ => .reads qualifiedName fun _ => .reads h.typeArgumentsHere fun _ => .closed rfl

/-! ## Results -/

theorem predicateOr {type : Parser Tree} (ht : Reads source single type) :
    Reads source single (predicateOr type) := by
  refine fun lo => .still fun start => .still fun ctx => .still fun c => ?_
  extract_lets isSubject second
  refine .ite (fun _ => ?_) fun _ => .ite (fun _ => ?_) fun _ => ht lo
  · exact .skip fun _ => .reads expresses_name.reads fun _ => .skip fun _ =>
      .either ht reads_absent fun _ => .node rfl
  · exact .reads expresses_name.reads fun _ => .skip fun _ => .reads ht fun _ => .node rfl

theorem resultType (h : Sound source self) : Reads source single (resultType self) :=
  predicateOr h.wholeType.reads

theorem resultAnnotated (h : Sound source self) : Reads source single <| resultAnnotation self :=
  fun lo => .still fun _ => .skip fun _ => .ite (fun _ => h.resultType lo) fun _ => reads_absent lo

/-! ## Functions -/

theorem functionTypeParts (h : Sound source self) : Reads source id (functionTypeParts self) :=
  fun _ => .reads h.typeParameters fun _ => .reads h.parameters.reads fun _ => .skip fun _ =>
    .reads (predicateOr h.type.reads) fun _ => .pure fun _ hc => hc

theorem functionType (h : Sound source self) : Closes source (functionType self) := fun _ =>
  .still fun _ => .reads h.functionTypeParts fun _ => .closed rfl

theorem constructorType (h : Sound source self) : Closes source (constructorType self) := fun _ =>
  .still fun _ => .skip fun _ => .skip fun _ => .reads h.functionTypeParts fun _ => .closed rfl

/-! ## Members -/

theorem indexSignature (h : Sound source self) : Reads source id (indexSignature self) := fun _ =>
  .skip fun _ => .reads expresses_name.reads fun _ => .reads h.annotated fun _ => .skip fun _ =>
    .reads h.annotated fun _ => .pure fun _ hc => hc

theorem signatureParts (h : Sound source self) : Reads source id (signatureParts self) := fun _ =>
  .reads h.typeParameters fun _ => .reads h.parameters.reads fun _ =>
    .reads h.resultAnnotated fun _ => .pure fun _ hc => hc

theorem typeMember (h : Sound source self) : Reads source single (typeMember self) := by
  refine fun lo => .still fun start => .still fun isNew => .still fun next => ?_
  extract_lets construct withParts
  have hparts : ∀ form isOptional words cs, Meets (Behind source lo cs)
      (withParts (.signature form isOptional words, cs)) fun t => Behind source lo [t] :=
    fun _ _ _ _ => .skip fun _ => .node rfl
  refine .still fun isCall =>
    .ite (fun _ => .reads h.signatureParts fun _ => hparts _ _ _ _) fun _ => ?_
  refine .ite (fun _ => .skip fun _ => .reads h.signatureParts fun _ => hparts _ _ _ _) fun _ => ?_
  refine .skip fun words => .still fun isIndex => .ite
    (fun _ => .reads h.indexSignature fun _ => hparts _ _ _ _) fun _ => ?_
  refine .skip fun accessor => .reads h.key fun k => .skip fun isOptional =>
    .still fun isMethod => ?_
  exact .ite (fun _ => .reads h.signatureParts fun _ => hparts _ _ _ _) fun _ =>
    .reads h.annotated fun _ => hparts _ _ _ _

theorem mappedType (h : Sound source self) : Closes source (mappedType self) := fun _ =>
  .still fun _ => .skip fun _ => .skip fun _ => .skip fun _ =>
    .reads expresses_binding.reads fun _ => .skip fun _ => .reads h.wholeType.reads fun _ =>
      .skip fun _ => .either h.wholeType.reads reads_absent fun _ => .skip fun _ => .skip fun _ =>
        .reads h.annotated fun _ => .skip fun _ => .skip fun _ => .closed rfl

theorem objectType (h : Sound source self) : Closes source (objectType self) := fun _ =>
  .still fun _ => .skip fun _ => .reads (.manyUntil h.typeMember) fun _ => .closed rfl

/-! ## Tuples and templates -/

theorem tupleElement (h : Sound source self) : Reads source single (tupleElement self) := by
  refine fun lo => .still fun start => .skip fun isRest => .still fun c => ?_
  extract_lets second isWord named
  refine .ite (fun _ => ?_) fun _ => ?_
  · exact .reads expresses_name.reads fun _ => .skip fun _ => .skip fun _ =>
      .reads h.wholeType.reads fun _ => .node rfl
  · exact .reads h.wholeType.reads fun _ => .skip fun _ =>
      .ite (fun _ => .node rfl) fun _ => .pure fun _ hc => hc

theorem templateType (h : Sound source self) : Closes source (templateType self) := by
  refine Expresses.closes fun n => .position ?_
  refine .bind (.pre (fun _ => Before.toward) (templateParts_opens h.wholeType.reads)) fun r => ?_
  exact .of_and fun hs => .whole hs rfl

/-! ## Types -/

theorem literalType : Closes source literalType := by
  refine fun lo => .still fun start => .skip fun negative => .still fun at_ => .still fun t => ?_
  split
  · exact .skip fun _ => .bind (.node rfl) fun _ => .closed rfl
  · exact .skip fun _ => .bind (.node rfl) fun _ => .closed rfl
  · exact .still fun _ => .bind (.skip fun _ => .node rfl) fun _ => .closed rfl
  · exact .failure

theorem primaryType (h : Sound source self) : Closes source (primaryType self) := by
  refine fun lo => .still fun start => .still fun t => ?_
  split
  · exact .skip fun _ => .reads h.wholeType.reads fun _ => .skip fun _ => .closed rfl
  · exact .skip fun _ => .reads (.commaList h.tupleElement) fun _ => .closed rfl
  · exact .still fun _ => .ite (fun _ => h.mappedType lo) fun _ => h.objectType lo
  · exact h.templateType lo
  · exact h.typeQuery lo
  · exact h.importType lo
  · exact .skip fun _ => .bind (.node rfl) fun _ => .closed rfl
  · exact .skip fun _ => .bind (.node rfl) fun _ => .closed rfl
  · exact .still fun _ => .ite (fun _ => .skip fun _ => .closed rfl) fun _ => h.typeReference lo
  · exact literalType lo

theorem postfixType (h : Sound source self) : Closes source (postfixType self) := by
  refine fun lo => .bind (h.primaryType lo) fun t => .extend (R := Closed source lo) fun t => ?_
  refine .still fun _ => .still fun _ => .ite (fun _ => ?_) fun _ => .pure fun _ hc => hc
  refine .pre (fun _ hc => hc.behind)
    (.skip fun _ => .skip fun isArray => .ite (fun _ => ?_) fun _ => ?_)
  · exact .bind (.closed rfl) fun _ => .pure fun _ hc => hc
  · exact .reads h.wholeType.reads fun _ => .skip fun _ => .bind (.closed rfl) fun _ =>
      .pure fun _ hc => hc

theorem inferType (h : Sound source self) : Closes source (inferType self) := by
  refine fun lo => .still fun _ => .skip fun _ => .reads expresses_binding.reads fun b => ?_
  refine .reads (.attempt fun lo => ?_) fun constraint => .orAbsent fun _ => .closed rfl
  exact .skip fun _ => .reads h.type.reads.inContext fun _ => .still fun _ => .still fun _ =>
    .still fun _ => .pure fun _ hc => hc

end Sound

theorem Closed.operators {t : Tree} (h : Closed source lo t c) (operators : List (String × Nat)) :
    Closed source lo (operators.foldr
      (fun (w, at_) t => .node (.typeOperator w) ⟨at_, c.last⟩ [t]) t) c := by
  induction operators with
  | nil => exact h
  | cons o operators ih => exact ⟨ih.behind.node rfl _, rfl⟩

namespace Sound

theorem operatorType (h : Sound source self) : Closes source (operatorType self) := by
  refine fun lo => .still fun ctx => .bind (.many (I := fun _ => Behind source lo []) fun _ => ?_)
    fun operators => .still fun _ => .still fun _ => ?_
  · refine .still fun t => ?_
    split
    · exact .ite (fun _ => .still fun _ => .skip fun _ => .pure fun _ hc => hc) fun _ =>
        .pure fun _ hc => hc
    · exact .pure fun _ hc => hc
  · extract_lets finish
    have hfinish : ∀ t, Meets (Closed source lo t) (finish t) (Closed source lo) := by
      intro t ctx c u d hc hr
      cases hr
      exact hc.operators operators
    exact .ite (fun _ => .bind (h.inferType lo) hfinish) fun _ => .bind (h.postfixType lo) hfinish

theorem markedTypes {item : Parser Tree} {kind : Kind} (hk : ∀ ts, kind.isPlain ts = true)
    (hi : Closes source item) : Closes source (markedTypes m kind item) := by
  refine fun lo => .still fun start => .skip fun leading => ?_
  refine .bind (.separated (F := fun t c => t.span.stop = c.last)
    ((hi lo).post fun t c ht => ⟨trivial, ht.behind, ht.stop⟩) hi.reads) fun ts =>
      .of_and fun _ => ?_
  split
  · exact .ite (fun _ => .pre (fun _ hc => hc.1) (.closed (hk _))) fun _ =>
      .pure fun c hc => ⟨hc.1, hc.2 _ rfl⟩
  · exact .pre (fun _ hc => hc.1) (.closed (hk _))

theorem unionType (h : Sound source self) : Closes source (unionType self) :=
  markedTypes (fun _ => rfl) (markedTypes (fun _ => rfl) h.operatorType)

theorem typeRule (h : Sound source self) : Closes source (typeRule self) := by
  refine fun lo => .still fun start => .still fun _ => .ite (fun _ => h.functionType lo) fun _ => ?_
  refine .still fun _ => .ite (fun _ => h.constructorType lo) fun _ => ?_
  refine .bind (h.unionType lo) fun t => .still fun _ => .still fun _ => .still fun _ => ?_
  refine .ite (fun _ => .pre (fun _ hc => hc.behind) ?_) fun _ => .pure fun _ hc => hc
  exact .skip fun _ => .reads h.type.reads.inContext fun _ => .skip fun _ =>
    .reads h.wholeType.reads fun _ => .skip fun _ => .reads h.wholeType.reads fun _ => .closed rfl

end Sound

end StaticStyle.Syntax
