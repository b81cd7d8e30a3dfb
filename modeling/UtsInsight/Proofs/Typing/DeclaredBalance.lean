import UtsInsight.Proofs.Scope.Introduced
import UtsInsight.Proofs.Syntax.Resolution
import UtsInsight.Proofs.Typing.Balance
import UtsInsight.Proofs.Typing.Termination

/-!
# Types of declarations with matching brackets

The types of declarations are computed inside each other, and what a declaration answers to another
one is its final type, or the unknown type as long as it is being computed. So a property of types
that each computation keeps, whatever is answered in this way, holds of all types in the end.
Matching brackets are such a property as long as no type is cut in the wrong place.
-/
namespace UtsInsight

open Text
open Place (Below)

variable {context : TypingContext} {root : Node}

/-! ### Properties that computations keep -/

/-- The property holds of all types in the table. -/
def ProgressTable.AllDone (P : String → Prop) (table : ProgressTable) : Prop :=
  ∀ (id : DeclId) (type : String), table[id]? = some (.done type) → P type

theorem ProgressTable.AllDone.set {P : String → Prop} {table : ProgressTable}
    (h : table.AllDone P) (id : DeclId) {progress : Progress}
    (hprogress : ∀ type, progress = .done type → P type) :
    ProgressTable.AllDone P (table.set id progress) := by
  intro j type hj
  rw [List.getElem?_set] at hj
  split_ifs at hj
  · exact hprogress type (Option.some.inj hj)
  · exact h j type hj

namespace Resolves

variable {table later : ProgressTable} {ids written : List DeclId} {types : List String}

/-- The answers of a run are what the table that is left answers. -/
theorem eq_answers (h : Resolves context root table ids types later written) :
    types = ids.map fun id => (later.answer? id).getD unknownType := by
  induction h with
  | nil => rfl
  | known hid hrest ih =>
    rw [List.map_cons, ← ih, ProgressTable.answer?, hrest.advances.done hid]
    rfl
  | cycle hid hrest ih =>
    rw [List.map_cons, ← ih, ProgressTable.answer?, hrest.advances.running.mp hid]
    rfl
  | @computed table inner later id ids inside written d q answers types hid _ _ hinside hrest _ ih =>
    have hdone := hrest.advances.done
      (getElem?_set_some (hinside.advances.marked hid) (.done (q.conclude answers)))
    rw [List.map_cons, ← ih, ProgressTable.answer?, hdone]
    rfl

/-- A property of types that every computation keeps, if it is answered with final types or does not
learn them, holds of all types that a run leaves. -/
theorem allDone {P : String → Prop} {final : ProgressTable}
    (hstep : ∀ id d, context.bindings.declaration? id = some d → ∀ answers : DeclId → String,
      (∀ j, answers j = unknownType ∨ final[j]? = some (.done (answers j)) ∧ P (answers j)) →
        P (Id.run (typeOfSource context root (fun j => pure (answers j)) d.source)))
    (h : Resolves context root table ids types later written) (htable : table.AllDone P)
    (hfinal : ∀ {id : DeclId} {type : String},
      later[id]? = some (Progress.done type) → final[id]? = some (Progress.done type)) :
    later.AllDone P := by
  induction h with
  | nil => exact htable
  | known _ _ ih => exact ih htable hfinal
  | cycle _ _ ih => exact ih htable hfinal
  | @computed table inner later id ids inside written d q answers types hid hd hq hinside hrest
      ihinside ih =>
    have hkept : ∀ {j : DeclId} {type : String},
        inner[j]? = some (Progress.done type) → final[j]? = some (Progress.done type) := by
      intro j type hj
      apply hfinal
      apply hrest.advances.done
      have hne : id ≠ j := by
        rintro rfl
        rw [hinside.advances.marked hid] at hj
        cases hj
      rwa [List.getElem?_set_ne hne]
    have hinner := ihinside (htable.set id fun _ => nofun) hkept
    apply ih _ hfinal
    apply hinner.set id
    rintro type ⟨rfl⟩
    -- what the computation was answered is read off the table that it left
    have htype := hstep id d hd (fun j => (inner.answer? j).getD unknownType) ?_
    · rw [hq, Question.put, List.mapM_pure, ← hinside.eq_answers] at htype
      exact htype
    · intro j
      rw [ProgressTable.answer?]
      cases hj : inner[j]? with
      | none => exact .inl rfl
      | some progress =>
        cases progress with
        | waiting => exact .inl rfl
        | running => exact .inl rfl
        | done type => exact .inr ⟨hkept hj, hinner j type hj⟩

end Resolves

/-! ### Sources of types -/

section

variable {source : List Char} {n c : Node} {s : TypeSource} {type : String}

theorem balanced_statedType (h : n.BalancedTexts source)
    (hs : Binder.statedType source n = .fixed type) : Balanced type.toList := by
  unfold Binder.statedType at hs
  split at hs
  next stated hstated =>
    obtain rfl := TypeSource.fixed.inj hs
    exact h.annotation (by decide) hstated
  next => cases hs
  next =>
    obtain rfl := TypeSource.fixed.inj hs
    decide

namespace Node

variable {name : Node}

theorem mem_namesInTypes_of_name
    (hform : Binder.form n.kind ∈ [.classDeclaration, .classExpression, .enum, .interface])
    (hname : n.child? "name" = some name) : name ∈ n.namesInTypes := by
  apply List.mem_append_left
  apply List.mem_append_left
  simp only [List.mem_cons, List.not_mem_nil, or_false] at hform
  rcases hform with hform | hform | hform | hform <;> rw [hform] <;>
    exact Option.mem_toList.mpr hname

theorem mem_namesInTypes_of_namespace {kind : DeclarationKind}
    (hform : Binder.form n.kind = .namespace kind) (hc : n.child? "name" = some c)
    (hname : Binder.firstIdentifier? c = some name) : name ∈ n.namesInTypes := by
  apply List.mem_append_left
  apply List.mem_append_left
  rw [hform, hc]
  exact Option.mem_toList.mpr hname

theorem mem_namesInTypes_of_typeParameter {list : Node}
    (hlist : n.child? "type_parameters" = some list) (hc : c ∈ list.namedChildren)
    (hname : c.child? "name" = some name) : name ∈ n.namesInTypes := by
  apply List.mem_append_left
  apply List.mem_append_right
  rw [hlist]
  exact List.mem_flatMap.mpr
    ⟨list, List.mem_singleton_self list, List.mem_filterMap.mpr ⟨c, hc, hname⟩⟩

end Node

/-- What a node states as a text is one of its texts. -/
theorem balanced_states (h : n.Everywhere (Node.BalancedTexts source))
    (hstates : Binder.States source n (.fixed type)) : Balanced type.toList := by
  have htexts := h.self
  have hwords : ∀ word ∈ ["any", "string", "unknown"], Balanced word.toList := by decide
  generalize hs : TypeSource.fixed type = s at hstates
  cases hstates with
  | word hword =>
    rw [TypeSource.fixed.inj hs]
    exact hwords _ hword
  | «variable» hc => exact balanced_statedType (h.of_named hc).self hs.symm
  | parameter hlist hc => exact balanced_statedType ((h.of_child hlist).of_named hc).self hs.symm
  | stated hc =>
    rw [TypeSource.fixed.inj hs]
    exact htexts.annotation (by decide) hc
  | typeParameter hlist hc hname =>
    rw [TypeSource.fixed.inj hs]
    exact htexts.name (Node.mem_namesInTypes_of_typeParameter hlist hc hname)
  | name hform hname =>
    rw [TypeSource.fixed.inj hs]
    exact htexts.name (Node.mem_namesInTypes_of_name (by rw [hform]; decide) hname)
  | typeofName hform hname =>
    rw [TypeSource.fixed.inj hs]
    exact balanced_append (by decide) (htexts.name
      (Node.mem_namesInTypes_of_name (List.mem_append_left [Binder.Form.interface] hform) hname))
  | typeofNamespace hform hc hname =>
    rw [TypeSource.fixed.inj hs]
    exact balanced_append (by decide)
      (htexts.name (Node.mem_namesInTypes_of_namespace hform hc hname))
  | aliased hform hvalue =>
    rw [TypeSource.fixed.inj hs]
    exact htexts.aliased hform hvalue
  | callable => cases hs

theorem memberOf?_source {m : Member} (h : Binder.memberOf? source n = some m) :
    m.type = "" ∧ (m.source = .callable (NodeRef.of n) ∨ m.source = Binder.statedType source n) := by
  unfold Binder.memberOf? at h
  split at h
  next => cases h
  next =>
    dsimp only at h
    split_ifs at h
    · obtain rfl := Option.some.inj h
      exact ⟨rfl, .inl rfl⟩
    · obtain rfl := Option.some.inj h
      exact ⟨rfl, .inr rfl⟩

theorem balanced_memberSource (h : n.Everywhere (Node.BalancedTexts source)) {m : Member}
    (hm : m ∈ Binder.membersOf source n) :
    m.type = "" ∧ ∀ type, m.source = .fixed type → Balanced type.toList := by
  unfold Binder.membersOf at hm
  split at hm
  next body hbody =>
    obtain ⟨item, hitem, hmember⟩ := List.mem_filterMap.mp hm
    have htexts := ((h.of_child hbody).of_named hitem).self
    obtain ⟨htype, hsource⟩ := memberOf?_source hmember
    refine ⟨htype, fun type hfixed => ?_⟩
    rcases hsource with hcallable | hstated
    · rw [hcallable] at hfixed
      cases hfixed
    · exact balanced_statedType htexts (hstated.symm.trans hfixed)
  next => exact absurd hm List.not_mem_nil

end

variable {source : List Char} {answers : DeclId → String}

/-- In an intact tree the type that a source gives has matching brackets, if a written one has. -/
theorem balanced_typeOfSource (h : BalancedTypes context answers)
    (hroot : root.Everywhere (Intact context answers)) (s : TypeSource)
    (hfixed : ∀ type, s = .fixed type → Balanced type.toList) :
    Balanced (Id.run (typeOfSource context root (fun id => pure (answers id)) s)).toList := by
  cases s with
  | fixed type => exact hfixed type rfl
  | expression ref =>
    simp only [typeOfSource]
    cases hplace : ref.resolve? root with
    | none => exact balanced_unknownType
    | some place =>
      have hplace' := (NodeRef.resolve?_below hplace).everywhere hroot
      exact balanced_typeOfExpression h 0 place.node hplace'
  | callable ref =>
    simp only [typeOfSource]
    cases hplace : ref.resolve? root with
    | none => exact balanced_unknownType
    | some place =>
      have hplace' := (NodeRef.resolve?_below hplace).everywhere hroot
      exact balanced_typeOfCallable h 0 hplace'

/-- Every declaration and every member of a document states a text of the tree or is computed from
it. Members have no types yet. -/
theorem balanced_sources (htexts : root.Everywhere (Node.BalancedTexts source)) {d : Declaration}
    (hd : d ∈ (Binder.bind root source).declarations) :
    (∀ type, d.source = .fixed type → Balanced type.toList) ∧ ∀ m ∈ d.members,
      m.type = "" ∧ ∀ type, m.source = .fixed type → Balanced type.toList := by
  obtain ⟨p, hp, hintroduces⟩ := Binder.exists_introduces hd
  have hnode := (Binder.below_of_mem_entered hp).everywhere htexts
  constructor
  · intro type hfixed
    have hstates := hintroduces.states
    rw [hfixed] at hstates
    exact balanced_states hnode hstates
  · intro m hm
    cases hintroduces with
    | plain hmembers _ =>
      rw [hmembers] at hm
      exact absurd hm List.not_mem_nil
    | owner _ _ _ hmembers _ =>
      rw [hmembers] at hm
      exact balanced_memberSource hnode hm

/-! ### All types of a document -/

namespace Bindings

/-- What declarations may answer while types are computed and afterwards: their final types, or the
unknown type as long as these are not known. -/
def MayAnswer (finished : Bindings) (answers : DeclId → String) : Prop :=
  ∀ id, answers id = unknownType ∨ answers id = finished.typeOf id

theorem typeOf_mayAnswer (finished : Bindings) : finished.MayAnswer finished.typeOf :=
  fun _ => .inr rfl

/-- Nowhere in the tree is a type cut in the wrong place, neither while the types of the declarations
are computed nor when they are known. -/
def CutsWhole (b : Bindings) (root : Node) (source : List Char) : Prop :=
  ∀ c ∈ [b, b.resolveTypes root source], ∀ answers,
    (b.resolveTypes root source).MayAnswer answers →
      root.Everywhere (UtsInsight.CutsWhole ⟨source, c⟩ answers)

theorem CutsWhole.intact {b : Bindings} (hcuts : b.CutsWhole root source)
    (htexts : root.Everywhere (Node.BalancedTexts source)) :
    ∀ c ∈ [b, b.resolveTypes root source], ∀ {answers},
      (b.resolveTypes root source).MayAnswer answers →
        root.Everywhere (Intact ⟨source, c⟩ answers) :=
  fun c hc answers hmay => (htexts.and (hcuts c hc answers hmay)).mono fun _ h => ⟨h.1, h.2⟩

/-- As long as members have no types, those of the declarations are all that is known. -/
theorem balancedTypes_bind (htexts : root.Everywhere (Node.BalancedTexts source))
    (hanswers : ∀ id, Balanced (answers id).toList) :
    BalancedTypes ⟨source, Binder.bind root source⟩ answers := by
  constructor
  · exact hanswers
  · intro d hd m hm
    rw [((balanced_sources htexts hd).2 m hm).1]
    exact .nil

section

variable (htexts : root.Everywhere (Node.BalancedTexts source))
variable (hcuts : (Binder.bind root source).CutsWhole root source)

include htexts hcuts

/-- The final types of declarations have matching brackets. -/
theorem balanced_typeOf (id : DeclId) :
    Balanced (((Binder.bind root source).resolveTypes root source).typeOf id).toList := by
  obtain ⟨written, hrun⟩ := typesRun_resolves ⟨source, Binder.bind root source⟩ root
  have hdone := typesRun_done ⟨source, Binder.bind root source⟩ root
  have hall := hrun.allDone (P := fun type => Balanced type.toList) ?_
    (fun id type hid => absurd (untyped_waiting hid) Progress.noConfusion) fun hid => hid
  · rw [resolveTypes_typeOf]
    cases htype : (typesRun ⟨source, Binder.bind root source⟩ root).1[id]? with
    | none => exact balanced_unknownType
    | some type =>
      apply hall id type
      rw [hdone, List.getElem?_map, htype]
      rfl
  · intro id d hd answers hanswers
    have hmay : ((Binder.bind root source).resolveTypes root source).MayAnswer answers := by
      intro j
      apply (hanswers j).imp_right
      rintro ⟨hfinal, -⟩
      rw [hdone, List.getElem?_map] at hfinal
      obtain ⟨type, htype, heq⟩ := Option.map_eq_some_iff.mp hfinal
      rw [resolveTypes_typeOf, htype, Option.getD_some]
      exact (Progress.done.inj heq).symm
    have hbalanced : ∀ j, Balanced (answers j).toList := by
      intro j
      rcases hanswers j with hunknown | ⟨-, hbalanced⟩
      · rw [hunknown]
        exact balanced_unknownType
      · exact hbalanced
    exact balanced_typeOfSource (balancedTypes_bind htexts hbalanced)
      (hcuts.intact htexts _ List.mem_cons_self hmay) d.source
      (balanced_sources htexts (List.mem_of_getElem? hd)).1

theorem balanced_mayAnswer
    (hmay : ((Binder.bind root source).resolveTypes root source).MayAnswer answers) (id : DeclId) :
    Balanced (answers id).toList := by
  rcases hmay id with hunknown | hfinal
  · rw [hunknown]
    exact balanced_unknownType
  · rw [hfinal]
    exact balanced_typeOf htexts hcuts id

/-- So have the types of members, which are computed from them. -/
theorem balanced_resolveTypes {d : Declaration}
    (hd : d ∈ ((Binder.bind root source).resolveTypes root source).declarations) :
    Balanced d.type.toList ∧ ∀ m ∈ d.members, Balanced m.type.toList := by
  obtain ⟨id, hid⟩ := List.mem_iff_getElem?.mp hd
  obtain ⟨before, _, _, hbefore, _, _⟩ := declaration?_of_resolveTypes hid
  obtain ⟨type, _, hfinished⟩ :=
    @resolveTypes_declaration?_eq (Binder.bind root source) root source id before hbefore
  obtain rfl := Option.some.inj (hid.symm.trans hfinished)
  have hmay := ((Binder.bind root source).resolveTypes root source).typeOf_mayAnswer
  constructor
  · have htype := balanced_typeOf htexts hcuts id
    rwa [typeOf, hfinished] at htype
  · intro m hm
    obtain ⟨m, hmember, rfl⟩ := List.mem_map.mp hm
    exact balanced_typeOfSource
      (balancedTypes_bind htexts (balanced_typeOf htexts hcuts))
      (hcuts.intact htexts _ List.mem_cons_self hmay) m.source
      ((balanced_sources htexts (List.mem_of_getElem? hbefore)).2 m hmember).2

end

/-- The brackets match in the types of all declarations and members of a document, and of all
expressions and functions, if they match in the texts that types are written from and no type is cut
in the wrong place. What is awaited is cut in the right place exactly if it does not go on behind a
promise, and what is called exactly if it is not misread. Awaiting leaves an array as it is and opens
a promise, but of two different promises in a union it leaves a torn one. -/
theorem resolveTypes_balanced (root : Node) (source : List Char)
    (htexts : root.Everywhere (Node.BalancedTexts source))
    (hcuts : (Binder.bind root source).CutsWhole root source) :
    let b := Binder.bind root source
    let finished := b.resolveTypes root source
    (∀ d ∈ finished.declarations, Balanced d.type.toList ∧
      ∀ m ∈ d.members, Balanced m.type.toList) ∧
    (∀ c ∈ [b, finished], ∀ answers, finished.MayAnswer answers → ∀ p, Below (.ofRoot root) p →
      ∀ depth, Balanced (Id.run (typeOfExpression ⟨source, c⟩ (fun id => pure (answers id)) depth
          p.node)).toList ∧
        Balanced (Id.run (typeOfCallable ⟨source, c⟩ (fun id => pure (answers id)) depth
          p.node)).toList) ∧
    (∀ t : String, Balanced t.toList →
      (Balanced (awaitedType t).toList ↔ ¬ Torn t.toList) ∧
      (Balanced (returnTypeOrUnknown t).toList ↔ ¬ Misread t.toList)) ∧
    (∀ types, awaitedType (arrayOf types) = arrayOf types) ∧
    (∀ t, awaitedType ("Promise<" ++ t ++ ">") = t) ∧
    ∀ s t : String, s ≠ t → Balanced s.toList → Balanced t.toList →
      s.toList.getLast? ≠ some '=' → t.toList.getLast? ≠ some '=' →
        let union := unionType ["Promise<" ++ s ++ ">", "Promise<" ++ t ++ ">"]
        Balanced union.toList ∧ ¬ Balanced (awaitedType union).toList := by
  intro b finished
  have hknown : ∀ c ∈ [b, finished], ∀ {answers}, finished.MayAnswer answers →
      BalancedTypes ⟨source, c⟩ answers := by
    intro c hc answers hmay
    have hanswers := balanced_mayAnswer htexts hcuts hmay
    rcases List.mem_pair.mp hc with rfl | rfl
    · exact balancedTypes_bind htexts hanswers
    · exact ⟨hanswers, fun d hd => (balanced_resolveTypes htexts hcuts hd).2⟩
  refine ⟨fun d hd => balanced_resolveTypes htexts hcuts hd, fun c hc answers hmay p hp depth => ?_,
    fun t ht => ⟨balanced_awaitedType ht, balanced_returnTypeOrUnknown ht⟩, awaitedType_arrayOf,
    awaitedType_promise, fun s t hne hs ht hsends htends => ⟨?_, ?_⟩⟩
  · have hnode := hp.everywhere (hcuts.intact htexts c hc hmay)
    exact ⟨balanced_typeOfExpression (hknown c hc hmay) depth p.node hnode,
      balanced_typeOfCallable (hknown c hc hmay) depth hnode⟩
  · exact balanced_unionType (balanced_pair (balanced_promise hs hsends)
      (balanced_promise ht htends))
  · exact not_balanced_awaitedType_promises hne hs hsends

end Bindings

/-! ### A promise that is awaited -/

section

open Node

/-- `let p: Promise<number>;let x = await p;` -/
def awaitedText : List Char :=
  "let p: Promise<number>;let x = await p;".toList

def awaitedName : Node :=
  construct "identifier" 37 38 none []

def awaitedPromise : Node :=
  construct "await_expression" 31 38 (some "value") [token "await" 31 36 none, awaitedName]

def awaitedTree : Node :=
  construct "program" 0 39 none
    [construct "lexical_declaration" 0 23 none
      [token "let" 0 3 (some "kind"),
        construct "variable_declarator" 4 22 none
          [construct "identifier" 4 5 (some "name") [],
            construct "type_annotation" 5 22 (some "type")
              [token ":" 5 6 none, construct "generic_type" 7 22 none []]],
        token ";" 22 23 none],
    construct "lexical_declaration" 23 39 none
      [token "let" 23 26 (some "kind"),
        construct "variable_declarator" 27 38 none
          [construct "identifier" 27 28 (some "name") [], token "=" 29 30 none, awaitedPromise],
        token ";" 38 39 none]]

def awaitedBindings : Bindings :=
  Binder.bind awaitedTree awaitedText

theorem awaitedPromise_whole {c : Bindings} (hc : c.resolve "p" 37 .value = some 0)
    {answers : DeclId → String} (hanswer : answers 0 ∈ ["any", "Promise<number>"]) :
    CutsWhole ⟨awaitedText, c⟩ answers awaitedPromise := by
  have huntorn : ∀ t ∈ ["any", "Promise<number>"], ¬ Torn t.toList := by
    intro t ht
    have hawaited : ∀ t ∈ ["any", "Promise<number>"],
        Balanced t.toList ∧ Balanced (awaitedType t).toList := by decide
    exact (balanced_awaitedType (hawaited t ht).1).mp (hawaited t ht).2
  have hname : awaitedName.text awaitedText = "p" := by decide
  rw [← hname] at hc
  unfold awaitedName construct at hc
  constructor
  · intro _ depth
    apply huntorn
    have hoperand : operandType ⟨awaitedText, c⟩ answers depth awaitedPromise =
        Id.run (typeOfExpression ⟨awaitedText, c⟩ (fun id => pure (answers id)) depth
          awaitedName) := rfl
    have hform : expressionForm "identifier" = .identifier := by decide
    rw [hoperand, awaitedName, construct, typeOfExpression]
    by_cases hdepth : maxExpressionDepth < depth
    · rw [if_pos hdepth]
      exact List.mem_cons_self
    · rw [if_neg hdepth, hform]
      dsimp only
      rw [hc]
      exact hanswer
  · exact fun hform => absurd hform (by decide)
  · exact fun hform => absurd hform (by decide)
  · exact fun hasync => absurd hasync (by decide)

theorem awaitedBindings_whole : awaitedBindings.CutsWhole awaitedTree awaitedText := by
  have htype : (awaitedBindings.resolveTypes awaitedTree awaitedText).typeOf 0 =
      "Promise<number>" := by decide +kernel
  have hresolve : awaitedBindings.resolve "p" 37 .value = some 0 := by decide +kernel
  intro c hc answers hmay
  have hname : c.resolve "p" 37 .value = some 0 := by
    rcases List.mem_pair.mp hc with rfl | rfl
    · exact hresolve
    · rw [Bindings.resolveTypes_resolve, hresolve]
  have hanswer : answers 0 ∈ ["any", "Promise<number>"] := by
    rw [List.mem_pair, ← htype]
    exact hmay 0
  have hplain : ∀ n : Node, n.CutsNothing → CutsWhole ⟨awaitedText, c⟩ answers n :=
    fun _ => .of_cutsNothing
  have hawaited : awaitedPromise.Everywhere (CutsWhole ⟨awaitedText, c⟩ answers) :=
    ⟨awaitedPromise_whole hname hanswer, .mono hplain (by decide), .mono hplain (by decide),
      trivial⟩
  exact ⟨hplain _ (by decide), .mono hplain (by decide), ⟨hplain _ (by decide),
    .mono hplain (by decide), ⟨hplain _ (by decide), .mono hplain (by decide),
      .mono hplain (by decide), hawaited, trivial⟩, .mono hplain (by decide), trivial⟩, trivial⟩

theorem resolveTypes_balanced_awaited :
    awaitedTree.Everywhere (Node.BalancedTexts awaitedText) ∧
    awaitedBindings.CutsWhole awaitedTree awaitedText ∧
    (∃ d ∈ (awaitedBindings.resolveTypes awaitedTree awaitedText).declarations,
      d.name = "x" ∧ d.type = "number" ∧ Balanced d.type.toList) ∧
    awaitedType "Promise<number> | Promise<string>" = "number> | Promise<string" ∧
    ¬ Balanced (awaitedType "Promise<number> | Promise<string>").toList := by
  have htexts : awaitedTree.Everywhere (Node.BalancedTexts awaitedText) := by decide +kernel
  obtain ⟨htypes, -, -, -, -, hunion⟩ :=
    Bindings.resolveTypes_balanced awaitedTree awaitedText htexts awaitedBindings_whole
  have hsecond : ((awaitedBindings.resolveTypes awaitedTree awaitedText).declaration? 1).map
      (fun d => (d.name, d.type)) = some ("x", "number") := by decide +kernel
  obtain ⟨d, hd, heq⟩ := Option.map_eq_some_iff.mp hsecond
  obtain ⟨hname, htype⟩ := Prod.mk.inj heq
  have hmem := List.mem_of_getElem? hd
  have htorn := (hunion "number" "string" (by decide) (by decide) (by decide) (by decide)
    (by decide)).2
  have hpromises : unionType ["Promise<" ++ "number" ++ ">", "Promise<" ++ "string" ++ ">"] =
      "Promise<number> | Promise<string>" := by decide
  rw [hpromises] at htorn
  exact ⟨htexts, awaitedBindings_whole, ⟨d, hmem, hname, htype, (htypes d hmem).1⟩, by decide,
    htorn⟩

end

end UtsInsight
