import UtsInsight.Model
import UtsInsight.Proofs.Scope.Distinct
import UtsInsight.Proofs.Scope.Introduced
import UtsInsight.Proofs.Syntax.Resolution
import UtsInsight.Proofs.Typing.Termination

/-!
# Whose member a name is

A name of a property that is not read off a value is looked up among the members of the nearest class
or interface around it. Where in the class it stands does not count. So a name at which a member is
declared is described as that member, and so is any other name of a property in the class that has
the name of a member: a key of an object literal, or a name in a class expression or in a type.
-/
namespace UtsInsight

open Text
open Place (Below)

/-! ### The nearest node of a kind -/

namespace Place

variable {p q o o' : Place} {kinds : List String} {root : Node}

/-- The second place is the nearest one of some kinds at or around the first. -/
structure Nearest (kinds : List String) (p o : Place) : Prop where
  around : Below o p
  kind : kinds.contains o.node.kind = true
  nearest : ∀ r, Below r p → kinds.contains r.node.kind = true → Below r o

theorem Nearest.unique (h : Nearest kinds p o) (h' : Nearest kinds p o') : o = o' :=
  (h'.nearest o h.around h.kind).antisymm (h.nearest o' h'.around h'.kind)

theorem nearest_self (h : kinds.contains p.node.kind = true) : Nearest kinds p p :=
  ⟨.refl, h, fun _ hr _ => hr⟩

/-- A place of another kind has the nearest place of its parent. -/
theorem nearest_child {c : Node} {i : Nat} (hc : q.node.children[i]? = some c)
    (hkind : kinds.contains c.kind = false) :
    Nearest kinds ⟨c, ⟨q.node, i⟩ :: q.steps⟩ o ↔ Nearest kinds q o := by
  have hstep : Below q ⟨c, ⟨q.node, i⟩ :: q.steps⟩ := Below.refl.child hc
  have hparent : ∀ r : Place, Below r ⟨c, ⟨q.node, i⟩ :: q.steps⟩ →
      kinds.contains r.node.kind = true → Below r q := by
    intro r hr hrkind
    apply hr.eq_or_parent.resolve_left
    intro heq
    rw [heq, hkind] at hrkind
    cases hrkind
  constructor
  · intro h
    exact ⟨hparent o h.around h.kind, h.kind, fun r hr => h.nearest r (hr.trans hstep)⟩
  · intro h
    exact ⟨h.around.trans hstep, h.kind, fun r hr hrkind => h.nearest r (hparent r hr hrkind) hrkind⟩

theorem ancestorOfKind?_eq_some (hp : Below (.ofRoot root) p)
    (hkind : kinds.contains p.node.kind = false) {n : Node} :
    p.ancestorOfKind? kinds = some n ↔ ∃ o, Nearest kinds p o ∧ o.node = n := by
  induction hp with
  | refl =>
    apply iff_of_false
    · exact nofun
    · rintro ⟨o, ho, -⟩
      have hroot : o.path = [] := List.suffix_nil.mp ho.around.suffix
      have heq : o = .ofRoot root := ho.around.eq_or_ne.resolve_right fun hne => hne hroot
      have hokind := ho.kind
      rw [heq, hkind] at hokind
      cases hokind
  | @child q i c hq hc ih =>
    have hancestors : ancestorOfKind? ⟨c, ⟨q.node, i⟩ :: q.steps⟩ kinds =
        (q.node :: q.ancestors).find? fun n => kinds.contains n.kind := rfl
    simp only [nearest_child hc hkind]
    rw [hancestors]
    cases hqkind : kinds.contains q.node.kind with
    | true =>
      rw [List.find?_cons, hqkind]
      constructor
      · intro h
        exact ⟨q, nearest_self hqkind, Option.some.inj h⟩
      · rintro ⟨o, ho, rfl⟩
        rw [ho.unique (nearest_self hqkind)]
    | false =>
      rw [List.find?_cons, hqkind]
      exact ih hqkind

/-- The nearest place around one in a tree is in the tree. -/
theorem Nearest.below (h : Nearest kinds p o) (hp : Below (.ofRoot root) p) :
    Below (.ofRoot root) o := by
  rcases hp.total h.around with hroot | hroot
  · exact hroot
  · have hpath : o.path = [] := List.suffix_nil.mp hroot.suffix
    rw [hroot.eq_or_ne.resolve_right fun hne => hne hpath]
    exact .refl

end Place

/-! ### Members in bindings with their types -/

namespace Bindings

variable {b : Bindings} {root : Node} {source : List Char}

/-- The names of declarations stay where they are. -/
theorem declarationNamedAt_resolveTypes (b : Bindings) (root : Node) (source : List Char)
    (range : ByteSpan) :
    (b.resolveTypes root source).declarationNamedAt range = b.declarationNamedAt range := by
  have hranges : (b.resolveTypes root source).declarations.map (·.nameRange) =
      b.declarations.map (·.nameRange) := by
    apply List.ext_getElem?
    intro id
    rw [List.getElem?_map, List.getElem?_map]
    exact resolveTypes_map (·.nameRange) (fun _ _ _ => rfl) id
  have hmap : ∀ ds : List Declaration, ds.findIdx? (·.nameRange == range) =
      (ds.map (·.nameRange)).findIdx? (· == range) := by
    intro ds
    rw [List.findIdx?_map]
    rfl
  rw [declarationNamedAt, declarationNamedAt, hmap, hmap, hranges]

theorem exists_of_declarationNamedAt {range : ByteSpan} {id : DeclId}
    (h : b.declarationNamedAt range = some id) :
    ∃ d, b.declaration? id = some d ∧ d.nameRange = range := by
  obtain ⟨hlt, hrange, _⟩ := List.findIdx?_eq_some_iff_getElem.mp h
  exact ⟨_, List.getElem?_eq_getElem hlt, beq_iff_eq.mp hrange⟩

end Bindings

/-- Types make no difference to which member has a name. -/
theorem find?_withType (f : Member → String) (members : List Member) (name : String) :
    (members.map fun m => m.withType (f m)).find? (·.name == name) =
      (members.find? (·.name == name)).map fun m => m.withType (f m) := by
  rw [List.find?_map]
  rfl

/-- How a member is presented. -/
def MemberKind.label : MemberKind → String
  | .property => "property"
  | .method => "method"

/-- Classes and interfaces are named by tokens with characters. -/
def Node.NamedByToken (n : Node) : Prop :=
  (Binder.form n.kind).hasMembers = true →
    ∀ name ∈ n.child? "name", name.children = [] ∧ name.start < name.stop

instance (n : Node) : Decidable n.NamedByToken :=
  inferInstanceAs (Decidable (_ → _))

namespace Binder

variable {root : Node} {source : List Char} {o o' : Place} {name name' : Node}

/-- Names of classes and interfaces that cover the same range are names of the same one. -/
theorem owner_eq (hroot : root.WellFormed) (hnamed : root.Everywhere Node.NamedByToken)
    (ho : Below (.ofRoot root) o) (ho' : Below (.ofRoot root) o')
    (hform : (form o.node.kind).hasMembers = true) (hform' : (form o'.node.kind).hasMembers = true)
    (hname : o.node.child? "name" = some name) (hname' : o'.node.child? "name" = some name')
    (hrange : name.range = name'.range) : o = o' := by
  obtain ⟨hleaf, hlength⟩ := (ho.everywhere hnamed).self hform name hname
  obtain ⟨hleaf', -⟩ := (ho'.everywhere hnamed).self hform' name' hname'
  rw [← Place.map_node_child?] at hname hname'
  obtain ⟨q, hq, rfl⟩ := Option.map_eq_some_iff.mp hname
  obtain ⟨q', hq', rfl⟩ := Option.map_eq_some_iff.mp hname'
  have hchild := Place.mem_children_of_child? hq
  have hchild' := Place.mem_children_of_child? hq'
  have hpath := path_eq_of_range_eq hroot ((ho.trans (Place.below_of_mem_children hchild)).at? rfl)
    ((ho'.trans (Place.below_of_mem_children hchild')).at? rfl) hleaf hleaf' hlength hrange
  obtain ⟨i, c, -, rfl⟩ := Place.eq_of_mem_children hchild
  obtain ⟨j, c', -, rfl⟩ := Place.eq_of_mem_children hchild'
  exact ho.eq_of_path_eq ho' (List.cons.inj hpath).2

theorem hasMembers_of_ownerKind {kind : String} (h : Model.ownerKinds.contains kind = true) :
    (form kind).hasMembers = true := by
  have hall : ∀ k ∈ Model.ownerKinds, (form k).hasMembers = true := by decide
  exact hall kind (List.contains_iff_mem.mp h)

/-- The declaration that is found at the name of a class or interface is its own, if there is one
with members. -/
theorem members_of_named (hroot : root.WellFormed) (hnamed : root.Everywhere Node.NamedByToken)
    (ho : Below (.ofRoot root) o) (hform : (form o.node.kind).hasMembers = true)
    (hname : o.node.child? "name" = some name) {d : Declaration}
    (hd : d ∈ (bind root source).declarations) (hrange : d.nameRange = name.range)
    (hmembers : d.members ≠ []) :
    o ∈ walkedPlacesBelow [] root 0 false root.children ∧ d.members = membersOf source o.node := by
  obtain ⟨p, hp, hintroduces⟩ := exists_introduces hd
  cases hintroduces with
  | plain hnone => exact absurd hnone hmembers
  | @owner name' hform' hname' hrange' hmembers' =>
    obtain rfl := owner_eq hroot hnamed ho (below_of_mem_entered hp) hform hform' hname hname'
      (hrange.symm.trans hrange')
    exact ⟨hp, hmembers'⟩

end Binder

namespace Model

variable {text : List Char} {root : Node} {p parent o : Place} {position : Position}
  {info : NameInfo} {member : Member}

/-! ### Answers -/

theorem build_eq (text : List Char) (hdepth : root.depth ≤ maxModelDepth) :
    build text root =
      ⟨text, some root, (Binder.bind root text).resolveTypes root text,
        check root text ((Binder.bind root text).resolveTypes root text)⟩ := by
  rw [build, Node.ensureDepth, if_neg (Nat.not_lt.mpr hdepth)]

/-- What is asked about a name of a property that is not read off a value. -/
theorem describeMember?_eq_some (m : Model) (hparent : p.parent? = some parent)
    (hother : parent.node.kind ≠ "member_expression") :
    m.describeMember? p = some info ↔
      ∃ n name id d member, p.ancestorOfKind? ownerKinds = some n ∧ n.child? "name" = some name ∧
        m.bindings.declarationNamedAt name.range = some id ∧
        m.bindings.declaration? id = some d ∧
        d.members.find? (·.name == p.node.text m.text) = some member ∧
        ⟨member.name, member.kind.label, member.type, spanOf m.text d.nameRange⟩ = info := by
  have howner : m.memberOwner? p = m.enclosingOwner? p := by
    rw [memberOwner?, hparent]
    exact if_neg hother
  rw [describeMember?, howner]
  simp only [enclosingOwner?, Option.bind_eq_bind, Option.bind_eq_some_iff, Option.pure_def,
    Option.some.injEq]
  constructor
  · rintro ⟨id, ⟨n, hn, name, hname, hid⟩, d, hd, member, hmember, rfl⟩
    refine ⟨n, name, id, d, member, hn, hname, hid, hd, hmember, ?_⟩
    cases member.kind <;> rfl
  · rintro ⟨n, name, id, d, member, hn, hname, hid, hd, hmember, rfl⟩
    refine ⟨id, ⟨n, hn, name, hname, hid⟩, d, hd, member, hmember, ?_⟩
    cases member.kind <;> rfl

theorem describeAt?_property {m : Model} (htree : m.tree = some root)
    (hp : nameTouching? root (Text.offsetOf m.text position) = some p)
    (hkind : p.node.kind = "property_identifier") :
    m.describeAt? position = m.describeMember? p := by
  have hother : ¬ p.node.kind = "type_identifier" := by
    rw [hkind]
    decide
  rw [describeAt?, htree]
  simp only [Option.bind_eq_bind, Option.bind_some, hp, if_neg hother, if_pos hkind]

/-- The name at a place is taken for a member: the first one of that name in the nearest class or
interface around the place, which the walk has entered. -/
structure TakenFor (text : List Char) (root : Node) (p o : Place) (member : Member) : Prop where
  nearest : p.Nearest ownerKinds o
  entered : o ∈ Binder.walkedPlacesBelow [] root 0 false root.children
  first : (Binder.membersOf text o.node).find? (·.name == p.node.text text) = some member

theorem TakenFor.name_eq (h : TakenFor text root p o member) :
    member.name = p.node.text text :=
  beq_iff_eq.mp (List.find?_some (p := fun m : Member => m.name == p.node.text text) h.first)

/-- What is answered for a member of a document whose class or interface is named at a range. -/
def memberInfo (text : List Char) (root : Node) (range : ByteSpan) (member : Member) : NameInfo :=
  let finished := (Binder.bind root text).resolveTypes root text
  ⟨member.name, member.kind.label,
    memberType ⟨text, Binder.bind root text⟩ root finished.typeOf member, spanOf text range⟩

/-- The place is the name of an item directly in the body of a class or interface. -/
structure NamesItem (p o item : Place) : Prop where
  direct : ∃ body, o.child? "body" = some body ∧ item ∈ body.constructs
  name : item.child? "name" = some p

theorem NamesItem.mem_membersOf {item : Place} (h : NamesItem p o item)
    (hmember : Binder.memberOf? text item.node = some member) :
    member ∈ Binder.membersOf text o.node := by
  obtain ⟨body, hbody, hdirect⟩ := h.direct
  rw [Binder.membersOf, ← o.map_node_child?, hbody]
  apply List.mem_filterMap.mpr
  refine ⟨item.node, ?_, hmember⟩
  rw [← body.map_node_constructs]
  exact List.mem_map_of_mem hdirect

theorem NamesItem.name_eq {item : Place} (h : NamesItem p o item)
    (hmember : Binder.memberOf? text item.node = some member) :
    member.name = p.node.text text := by
  rw [Binder.memberOf?, ← item.map_node_child?, h.name] at hmember
  simp only [Option.map_some] at hmember
  split_ifs at hmember
  · rw [← Option.some.inj hmember]
  · rw [← Option.some.inj hmember]

theorem nameTouching?_below {offset : Nat} (h : nameTouching? root offset = some p) :
    Below (.ofRoot root) p := by
  have hat : ∀ offset, nameAt? root offset = some p → Below (.ofRoot root) p := by
    intro offset h
    rw [nameAt?] at h
    split_ifs at h
    rw [← Option.some.inj h]
    exact root.placeAt_below []
  rw [nameTouching?] at h
  split at h
  next hbehind =>
    rw [h] at hbehind
    exact hat offset hbehind
  next =>
    split_ifs at h
    exact hat (offset - 1) h

/-- A declaration of a document with its types. -/
theorem exists_finished (root : Node) (text : List Char) {id : DeclId} {d : Declaration}
    (hd : (Binder.bind root text).declaration? id = some d) :
    let finished := (Binder.bind root text).resolveTypes root text
    ∃ type, finished.declaration? id = some { d with
      type
      members := d.members.map fun m =>
        m.withType (memberType ⟨text, Binder.bind root text⟩ root finished.typeOf m) } := by
  obtain ⟨type, -, hfinished⟩ := Bindings.resolveTypes_declaration?_eq hd
  exact ⟨type, hfinished⟩

/-- The declaration at the name of the nearest class or interface decides. -/
theorem describeAt?_build_eq_some (hdepth : root.depth ≤ maxModelDepth)
    (hp : nameTouching? root (offsetOf text position) = some p)
    (hkind : p.node.kind = "property_identifier") (hparent : p.parent? = some parent)
    (hother : parent.node.kind ≠ "member_expression") :
    (build text root).describeAt? position = some info ↔
      ∃ o name id d member, p.Nearest ownerKinds o ∧ o.node.child? "name" = some name ∧
        (Binder.bind root text).declarationNamedAt name.range = some id ∧
        (Binder.bind root text).declaration? id = some d ∧
        d.members.find? (·.name == p.node.text text) = some member ∧
        memberInfo text root name.range member = info := by
  have hpkind : ownerKinds.contains p.node.kind = false := by
    rw [hkind]
    decide
  have hancestor := fun n =>
    Place.ancestorOfKind?_eq_some (n := n) (nameTouching?_below hp) hpkind
  have hbuild := build_eq text hdepth
  have htree : (build text root).tree = some root := by rw [hbuild]
  have htext : (build text root).text = text := by rw [hbuild]
  have hbindings : (build text root).bindings = (Binder.bind root text).resolveTypes root text := by
    rw [hbuild]
  rw [describeAt?_property htree (by rw [htext]; exact hp) hkind,
    describeMember?_eq_some _ hparent hother, htext, hbindings]
  simp only [hancestor, Bindings.declarationNamedAt_resolveTypes]
  constructor
  · rintro ⟨_, name, id, finished, member, ⟨o, ho, rfl⟩, hname, hid, hfinished, hmember, rfl⟩
    obtain ⟨d, hd, hrange⟩ := Bindings.exists_of_declarationNamedAt hid
    obtain ⟨type, hresolved⟩ := exists_finished root text hd
    obtain rfl := Option.some.inj (hresolved.symm.trans hfinished)
    rw [find?_withType] at hmember
    obtain ⟨declared, hdeclared, rfl⟩ := Option.map_eq_some_iff.mp hmember
    refine ⟨o, name, id, d, declared, ho, hname, hid, hd, hdeclared, ?_⟩
    exact hrange ▸ rfl
  · rintro ⟨o, name, id, d, member, ho, hname, hid, hd, hmember, rfl⟩
    obtain ⟨d', hd', hrange⟩ := Bindings.exists_of_declarationNamedAt hid
    obtain rfl := Option.some.inj (hd.symm.trans hd')
    obtain ⟨type, hresolved⟩ := exists_finished root text hd
    refine ⟨o.node, name, id, _, member.withType (memberType ⟨text, Binder.bind root text⟩ root
      ((Binder.bind root text).resolveTypes root text).typeOf member), ⟨o, ho, rfl⟩, hname, hid,
      hresolved, ?_, ?_⟩
    · rw [find?_withType, hmember]
      rfl
    · exact hrange ▸ rfl

/-- In the document of a model, a name of a property that is not read off a value is described
exactly if the nearest class or interface around it was entered, has a name, and has a member of the
same name, wherever the name stands; and it is described as this member. The names at which members
are declared are among them. -/
theorem describeAt?_takenFor (hdepth : root.depth ≤ maxModelDepth) (hroot : root.WellFormed)
    (hgrammar : root.Everywhere Node.HoldsNames)
    (hleaf : ∀ n ∈ Binder.declaredNames root, n.place.node.children = [])
    (hnamed : root.Everywhere Node.NamedByToken)
    (hp : nameTouching? root (Text.offsetOf text position) = some p)
    (hkind : p.node.kind = "property_identifier") (hparent : p.parent? = some parent)
    (hother : parent.node.kind ≠ "member_expression") :
    (∀ info, (build text root).describeAt? position = some info ↔
      ∃ o name member, TakenFor text root p o member ∧ o.node.child? "name" = some name ∧
        info = memberInfo text root name.range member) ∧
    ∀ o item name, p.Nearest ownerKinds o →
      o ∈ Binder.walkedPlacesBelow [] root 0 false root.children →
      o.node.child? "name" = some name → NamesItem p o item →
      (Binder.memberOf? text item.node).isSome →
        ((build text root).describeAt? position).isSome := by
  have hbelow : Below (.ofRoot root) p := nameTouching?_below hp
  have hoform : ∀ o, p.Nearest ownerKinds o → (Binder.form o.node.kind).hasMembers = true :=
    fun o ho => Binder.hasMembers_of_ownerKind ho.kind
  have hobelow : ∀ o, p.Nearest ownerKinds o → Below (.ofRoot root) o :=
    fun o ho => ho.below hbelow
  have htaken : ∀ info, (build text root).describeAt? position = some info ↔
      ∃ o name member, TakenFor text root p o member ∧ o.node.child? "name" = some name ∧
        info = memberInfo text root name.range member := by
    intro info
    rw [describeAt?_build_eq_some hdepth hp hkind hparent hother]
    constructor
    · rintro ⟨o, name, id, d, member, ho, hname, hid, hd, hmember, rfl⟩
      obtain ⟨d', hd', hrange⟩ := Bindings.exists_of_declarationNamedAt hid
      obtain rfl := Option.some.inj (hd.symm.trans hd')
      have hmembers : d.members ≠ [] := List.ne_nil_of_mem (List.mem_of_find?_eq_some hmember)
      obtain ⟨hentered, hbody⟩ := Binder.members_of_named hroot hnamed (hobelow o ho) (hoform o ho)
        hname (List.mem_of_getElem? hd) hrange hmembers
      rw [hbody] at hmember
      exact ⟨o, name, member, ⟨ho, hentered, hmember⟩, hname, rfl⟩
    · rintro ⟨o, name, member, htaken, hname, rfl⟩
      obtain ⟨d, hd, hrange, hmembers⟩ :=
        Binder.exists_owner text htaken.entered (hoform o htaken.nearest) hname
      obtain ⟨id, hid⟩ := List.getElem?_of_mem hd
      have hlength := ((hobelow o htaken.nearest).everywhere hnamed).self
        (hoform o htaken.nearest) name hname
      have hfound := Binder.declarationNamedAt_nameRange hroot hgrammar hleaf hid
        (by rw [hrange]; exact hlength.2)
      rw [hrange] at hfound
      refine ⟨o, name, id, d, member, htaken.nearest, hname, hfound, hid, ?_, rfl⟩
      rw [hmembers]
      exact htaken.first
  refine ⟨htaken, fun o item name ho hentered hname hitem hmember => ?_⟩
  obtain ⟨member, hmember⟩ := Option.isSome_iff_exists.mp hmember
  have hmem : (Binder.membersOf text o.node).find? (·.name == p.node.text text) ≠ none := by
    intro hnone
    apply List.find?_eq_none.mp hnone member (hitem.mem_membersOf hmember)
    exact beq_iff_eq.mpr (hitem.name_eq hmember)
  obtain ⟨first, hfirst⟩ := Option.ne_none_iff_exists'.mp hmem
  rw [(htaken _).mpr ⟨o, name, first, ⟨ho, hentered, hfirst⟩, hname, rfl⟩]
  rfl

end Model

/-! ### A key with the name of a member -/

section

open Node

def keyText : List Char :=
  "class A \x7b x = 1; m() \x7b return \x7b x: 2 \x7d; \x7d \x7d".toList

/-- The tree of `class A { x = 1; m() { return { x: 2 }; } }`. -/
def keyTree : Node :=
  construct "program" 0 43 none
    [construct "class_declaration" 0 43 none
      [token "class" 0 5 none, construct "type_identifier" 6 7 (some "name") [],
        construct "class_body" 8 43 (some "body")
          [token "\x7b" 8 9 none,
            construct "public_field_definition" 10 15 none
              [construct "property_identifier" 10 11 (some "name") [], token "=" 12 13 none,
                construct "number" 14 15 (some "value") []],
            token ";" 15 16 none,
            construct "method_definition" 17 41 none
              [construct "property_identifier" 17 18 (some "name") [],
                construct "formal_parameters" 18 20 (some "parameters")
                  [token "(" 18 19 none, token ")" 19 20 none],
                construct "statement_block" 21 41 (some "body")
                  [token "\x7b" 21 22 none,
                    construct "return_statement" 23 39 none
                      [token "return" 23 29 none,
                        construct "object" 30 38 none
                          [token "\x7b" 30 31 none,
                            construct "pair" 32 36 none
                              [construct "property_identifier" 32 33 (some "key") [],
                                token ":" 33 34 none, construct "number" 35 36 (some "value") []],
                            token "\x7d" 37 38 none],
                        token ";" 38 39 none],
                    token "\x7d" 40 41 none]],
            token "\x7d" 42 43 none]]]

/-- The key of the object literal in the method names no item of the class, but it is described as
the field of the class that has its name. -/
theorem describeAt?_takenFor_key :
    ∃ p o member, Model.nameTouching? keyTree 32 = some p ∧ p.node.field = some "key" ∧
      Model.TakenFor keyText keyTree p o member ∧ member.kind = .property ∧
      (∀ item, ¬ Model.NamesItem p o item) ∧
      (Model.build keyText keyTree).describeAt? ⟨0, 32⟩ =
        some ⟨"x", "property", "number", ⟨⟨0, 6⟩, ⟨0, 7⟩⟩⟩ := by
  have hoffset : offsetOf keyText ⟨0, 32⟩ = 32 := by decide +kernel
  obtain ⟨p, hp⟩ : ∃ p, Model.nameTouching? keyTree 32 = some p :=
    Option.isSome_iff_exists.mp (by decide +kernel)
  have hinfo : (Model.nameTouching? keyTree 32).map (fun p => (p.node.kind, p.node.field)) =
      some ("property_identifier", some "key") := by decide +kernel
  rw [hp, Option.map_some] at hinfo
  obtain ⟨hkind, hfield⟩ := Prod.mk.inj (Option.some.inj hinfo)
  obtain ⟨parent, hparent⟩ : ∃ parent, p.parent? = some parent := by
    apply Option.isSome_iff_exists.mp
    have hsome : ((Model.nameTouching? keyTree 32).bind (·.parent?)).isSome := by decide +kernel
    rwa [hp] at hsome
  have hpair : ((Model.nameTouching? keyTree 32).bind (·.parent?)).map (·.node.kind) =
      some "pair" := by decide +kernel
  rw [hp, Option.bind_some, hparent, Option.map_some] at hpair
  have hother : parent.node.kind ≠ "member_expression" := by
    intro hmember
    rw [hmember] at hpair
    exact absurd hpair (by decide)
  have hleaf : ∀ n ∈ Binder.declaredNames keyTree, n.place.node.children = [] := by
    have hall : (Binder.declaredNames keyTree).all (·.place.node.children.isEmpty) = true := by
      decide +kernel
    exact fun n hn => List.isEmpty_iff.mp (List.all_eq_true.mp hall n hn)
  have hanswer : (Model.build keyText keyTree).describeAt? ⟨0, 32⟩ =
      some ⟨"x", "property", "number", ⟨⟨0, 6⟩, ⟨0, 7⟩⟩⟩ := by decide +kernel
  have hdepth : keyTree.depth ≤ maxModelDepth := by decide +kernel
  have hroot : keyTree.WellFormed := by decide +kernel
  have hgrammar : keyTree.Everywhere Node.HoldsNames := by decide +kernel
  have hnamed : keyTree.Everywhere Node.NamedByToken := by decide +kernel
  have htouching : Model.nameTouching? keyTree (offsetOf keyText ⟨0, 32⟩) = some p := by
    rw [hoffset]
    exact hp
  obtain ⟨hdescribed, -⟩ := Model.describeAt?_takenFor hdepth hroot hgrammar hleaf hnamed htouching
    hkind hparent hother
  obtain ⟨o, name, member, htaken, -, hmember⟩ := (hdescribed _).mp hanswer
  refine ⟨p, o, member, hp, hfield, htaken, ?_, fun item hitem => ?_, hanswer⟩
  · have hlabel : "property" = member.kind.label := congrArg NameInfo.kind hmember
    cases hmethod : member.kind with
    | property => rfl
    | method =>
      rw [hmethod] at hlabel
      exact absurd hlabel (by decide)
  · have hname := Place.field_of_child? hitem.name
    rw [hfield] at hname
    exact absurd hname (by decide)

end

end UtsInsight
