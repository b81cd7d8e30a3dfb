import UtsInsight.Proofs.Scope.Building

/-!
# What the index of a scope holds

Every scope keeps an index from names to declarations, which grows as the walk declares. It holds
nothing else than what the list of all declarations says: the declarations of a name that name the
scope as theirs, in order. So the first declaration that a scope has for a name is the first one in
the whole list.
-/
namespace UtsInsight

namespace NameIndex

@[simp] theorem ids_nil (name : String) : ids [] name = [] :=
  rfl

@[simp] theorem ids_cons (n : String) (known : List DeclId) (rest : NameIndex) (name : String) :
    ids ((n, known) :: rest) name = if n = name then known else ids rest name := by
  unfold ids
  by_cases h : n = name
  · subst h
    rw [List.lookup_cons_self, if_pos rfl, Option.getD_some]
  · rw [if_neg h, List.lookup_cons, beq_false_of_ne (Ne.symm h)]

theorem ids_add (index : NameIndex) (name added : String) (id : DeclId) :
    (add added id index).ids name =
      if added = name then index.ids name ++ [id] else index.ids name := by
  induction index with
  | nil => rw [add, ids_cons, ids_nil, List.nil_append]
  | cons entry rest ih =>
    obtain ⟨n, known⟩ := entry
    rw [add]
    split
    next hn =>
      subst hn
      rw [ids_cons, ids_cons]
      split <;> rfl
    next hn =>
      rw [ids_cons, ids_cons, ih]
      split
      next h =>
        subst h
        rw [if_neg (Ne.symm hn)]
      next => rfl

end NameIndex

namespace Bindings

variable {b : Bindings}

/-- Whether a declaration is one of a name in a scope. -/
def isOf (id : ScopeId) (name : String) (d : Declaration) : Bool :=
  d.scope == id && d.name == name

/-- The declarations of a name in a scope, in order. -/
def declaredIds (b : Bindings) (id : ScopeId) (name : String) : List DeclId :=
  (List.range b.declarations.length).filter fun i => (b.declaration? i).any (isOf id name)

/-- The index of every scope holds its declarations, and every declaration is in a scope. -/
structure Indexed (b : Bindings) : Prop where
  ids : ∀ {id s}, b.scope? id = some s → ∀ name, s.names.ids name = b.declaredIds id name
  scope : ∀ d ∈ b.declarations, d.scope < b.scopes.length

theorem declaration?_declare_lt (d : Declaration) {i : DeclId} (hi : i < b.declarations.length) :
    (b.declare d).declaration? i = b.declaration? i :=
  List.getElem?_append_left hi

theorem declaration?_declare_length (b : Bindings) (d : Declaration) :
    (b.declare d).declaration? b.declarations.length = some d :=
  List.getElem?_concat_length

/-- The declarations with a property, in order. -/
def idsWhere (b : Bindings) (P : Declaration → Bool) : List DeclId :=
  (List.range b.declarations.length).filter fun i => (b.declaration? i).any P

theorem idsWhere_declare (b : Bindings) (d : Declaration) (P : Declaration → Bool) :
    (b.declare d).idsWhere P =
      b.idsWhere P ++ if P d then [b.declarations.length] else [] := by
  have hlength : (b.declare d).declarations.length = b.declarations.length + 1 := by
    rw [Bindings.declare, List.length_append, List.length_singleton]
  have hbefore : ∀ i ∈ List.range b.declarations.length,
      ((b.declare d).declaration? i).any P = (b.declaration? i).any P := by
    intro i hi
    rw [declaration?_declare_lt d (List.mem_range.mp hi)]
  unfold idsWhere
  rw [hlength, List.range_succ, List.filter_append, List.filter_congr hbefore,
    List.filter_singleton, declaration?_declare_length, Option.any_some, cond_eq_ite]

theorem idsWhere_eq_nil {P : Declaration → Bool} (h : ∀ d ∈ b.declarations, P d = false) :
    b.idsWhere P = [] := by
  refine List.filter_eq_nil_iff.mpr fun i _ => ?_
  cases hd : b.declaration? i with
  | none => exact Bool.false_ne_true
  | some d =>
    rw [Option.any_some, h d (List.mem_of_getElem? hd)]
    exact Bool.false_ne_true

theorem declaredIds_declare (b : Bindings) (d : Declaration) (id : ScopeId) (name : String) :
    (b.declare d).declaredIds id name =
      b.declaredIds id name ++ if isOf id name d then [b.declarations.length] else [] :=
  idsWhere_declare b d (isOf id name)

theorem Indexed.declare (h : b.Indexed) {d : Declaration} (hd : d.scope < b.scopes.length) :
    (b.declare d).Indexed := by
  constructor
  · intro id s hs name
    rw [scope?_declare] at hs
    obtain ⟨s₀, hs₀, rfl⟩ := Option.map_eq_some_iff.mp hs
    have hbefore := h.ids hs₀ name
    rw [declaredIds_declare, ← hbefore]
    by_cases hid : d.scope = id
    · rw [if_pos hid, NameIndex.ids_add]
      by_cases hname : d.name = name
      · rw [if_pos hname, if_pos (by simp only [isOf, hid, hname, beq_self_eq_true, Bool.and_self])]
      · rw [if_neg hname, if_neg (by simp only [isOf, beq_false_of_ne hname, Bool.and_false,
          Bool.false_eq_true, not_false_eq_true]), List.append_nil]
    · rw [if_neg hid, if_neg (by simp only [isOf, beq_false_of_ne hid, Bool.false_and,
        Bool.false_eq_true, not_false_eq_true]), List.append_nil]
  · intro d' hd'
    rw [Bindings.declare, List.length_modify]
    rcases List.mem_append.mp hd' with hd' | hd'
    · exact h.scope d' hd'
    · rw [List.mem_singleton.mp hd']
      exact hd

theorem Indexed.openScope (h : b.Indexed) (kind : ScopeKind) (parent : Option ScopeId)
    (range : ByteSpan) : (b.openScope kind parent range).Indexed := by
  have hscope : ∀ d ∈ b.declarations, d.scope < (b.openScope kind parent range).scopes.length := by
    intro d hd
    rw [Bindings.openScope, List.length_append]
    exact Nat.lt_add_right _ (h.scope d hd)
  refine ⟨fun {id s} hs name => ?_, hscope⟩
  have hs' : (b.scopes ++ [⟨kind, parent, range, [], []⟩])[id]? = some s := hs
  by_cases hid : id < b.scopes.length
  · rw [List.getElem?_append_left hid] at hs'
    exact h.ids hs' name
  · -- nothing is declared in the new scope yet
    rw [List.getElem?_append_right (Nat.le_of_not_lt hid)] at hs'
    obtain rfl := List.mem_singleton.mp (List.mem_of_getElem? hs')
    refine (idsWhere_eq_nil fun d hd => ?_ : b.idsWhere (isOf id name) = []).symm
    have hne : d.scope ≠ id := by
      rintro rfl
      exact hid (h.scope d hd)
    rw [isOf, beq_false_of_ne hne, Bool.false_and]

theorem Indexed.builds {b' : Bindings} (h : b.Indexed) (hbuilds : Builds b b') : b'.Indexed := by
  induction hbuilds with
  | refl => exact h
  | declare _ hd ih => exact ih.declare hd.scope
  | openScope _ _ ih => exact ih.openScope _ _ _

/-- The first declaration of a name in a scope that the space admits, among all declarations. -/
def firstIn (b : Bindings) (name : String) (space : Space) (id : ScopeId) : Option DeclId :=
  b.declarations.findIdx? fun d => isOf id name d && space.admits d.kind

theorem find?_range_eq_findIdx? {α : Type} (xs : List α) (p : α → Bool) :
    ((List.range xs.length).find? fun i => (xs[i]?).any p) = xs.findIdx? p := by
  refine Option.ext fun i => ?_
  rw [List.find?_range_eq_some, List.findIdx?_eq_some_iff_getElem, List.mem_range]
  constructor
  · rintro ⟨hp, hi, hbefore⟩
    rw [List.getElem?_eq_getElem hi, Option.any_some] at hp
    refine ⟨hi, hp, fun j hj => ?_⟩
    have h := hbefore j hj
    rwa [List.getElem?_eq_getElem (Nat.lt_trans hj hi), Option.any_some, Bool.not_eq_true',
      ← Bool.not_eq_true] at h
  · rintro ⟨hi, hp, hbefore⟩
    rw [List.getElem?_eq_getElem hi, Option.any_some]
    refine ⟨hp, hi, fun j hj => ?_⟩
    rw [List.getElem?_eq_getElem (Nat.lt_trans hj hi), Option.any_some, Bool.not_eq_true',
      ← Bool.not_eq_true]
    exact hbefore j hj

theorem Indexed.firstIn_eq_none (h : b.Indexed) (name : String) (space : Space) {id : ScopeId}
    (hid : b.scope? id = none) : b.firstIn name space id = none := by
  refine List.findIdx?_eq_none_iff.mpr fun d hd => ?_
  have hne : d.scope ≠ id := by
    rintro rfl
    exact Nat.not_le_of_lt (h.scope d hd) (List.getElem?_eq_none_iff.mp hid)
  rw [isOf, beq_false_of_ne hne, Bool.false_and, Bool.false_and]

/-- Looking a name up in one scope gives the first declaration that there is. -/
theorem Indexed.resolveIn_eq_firstIn (h : b.Indexed) (name : String) (space : Space)
    (id : ScopeId) : b.resolveIn name space id = b.firstIn name space id := by
  unfold resolveIn
  cases hs : b.scope? id with
  | none => exact (h.firstIn_eq_none name space hs).symm
  | some s =>
    unfold firstIn
    rw [← find?_range_eq_findIdx?]
    dsimp only
    rw [h.ids hs, declaredIds, List.find?_filter]
    congr 1
    funext i
    change _ = (b.declaration? i).any _
    cases b.declaration? i with
    | none => rfl
    | some d => simp only [Option.any_some, Bool.decide_and, Bool.decide_eq_true]

/-- Look-up goes through the scopes around an offset for the first declaration in one of them. -/
theorem Indexed.resolve_eq_findSome? (h : b.Indexed) (name : String) (offset : Nat)
    (space : Space) :
    b.resolve name offset space = (b.scopeChain offset).findSome? (b.firstIn name space) := by
  unfold resolve
  congr 1
  funext id
  exact h.resolveIn_eq_firstIn name space id

end Bindings

namespace Binder

theorem programScope_indexed (root : Node) : (programScope root).Indexed :=
  Bindings.Indexed.openScope
    ⟨fun hs => absurd hs (by simp only [Bindings.scope?, Bindings.empty, List.getElem?_nil,
      reduceCtorEq, not_false_eq_true]), fun _ hd => absurd hd List.not_mem_nil⟩ _ _ _

theorem bind_indexed (root : Node) (source : List Char) : (bind root source).Indexed :=
  (programScope_indexed root).builds (bind_builds root source)

end Binder

end UtsInsight
