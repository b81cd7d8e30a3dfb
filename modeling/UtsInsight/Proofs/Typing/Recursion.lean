import Mathlib.Data.List.Perm.Subperm
import UtsInsight.Proofs.Typing.Termination

/-!
# Types by plain recursion

Without cycles the table is only a memory. `plainType?` computes the type of a declaration from its
source alone, with the types of other declarations computed again wherever they are asked for. Its
bound is on how deep this goes, and no path of dependencies is longer than there are declarations,
because none meets a declaration twice.

So what a declaration's type is does not depend on what was asked for before, and the declarations
may be resolved in any order.
-/
namespace UtsInsight

variable (context : TypingContext) (root : Node)

/-- The type of a declaration, computed from its source without a table. It is not known where
computations go deeper than the bound. -/
def plainType? : Nat → DeclId → Option String
  | 0, _ => none
  | bound + 1, id =>
    match context.bindings.declaration? id with
    | some d => typeOfSource context root (plainType? bound) d.source
    | none => some unknownType

variable {context root}

theorem length_le_of_nodup_lt {path : List DeclId} {count : Nat} (hnodup : path.Nodup)
    (hlt : ∀ id ∈ path, id < count) : path.length ≤ count := by
  have hsubset : path ⊆ List.range count := fun id hid => List.mem_range.mpr (hlt id hid)
  have hlength := (hnodup.subperm hsubset).length_le
  rwa [List.length_range] at hlength

/-- A type in a closed table is the one that plain recursion finds. The induction is on the bound,
along a path of declarations that lead to this one. -/
theorem plainType?_of_answer? (hacyclic : Acyclic context root) {table : ProgressTable}
    (hclosed : Closed context root table)
    (hlength : table.length = context.bindings.declarations.length) (bound : Nat) :
    ∀ (path : List DeclId) (id : DeclId) {type : String}, path.Nodup →
      (∀ i ∈ path, Relation.TransGen (DependsOn context root) i id) →
      context.bindings.declarations.length < path.length + bound →
      table.answer? id = some type → plainType? context root bound id = some type := by
  induction bound with
  | zero =>
    intro path id type hnodup hpath hbound _
    have hle := length_le_of_nodup_lt hnodup fun i hi => by
      obtain ⟨_, hfirst, _⟩ := Relation.TransGen.head'_iff.mp (hpath i hi)
      exact hfirst.lt_length
    omega
  | succ bound ih =>
    intro path id type hnodup hpath hbound hanswer
    rw [plainType?]
    cases hd : context.bindings.declaration? id with
    | none =>
      have hnone : table[id]? = none := by
        rw [List.getElem?_eq_none_iff, hlength]
        exact List.getElem?_eq_none_iff.mp hd
      rw [ProgressTable.answer?, hnone] at hanswer
      exact hanswer
    | some d =>
      have hid : id < table.length := by
        rw [hlength]
        exact (List.getElem?_eq_some_iff.mp hd).1
      refine typeOfSource_mono (fun j hj type hanswer => ?_)
        (hclosed (done_of_answer? hid hanswer) hd)
      have hdepends : DependsOn context root id j := .of_mem hd hj
      refine ih (id :: path) j
        (List.nodup_cons.mpr ⟨fun hmem => hacyclic id (hpath id hmem), hnodup⟩)
        (fun i hi => ?_) ?_ hanswer
      · rcases List.mem_cons.mp hi with rfl | hi
        · exact .single hdepends
        · exact (hpath i hi).tail hdepends
      · rw [List.length_cons]
        omega

/-! ### Requests in any order -/

/-- Whatever is asked for, in whatever order, the answers are the types that plain recursion finds,
and so are the types in the table that is left. -/
theorem run_mapM_declarationType (b : Bindings) (root : Node) (source : List Char)
    (hacyclic : Acyclic ⟨source, b⟩ root) (ids : List DeclId) :
    let run := (ids.mapM (declarationType ⟨source, b⟩ root b.declarations.length)).run b.untyped
    ids.mapM run.2.answer? = some run.1 ∧
      ∀ {id : DeclId} {type : String}, run.2.answer? id = some type →
        ∀ bound, b.declarations.length < bound →
          plainType? ⟨source, b⟩ root bound id = some type := by
  intro run
  obtain ⟨hclosed, hlength, hanswers⟩ := run_untyped_closed hacyclic ids
  refine ⟨hanswers, fun hanswer bound hbound => ?_⟩
  exact plainType?_of_answer? hacyclic hclosed hlength bound [] _ List.nodup_nil
    (fun _ h => absurd h List.not_mem_nil) (by rwa [List.length_nil, Nat.zero_add]) hanswer

/-- Types of all declarations and of all their members, with the declarations resolved in the given
order. -/
def declarationTypesIn (order : List DeclId) (context : TypingContext) (root : Node) :
    StateM ProgressTable (List String × List (List String)) := do
  let declarations := context.bindings.declarations
  let lookup := declarationType context root declarations.length
  let answers ← order.mapM lookup
  let members ← declarations.mapM fun d =>
    d.members.mapM fun member => typeOfSource context root lookup member.source
  let types := (List.range declarations.length).map fun id =>
    ((order.zip answers).lookup id).getD unknownType
  return (types, members)

/-- The bindings with all types filled in, with the declarations resolved in the given order. -/
def Bindings.resolveTypesIn (order : List DeclId) (b : Bindings) (root : Node)
    (source : List Char) : Bindings :=
  let types := ((declarationTypesIn order ⟨source, b⟩ root).run b.untyped).1
  b.withTypes types.1 types.2

/-! ### Looking up an answer -/

theorem lookup_zip_of_mapM {f : DeclId → Option String} {id : DeclId} {order : List DeclId}
    (hid : id ∈ order) : ∀ {answers : List String}, order.mapM f = some answers →
      ∃ type, f id = some type ∧ (order.zip answers).lookup id = some type := by
  induction order with
  | nil => exact absurd hid List.not_mem_nil
  | cons first order ih =>
    intro answers hanswers
    rw [List.mapM_cons] at hanswers
    obtain ⟨type, hfirst, hanswers⟩ := Option.bind_eq_some_iff.mp hanswers
    obtain ⟨rest, hrest, hcons⟩ := Option.bind_eq_some_iff.mp hanswers
    rw [← Option.some.inj hcons, List.zip_cons_cons, List.lookup_cons]
    by_cases heq : id = first
    · subst heq
      exact ⟨type, hfirst, by rw [beq_self_eq_true]⟩
    · rw [beq_false_of_ne heq]
      exact ih ((List.mem_cons.mp hid).resolve_left heq) hrest

theorem lookup_zip_range' (answers : List String) : ∀ (start id : Nat), start ≤ id →
    ((List.range' start answers.length).zip answers).lookup id = answers[id - start]? := by
  induction answers with
  | nil => exact fun _ _ _ => rfl
  | cons answer answers ih =>
    intro start id hid
    rw [List.length_cons, List.range'_succ, List.zip_cons_cons, List.lookup_cons]
    by_cases heq : id = start
    · subst heq
      rw [beq_self_eq_true, Nat.sub_self, List.getElem?_cons_zero]
    · obtain ⟨steps, hsteps⟩ : ∃ steps, id - start = steps + 1 := ⟨id - start - 1, by omega⟩
      have hrest : id - (start + 1) = steps := by omega
      rw [beq_false_of_ne heq, hsteps, List.getElem?_cons_succ, ← hrest]
      exact ih (start + 1) id (by omega)

namespace Bindings

variable {b : Bindings} {root : Node} {source : List Char}

/-- The order of the declarations is that in which they are resolved. -/
theorem resolveTypesIn_range (b : Bindings) (root : Node) (source : List Char) :
    b.resolveTypesIn (List.range b.declarations.length) root source =
      b.resolveTypes root source := by
  have htypes : ((List.range b.declarations.length).map fun id =>
      (((List.range b.declarations.length).zip (typesRun ⟨source, b⟩ root).1).lookup id).getD
        unknownType) = (typesRun ⟨source, b⟩ root).1 := by
    have hlength : (typesRun ⟨source, b⟩ root).1.length = b.declarations.length := length_typesRun
    refine List.ext_getElem (by rw [List.length_map, List.length_range, hlength])
      fun id _ hid => ?_
    rw [List.getElem_map, List.getElem_range, ← hlength, List.range_eq_range',
      lookup_zip_range' _ 0 id (Nat.zero_le id), Nat.sub_zero, List.getElem?_eq_getElem hid,
      Option.getD_some]
  exact congrArg (fun types => b.withTypes types
    ((declarationTypes ⟨source, b⟩ root).run b.untyped).1.2) htypes

/-- The type of a declaration by plain recursion, which ends within this bound if there are no
cycles. -/
def plainType (b : Bindings) (root : Node) (source : List Char) (id : DeclId) : String :=
  (plainType? ⟨source, b⟩ root (b.declarations.length + 1) id).getD unknownType

/-- When all declarations have been asked for, every answer is known and leaves the table as it is.
-/
theorem run_declarationType_covered (hacyclic : Acyclic ⟨source, b⟩ root) {order : List DeclId}
    (hcover : ∀ id < b.declarations.length, id ∈ order) (id : DeclId) :
    let lookup := declarationType ⟨source, b⟩ root b.declarations.length
    let left := ((order.mapM lookup).run b.untyped).2
    (lookup id).run left = (b.plainType root source id, left) := by
  intro lookup left
  obtain ⟨hanswers, hplain⟩ := run_mapM_declarationType b root source hacyclic order
  have hknown : ∃ type, left.answer? id = some type := by
    by_cases hid : id < b.declarations.length
    · obtain ⟨type, htype, _⟩ := lookup_zip_of_mapM (hcover id hid) hanswers
      exact ⟨type, htype⟩
    · have hnone : left[id]? = none := by
        rw [List.getElem?_eq_none_iff, (run_untyped_closed hacyclic order).2.1]
        exact Nat.le_of_not_lt hid
      exact ⟨unknownType, by rw [ProgressTable.answer?, hnone]⟩
  obtain ⟨type, htype⟩ := hknown
  have hsettled : left[id]? ≠ some .waiting := fun hwaiting => by
    rw [ProgressTable.answer?, hwaiting] at htype
    cases htype
  rw [run_declarationType_settled hsettled, htype, plainType,
    hplain htype _ (Nat.lt_succ_self _)]

/-- Without cycles, the order decides nothing. -/
theorem run_declarationTypesIn (hacyclic : Acyclic ⟨source, b⟩ root) {order : List DeclId}
    (hcover : ∀ id < b.declarations.length, id ∈ order) :
    ((declarationTypesIn order ⟨source, b⟩ root).run b.untyped).1 =
      ((List.range b.declarations.length).map (b.plainType root source),
        b.declarations.map fun d =>
          d.members.map (memberType ⟨source, b⟩ root (b.plainType root source))) := by
  have hlookup := run_declarationType_covered hacyclic hcover
  obtain ⟨hanswers, hplain⟩ := run_mapM_declarationType b root source hacyclic order
  refine Prod.ext (List.map_congr_left fun id hid => ?_) ?_
  · obtain ⟨type, htype, hanswer⟩ :=
      lookup_zip_of_mapM (hcover id (List.mem_range.mp hid)) hanswers
    rw [plainType, hplain htype _ (Nat.lt_succ_self _)]
    exact congrArg (Option.getD · unknownType) hanswer
  · exact congrArg Prod.fst (run_members_unchanged ⟨source, b⟩ root hlookup b.declarations)

/-- In a document without cycles, whatever is asked for is answered with the type that plain
recursion over the sources finds, whatever was asked for before. The finished declarations have
these types, and the order in which they are resolved changes neither their types nor those of their
members. -/
theorem resolveTypes_recursion (b : Bindings) (root : Node) (source : List Char)
    (hacyclic : Acyclic ⟨source, b⟩ root) :
    (∀ (ids : List DeclId) bound, b.declarations.length < bound →
      ids.mapM (plainType? ⟨source, b⟩ root bound) =
        some ((ids.mapM (declarationType ⟨source, b⟩ root b.declarations.length)).run
          b.untyped).1) ∧
    (∀ id < b.declarations.length,
      ((b.resolveTypes root source).declaration? id).map (·.type) =
        plainType? ⟨source, b⟩ root (b.declarations.length + 1) id) ∧
    ∀ order : List DeclId, (∀ id < b.declarations.length, id ∈ order) →
      b.resolveTypesIn order root source = b.resolveTypes root source := by
  have hplain : ∀ (ids : List DeclId) bound, b.declarations.length < bound →
      ids.mapM (plainType? ⟨source, b⟩ root bound) =
        some ((ids.mapM (declarationType ⟨source, b⟩ root b.declarations.length)).run
          b.untyped).1 := by
    intro ids bound hbound
    obtain ⟨hanswers, hplain⟩ := run_mapM_declarationType b root source hacyclic ids
    exact mapM_mono (fun _ _ _ hanswer => hplain hanswer bound hbound) hanswers
  refine ⟨hplain, fun id hid => ?_, fun order hcover => ?_⟩
  · have htype := getElem?_of_mapM
      (hplain (List.range b.declarations.length) _ (Nat.lt_succ_self _)) id
    rw [List.getElem?_range hid, Option.bind_some] at htype
    rw [resolveTypes_type, htype]
    rfl
  · rw [← resolveTypesIn_range, resolveTypesIn, resolveTypesIn,
      run_declarationTypesIn hacyclic hcover,
      run_declarationTypesIn hacyclic fun id hid => List.mem_range.mpr hid]

end Bindings

/-! ### Two declarations in either order -/

def chainText : List Char :=
  "let a=1;let b=[a];".toList

def chainTree : Node :=
  pairTree (Node.construct "number" 6 7 (some "value") [])

def chainBindings : Bindings :=
  Binder.bind chainTree chainText

/-- The second declaration depends on the first, but may be resolved before it. -/
theorem resolveTypes_recursion_chain :
    DependsOn ⟨chainText, chainBindings⟩ chainTree 1 0 ∧
    [1, 0].mapM (plainType? ⟨chainText, chainBindings⟩ chainTree 3) =
      some ["number[]", "number"] ∧
    ((chainBindings.resolveTypes chainTree chainText).declaration? 1).map (·.type) =
      plainType? ⟨chainText, chainBindings⟩ chainTree 3 1 ∧
    chainBindings.resolveTypesIn [1, 0] chainTree chainText =
      chainBindings.resolveTypes chainTree chainText := by
  have hlength : chainBindings.declarations.length = 2 := by decide +kernel
  have h := chainBindings.resolveTypes_recursion chainTree chainText
    (acyclic_of_lt (by decide +kernel))
  rw [hlength] at h
  have hanswers : (([1, 0].mapM (declarationType ⟨chainText, chainBindings⟩ chainTree 2)).run
      chainBindings.untyped).1 = ["number[]", "number"] := by decide +kernel
  refine ⟨by decide +kernel, ?_, h.2.1 1 (by decide), h.2.2 [1, 0] (by decide)⟩
  rw [h.1 [1, 0] 3 (by decide), hanswers]

end UtsInsight
