import Mathlib.Data.List.Basic
import UtsInsight.Proofs.Typing.Dependency

/-!
# Types computed on demand

Every declaration is computed at most once, inside the computation that first asks for it. A step
of the computation is described by what it leaves in the table of progress: no type is lost, nothing
stays behind that is being computed and was not before, and what is waiting becomes less.

Without cycles, a declaration that is being computed is never asked for. Then every type in the
table is the one that its source gives over the table itself, and this stays so to the end.
-/
namespace UtsInsight

/-- The answer that a table holds for a declaration. An id of no declaration has the unknown type.
-/
def ProgressTable.answer? (table : ProgressTable) (id : DeclId) : Option String :=
  match table[id]? with
  | some (.done type) => some type
  | none => some unknownType
  | _ => none

theorem done_of_answer? {table : ProgressTable} {id : DeclId} {type : String}
    (hid : id < table.length) (h : table.answer? id = some type) :
    table[id]? = some (Progress.done type) := by
  unfold ProgressTable.answer? at h
  rw [List.getElem?_eq_getElem hid] at h ⊢
  cases hprogress : table[id] with
  | waiting => simp only [hprogress, reduceCtorEq] at h
  | running => simp only [hprogress, reduceCtorEq] at h
  | done known =>
    simp only [hprogress] at h
    rw [Option.some.inj h]

/-- The second table is the first with more of what was waiting computed. -/
structure Advances (table later : ProgressTable) : Prop where
  length : later.length = table.length
  done : ∀ {id : DeclId} {type : String},
    table[id]? = some (Progress.done type) → later[id]? = some (Progress.done type)
  running : ∀ {id : DeclId},
    table[id]? = some Progress.running ↔ later[id]? = some Progress.running
  waiting : later.count Progress.waiting ≤ table.count Progress.waiting

namespace Advances

variable {table later last : ProgressTable}

theorem refl (table : ProgressTable) : Advances table table :=
  ⟨rfl, id, Iff.rfl, Nat.le_refl _⟩

theorem trans (h : Advances table later) (h' : Advances later last) : Advances table last :=
  ⟨h'.length.trans h.length, fun hdone => h'.done (h.done hdone), h.running.trans h'.running,
    Nat.le_trans h'.waiting h.waiting⟩

theorem answered (h : Advances table later) {id : DeclId} {type : String}
    (hanswer : table.answer? id = some type) : later.answer? id = some type := by
  unfold ProgressTable.answer? at hanswer ⊢
  cases hid : table[id]? with
  | none =>
    have hlater : later[id]? = none := by
      rw [List.getElem?_eq_none_iff] at hid ⊢
      rwa [h.length]
    simpa only [hid, hlater] using hanswer
  | some progress =>
    cases progress with
    | waiting => simp only [hid, reduceCtorEq] at hanswer
    | running => simp only [hid, reduceCtorEq] at hanswer
    | done known => simpa only [hid, h.done hid] using hanswer

end Advances

/-! ### One declaration -/

section

variable {context : TypingContext} {root : Node} {bound : Nat} {id : DeclId}
variable {table : ProgressTable}

/-- A declaration that is not waiting answers at once. -/
theorem run_declarationType_settled (h : table[id]? ≠ some .waiting) :
    (declarationType context root bound id).run table =
      ((table.answer? id).getD unknownType, table) := by
  unfold declarationType ProgressTable.answer?
  cases hid : table[id]? with
  | none =>
    simp only [StateT.run_bind, StateT.run_get, pure_bind, hid]
    rfl
  | some progress =>
    simp only [StateT.run_bind, StateT.run_get, pure_bind, hid]
    cases progress with
    | waiting => exact absurd hid h
    | running => rfl
    | done type => rfl

theorem run_declarationType_waiting {d : Declaration} (h : table[id]? = some .waiting)
    (hd : context.bindings.declaration? id = some d) :
    (declarationType context root (bound + 1) id).run table =
      let computed := (typeOfSource context root (declarationType context root bound) d.source).run
        (table.set id .running)
      (computed.1, computed.2.set id (.done computed.1)) := by
  unfold declarationType
  simp only [StateT.run_bind, StateT.run_get, pure_bind, h, hd]
  rfl

/-! ### Computations end, and lose nothing -/

/-- The table has an entry for every declaration, and the bound is not less than what is waiting. -/
structure Fits (context : TypingContext) (bound : Nat) (table : ProgressTable) : Prop where
  length : table.length = context.bindings.declarations.length
  waiting : table.count Progress.waiting ≤ bound

theorem Fits.advance {later : ProgressTable} (h : Fits context bound table)
    (hlater : Advances table later) : Fits context bound later :=
  ⟨hlater.length.trans h.length, Nat.le_trans hlater.waiting h.waiting⟩

theorem Fits.declaration? (h : Fits context bound table) {progress : Progress}
    (hid : table[id]? = some progress) : ∃ d, context.bindings.declaration? id = some d := by
  have hlt := (List.getElem?_eq_some_iff.mp hid).1
  rw [h.length] at hlt
  exact ⟨_, List.getElem?_eq_getElem hlt⟩

theorem count_waiting_set_running (h : table[id]? = some Progress.waiting) :
    (table.set id Progress.running).count Progress.waiting + 1 =
      table.count Progress.waiting := by
  obtain ⟨hlt, hid⟩ := List.getElem?_eq_some_iff.mp h
  have hset : (table.set id Progress.running).count Progress.waiting =
      table.count Progress.waiting - 1 + 0 := by
    rw [List.count_set hlt, hid]
    rfl
  have hpos := List.count_pos_iff.mpr (hid ▸ List.getElem_mem hlt)
  omega

theorem Fits.start (h : Fits context bound table) (hid : table[id]? = some Progress.waiting) :
    ∃ inner, bound = inner + 1 ∧ Fits context inner (table.set id .running) := by
  have hcount := count_waiting_set_running hid
  have hwaiting := h.waiting
  exact ⟨bound - 1, by omega, by rw [List.length_set, h.length], by omega⟩

/-- What was waiting has been computed, after some computations inside its own. -/
theorem Advances.finish {later : ProgressTable} (hid : table[id]? = some Progress.waiting)
    (h : Advances (table.set id .running) later) (type : String) :
    Advances table (later.set id (.done type)) := by
  have hlt := (List.getElem?_eq_some_iff.mp hid).1
  have hlength : later.length = table.length := by rw [h.length, List.length_set]
  have hrunning : later[id]? = some Progress.running :=
    h.running.mp (by rw [List.getElem?_set_self hlt])
  refine ⟨by rw [List.length_set, hlength], ?_, ?_, ?_⟩
  · intro i known hknown
    have hne : id ≠ i := by
      rintro rfl
      simp only [hid, Option.some.injEq, reduceCtorEq] at hknown
    rw [List.getElem?_set_ne hne]
    exact h.done (by rwa [List.getElem?_set_ne hne])
  · intro i
    by_cases hi : id = i
    · subst hi
      rw [hid, List.getElem?_set_self (by omega)]
      simp only [Option.some.injEq, reduceCtorEq]
    · rw [List.getElem?_set_ne hi, ← h.running, List.getElem?_set_ne hi]
  · obtain ⟨hlt', hrunning'⟩ := List.getElem?_eq_some_iff.mp hrunning
    have hset : (later.set id (Progress.done type)).count Progress.waiting =
        later.count Progress.waiting - 0 + 0 := by
      rw [List.count_set hlt', hrunning']
      rfl
    have hcount := count_waiting_set_running hid
    have hwaiting := h.waiting
    omega

theorem advances_mapM {lookup : DeclId → StateM ProgressTable String}
    (hlookup : ∀ id table, Fits context bound table → Advances table ((lookup id).run table).2) :
    ∀ (ids : List DeclId) (table : ProgressTable), Fits context bound table →
      Advances table ((ids.mapM lookup).run table).2 := by
  intro ids
  induction ids with
  | nil =>
    intro table _
    rw [run_mapM_nil]
    exact .refl table
  | cons id ids ih =>
    intro table hfits
    have hfirst := hlookup id table hfits
    rw [run_mapM_cons]
    exact hfirst.trans (ih _ (hfits.advance hfirst))

variable (context root)

/-- What asking for the type of a declaration does: it answers at once, or it puts the question of
the declaration's source while the declaration is marked as being computed. -/
theorem declarationType_cases (hfits : Fits context bound table) (id : DeclId) :
    (table[id]? ≠ some .waiting ∧
      (declarationType context root bound id).run table =
        ((table.answer? id).getD unknownType, table)) ∨
    ∃ (inner : Nat) (d : Declaration) (q : Question String),
      table[id]? = some .waiting ∧ context.bindings.declaration? id = some d ∧
      q.ids = asked context root d.source ∧
      (∀ (m : Type → Type) [Monad m] [LawfulMonad m] (lookup : DeclId → m String),
        typeOfSource context root lookup d.source = q.put lookup) ∧
      bound = inner + 1 ∧ Fits context inner (table.set id .running) ∧
      (declarationType context root bound id).run table =
        let answers := (q.ids.mapM (declarationType context root inner)).run (table.set id .running)
        (q.conclude answers.1, answers.2.set id (.done (q.conclude answers.1))) := by
  by_cases hid : table[id]? = some .waiting
  · obtain ⟨d, hd⟩ := hfits.declaration? hid
    obtain ⟨q, hids, hq⟩ := typeOfSource_spec context root d.source
    obtain ⟨inner, rfl, hinner⟩ := hfits.start hid
    refine .inr ⟨inner, d, q, hid, hd, hids, hq, rfl, hinner, ?_⟩
    rw [run_declarationType_waiting hid hd, hq, Question.run_put]
  · exact .inl ⟨hid, run_declarationType_settled hid⟩

/-- Whatever depends on what, asking for a type ends before the bound is reached and only adds to
the table. -/
theorem declarationType_advances (bound : Nat) : ∀ (id : DeclId) (table : ProgressTable),
    Fits context bound table →
      Advances table ((declarationType context root bound id).run table).2 := by
  induction bound using Nat.strongRecOn with
  | ind bound ih =>
    intro id table hfits
    rcases declarationType_cases context root hfits id with
      ⟨_, hrun⟩ | ⟨inner, _, q, hid, _, _, _, hbound, hinner, hrun⟩
    · rw [hrun]
      exact .refl table
    · rw [hrun]
      exact (advances_mapM (ih inner (by omega)) q.ids _ hinner).finish hid _

/-! ### Types that agree with their sources -/

/-- Every type in the table is the one that its source gives over the table. -/
def Closed (table : ProgressTable) : Prop :=
  ∀ {id type}, table[id]? = some (Progress.done type) →
    ∀ {d}, context.bindings.declaration? id = some d →
      typeOfSource context root table.answer? d.source = some type

variable {context root}

theorem mapM_cons_eq_some {f : DeclId → Option String} {id : DeclId} {ids : List DeclId}
    {type : String} {types : List String} (hid : f id = some type)
    (hids : ids.mapM f = some types) : (id :: ids).mapM f = some (type :: types) := by
  rw [List.mapM_cons, hid, hids]
  rfl

theorem mapM_mono {known more : DeclId → Option String} {ids : List DeclId}
    (h : ∀ id ∈ ids, ∀ {type}, known id = some type → more id = some type) :
    ∀ {types : List String}, ids.mapM known = some types → ids.mapM more = some types := by
  induction ids with
  | nil => exact id
  | cons id ids ih =>
    intro types htypes
    rw [List.mapM_cons] at htypes
    obtain ⟨type, hid, htypes⟩ := Option.bind_eq_some_iff.mp htypes
    obtain ⟨rest, hrest, hcons⟩ := Option.bind_eq_some_iff.mp htypes
    rw [← Option.some.inj hcons]
    exact mapM_cons_eq_some (h id List.mem_cons_self hid)
      (ih (fun j hj => h j (List.mem_cons_of_mem id hj)) hrest)

/-- More answers do not change a type that the answers so far settle. -/
theorem typeOfSource_mono {known more : DeclId → Option String} {s : TypeSource} {type : String}
    (h : ∀ id ∈ asked context root s, ∀ {type}, known id = some type → more id = some type)
    (htype : typeOfSource context root known s = some type) :
    typeOfSource context root more s = some type := by
  obtain ⟨q, hids, hq⟩ := typeOfSource_spec context root s
  rw [hq] at htype ⊢
  obtain ⟨answers, hanswers, hconclude⟩ := Option.bind_eq_some_iff.mp htype
  exact Option.bind_eq_some_iff.mpr ⟨answers, mapM_mono (hids ▸ h) hanswers, hconclude⟩

/-- Changing the progress of a declaration without an answer takes no answer away. -/
theorem answer?_set (hnone : table.answer? id = none) (progress : Progress) {j : DeclId}
    {type : String} (h : table.answer? j = some type) :
    ProgressTable.answer? (table.set id progress) j = some type := by
  have hne : id ≠ j := by
    rintro rfl
    rw [h] at hnone
    exact Option.some_ne_none _ hnone
  unfold ProgressTable.answer? at h ⊢
  rwa [List.getElem?_set_ne hne]

/-- Marking a declaration as being computed, or giving it the type that its source gives, keeps a
table closed. -/
theorem Closed.set (h : Closed context root table) (hnone : table.answer? id = none)
    {progress : Progress}
    (hprogress : ∀ {type d}, progress = .done type → context.bindings.declaration? id = some d →
      typeOfSource context root table.answer? d.source = some type) :
    Closed context root (table.set id progress) := by
  intro i type hi d hd
  refine typeOfSource_mono (fun _ _ => answer?_set hnone progress) ?_
  by_cases hid : id = i
  · subst hid
    rw [List.getElem?_set_self'] at hi
    obtain ⟨_, _, hdone⟩ := Option.map_eq_some_iff.mp hi
    exact hprogress hdone hd
  · rw [List.getElem?_set_ne hid] at hi
    exact h hi hd

/-- Everything that is being computed leads to the declaration. -/
def RunningLeadTo (context : TypingContext) (root : Node) (table : ProgressTable) (id : DeclId) :
    Prop :=
  ∀ {r}, table[r]? = some Progress.running → Relation.TransGen (DependsOn context root) r id

/-- Asked for something that everything being computed leads to, the look-up keeps a closed table
closed and gives the type that the table then holds. -/
def KeepsClosed (context : TypingContext) (root : Node) (bound : Nat)
    (lookup : DeclId → StateM ProgressTable String) : Prop :=
  ∀ id table, Fits context bound table → Closed context root table →
    RunningLeadTo context root table id →
    Closed context root ((lookup id).run table).2 ∧
      ((lookup id).run table).2.answer? id = some ((lookup id).run table).1

theorem KeepsClosed.mapM {lookup : DeclId → StateM ProgressTable String}
    (hlookup : KeepsClosed context root bound lookup)
    (hadvances : ∀ id table, Fits context bound table → Advances table ((lookup id).run table).2)
    (ids : List DeclId) (table : ProgressTable) (hfits : Fits context bound table)
    (hclosed : Closed context root table)
    (hrunning : ∀ id ∈ ids, RunningLeadTo context root table id) :
    Closed context root ((ids.mapM lookup).run table).2 ∧
      ids.mapM ((ids.mapM lookup).run table).2.answer? =
        some ((ids.mapM lookup).run table).1 := by
  induction ids generalizing table with
  | nil =>
    rw [run_mapM_nil]
    exact ⟨hclosed, rfl⟩
  | cons id ids ih =>
    have hfirst := hadvances id table hfits
    have hrest := advances_mapM hadvances ids _ (hfits.advance hfirst)
    obtain ⟨hclosed', hanswer⟩ := hlookup id table hfits hclosed (hrunning id List.mem_cons_self)
    obtain ⟨hclosed'', hanswers⟩ := ih _ (hfits.advance hfirst) hclosed' fun j hj r hr =>
      hrunning j (List.mem_cons_of_mem id hj) (hfirst.running.mpr hr)
    rw [run_mapM_cons]
    exact ⟨hclosed'', mapM_cons_eq_some (hrest.answered hanswer) hanswers⟩

/-- Without cycles, types that are computed on demand are the ones that their sources give. -/
theorem declarationType_keepsClosed (hacyclic : Acyclic context root) (bound : Nat) :
    KeepsClosed context root bound (declarationType context root bound) := by
  induction bound using Nat.strongRecOn with
  | ind bound ih =>
    intro id table hfits hclosed hrunning
    rcases declarationType_cases context root hfits id with
      ⟨hid, hrun⟩ | ⟨inner, d, q, hid, hd, hids, hq, hbound, hinner, hrun⟩
    · rw [hrun]
      refine ⟨hclosed, ?_⟩
      unfold ProgressTable.answer?
      cases hprogress : table[id]? with
      | none => rfl
      | some progress =>
        cases progress with
        | waiting => exact absurd hprogress hid
        -- what is being computed leads to itself only along a cycle
        | running => exact absurd (hrunning hprogress) (hacyclic id)
        | done type => rfl
    · have hnone : table.answer? id = none := by
        unfold ProgressTable.answer?
        rw [hid]
      have hlt := (List.getElem?_eq_some_iff.mp hid).1
      have hstarted : Closed context root (table.set id .running) :=
        hclosed.set hnone fun hdone => absurd hdone Progress.noConfusion
      have hasked : ∀ j ∈ q.ids, RunningLeadTo context root (table.set id .running) j := by
        intro j hj r hr
        have hdepends : DependsOn context root id j := .of_mem hd (hids ▸ hj)
        by_cases hrid : id = r
        · exact hrid ▸ .single hdepends
        · rw [List.getElem?_set_ne hrid] at hr
          exact (hrunning hr).tail hdepends
      have hadvances := declarationType_advances context root inner
      have hinside := advances_mapM hadvances q.ids _ hinner
      -- the bound falls with every declaration that is marked, so the induction is on the bound
      obtain ⟨hclosed', hanswers⟩ :=
        (ih inner (by omega)).mapM hadvances q.ids _ hinner hstarted hasked
      rw [hrun]
      generalize (q.ids.mapM (declarationType context root inner)).run (table.set id .running) =
        answers at hinside hclosed' hanswers
      have hmarked : answers.2[id]? = some Progress.running :=
        hinside.running.mp (List.getElem?_set_self hlt)
      have hnone' : ProgressTable.answer? answers.2 id = none := by
        unfold ProgressTable.answer?
        rw [hmarked]
      have hsource : typeOfSource context root answers.2.answer? d.source =
          some (q.conclude answers.1) := by
        rw [hq, Question.put, hanswers]
        rfl
      constructor
      · refine hclosed'.set hnone' fun {type d'} htype hd' => ?_
        rw [← Progress.done.inj htype, ← Option.some.inj (hd.symm.trans hd')]
        exact hsource
      · unfold ProgressTable.answer?
        rw [List.getElem?_set_self (by rw [hinside.length, List.length_set]; exact hlt)]

/-! ### All declarations -/

theorem getElem?_of_mapM {f : DeclId → Option String} {ids : List DeclId} :
    ∀ {types : List String}, ids.mapM f = some types → ∀ k : Nat, (ids[k]?).bind f = types[k]? := by
  induction ids with
  | nil =>
    intro types htypes k
    obtain rfl : [] = types := Option.some.inj htypes
    rfl
  | cons id ids ih =>
    intro types htypes k
    rw [List.mapM_cons] at htypes
    obtain ⟨type, hid, htypes⟩ := Option.bind_eq_some_iff.mp htypes
    obtain ⟨rest, hrest, hcons⟩ := Option.bind_eq_some_iff.mp htypes
    rw [← Option.some.inj hcons]
    cases k with
    | zero => exact hid
    | succ k => exact ih hrest k

/-- Where every answer is known, so is the type that a source gives. -/
theorem typeOfSource_some (answers : DeclId → String) (s : TypeSource) :
    typeOfSource context root (fun id => some (answers id)) s =
      some (Id.run (typeOfSource context root (fun id => pure (answers id)) s)) := by
  obtain ⟨q, _, hq⟩ := typeOfSource_spec context root s
  have hsome : (q.ids.mapM fun id => some (answers id)) = some (q.ids.map answers) :=
    List.mapM_pure
  rw [hq, hq, Question.put, Question.put, hsome, List.mapM_pure]
  rfl

/-- The table in which every declaration is waiting. -/
def Bindings.untyped (b : Bindings) : ProgressTable :=
  List.replicate b.declarations.length .waiting

theorem Bindings.untyped_waiting {b : Bindings} {id : DeclId} {progress : Progress}
    (h : b.untyped[id]? = some progress) : progress = .waiting :=
  (List.mem_replicate.mp (List.mem_of_getElem? h)).2

theorem TypingContext.untyped_fits (context : TypingContext) :
    Fits context context.bindings.declarations.length context.bindings.untyped :=
  ⟨List.length_replicate, Nat.le_of_eq List.count_replicate_self⟩

/-- The types of all declarations, one after another, and the table that is left. -/
def typesRun (context : TypingContext) (root : Node) : List String × ProgressTable :=
  ((List.range context.bindings.declarations.length).mapM
    (declarationType context root context.bindings.declarations.length)).run
      (List.replicate context.bindings.declarations.length .waiting)

theorem length_typesRun : (typesRun context root).1.length =
    context.bindings.declarations.length := by
  rw [typesRun, length_run_mapM, List.length_range]

/-- Without cycles, whatever is asked for from the start, the table that is left is closed and holds
the answers. -/
theorem run_untyped_closed (hacyclic : Acyclic context root) (ids : List DeclId) :
    let run := (ids.mapM (declarationType context root context.bindings.declarations.length)).run
      context.bindings.untyped
    Closed context root run.2 ∧ run.2.length = context.bindings.declarations.length ∧
      ids.mapM run.2.answer? = some run.1 := by
  have hfits := context.untyped_fits
  have hadvances := declarationType_advances context root context.bindings.declarations.length
  obtain ⟨hclosed, hanswers⟩ := (declarationType_keepsClosed hacyclic _).mapM hadvances ids _ hfits
    (fun h => absurd (Bindings.untyped_waiting h) Progress.noConfusion)
    (fun _ _ _ h => absurd (Bindings.untyped_waiting h) Progress.noConfusion)
  exact ⟨hclosed, (hfits.advance (advances_mapM hadvances ids _ hfits)).length, hanswers⟩

theorem typesRun_spec (hacyclic : Acyclic context root) :
    Closed context root (typesRun context root).2 ∧
      (typesRun context root).2.length = context.bindings.declarations.length ∧
      ∀ id, (typesRun context root).2.answer? id =
        some (((typesRun context root).1[id]?).getD unknownType) := by
  obtain ⟨hclosed, hlength, htypes⟩ :=
    run_untyped_closed hacyclic (List.range context.bindings.declarations.length)
  refine ⟨hclosed, hlength, fun id => ?_⟩
  change (typesRun context root).2.length = _ at hlength
  by_cases hid : id < context.bindings.declarations.length
  · have hanswer := getElem?_of_mapM htypes id
    rw [List.getElem?_range hid, Option.bind_some] at hanswer
    have hlt : id < (typesRun context root).1.length := by rwa [length_typesRun]
    refine hanswer.trans ?_
    change (typesRun context root).1[id]? = _
    rw [List.getElem?_eq_getElem hlt, Option.getD_some]
  · have hnone : (typesRun context root).1[id]? = none :=
      List.getElem?_eq_none (length_typesRun ▸ Nat.le_of_not_lt hid)
    have hnone' : (typesRun context root).2[id]? = none :=
      List.getElem?_eq_none (hlength ▸ Nat.le_of_not_lt hid)
    unfold ProgressTable.answer?
    rw [hnone, hnone', Option.getD_none]

/-- The types of a document without cycles are those that the sources of its declarations give over
these types themselves. -/
theorem typesRun_source (hacyclic : Acyclic context root) {id : DeclId} {d : Declaration}
    (hd : context.bindings.declaration? id = some d) :
    (typesRun context root).1[id]? = some (Id.run (typeOfSource context root
      (fun j => pure (((typesRun context root).1[j]?).getD unknownType)) d.source)) := by
  obtain ⟨hclosed, hlength, hanswer⟩ := typesRun_spec hacyclic
  have hid : id < context.bindings.declarations.length := (List.getElem?_eq_some_iff.mp hd).1
  have htype : (typesRun context root).1[id]? = some (((typesRun context root).1[id]?).getD
      unknownType) := by
    rw [List.getElem?_eq_getElem (by rwa [length_typesRun]), Option.getD_some]
  have hsource := hclosed (done_of_answer? (hlength ▸ hid) (hanswer id)) hd
  rw [funext hanswer, typeOfSource_some] at hsource
  rw [htype, ← hsource]

end

end UtsInsight
