import UtsInsight.Proofs.Typing.Agreement

/-!
# Every document gets its types

Nothing bounds how deep the types of declarations are computed inside each other except that a
declaration is never computed inside its own computation. `Resolves` is that computation without a
bound: a derivation is a run that ends. One exists whatever depends on what, because inside each
computation one declaration less is waiting, and it is what the bounded computation does.

A derivation also notes which types it wrote into the table. From the notes it is read off that no
type is written twice, and that in the end nothing is still being computed.
-/
namespace UtsInsight

section

variable (context : TypingContext) (root : Node)

/-- From the table, the types of the declarations are asked for one after another. These are the
answers, the table that is left, and the declarations whose types were written into it, in order. -/
inductive Resolves : ProgressTable → List DeclId → List String → ProgressTable → List DeclId → Prop
  | nil (table : ProgressTable) : Resolves table [] [] table []
  | known {table later : ProgressTable} {id : DeclId} {ids written : List DeclId} {type : String}
      {types : List String} :
      table[id]? = some (.done type) →
      Resolves table ids types later written →
      Resolves table (id :: ids) (type :: types) later written
  | cycle {table later : ProgressTable} {id : DeclId} {ids written : List DeclId}
      {types : List String} :
      table[id]? = some .running →
      Resolves table ids types later written →
      Resolves table (id :: ids) (unknownType :: types) later written
  | computed {table inner later : ProgressTable} {id : DeclId} {ids inside written : List DeclId}
      {d : Declaration} {q : Question String} {answers types : List String} :
      table[id]? = some .waiting →
      context.bindings.declaration? id = some d →
      (∀ (m : Type → Type) [Monad m] [LawfulMonad m] (lookup : DeclId → m String),
        typeOfSource context root lookup d.source = q.put lookup) →
      Resolves (table.set id .running) q.ids answers inner inside →
      Resolves (inner.set id (.done (q.conclude answers))) ids types later written →
      Resolves table (id :: ids) (q.conclude answers :: types) later (inside ++ id :: written)

end

variable {context : TypingContext} {root : Node}

theorem getElem?_set_some {table : ProgressTable} {id : DeclId} {progress : Progress}
    (h : table[id]? = some progress) (next : Progress) : (table.set id next)[id]? = some next :=
  List.getElem?_set_self (List.getElem?_eq_some_iff.mp h).1

/-- What is being computed stays marked during the computations inside its own. -/
theorem Advances.marked {table inner : ProgressTable} {id : DeclId}
    (h : Advances (table.set id .running) inner) (hid : table[id]? = some .waiting) :
    inner[id]? = some .running :=
  h.running.mp (getElem?_set_some hid .running)

theorem Advances.waiting_before {table later : ProgressTable} (h : Advances table later)
    {id : DeclId} (hid : later[id]? = some .waiting) : table[id]? = some .waiting := by
  have hlt : id < table.length := by
    rw [← h.length]
    exact (List.getElem?_eq_some_iff.mp hid).1
  obtain ⟨progress, hprogress⟩ : ∃ progress, table[id]? = some progress :=
    ⟨_, List.getElem?_eq_getElem hlt⟩
  cases progress with
  | waiting => exact hprogress
  | running =>
    rw [h.running.mp hprogress] at hid
    cases hid
  | done type =>
    rw [h.done hprogress] at hid
    cases hid

theorem Advances.done_after {table later : ProgressTable} (h : Advances table later)
    {id : DeclId} (hid : table[id]? = some .waiting) (hlater : later[id]? ≠ some .waiting) :
    ∃ type, later[id]? = some (.done type) := by
  have hlt : id < later.length := by
    rw [h.length]
    exact (List.getElem?_eq_some_iff.mp hid).1
  obtain ⟨progress, hprogress⟩ : ∃ progress, later[id]? = some progress :=
    ⟨_, List.getElem?_eq_getElem hlt⟩
  cases progress with
  | waiting => exact absurd hprogress hlater
  | running =>
    rw [h.running.mpr hprogress] at hid
    cases hid
  | done type => exact ⟨type, hprogress⟩

/-! ### Runs that end -/

namespace Resolves

variable {table later : ProgressTable} {ids written : List DeclId} {types : List String}

theorem advances (h : Resolves context root table ids types later written) :
    Advances table later := by
  induction h with
  | nil table => exact .refl table
  | known _ _ ih => exact ih
  | cycle _ _ ih => exact ih
  | computed hid _ _ _ _ ihinside ih => exact (ihinside.finish hid _).trans ih

/-- What a run writes is what was waiting and no longer is. -/
theorem mem_written (h : Resolves context root table ids types later written) (j : DeclId) :
    j ∈ written ↔ table[j]? = some .waiting ∧ later[j]? ≠ some .waiting := by
  induction h with
  | nil => exact ⟨fun h => absurd h List.not_mem_nil, fun h => absurd h.1 h.2⟩
  | known _ _ ih => exact ih
  | cycle _ _ ih => exact ih
  | @computed table inner later id ids inside written d q answers types hid _ _ hinside hrest
      ihinside ih =>
    have hwrite := hinside.advances.finish hid (q.conclude answers)
    have hfinished := getElem?_set_some (hinside.advances.marked hid) (.done (q.conclude answers))
    rw [List.mem_append, List.mem_cons, ihinside, ih]
    -- the entry of `id` is written between the two runs, and every other one by one of them or none
    by_cases hj : j = id
    · subst hj
      rw [hid, hrest.advances.done hfinished]
      simp only [true_or, or_true, ne_eq, Option.some.injEq, reduceCtorEq, not_false_eq_true,
        and_self]
    · have hne : id ≠ j := Ne.symm hj
      have hbefore : inner[j]? = some .waiting → table[j]? = some .waiting := fun hinner =>
        hwrite.waiting_before (by rwa [List.getElem?_set_ne hne])
      have hafter : later[j]? = some .waiting → inner[j]? = some .waiting := fun hlater => by
        have hbetween := hrest.advances.waiting_before hlater
        rwa [List.getElem?_set_ne hne] at hbetween
      rw [List.getElem?_set_ne hne, List.getElem?_set_ne hne]
      tauto

theorem nodup_written (h : Resolves context root table ids types later written) :
    written.Nodup := by
  induction h with
  | nil => exact List.nodup_nil
  | known _ _ ih => exact ih
  | cycle _ _ ih => exact ih
  | @computed table inner later id ids inside written d q answers types hid _ _ hinside hrest
      ihinside ih =>
    have hfinished := getElem?_set_some (hinside.advances.marked hid) (.done (q.conclude answers))
    have hinner : id ∉ inside := fun hmem => by
      have hwaiting := ((hinside.mem_written id).mp hmem).1
      rw [getElem?_set_some hid] at hwaiting
      cases hwaiting
    refine List.nodup_append.mpr ⟨ihinside, List.nodup_cons.mpr ⟨fun hmem => ?_, ih⟩, ?_⟩
    · have hwaiting := ((hrest.mem_written id).mp hmem).1
      rw [hfinished] at hwaiting
      cases hwaiting
    · rintro i hi j hj rfl
      rcases List.mem_cons.mp hj with rfl | hj
      · exact hinner hi
      · have hne : id ≠ i := fun h => hinner (h ▸ hi)
        have hwaiting := ((hrest.mem_written i).mp hj).1
        rw [List.getElem?_set_ne hne] at hwaiting
        exact ((hinside.mem_written i).mp hi).2 hwaiting

/-- A run that ends is the bounded computation, as long as the bound is not less than what is
waiting. -/
theorem result {bound : Nat} (h : Resolves context root table ids types later written)
    (hfits : Fits context bound table) :
    (ids.mapM (declarationType context root bound)).run table = (types, later) := by
  induction h generalizing bound with
  | nil table => exact run_mapM_nil _ table
  | @known table later id ids written type types hid _ ih =>
    have hfirst : (declarationType context root bound id).run table = (type, table) := by
      rw [run_declarationType_settled (by rw [hid]; exact nofun), ProgressTable.answer?, hid]
      rfl
    rw [run_mapM_cons, hfirst, ih hfits]
  | @cycle table later id ids written types hid _ ih =>
    have hfirst : (declarationType context root bound id).run table = (unknownType, table) := by
      rw [run_declarationType_settled (by rw [hid]; exact nofun), ProgressTable.answer?, hid]
      rfl
    rw [run_mapM_cons, hfirst, ih hfits]
  | @computed table inner later id ids inside written d q answers types hid hd hq hinside _
      ihinside ih =>
    obtain ⟨less, rfl, hless⟩ := hfits.start hid
    have hfirst : (declarationType context root (less + 1) id).run table =
        (q.conclude answers, inner.set id (.done (q.conclude answers))) := by
      rw [run_declarationType_waiting hid hd, hq, Question.run_put, ihinside hless]
    rw [run_mapM_cons, hfirst, ih (hfits.advance (hinside.advances.finish hid _))]

end Resolves

/-- Whatever depends on what, every run ends. The induction is on how many declarations are waiting:
inside a computation it is one less, and after it not more. -/
theorem exists_resolves (root : Node) (bound : Nat) : ∀ (ids : List DeclId) (table : ProgressTable),
    Fits context bound table → (∀ id ∈ ids, id < table.length) →
      ∃ types later written, Resolves context root table ids types later written := by
  induction bound using Nat.strongRecOn with
  | ind bound ihbound =>
    intro ids
    induction ids with
    | nil => exact fun table _ _ => ⟨[], table, [], .nil table⟩
    | cons id ids ih =>
      intro table hfits hids
      have hrest : ∀ i ∈ ids, i < table.length := fun i hi => hids i (List.mem_cons_of_mem id hi)
      obtain ⟨progress, hid⟩ : ∃ progress, table[id]? = some progress :=
        ⟨_, List.getElem?_eq_getElem (hids id List.mem_cons_self)⟩
      cases progress with
      | done type =>
        obtain ⟨types, later, written, h⟩ := ih table hfits hrest
        exact ⟨_, _, _, .known hid h⟩
      | running =>
        obtain ⟨types, later, written, h⟩ := ih table hfits hrest
        exact ⟨_, _, _, .cycle hid h⟩
      | waiting =>
        obtain ⟨d, hd⟩ := hfits.declaration? hid
        obtain ⟨q, hasked, hq⟩ := typeOfSource_question context root d.source
        obtain ⟨less, rfl, hless⟩ := hfits.start hid
        obtain ⟨answers, inner, inside, hinside⟩ :=
          ihbound less (Nat.lt_succ_self less) q.ids _ hless fun i hi => by
            rw [hless.length]
            exact hasked i hi
        have hwrite := hinside.advances.finish hid (q.conclude answers)
        obtain ⟨types, later, written, h⟩ := ih _ (hfits.advance hwrite) fun i hi => by
          rw [hwrite.length]
          exact hrest i hi
        exact ⟨_, _, _, .computed hid hd hq hinside h⟩

/-! ### The table that is left -/

/-- Unless something was being computed before, the answers are the types in the table that is left.
-/
theorem Resolves.answers {table later : ProgressTable} {ids written : List DeclId}
    {types : List String} (h : Resolves context root table ids types later written)
    (hrunning : ∀ id : DeclId, table[id]? ≠ some .running) :
    ids.map (fun id => later[id]?) = types.map fun type => some (.done type) := by
  induction h with
  | nil => rfl
  | known hid hrest ih => rw [List.map_cons, List.map_cons, ih hrunning, hrest.advances.done hid]
  | cycle hid => exact absurd hid (hrunning _)
  | @computed table inner later id ids inside written d q answers types hid _ _ hinside hrest _
      ih =>
    have hwrite := hinside.advances.finish hid (q.conclude answers)
    have hdone := getElem?_set_some (hinside.advances.marked hid) (.done (q.conclude answers))
    rw [List.map_cons, List.map_cons, hrest.advances.done hdone,
      ih fun i hi => hrunning i (hwrite.running.mpr hi)]

section

variable {σ α β : Type} {s : σ}

theorem run_mapM_unchanged {f : α → StateM σ β} {g : α → β} {xs : List α}
    (h : ∀ x ∈ xs, (f x).run s = (g x, s)) : (xs.mapM f).run s = (xs.map g, s) := by
  induction xs with
  | nil => exact run_mapM_nil f s
  | cons x xs ih =>
    rw [run_mapM_cons, h x List.mem_cons_self, ih fun y hy => h y (List.mem_cons_of_mem x hy),
      List.map_cons]

theorem run_typeOfSource_unchanged {lookup : DeclId → StateM σ String} {answers : DeclId → String}
    (h : ∀ id, (lookup id).run s = (answers id, s)) (t : TypeSource) :
    (typeOfSource context root lookup t).run s =
      (Id.run (typeOfSource context root (fun id => pure (answers id)) t), s) := by
  obtain ⟨q, _, hq⟩ := typeOfSource_question context root t
  rw [hq, hq, Question.run_put, run_mapM_unchanged fun id _ => h id, Question.put,
    List.mapM_pure]
  rfl

variable (context root)

/-- The type that the source of a member gives, when the types of declarations are known. -/
def memberType (answers : DeclId → String) (m : Member) : String :=
  Id.run (typeOfSource context root (fun id => pure (answers id)) m.source)

theorem run_members_unchanged {lookup : DeclId → StateM σ String} {answers : DeclId → String}
    (h : ∀ id, (lookup id).run s = (answers id, s)) (declarations : List Declaration) :
    (declarations.mapM fun (d : Declaration) => d.members.mapM fun m =>
      typeOfSource context root lookup m.source).run s =
        (declarations.map fun d => d.members.map (memberType context root answers), s) :=
  run_mapM_unchanged fun _ _ => run_mapM_unchanged fun m _ => run_typeOfSource_unchanged h m.source

end

/-! ### All types of a document -/

namespace Bindings

variable {b : Bindings} {source : List Char}

/-- From the start, whatever is asked for, the run ends. Nothing is left behind that is being
computed, and each type that is known was written once. -/
theorem resolves_untyped (b : Bindings) (root : Node) (source : List Char) (ids : List DeclId)
    (hids : ∀ id ∈ ids, id < b.declarations.length) :
    let run := (ids.mapM (declarationType ⟨source, b⟩ root b.declarations.length)).run b.untyped
    ∃ written, Resolves ⟨source, b⟩ root b.untyped ids run.1 run.2 written ∧
      (∀ id : DeclId, run.2[id]? ≠ some .running) ∧ written.Nodup ∧
      ∀ id, id ∈ written ↔ ∃ type, run.2[id]? = some (.done type) := by
  intro run
  have hfits := TypingContext.untyped_fits ⟨source, b⟩
  obtain ⟨types, later, written, h⟩ := exists_resolves root _ ids b.untyped hfits
    fun id hid => by
      rw [hfits.length]
      exact hids id hid
  have hrun : run = (types, later) := h.result hfits
  rw [hrun]
  have hrunning : ∀ id : DeclId, later[id]? ≠ some .running := fun id hid =>
    absurd (untyped_waiting (h.advances.running.mpr hid)) Progress.noConfusion
  refine ⟨written, h, hrunning, h.nodup_written, fun id => ?_⟩
  rw [h.mem_written]
  constructor
  · exact fun hmem => h.advances.done_after hmem.1 hmem.2
  · rintro ⟨type, hdone⟩
    have hlt : id < b.untyped.length := by
      rw [← h.advances.length]
      exact (List.getElem?_eq_some_iff.mp hdone).1
    obtain ⟨progress, hid⟩ : ∃ progress, b.untyped[id]? = some progress :=
      ⟨_, List.getElem?_eq_getElem hlt⟩
    obtain rfl := untyped_waiting hid
    change later[id]? = _ at hdone
    refine ⟨hid, ?_⟩
    rw [hdone]
    exact nofun

end Bindings

theorem typesRun_resolves (context : TypingContext) (root : Node) :
    ∃ written, Resolves context root context.bindings.untyped
      (List.range context.bindings.declarations.length) (typesRun context root).1
      (typesRun context root).2 written := by
  obtain ⟨written, h, _⟩ := context.bindings.resolves_untyped root context.source
    (List.range context.bindings.declarations.length) fun id hid => List.mem_range.mp hid
  exact ⟨written, h⟩

/-- When all declarations have been asked for, the table holds their types. -/
theorem typesRun_done (context : TypingContext) (root : Node) :
    (typesRun context root).2 = (typesRun context root).1.map .done := by
  obtain ⟨written, h⟩ := typesRun_resolves context root
  have hanswers := h.answers fun id hid =>
    absurd (Bindings.untyped_waiting hid) Progress.noConfusion
  have hlength : (typesRun context root).2.length = context.bindings.declarations.length := by
    rw [h.advances.length]
    exact List.length_replicate
  refine List.ext_getElem? fun id => ?_
  rw [List.getElem?_map]
  by_cases hid : id < context.bindings.declarations.length
  · have hentry := congrArg (fun entries : List (Option Progress) => entries[id]?) hanswers
    simp only [List.getElem?_map, List.getElem?_range hid, Option.map_some] at hentry
    obtain ⟨type, htype, hdone⟩ := Option.map_eq_some_iff.mp hentry.symm
    rw [htype, ← hdone, Option.map_some]
  · have hcount : context.bindings.declarations.length ≤ id := Nat.le_of_not_lt hid
    rw [List.getElem?_eq_none (hlength ▸ hcount), List.getElem?_eq_none (length_typesRun ▸ hcount),
      Option.map_none]

namespace Bindings

variable {b : Bindings} {root : Node} {source : List Char}

/-- What a table without anything waiting answers is in it. -/
theorem run_declarationType_typesRun (b : Bindings) (root : Node) (source : List Char)
    (id : DeclId) :
    (declarationType ⟨source, b⟩ root b.declarations.length id).run (typesRun ⟨source, b⟩ root).2 =
      ((b.resolveTypes root source).typeOf id, (typesRun ⟨source, b⟩ root).2) := by
  have hentry : (typesRun ⟨source, b⟩ root).2[id]? =
      ((typesRun ⟨source, b⟩ root).1[id]?).map .done := by
    rw [typesRun_done, List.getElem?_map]
  have hsettled : (typesRun ⟨source, b⟩ root).2[id]? ≠ some .waiting := by
    rw [hentry]
    cases (typesRun ⟨source, b⟩ root).1[id]? <;> exact nofun
  rw [run_declarationType_settled hsettled, resolveTypes_typeOf, ProgressTable.answer?, hentry]
  cases (typesRun ⟨source, b⟩ root).1[id]? <;> rfl

/-- The bindings with these types of declarations and members. -/
def withTypes (b : Bindings) (types : List String) (members : List (List String)) : Bindings :=
  { b with
    declarations :=
      List.zipWith (fun d t => Declaration.withTypes d t.1 t.2) b.declarations
        (List.zip types members) }

theorem resolveTypes_eq_withTypes (b : Bindings) (root : Node) (source : List Char) :
    b.resolveTypes root source =
      let types := ((declarationTypes ⟨source, b⟩ root).run b.untyped).1
      b.withTypes types.1 types.2 :=
  rfl

/-- When the types of members are computed, those of the declarations are all known. -/
theorem run_declarationTypes (b : Bindings) (root : Node) (source : List Char) :
    (declarationTypes ⟨source, b⟩ root).run b.untyped =
      (((typesRun ⟨source, b⟩ root).1,
        b.declarations.map fun d =>
          d.members.map (memberType ⟨source, b⟩ root (b.resolveTypes root source).typeOf)),
        (typesRun ⟨source, b⟩ root).2) :=
  congrArg (fun run : List (List String) × ProgressTable =>
      (((typesRun ⟨source, b⟩ root).1, run.1), run.2))
    (run_members_unchanged ⟨source, b⟩ root (run_declarationType_typesRun b root source)
      b.declarations)

/-- Every declaration has the type that was computed for it, and every member the type that its
source gives. -/
theorem resolveTypes_declaration?_eq {id : DeclId} {d : Declaration}
    (hd : b.declaration? id = some d) :
    ∃ type, (typesRun ⟨source, b⟩ root).1[id]? = some type ∧
      (b.resolveTypes root source).declaration? id = some { d with
        type
        members := d.members.map fun m => m.withType
          (memberType ⟨source, b⟩ root (b.resolveTypes root source).typeOf m) } := by
  have hid : id < (typesRun ⟨source, b⟩ root).1.length := by
    rw [length_typesRun]
    exact (List.getElem?_eq_some_iff.mp hd).1
  have htype := List.getElem?_eq_getElem hid
  refine ⟨_, htype, ?_⟩
  conv_lhs => rw [resolveTypes_eq_withTypes, run_declarationTypes]
  refine List.getElem?_zipWith_eq_some.mpr
    ⟨d, (_, d.members.map (memberType ⟨source, b⟩ root (b.resolveTypes root source).typeOf)), hd,
      List.getElem?_zip_eq_some.mpr ⟨htype, ?_⟩, ?_⟩
  · rw [List.getElem?_map]
    exact congrArg (Option.map _) hd
  · rw [Declaration.withTypes, List.zipWith_map_right, List.zipWith_self]

/-- The types of all declarations and members are computed, whatever depends on what. Every run
ends and is the one without a bound. After it nothing is being computed, and each type that is known
was written once. In the end the types of all declarations are known; every declaration has its
type, and every member the type that its source gives over these. -/
theorem resolveTypes_ends (b : Bindings) (root : Node) (source : List Char) :
    (∀ ids : List DeclId, (∀ id ∈ ids, id < b.declarations.length) →
      let run := (ids.mapM (declarationType ⟨source, b⟩ root b.declarations.length)).run b.untyped
      ∃ written, Resolves ⟨source, b⟩ root b.untyped ids run.1 run.2 written ∧
        (∀ id : DeclId, run.2[id]? ≠ some .running) ∧ written.Nodup ∧
        ∀ id, id ∈ written ↔ ∃ type, run.2[id]? = some (.done type)) ∧
    let whole := (declarationTypes ⟨source, b⟩ root).run b.untyped
    (∃ written, Resolves ⟨source, b⟩ root b.untyped (List.range b.declarations.length) whole.1.1
      whole.2 written) ∧
    whole.2 = whole.1.1.map .done ∧ whole.2.length = b.declarations.length ∧
    ∀ id d, b.declaration? id = some d → ∃ type, whole.1.1[id]? = some type ∧
      (b.resolveTypes root source).declaration? id = some { d with
        type
        members := d.members.map fun m => m.withType
          (memberType ⟨source, b⟩ root (b.resolveTypes root source).typeOf m) } := by
  refine ⟨b.resolves_untyped root source, ?_⟩
  rw [run_declarationTypes]
  refine ⟨typesRun_resolves _ root, typesRun_done _ root, ?_,
    fun _ _ => resolveTypes_declaration?_eq⟩
  rw [typesRun_done, List.length_map, length_typesRun]

end Bindings

/-! ### Two declarations that need each other -/

section

open Node

/-- The tree of `let a=1;let b=[a];`, or with another value of one character for the first one. -/
def pairTree (value : Node) : Node :=
  construct "program" 0 18 none
    [construct "lexical_declaration" 0 8 none
      [token "let" 0 3 (some "kind"),
        construct "variable_declarator" 4 7 none
          [construct "identifier" 4 5 (some "name") [], token "=" 5 6 none, value],
        token ";" 7 8 none],
    construct "lexical_declaration" 8 18 none
      [token "let" 8 11 (some "kind"),
        construct "variable_declarator" 12 17 none
          [construct "identifier" 12 13 (some "name") [], token "=" 13 14 none,
            construct "array" 14 17 (some "value")
              [token "[" 14 15 none, construct "identifier" 15 16 none [], token "]" 16 17 none]],
        token ";" 17 18 none]]

def loopText : List Char :=
  "let a=b;let b=[a];".toList

def loopTree : Node :=
  pairTree (construct "identifier" 6 7 (some "value") [])

def loopBindings : Bindings :=
  Binder.bind loopTree loopText

/-- The array is computed inside its own element's computation, so what it holds is unknown. -/
theorem resolveTypes_ends_loop :
    DependsOn ⟨loopText, loopBindings⟩ loopTree 0 1 ∧
    DependsOn ⟨loopText, loopBindings⟩ loopTree 1 0 ∧
    (∃ written, Resolves ⟨loopText, loopBindings⟩ loopTree loopBindings.untyped [0, 1]
        ["any[]", "any[]"] [.done "any[]", .done "any[]"] written ∧
      written.Nodup ∧ 0 ∈ written ∧ 1 ∈ written) ∧
    ∃ d, (loopBindings.resolveTypes loopTree loopText).declaration? 0 = some d ∧
      d.type = "any[]" := by
  have h := loopBindings.resolveTypes_ends loopTree loopText
  have hanswers : (([0, 1].mapM (declarationType ⟨loopText, loopBindings⟩ loopTree
      loopBindings.declarations.length)).run loopBindings.untyped).1 = ["any[]", "any[]"] := by
    decide +kernel
  have htable : (([0, 1].mapM (declarationType ⟨loopText, loopBindings⟩ loopTree
      loopBindings.declarations.length)).run loopBindings.untyped).2 =
        [.done "any[]", .done "any[]"] := by decide +kernel
  have hwhole : ((declarationTypes ⟨loopText, loopBindings⟩ loopTree).run
      loopBindings.untyped).1.1 = ["any[]", "any[]"] := by decide +kernel
  obtain ⟨written, hresolves, -, hnodup, hwritten⟩ := h.1 [0, 1] (by decide +kernel)
  rw [hanswers, htable] at hresolves
  rw [htable] at hwritten
  obtain ⟨d, hd⟩ : ∃ d, loopBindings.declaration? 0 = some d :=
    Option.isSome_iff_exists.mp (by decide +kernel)
  obtain ⟨type, htype, hdeclaration⟩ := h.2.2.2.2 0 d hd
  rw [hwhole] at htype
  exact ⟨by decide +kernel, by decide +kernel,
    ⟨written, hresolves, hnodup, (hwritten 0).mpr ⟨_, rfl⟩, (hwritten 1).mpr ⟨_, rfl⟩⟩,
    _, hdeclaration, (Option.some.inj htype).symm⟩

end

end UtsInsight
