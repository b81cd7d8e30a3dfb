import Mathlib.Logic.Relation
import UtsInsight.Proofs.Typing.Question

/-!
# Dependencies between declarations

A declaration depends on those whose types are asked for while its own is computed. The list is read
off a run whose look-up only takes notes. What the look-up answers does not matter, so every run
leaves the same notes.
-/
namespace UtsInsight

/-! ### Look-ups with a state -/

section

variable {σ α β : Type}

theorem run_mapM_nil (f : α → StateM σ β) (s : σ) : ([].mapM f).run s = ([], s) := by
  rw [List.mapM_nil]
  rfl

theorem run_mapM_cons (f : α → StateM σ β) (x : α) (xs : List α) (s : σ) :
    ((x :: xs).mapM f).run s =
      (((f x).run s).1 :: ((xs.mapM f).run ((f x).run s).2).1,
        ((xs.mapM f).run ((f x).run s).2).2) := by
  rw [List.mapM_cons]
  rfl

theorem length_run_mapM (f : α → StateM σ β) (xs : List α) (s : σ) :
    ((xs.mapM f).run s).1.length = xs.length := by
  induction xs generalizing s with
  | nil => rw [run_mapM_nil, List.length_nil, List.length_nil]
  | cons x xs ih => rw [run_mapM_cons, List.length_cons, List.length_cons, ih]

theorem Question.run_put (q : Question α) (lookup : DeclId → StateM σ String) (s : σ) :
    (q.put lookup).run s =
      (q.conclude ((q.ids.mapM lookup).run s).1, ((q.ids.mapM lookup).run s).2) :=
  rfl

end

/-! ### What a source asks for -/

/-- A look-up that notes what it is asked and answers from a table. -/
def noting (answers : DeclId → String) (id : DeclId) : StateM (List DeclId) String := do
  modify (· ++ [id])
  return answers id

theorem run_mapM_noting (answers : DeclId → String) (ids notes : List DeclId) :
    (ids.mapM (noting answers)).run notes = (ids.map answers, notes ++ ids) := by
  induction ids generalizing notes with
  | nil => rw [run_mapM_nil, List.map_nil, List.append_nil]
  | cons id ids ih =>
    have hnote : (noting answers id).run notes = (answers id, notes ++ [id]) := rfl
    rw [run_mapM_cons, hnote, ih, List.map_cons, List.append_assoc, List.singleton_append]

variable (context : TypingContext) (root : Node)

/-- The declarations whose types are asked for, in order, when the type of a source is computed. -/
def asked (s : TypeSource) : List DeclId :=
  ((typeOfSource context root (noting fun _ => "") s).run []).2

/-- The type that a source gives is one question to the look-up, for what the source asks. -/
theorem typeOfSource_spec (s : TypeSource) :
    ∃ q : Question String, q.ids = asked context root s ∧
      ∀ (m : Type → Type) [Monad m] [LawfulMonad m] (lookup : DeclId → m String),
        typeOfSource context root lookup s = q.put lookup := by
  obtain ⟨q, _, hq⟩ := typeOfSource_question context root s
  refine ⟨q, ?_, hq⟩
  rw [asked, hq, Question.run_put, run_mapM_noting, List.nil_append]

/-! ### The graph of declarations -/

/-- The declarations that a declaration asks for. -/
def dependencies (id : DeclId) : List DeclId :=
  match context.bindings.declaration? id with
  | some d => asked context root d.source
  | none => []

/-- The type of the second declaration is asked for while the first one's is computed. -/
def DependsOn (i j : DeclId) : Prop :=
  j ∈ dependencies context root i

instance (i j : DeclId) : Decidable (DependsOn context root i j) :=
  inferInstanceAs (Decidable (_ ∈ _))

/-- No declaration depends on itself, directly or through others. -/
def Acyclic : Prop :=
  ∀ id, ¬ Relation.TransGen (DependsOn context root) id id

variable {context root}

theorem DependsOn.of_mem {i j : DeclId} {d : Declaration}
    (hd : context.bindings.declaration? i = some d) (hj : j ∈ asked context root d.source) :
    DependsOn context root i j := by
  unfold DependsOn dependencies
  rw [hd]
  exact hj

theorem DependsOn.lt_length {i j : DeclId} (h : DependsOn context root i j) :
    i < context.bindings.declarations.length := by
  unfold DependsOn dependencies at h
  cases hd : context.bindings.declaration? i with
  | some d => exact (List.getElem?_eq_some_iff.mp hd).1
  | none =>
    rw [hd] at h
    exact absurd h List.not_mem_nil

/-- There is no cycle if every declaration asks only for earlier ones. -/
theorem acyclic_of_lt
    (h : ∀ id < context.bindings.declarations.length, ∀ j ∈ dependencies context root id, j < id) :
    Acyclic context root := by
  have hlt : ∀ {i j}, Relation.TransGen (DependsOn context root) i j → j < i := by
    intro i j hij
    induction hij with
    | single hij => exact h _ (DependsOn.lt_length hij) _ hij
    | tail _ hjk ih => exact Nat.lt_trans (h _ (DependsOn.lt_length hjk) _ hjk) ih
  exact fun id hcycle => Nat.lt_irrefl id (hlt hcycle)

end UtsInsight
