import UtsInsight.Proofs.Scope.Building
import UtsInsight.Proofs.Typing.Progress

/-!
# Bindings with their types

Filling in the types changes nothing but types. Scopes stay, names are looked up as before, and a
declaration only gets the type that was computed for it and types for its members.
-/
namespace UtsInsight.Bindings

variable {b : Bindings} {root : Node} {source : List Char} {id : DeclId}

theorem resolveTypes_eq (b : Bindings) (root : Node) (source : List Char) :
    ∃ members, members.length = b.declarations.length ∧
      b.resolveTypes root source =
        { b with
          declarations :=
            List.zipWith (fun d t => Declaration.withTypes d t.1 t.2) b.declarations
              (List.zip (typesRun ⟨source, b⟩ root).1 members) } :=
  ⟨_, length_run_mapM _ _ _, rfl⟩

@[simp] theorem resolveTypes_scopes : (b.resolveTypes root source).scopes = b.scopes := by
  obtain ⟨members, _, heq⟩ := b.resolveTypes_eq root source
  rw [heq]

/-- A declaration with its types is the one before with the type that was computed for it. -/
theorem declaration?_of_resolveTypes {finished : Declaration}
    (h : (b.resolveTypes root source).declaration? id = some finished) :
    ∃ d type members, b.declaration? id = some d ∧
      (typesRun ⟨source, b⟩ root).1[id]? = some type ∧ finished = d.withTypes type members := by
  obtain ⟨members, _, heq⟩ := b.resolveTypes_eq root source
  rw [heq] at h
  obtain ⟨d, t, hd, ht, hfinished⟩ := List.getElem?_zipWith_eq_some.mp h
  exact ⟨d, t.1, t.2, hd, (List.getElem?_zip_eq_some.mp ht).1, hfinished.symm⟩

/-- Every declaration gets the type that was computed for it. -/
theorem resolveTypes_declaration? (root : Node) (source : List Char) {d : Declaration}
    (h : b.declaration? id = some d) :
    ∃ type members, (typesRun ⟨source, b⟩ root).1[id]? = some type ∧
      (b.resolveTypes root source).declaration? id = some (d.withTypes type members) := by
  obtain ⟨members, hlength, heq⟩ := b.resolveTypes_eq root source
  have hid : id < b.declarations.length := (List.getElem?_eq_some_iff.mp h).1
  have htypes : (typesRun ⟨source, b⟩ root).1.length = b.declarations.length := length_typesRun
  obtain ⟨type, htype⟩ : ∃ type, (typesRun ⟨source, b⟩ root).1[id]? = some type :=
    ⟨_, List.getElem?_eq_getElem (htypes.symm ▸ hid)⟩
  obtain ⟨types, hmembers⟩ : ∃ types, members[id]? = some types :=
    ⟨_, List.getElem?_eq_getElem (hlength.symm ▸ hid)⟩
  refine ⟨type, types, htype, ?_⟩
  rw [heq]
  exact List.getElem?_zipWith_eq_some.mpr
    ⟨d, (type, types), h, List.getElem?_zip_eq_some.mpr ⟨htype, hmembers⟩, rfl⟩

/-- What does not look at types is as before. -/
theorem resolveTypes_map {α : Type} (f : Declaration → α)
    (hf : ∀ d type members, f (Declaration.withTypes d type members) = f d) (id : DeclId) :
    ((b.resolveTypes root source).declaration? id).map f = (b.declaration? id).map f := by
  cases hd : b.declaration? id with
  | some d =>
    obtain ⟨type, members, _, hfinished⟩ := resolveTypes_declaration? root source hd
    rw [hfinished, Option.map_some, Option.map_some, hf]
  | none =>
    cases hfinished : (b.resolveTypes root source).declaration? id with
    | some finished =>
      obtain ⟨d, _, _, hd', _⟩ := declaration?_of_resolveTypes hfinished
      rw [hd] at hd'
      cases hd'
    | none => rfl

/-- The types that are filled in are the computed ones. -/
theorem resolveTypes_type (id : DeclId) :
    ((b.resolveTypes root source).declaration? id).map (·.type) =
      (typesRun ⟨source, b⟩ root).1[id]? := by
  cases hd : b.declaration? id with
  | some d =>
    obtain ⟨type, members, htype, hfinished⟩ := resolveTypes_declaration? root source hd
    rw [hfinished, htype]
    rfl
  | none =>
    have hlength : b.declarations.length ≤ id := List.getElem?_eq_none_iff.mp hd
    have hnone : (typesRun ⟨source, b⟩ root).1[id]? = none :=
      List.getElem?_eq_none (length_typesRun ▸ hlength)
    cases hfinished : (b.resolveTypes root source).declaration? id with
    | some finished =>
      obtain ⟨d, _, _, hd', _⟩ := declaration?_of_resolveTypes hfinished
      rw [hd] at hd'
      cases hd'
    | none => rw [hnone]; rfl

/-! ### Look-up -/

theorem scopeChain_congr {b₁ b₂ : Bindings} (h : b₁.scopes = b₂.scopes) (offset : Nat) :
    b₁.scopeChain offset = b₂.scopeChain offset := by
  have hat : b₁.scopeAt offset = b₂.scopeAt offset := by
    unfold scopeAt
    rw [h]
  have hscope : ∀ id, b₁.scope? id = b₂.scope? id := by
    unfold scope?
    rw [h]
    exact fun _ => rfl
  have houtwards : b₁.outwards (b₂.scopeAt offset) = b₂.outwards (b₂.scopeAt offset) :=
    outwards_congr fun s _ => by rw [hscope]
  unfold scopeChain
  rw [h, hat, houtwards]

/-- Of declarations, only their kinds count when a name is looked up. -/
theorem resolve_congr {b₁ b₂ : Bindings} (hscopes : b₁.scopes = b₂.scopes)
    (hkind : ∀ id, (b₁.declaration? id).map (·.kind) = (b₂.declaration? id).map (·.kind))
    (name : String) (offset : Nat) (space : Space) :
    b₁.resolve name offset space = b₂.resolve name offset space := by
  have hadmits : ∀ id, (b₁.declaration? id).any (fun d => space.admits d.kind) =
      (b₂.declaration? id).any fun d => space.admits d.kind := by
    intro id
    have hany := congrArg (Option.any space.admits) (hkind id)
    rwa [Option.any_map, Option.any_map] at hany
  have hin : b₁.resolveIn name space = b₂.resolveIn name space := by
    funext id
    unfold resolveIn scope?
    simp only [hscopes, hadmits]
  unfold resolve
  rw [scopeChain_congr hscopes, hin]

/-- Names are looked up as before. -/
theorem resolveTypes_resolve (name : String) (offset : Nat) (space : Space) :
    (b.resolveTypes root source).resolve name offset space = b.resolve name offset space :=
  resolve_congr resolveTypes_scopes (resolveTypes_map _ fun _ _ _ => rfl) name offset space

end UtsInsight.Bindings
