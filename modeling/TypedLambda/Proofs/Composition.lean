import TypedLambda.Ty.Substitution

/-!
The composition law of substitutions.

A substitution replaces one variable after the other, the one bound last
first, and an entry may put in a variable that an earlier entry replaces
again. Applying a composition is nevertheless applying its two parts one
after the other, as long as the second part speaks of no variable that the
first one binds: it then goes through every single replacement of the first
part (`apply_replace`). Neither part has to be in solved form for this.
-/

namespace TypedLambda

namespace Ty

/-- A later replacement goes through an earlier one that it does not
mention. -/
theorem replace_replace {x y : Name} {r s : Ty} (hxy : x ≠ y) (hx : x ∉ s.vars) (t : Ty) :
    (t.replace x r).replace y s = (t.replace y s).replace x (r.replace y s) := by
  induction t with
  | bool | int | unit | string => rfl
  | arrow a b iha ihb => simp only [replace, iha, ihb]
  | list a ih => simp only [replace, ih]
  | var z =>
      by_cases hzx : z = x
      · subst hzx
        simp [replace, hxy]
      · by_cases hzy : z = y
        · subst hzy
          simp [replace, hzx, replace_of_not_mem hx]
        · simp [replace, hzx, hzy]

end Ty

namespace Substitution

variable {σ τ : Substitution} {k : Name}

theorem apply_replace (hk : k ∉ τ.keys) (hr : k ∉ τ.rangeVars) (t r : Ty) :
    τ.apply (t.replace k r) = (τ.apply t).replace k (τ.apply r) := by
  suffices key : ∀ es : List (Name × Ty), (∀ e ∈ es, e ∈ τ.entries) →
      es.foldr (fun e acc => acc.replace e.1 e.2) (t.replace k r) =
        (es.foldr (fun e acc => acc.replace e.1 e.2) t).replace k
          (es.foldr (fun e acc => acc.replace e.1 e.2) r) from key τ.entries fun _ he => he
  intro es
  induction es with
  | nil => intro _; rfl
  | cons e rest ih =>
      intro hsub
      have hmem : e ∈ τ.entries := hsub e List.mem_cons_self
      have hne : k ≠ e.1 := fun heq => hk (List.mem_map.2 ⟨e, hmem, heq.symm⟩)
      have hvars : k ∉ e.2.vars := fun h => hr (mem_rangeVars.2 ⟨e, hmem, h⟩)
      rw [List.foldr_cons, ih fun d hd => hsub d (List.mem_cons_of_mem _ hd),
        Ty.replace_replace hne hvars]
      rfl

theorem entries_compose (hd : ∀ k ∈ σ.keys, k ∉ τ.keys) :
    (σ.compose τ).entries = (σ.map τ.apply).entries ++ τ.entries := by
  refine OrderedMap.entries_insertAll ?_
  rw [List.map_append, List.nodup_append]
  refine ⟨(σ.map τ.apply).nodup, τ.nodup, ?_⟩
  rintro j hj _ hjτ rfl
  exact hd j (OrderedMap.keys_map τ.apply σ ▸ hj) hjτ

theorem apply_compose (h : ∀ k ∈ σ.keys, k ∉ τ.keys ∧ k ∉ τ.rangeVars) (t : Ty) :
    (σ.compose τ).apply t = τ.apply (σ.apply t) := by
  have entries := entries_compose fun k hk => (h k hk).1
  rw [apply, entries, List.foldr_append, OrderedMap.entries_map, List.foldr_map]
  refine List.foldr_rel (r := fun u u' => u = τ.apply u') rfl ?_
  rintro e he _ u rfl
  obtain ⟨hk, hr⟩ := h e.1 (List.mem_map.2 ⟨e, he, rfl⟩)
  exact (apply_replace hk hr u e.2).symm

theorem applyContext_compose (h : ∀ k ∈ σ.keys, k ∉ τ.keys ∧ k ∉ τ.rangeVars) (Γ : Context) :
    (σ.compose τ).applyContext Γ = τ.applyContext (σ.applyContext Γ) := by
  refine OrderedMap.ext ?_
  simp only [applyContext, OrderedMap.entries_map, List.map_map]
  exact List.map_congr_left fun e _ => by rw [Function.comp_apply, apply_compose h]

/-- A composition binds a variable to what its second part binds it to, and
else to what the second part makes of its type in the first part. If the
second part speaks of no variable that the first one binds, then the
composition does to types and contexts what its parts do one after the other,
and it is in solved form if both of them are. -/
theorem composition_law (σ τ : Substitution) :
    (∀ n, (σ.compose τ).get? n = (τ.get? n).or ((σ.get? n).map τ.apply)) ∧
      ((∀ k ∈ σ.keys, k ∉ τ.keys ∧ k ∉ τ.rangeVars) →
        (∀ t, (σ.compose τ).apply t = τ.apply (σ.apply t)) ∧
          (∀ Γ, (σ.compose τ).applyContext Γ = τ.applyContext (σ.applyContext Γ)) ∧
          (σ.Solved → τ.Solved → (σ.compose τ).Solved)) := by
  refine ⟨get?_compose σ τ, fun h => ⟨apply_compose h, applyContext_compose h, ?_⟩⟩
  intro hσ hτ
  exact solved_compose hσ hτ fun k hk => (h k hk).2

/-- Both parts are chained in the first pair, and in solved form in the
second. -/
theorem composition_law_chained :
    let σ : Substitution := .ofList [("b", .arrow (.var "c") .int), ("a", .list (.var "b"))]
    let τ : Substitution := .ofList [("d", .bool), ("c", .var "d")]
    let σ' : Substitution := .ofList [("a", .list (.var "c")), ("b", .var "c")]
    let τ' : Substitution := .single "c" (.var "d")
    ((¬ σ.Solved ∧ ¬ τ.Solved) ∧ (∀ k ∈ σ.keys, k ∉ τ.keys ∧ k ∉ τ.rangeVars) ∧
        (∀ t, (σ.compose τ).apply t = τ.apply (σ.apply t)) ∧
        ∀ Γ, (σ.compose τ).applyContext Γ = τ.applyContext (σ.applyContext Γ)) ∧
      (σ'.Solved ∧ τ'.Solved) ∧ (∀ k ∈ σ'.keys, k ∉ τ'.keys ∧ k ∉ τ'.rangeVars) ∧
        (σ'.compose τ').Solved := by
  intro σ τ σ' τ'
  have chained : ¬ σ.Solved ∧ ¬ τ.Solved :=
    ⟨fun h => h "b" (by decide) (by decide), fun h => h "d" (by decide) (by decide)⟩
  have apart : ∀ k ∈ σ.keys, k ∉ τ.keys ∧ k ∉ τ.rangeVars := by decide
  have solved : σ'.Solved ∧ τ'.Solved := by
    constructor <;> unfold Solved <;> decide
  have apart' : ∀ k ∈ σ'.keys, k ∉ τ'.keys ∧ k ∉ τ'.rangeVars := by decide
  obtain ⟨types, contexts, -⟩ := (composition_law σ τ).2 apart
  obtain ⟨-, -, keeps⟩ := (composition_law σ' τ').2 apart'
  exact ⟨⟨chained, apart, types, contexts⟩, solved, apart', keeps solved.1 solved.2⟩

/-- The second part puts the variable in again that the first one replaces. -/
example :
    let σ : Substitution := .single "a" .int
    let τ : Substitution := .single "b" (.var "a")
    (σ.compose τ).apply (.var "b") = .int ∧ τ.apply (σ.apply (.var "b")) = .var "a" := by
  decide

end Substitution

end TypedLambda
