import TypedLambda.Proofs.InferenceState

/-!
The names that inference speaks of.

Whatever is found for a term, in its type or in what was learned, is said with
the names that were in play when the inference began and with names that it
has drawn from the supply (`infer_confined`). This asks nothing of the term.
Type variables may be written in any of its ascriptions, so what is learned
need not be in solved form, and nothing here depends on that.

Two things follow. No name in the result is left in the supply, so a later
part of the term is visited with all of its names taken. And of a name that
was taken but is not in play nothing is ever learned.
-/

namespace TypedLambda

variable {xs : List Name} {s s' : NameSupply} {σ ρ : Substitution} {Γ Δ : Context}
  {l r A : Ty} {t u v : Term} {i j e : Inferred}

/-! ### What is learned in one step -/

theorem Context.mem_tyVars_applyContext_within (hσ : σ.Within xs) (hΓ : ∀ y ∈ Γ.tyVars, y ∈ xs) :
    ∀ y ∈ (σ.applyContext Γ).tyVars, y ∈ xs := by
  intro y h
  obtain ⟨x, B, hx, hy⟩ := mem_tyVars.1 h
  obtain ⟨A, hA, rfl⟩ : ∃ A, Γ.get? x = some A ∧ σ.apply A = B := by simpa using hx
  exact hσ.apply (fun z hz => hΓ z (mem_tyVars.2 ⟨x, A, hA, hz⟩)) y hy

theorem Substitution.Within.equate (hσ : σ.Within xs) (hl : ∀ y ∈ l.vars, y ∈ xs)
    (hr : ∀ y ∈ r.vars, y ∈ xs) (h : σ.equate l r = .ok ρ) : ρ.Within xs := by
  obtain ⟨τ, hτ, rfl⟩ := Substitution.equate_eq_ok.1 h
  exact hσ.compose ((Ty.solved_of_unify hτ).2.mono fun y hy =>
    (List.mem_append.1 hy).elim (hl y) (hr y))

/-! ### States of an inference -/

/-- An inference that began with the names `xs` and the supply `s` has learned
`σ` and is left with the supply `s'`, and all that it has learned is about
names in play. -/
structure Confined (xs : List Name) (s : NameSupply) (σ : Substitution) (s' : NameSupply) :
    Prop where
  taken_mono : ∀ y ∈ s.taken, y ∈ s'.taken
  within : σ.Within (known xs s s')

structure Inferred.Confined (xs : List Name) (s : NameSupply) (i : Inferred) : Prop where
  state : TypedLambda.Confined xs s i.learned i.supply
  type_known : ∀ y ∈ i.type.vars, y ∈ known xs s i.supply

theorem known_of_context {y : Name} (hy : y ∈ Γ.tyVars) : y ∈ known (inPlay Γ t) s s' :=
  mem_known.2 (.inl (mem_inPlay.2 (.inl hy)))

/-- The next part of a term is visited with names in play only. -/
theorem known_inPlay (hΔ : ∀ y ∈ Δ.tyVars, y ∈ known (inPlay Γ t) s s')
    (hu : u.ascribed ⊆ t.ascribed) :
    ∀ y ∈ inPlay Δ u, y ∈ known (inPlay Γ t) s s' := by
  intro y hy
  rcases mem_inPlay.1 hy with hctx | hasc
  · exact hΔ y hctx
  · obtain ⟨A, hA, hy⟩ := List.mem_flatMap.1 hasc
    exact mem_known.2 (.inl (mem_inPlay.2 (.inr (List.mem_flatMap.2 ⟨A, hu hA, hy⟩))))

namespace Confined

theorem refl (xs : List Name) (s : NameSupply) : Confined xs s .empty s :=
  ⟨fun _ hy => hy, Substitution.within_empty _⟩

theorem draw (c : Confined xs s σ s') : Confined xs s σ s'.draw.2 :=
  ⟨fun y hy => by simp [c.taken_mono y hy],
    c.within.mono fun _ => known_mono fun y hy => by simp [hy]⟩

theorem known_drawn (c : Confined xs s σ s') :
    ∀ y ∈ (Ty.var s'.draw.1).vars, y ∈ known xs s s'.draw.2 := by
  intro y hy
  obtain rfl : y = s'.draw.1 := by simpa [Ty.vars] using hy
  exact mem_known.2 (.inr ⟨by simp, fun h => s'.draw_not_mem (c.taken_mono _ h)⟩)

theorem equate (c : Confined xs s σ s') (hl : ∀ y ∈ l.vars, y ∈ known xs s s')
    (hr : ∀ y ∈ r.vars, y ∈ known xs s s') (h : σ.equate l r = .ok ρ) : Confined xs s ρ s' :=
  ⟨c.taken_mono, c.within.equate hl hr h⟩

theorem known_apply (c : Confined xs s σ s') (h : ∀ y ∈ A.vars, y ∈ known xs s s') :
    ∀ y ∈ (σ.apply A).vars, y ∈ known xs s s' :=
  c.within.apply h

theorem known_context (c : Confined (inPlay Γ t) s σ s') :
    ∀ y ∈ (σ.applyContext Γ).tyVars, y ∈ known (inPlay Γ t) s s' :=
  Context.mem_tyVars_applyContext_within c.within fun _ => known_of_context

/-- What is learned from the next part is about names in play too. -/
theorem next (c : Confined (inPlay Γ t) s σ s')
    (hΔ : ∀ y ∈ Δ.tyVars, y ∈ known (inPlay Γ t) s s') (hu : u.ascribed ⊆ t.ascribed)
    (cj : j.Confined (inPlay Δ u) s') :
    Confined (inPlay Γ t) s (σ.compose j.learned) j.supply ∧
      ∀ y ∈ j.type.vars, y ∈ known (inPlay Γ t) s j.supply := by
  have mono := cj.state.taken_mono
  have rebase : ∀ y ∈ known (inPlay Δ u) s' j.supply, y ∈ known (inPlay Γ t) s j.supply := by
    intro y hy
    rcases mem_known.1 hy with hstart | ⟨htaken, hdrawn⟩
    · exact known_mono mono (known_inPlay hΔ hu y hstart)
    · exact mem_known.2 (.inr ⟨htaken, fun hs => hdrawn (c.taken_mono y hs)⟩)
  exact ⟨⟨fun y hy => mono y (c.taken_mono y hy),
      (c.within.mono fun _ => known_mono mono).compose (cj.state.within.mono rebase)⟩,
    fun y hy => rebase y (cj.type_known y hy)⟩

theorem body (hΔ : ∀ y ∈ Δ.tyVars, y ∈ (Ty.var s.draw.1).vars ∨ y ∈ Γ.tyVars)
    (hu : u.ascribed ⊆ t.ascribed) (ci : i.Confined (inPlay Δ u) s.draw.2) :
    Confined (inPlay Γ t) s i.learned i.supply ∧
      (∀ y ∈ (Ty.var s.draw.1).vars, y ∈ known (inPlay Γ t) s i.supply) ∧
      ∀ y ∈ i.type.vars, y ∈ known (inPlay Γ t) s i.supply := by
  have c := refl (inPlay Γ t) s
  have hbody : ∀ y ∈ Δ.tyVars, y ∈ known (inPlay Γ t) s s.draw.2 := fun y hy =>
    (hΔ y hy).elim (c.known_drawn y) known_of_context
  obtain ⟨state, htype⟩ := c.draw.next hbody hu ci
  rw [empty_compose] at state
  exact ⟨state, fun y hy => known_mono ci.state.taken_mono (c.known_drawn y hy), htype⟩

theorem taken_of_known (c : Confined xs s σ s') (hx : ∀ y ∈ xs, y ∈ s.taken) {y : Name}
    (hy : y ∈ known xs s s') : y ∈ s'.taken :=
  (mem_known.1 hy).elim (fun h => c.taken_mono y (hx y h)) And.left

theorem taken_next (c : Confined (inPlay Γ t) s σ s') (ht : ∀ y ∈ inPlay Γ t, y ∈ s.taken)
    (hΔ : ∀ y ∈ Δ.tyVars, y ∈ known (inPlay Γ t) s s') (hu : u.ascribed ⊆ t.ascribed) :
    ∀ y ∈ inPlay Δ u, y ∈ s'.taken :=
  fun y hy => c.taken_of_known ht (known_inPlay hΔ hu y hy)

end Confined

namespace Inferred.Confined

theorem first (hu : u.ascribed ⊆ t.ascribed) (ci : i.Confined (inPlay Γ u) s) :
    i.Confined (inPlay Γ t) s := by
  obtain ⟨state, htype⟩ :=
    (TypedLambda.Confined.refl (inPlay Γ t) s).next (fun _ => known_of_context) hu ci
  rw [empty_compose] at state
  exact ⟨state, htype⟩

theorem type_later (ci : i.Confined xs s) (h : ∀ y ∈ i.supply.taken, y ∈ s'.taken) :
    ∀ y ∈ i.type.vars, y ∈ known xs s s' :=
  fun y hy => known_mono h (ci.type_known y hy)

theorem pair (ci : i.Confined (inPlay Γ t) s)
    (cj : j.Confined (inPlay (i.learned.applyContext Γ) u) i.supply)
    (hv : v.ascribed = t.ascribed ++ u.ascribed) :
    TypedLambda.Confined (inPlay Γ v) s (i.learned.compose j.learned) j.supply ∧
      (∀ y ∈ i.type.vars, y ∈ known (inPlay Γ v) s j.supply) ∧
      ∀ y ∈ j.type.vars, y ∈ known (inPlay Γ v) s j.supply := by
  have ci := ci.first (t := v) (hv ▸ List.subset_append_left _ _)
  obtain ⟨c, hright⟩ :=
    ci.state.next ci.state.known_context (hv ▸ List.subset_append_right _ _) cj
  exact ⟨c, ci.type_later cj.state.taken_mono, hright⟩

theorem element (ci : i.Confined xs s) (h : i.element = .ok e) : e.Confined xs s := by
  obtain ⟨ρ, hρ, rfl⟩ := Inferred.element_eq_ok.1 h
  have hdrawn := ci.state.known_drawn
  have hlist : ∀ y ∈ i.type.vars, y ∈ known xs s i.supply.draw.2 :=
    ci.type_later fun y hy => by simp [hy]
  have state := ci.state.draw.equate (r := .list (.var i.supply.draw.1)) hlist hdrawn hρ
  exact ⟨state, state.known_apply hdrawn⟩

end Inferred.Confined

/-- All names in a result were in play at the start or drawn from the
supply. -/
theorem infer_confined (h : t.infer Γ s = .ok i) : i.Confined (inPlay Γ t) s := by
  induction t generalizing Γ s i with
  | bool | int | string | unit =>
      obtain rfl := Except.ok.inj h
      exact ⟨.refl _ s, by simp [Ty.vars]⟩
  | nil =>
      obtain rfl := Except.ok.inj h
      have c := Confined.refl (inPlay Γ .nil) s
      exact ⟨c.draw, c.known_drawn⟩
  | var x =>
      obtain ⟨A, hA, rfl⟩ := Term.infer_var_eq_ok.1 h
      exact ⟨.refl _ s, fun y hy => known_of_context (Context.mem_tyVars.2 ⟨x, A, hA, hy⟩)⟩
  | isZero t ih =>
      obtain ⟨i, hi, ρ, hρ, rfl⟩ := Term.infer_isZero_eq_ok.1 h
      have ci := ih hi
      exact ⟨ci.state.equate ci.type_known (by simp [Ty.vars]) hρ, by simp [Ty.vars]⟩
  | add l r ihl ihr =>
      obtain ⟨i, hi, j, hj, ρ, hρ, ρ', hρ', rfl⟩ := Term.infer_add_eq_ok.1 h
      obtain ⟨c, hleft, hright⟩ := (ihl hi).pair (v := .add l r) (ihr hj) rfl
      have c := c.equate (c.known_apply hleft) (by simp [Ty.vars]) hρ
      have c := c.equate (c.known_apply hright) (by simp [Ty.vars]) hρ'
      exact ⟨c, by simp [Ty.vars]⟩
  | ascribe t ty ih =>
      obtain ⟨i, hi, ρ, hρ, rfl⟩ := Term.infer_ascribe_eq_ok.1 h
      have ci := (ih hi).first (t := .ascribe t ty) (List.subset_cons_self _ _)
      have hty : ∀ y ∈ ty.vars, y ∈ known (inPlay Γ (.ascribe t ty)) s i.supply := fun y hy =>
        mem_known.2 (.inl (mem_inPlay.2 (.inr (List.mem_append_left _ hy))))
      have c := ci.state.equate (ci.state.known_apply hty) ci.type_known hρ
      exact ⟨c, c.known_apply hty⟩
  | cond c a b ihc iha ihb =>
      obtain ⟨i, hi, ρ, hρ, j, hj, k, hk, ρ', hρ', rfl⟩ := Term.infer_cond_eq_ok.1 h
      have ha : a.ascribed ⊆ (Term.cond c a b).ascribed := fun _ hA =>
        List.mem_append_left _ (List.mem_append_right _ hA)
      have ci := (ihc hi).first (t := .cond c a b) fun _ hA =>
        List.mem_append_left _ (List.mem_append_left _ hA)
      have c := ci.state.equate ci.type_known (by simp [Ty.vars]) hρ
      obtain ⟨c, hyes⟩ := c.next c.known_context ha (iha hj)
      obtain ⟨c, hno⟩ := c.next c.known_context (List.subset_append_right _ _) (ihb hk)
      have hyes := fun y hy => known_mono (ihb hk).state.taken_mono (hyes y hy)
      have c := c.equate (c.known_apply hyes) hno hρ'
      exact ⟨c, c.known_apply hyes⟩
  | abs x b ih =>
      obtain ⟨i, hi, rfl⟩ := Term.infer_abs_eq_ok.1 h
      obtain ⟨state, hparam, htype⟩ := Confined.body (t := .abs x b)
        (fun _ => Context.mem_tyVars_insert) (List.Subset.refl _) (ih hi)
      exact ⟨state, fun y hy => (List.mem_append.1 hy).elim
        (state.known_apply hparam y) (htype y)⟩
  | wildcard b ih =>
      obtain ⟨i, hi, rfl⟩ := Term.infer_wildcard_eq_ok.1 h
      obtain ⟨state, hparam, htype⟩ := Confined.body (t := .wildcard b)
        (fun _ => .inr) (List.Subset.refl _) (ih hi)
      exact ⟨state, fun y hy => (List.mem_append.1 hy).elim (hparam y) (htype y)⟩
  | app f a ihf iha =>
      obtain ⟨i, hi, j, hj, ρ, hρ, rfl⟩ := Term.infer_app_eq_ok.1 h
      obtain ⟨c, hfn, harg⟩ := (ihf hi).pair (v := .app f a) (iha hj) rfl
      have hdrawn := c.known_drawn
      have later : ∀ y ∈ j.supply.taken, y ∈ j.supply.draw.2.taken := fun y hy => by simp [hy]
      have hresult : ∀ y ∈ (Ty.arrow j.type (.var j.supply.draw.1)).vars,
          y ∈ known (inPlay Γ (.app f a)) s j.supply.draw.2 := fun y hy =>
        (List.mem_append.1 hy).elim (fun hy => known_mono later (harg y hy)) (hdrawn y)
      have hfn := c.draw.known_apply fun y hy => known_mono later (hfn y hy)
      have c := c.draw.equate hfn hresult hρ
      exact ⟨c, c.known_apply hdrawn⟩
  | cons hd tl ihh iht =>
      obtain ⟨i, hi, j, hj, ρ, hρ, rfl⟩ := Term.infer_cons_eq_ok.1 h
      obtain ⟨c, hhead, htail⟩ := (ihh hi).pair (v := .cons hd tl) (iht hj) rfl
      have c := c.equate (l := .list _) (c.known_apply hhead) htail hρ
      exact ⟨c, c.known_apply htail⟩
  | isEmpty l ih =>
      obtain ⟨i, hi, e, he, rfl⟩ := Term.infer_isEmpty_eq_ok.1 h
      exact ⟨((ih hi).element he).state, by simp [Ty.vars]⟩
  | head l ih =>
      obtain ⟨i, hi, he⟩ := Term.infer_head_eq_ok.1 h
      exact (ih hi).element he
  | tail l ih =>
      obtain ⟨i, hi, e, he, rfl⟩ := Term.infer_tail_eq_ok.1 h
      have ce := (ih hi).element he
      exact ⟨ce.state, ce.type_known⟩
  | letIn x e b ihe ihb =>
      obtain ⟨i, hi, j, hj, rfl⟩ := Term.infer_letIn_eq_ok.1 h
      have ci := (ihe hi).first (t := .letIn x e b) (List.subset_append_left _ _)
      have hbody : ∀ y ∈ Context.tyVars ((i.learned.applyContext Γ).insert x i.type),
          y ∈ known (inPlay Γ (.letIn x e b)) s i.supply := fun y hy =>
        (Context.mem_tyVars_insert hy).elim (ci.type_known y) (ci.state.known_context y)
      obtain ⟨c, htype⟩ := ci.state.next hbody (List.subset_append_right _ _) (ihb hj)
      exact ⟨c, htype⟩

/-! ### Names that are taken -/

theorem taken_first (ht : ∀ y ∈ inPlay Γ t, y ∈ s.taken) (hu : u.ascribed ⊆ t.ascribed) :
    ∀ y ∈ inPlay Γ u, y ∈ s.taken :=
  (Confined.refl _ s).taken_next ht (fun _ => known_of_context) hu

theorem taken_body (ht : ∀ y ∈ inPlay Γ t, y ∈ s.taken) (hu : u.ascribed ⊆ t.ascribed)
    (x : Name) : ∀ y ∈ inPlay (Γ.insert x (.var s.draw.1)) u, y ∈ s.draw.2.taken := by
  have c := Confined.refl (inPlay Γ t) s
  exact c.draw.taken_next (fun y hy => by simp [ht y hy])
    (fun y hy => (Context.mem_tyVars_insert hy).elim (c.known_drawn y) known_of_context) hu

theorem taken_second (hi : t.infer Γ s = .ok i) (hv : ∀ y ∈ inPlay Γ v, y ∈ s.taken)
    (heq : v.ascribed = t.ascribed ++ u.ascribed) :
    ∀ y ∈ inPlay (i.learned.applyContext Γ) u, y ∈ i.supply.taken := by
  have c := ((infer_confined hi).first (t := v) (heq ▸ List.subset_append_left _ _)).state
  exact c.taken_next hv c.known_context (heq ▸ List.subset_append_right _ _)

end TypedLambda
