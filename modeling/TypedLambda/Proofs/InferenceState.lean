import TypedLambda.Proofs.Ascriptions
import TypedLambda.Proofs.MostGeneral
import TypedLambda.Typing.Inference

/-!
What is true between any two steps of an inference.

An inference starts with some names in play and a supply in which they are
taken. `Progress` is the invariant that every step keeps: what has been
learned is in solved form and speaks of nothing but the names in play at
the start and the names drawn since. `Current` says of names that nothing
has been learned about them yet. The steps are to draw a name, to equate
two current types, and to go on with a further inference under a current
context. Each of the last two composes what it learns with what is known,
and because it speaks of current names only, no entry is ever overwritten:
the solutions after the step are the solutions of both parts.

The names in play at the start are those of the context and those written in
the ascriptions of the term. What is learned from one part of a term reaches
the next part through the context alone. `Ready` says that nothing can have
been learned about the names that are written in the next part itself, and
it is handed on from part to part if the parts share no such name.
-/

namespace TypedLambda

variable {xs ys zs : List Name} {s s' s'' : NameSupply} {σ τ ρ : Substitution}
  {Γ Δ : Context} {l r A : Ty} {t u v : Term}

@[simp] theorem empty_compose (σ : Substitution) : Substitution.compose .empty σ = σ :=
  OrderedMap.empty_union σ

/-! ### Names in play -/

/-- The names `xs`, and those that were taken from the supply since `s`. -/
def known (xs : List Name) (s s' : NameSupply) : List Name :=
  xs ++ s'.taken.filter (· ∉ s.taken)

theorem mem_known {y : Name} :
    y ∈ known xs s s' ↔ y ∈ xs ∨ (y ∈ s'.taken ∧ y ∉ s.taken) := by
  simp [known]

theorem known_mono (h : ∀ y ∈ s'.taken, y ∈ s''.taken) {y : Name}
    (hy : y ∈ known xs s s') : y ∈ known xs s s'' := by
  rw [mem_known] at hy ⊢
  exact hy.imp_right fun hy => ⟨h y hy.1, hy.2⟩

theorem known_widen (h : ∀ y ∈ xs, y ∈ zs) {y : Name} (hy : y ∈ known xs s s') :
    y ∈ known zs s s' := by
  rw [mem_known] at hy ⊢
  exact hy.imp_left (h y)

theorem not_mem_keys_of_within (h : σ.Within (known xs s s')) {y : Name} (hy : y ∈ s.taken)
    (hx : y ∉ xs) : y ∉ σ.keys := by
  intro hk
  rcases mem_known.1 (h.keys_mem y hk) with hstart | ⟨-, hdrawn⟩
  · exact hx hstart
  · exact hdrawn hy

/-- The state of an inference that began with the names `xs` and the
supply `s`, and has now learned `σ` and is left with the supply `s'`. -/
structure Progress (xs : List Name) (s : NameSupply) (σ : Substitution) (s' : NameSupply) :
    Prop where
  start : ∀ y ∈ xs, y ∈ s.taken
  taken_mono : ∀ y ∈ s.taken, y ∈ s'.taken
  solved : σ.Solved
  within : σ.Within (known xs s s')

/-- The names `ys` are in play, and nothing has been learned about them. -/
def Current (xs : List Name) (s : NameSupply) (σ : Substitution) (s' : NameSupply)
    (ys : List Name) : Prop :=
  ∀ y ∈ ys, y ∈ known xs s s' ∧ y ∉ σ.keys

theorem Current.known (h : Current xs s σ s' ys) : ∀ y ∈ ys, y ∈ known xs s s' :=
  fun y hy => (h y hy).1

theorem Current.known_later (h : Current xs s σ s' ys)
    (hs : ∀ y ∈ s'.taken, y ∈ s''.taken) : ∀ y ∈ ys, y ∈ TypedLambda.known xs s s'' :=
  fun y hy => known_mono hs (h y hy).1

theorem Current.append (hy : Current xs s σ s' ys) (hz : Current xs s σ s' zs) :
    Current xs s σ s' (ys ++ zs) :=
  fun y h => (List.mem_append.1 h).elim (hy y) (hz y)

theorem Current.widen (h : Current xs s σ s' ys) (hx : ∀ y ∈ xs, y ∈ zs) :
    Current zs s σ s' ys :=
  fun y hy => ⟨known_widen hx (h y hy).1, (h y hy).2⟩

namespace Progress

theorem widen (p : Progress xs s σ s') (hx : ∀ y ∈ xs, y ∈ zs) (hz : ∀ y ∈ zs, y ∈ s.taken) :
    Progress zs s σ s' :=
  ⟨hz, p.taken_mono, p.solved, p.within.mono fun _ hy => known_widen hx hy⟩

theorem taken_of_known (p : Progress xs s σ s') {y : Name} (hy : y ∈ known xs s s') :
    y ∈ s'.taken := by
  rcases mem_known.1 hy with hx | hdrawn
  · exact p.taken_mono y (p.start y hx)
  · exact hdrawn.1

theorem current_taken (p : Progress xs s σ s') (h : Current xs s σ s' ys) :
    ∀ y ∈ ys, y ∈ s'.taken :=
  fun y hy => p.taken_of_known (h y hy).1

theorem current_apply (p : Progress xs s σ s') (h : ∀ y ∈ A.vars, y ∈ known xs s s') :
    Current xs s σ s' (σ.apply A).vars := by
  intro y hy
  obtain ⟨hkey, hvar | hrange⟩ := Substitution.mem_vars_apply p.solved hy
  · exact ⟨h y hvar, hkey⟩
  · exact ⟨p.within.range_mem y hrange, hkey⟩

theorem current_applyContext (p : Progress xs s σ s')
    (h : ∀ y ∈ Γ.tyVars, y ∈ known xs s s') :
    Current xs s σ s' (σ.applyContext Γ).tyVars := by
  intro y hy
  obtain ⟨hkey, hvar | hrange⟩ := Context.mem_tyVars_applyContext p.solved hy
  · exact ⟨h y hvar, hkey⟩
  · exact ⟨p.within.range_mem y hrange, hkey⟩

theorem current_context (p : Progress xs s σ s') (h : ∀ y ∈ Γ.tyVars, y ∈ xs) :
    Current xs s σ s' (σ.applyContext Γ).tyVars :=
  p.current_applyContext fun y hy => mem_known.2 (.inl (h y hy))

theorem current_insert {x : Name} (hΓ : Current xs s σ s' Γ.tyVars)
    (hA : Current xs s σ s' A.vars) : Current xs s σ s' (Context.tyVars (Γ.insert x A)) :=
  fun y hy => (Context.mem_tyVars_insert hy).elim (hA y) (hΓ y)

theorem not_mem_keys (p : Progress xs s σ s') {y : Name} (hy : y ∈ s.taken) (hx : y ∉ xs) :
    y ∉ σ.keys :=
  not_mem_keys_of_within p.within hy hx

/-! ### Steps -/

theorem refl (h : ∀ y ∈ xs, y ∈ s.taken) : Progress xs s .empty s :=
  ⟨h, fun _ hy => hy, Substitution.solved_empty, Substitution.within_empty _⟩

theorem current_refl (h : ∀ y ∈ ys, y ∈ xs) : Current xs s .empty s ys :=
  fun y hy => ⟨mem_known.2 (.inl (h y hy)), by simp⟩

theorem draw (p : Progress xs s σ s') : Progress xs s σ s'.draw.2 where
  start := p.start
  taken_mono y hy := by simp [p.taken_mono y hy]
  solved := p.solved
  within := p.within.mono fun _ hy => known_mono (by simp +contextual) hy

theorem current_draw (h : Current xs s σ s' ys) : Current xs s σ s'.draw.2 ys :=
  fun y hy => ⟨known_mono (by simp +contextual) (h y hy).1, (h y hy).2⟩

/-- A drawn name is new: nothing can have been learned about it. -/
theorem current_drawn (p : Progress xs s σ s') :
    Current xs s σ s'.draw.2 (Ty.var s'.draw.1).vars := by
  intro y hy
  obtain rfl : y = s'.draw.1 := by simpa [Ty.vars] using hy
  refine ⟨mem_known.2 (.inr ⟨by simp, fun h => ?_⟩), fun h => ?_⟩
  · exact s'.draw_not_mem (p.taken_mono _ h)
  · exact s'.draw_not_mem (p.taken_of_known (p.within.keys_mem _ h))

/-- A further inference that starts from current names never speaks of a
name that something has been learned about. -/
theorem not_mem_keys_of_known (p : Progress xs s σ s') (h : Current xs s σ s' ys) {y : Name}
    (hy : y ∈ known ys s' s'') : y ∉ σ.keys := by
  rcases mem_known.1 hy with hstart | ⟨-, hdrawn⟩
  · exact (h y hstart).2
  · exact fun hkey => hdrawn (p.taken_of_known (p.within.keys_mem y hkey))

theorem known_trans (p : Progress xs s σ s') (h : Current xs s σ s' ys)
    (q : Progress ys s' τ s'') {y : Name} (hy : y ∈ known ys s' s'') :
    y ∈ known xs s s'' := by
  rcases mem_known.1 hy with hstart | ⟨htaken, hdrawn⟩
  · exact known_mono q.taken_mono (h y hstart).1
  · exact mem_known.2 (.inr ⟨htaken, fun hy => hdrawn (p.taken_mono y hy)⟩)

theorem trans (p : Progress xs s σ s') (h : Current xs s σ s' ys)
    (q : Progress ys s' τ s'') : Progress xs s (σ.compose τ) s'' where
  start := p.start
  taken_mono y hy := q.taken_mono y (p.taken_mono y hy)
  solved := Substitution.solved_compose p.solved q.solved fun k hk hr =>
    p.not_mem_keys_of_known h (q.within.range_mem k hr) hk
  within := (p.within.mono fun _ hy => known_mono q.taken_mono hy).compose
    (q.within.mono fun _ hy => p.known_trans h q hy)

theorem current_trans (p : Progress xs s σ s') (h : Current xs s σ s' ys)
    (q : Progress ys s' τ s'') (hz : Current ys s' τ s'' zs) :
    Current xs s (σ.compose τ) s'' zs := by
  intro z hmem
  obtain ⟨hknown, hkey⟩ := hz z hmem
  refine ⟨p.known_trans h q hknown, fun hk => ?_⟩
  rcases Substitution.mem_keys_compose.1 hk with hσ | hτ
  · exact p.not_mem_keys_of_known h hknown hσ
  · exact hkey hτ

theorem keys_disjoint (p : Progress xs s σ s') (h : Current xs s σ s' ys)
    (q : Progress ys s' τ s'') : ∀ k ∈ σ.keys, k ∉ τ.keys :=
  fun k hk hkτ => p.not_mem_keys_of_known h (q.within.keys_mem k hkτ) hk

/-- No entry is overwritten, so nothing that was known is forgotten. -/
theorem solves_trans (p : Progress xs s σ s') (h : Current xs s σ s' ys)
    (q : Progress ys s' τ s'') {θ : Assignment} :
    θ.Solves (σ.compose τ) ↔ θ.Solves σ ∧ θ.Solves τ :=
  Assignment.solves_compose_iff (p.keys_disjoint h q)

theorem of_unify (hl : ∀ y ∈ l.vars ++ r.vars, y ∈ s.taken) (h : l.unify r = .ok τ) :
    Progress (l.vars ++ r.vars) s τ s := by
  obtain ⟨hsolved, hwithin⟩ := Ty.solved_of_unify h
  exact ⟨hl, fun _ hy => hy, hsolved, hwithin.mono fun _ hy => mem_known.2 (.inl hy)⟩

/-- The context of the body of a function, where the parameter has a drawn
name as its type. -/
theorem current_param (hx : ∀ y ∈ xs, y ∈ s.taken) (hΓ : ∀ y ∈ Γ.tyVars, y ∈ xs) (x : Name) :
    Current xs s .empty s.draw.2 (Context.tyVars (Γ.insert x (.var s.draw.1))) :=
  current_insert (current_draw (current_refl hΓ)) (refl hx).current_drawn

/-- Equating two current types keeps the invariant, and whoever solves the
result has solved what was known and makes the two types equal. -/
theorem equate (p : Progress xs s σ s') (hl : Current xs s σ s' l.vars)
    (hr : Current xs s σ s' r.vars) (h : σ.equate l r = .ok ρ) :
    Progress xs s ρ s' ∧
      ∀ θ : Assignment, θ.Solves ρ → θ.Solves σ ∧ l.instantiate θ = r.instantiate θ := by
  obtain ⟨τ, hτ, rfl⟩ := Substitution.equate_eq_ok.1 h
  have hboth := hl.append hr
  have q : Progress (l.vars ++ r.vars) s' τ s' := of_unify (p.current_taken hboth) hτ
  refine ⟨p.trans hboth q, fun θ hθ => ?_⟩
  obtain ⟨hσ, hsolves⟩ := (p.solves_trans hboth q).1 hθ
  exact ⟨hσ, Ty.instantiate_eq_of_unify hτ hsolves⟩

theorem equate_apply (p : Progress xs s σ s') (hA : ∀ y ∈ A.vars, y ∈ known xs s s')
    (hr : Current xs s σ s' r.vars) (h : σ.equate (σ.apply A) r = .ok ρ) :
    Progress xs s ρ s' ∧
      ∀ θ : Assignment, θ.Solves ρ → θ.Solves σ ∧ A.instantiate θ = r.instantiate θ := by
  obtain ⟨q, hsolves⟩ := p.equate (p.current_apply hA) hr h
  refine ⟨q, fun θ hθ => ?_⟩
  obtain ⟨hσ, heq⟩ := hsolves θ hθ
  exact ⟨hσ, (hσ.instantiate_apply A).symm.trans heq⟩

end Progress

/-! ### Parts of a term -/

def inPlay (Γ : Context) (t : Term) : List Name := Γ.tyVars ++ t.ascribedVars

theorem mem_inPlay {y : Name} : y ∈ inPlay Γ t ↔ y ∈ Γ.tyVars ∨ y ∈ t.ascribedVars :=
  List.mem_append

theorem inPlay_of_concrete (hc : t.Concrete) (Γ : Context) : inPlay Γ t = Γ.tyVars := by
  rw [inPlay, show t.ascribedVars = [] from hc, List.append_nil]

theorem inPlay_left (hv : v.ascribed = t.ascribed ++ u.ascribed) {y : Name}
    (hy : y ∈ inPlay Γ t) : y ∈ inPlay Γ v := by
  rw [mem_inPlay] at hy ⊢
  rw [Term.ascribedVars, hv, List.flatMap_append]
  exact hy.imp_right (List.mem_append_left _)

theorem Progress.current_inPlay (p : Progress (inPlay Γ t) s σ s') :
    Current (inPlay Γ t) s σ s' (σ.applyContext Γ).tyVars :=
  p.current_context fun _ hy => mem_inPlay.2 (.inl hy)

/-- A term can be visited: all names in play are taken, and none that is
written in the term stands in the context. -/
structure Ready (Γ : Context) (s : NameSupply) (t : Term) : Prop where
  taken : ∀ y ∈ inPlay Γ t, y ∈ s.taken
  apart : ∀ y ∈ t.ascribedVars, y ∉ Γ.tyVars

namespace Ready

theorem context_taken (r : Ready Γ s t) : ∀ y ∈ Γ.tyVars, y ∈ s.taken :=
  fun y hy => r.taken y (mem_inPlay.2 (.inl hy))

theorem ascribed_taken (r : Ready Γ s t) : ∀ y ∈ t.ascribedVars, y ∈ s.taken :=
  fun y hy => r.taken y (mem_inPlay.2 (.inr hy))

theorem of_concrete (hc : t.Concrete) (hΓ : ∀ y ∈ Γ.tyVars, y ∈ s.taken) : Ready Γ s t :=
  ⟨by rwa [inPlay_of_concrete hc], fun y hy => absurd hy (hc.not_mem y)⟩

theorem mono (r : Ready Γ s v) (h : ∀ y ∈ t.ascribedVars, y ∈ v.ascribedVars) :
    Ready Γ s t where
  taken y hy := (mem_inPlay.1 hy).elim (r.context_taken y) fun ht => r.ascribed_taken y (h y ht)
  apart y hy := r.apart y (h y hy)

theorem pair (r : Ready Γ s v) (hv : v.ascribed = t.ascribed ++ u.ascribed) :
    Ready Γ s t ∧ Ready Γ s u := by
  have hvars : v.ascribedVars = t.ascribedVars ++ u.ascribedVars := by
    rw [Term.ascribedVars, hv, List.flatMap_append]
    rfl
  constructor <;> refine r.mono fun y hy => ?_ <;> rw [hvars]
  · exact List.mem_append_left _ hy
  · exact List.mem_append_right _ hy

/-- A term can still be visited after an inference that was told of none of
the names that are written in it, in any context that is then current. -/
theorem next (r : Ready Γ s u) (p : Progress xs s σ s') (hx : ∀ y ∈ xs, y ∉ u.ascribedVars)
    (hΔ : Current xs s σ s' Δ.tyVars) : Ready Δ s' u where
  taken y hy := (mem_inPlay.1 hy).elim (p.current_taken hΔ y) fun hu =>
    p.taken_mono y (r.ascribed_taken y hu)
  apart y hy hctx := (mem_known.1 (hΔ y hctx).1).elim (fun hstart => hx y hstart hy)
    fun hdrawn => hdrawn.2 (r.ascribed_taken y hy)

theorem current_next (r : Ready Γ s u) (p : Progress xs s σ s')
    (hx : ∀ y ∈ xs, y ∉ u.ascribedVars) (hΔ : Current xs s σ s' Δ.tyVars)
    (hz : ∀ y ∈ xs ++ u.ascribedVars, y ∈ zs) : Current zs s σ s' (inPlay Δ u) := by
  refine (hΔ.widen fun y hy => hz y (List.mem_append_left _ hy)).append fun y hy => ⟨?_, ?_⟩
  · exact mem_known.2 (.inl (hz y (List.mem_append_right _ hy)))
  · exact p.not_mem_keys (r.ascribed_taken y hy) fun hstart => hx y hstart hy

theorem draw (r : Ready Γ s t) : Ready Γ s.draw.2 t :=
  ⟨fun y hy => by simp [r.taken y hy], r.apart⟩

theorem body (r : Ready Γ s t) (x : Name) :
    Ready (Γ.insert x (.var s.draw.1)) s.draw.2 t ∧
      Current (inPlay Γ t) s .empty s.draw.2 (inPlay (Γ.insert x (.var s.draw.1)) t) := by
  have p := (Progress.refl r.context_taken).draw
  have hx : ∀ y ∈ Γ.tyVars, y ∉ t.ascribedVars := fun y hy ht => r.apart y ht hy
  have hparam := Progress.current_param r.context_taken (fun _ hy => hy) x
  exact ⟨r.next p hx hparam, r.current_next p hx hparam fun _ hy => hy⟩

/-- What the first of two parts learns leaves the second one ready, if no
name is written in both. -/
theorem second (r : Ready Γ s v) (hv : v.ascribed = t.ascribed ++ u.ascribed)
    (hd : t.Apart u) (p : Progress (inPlay Γ t) s σ s')
    (hΔ : Current (inPlay Γ t) s σ s' Δ.tyVars) :
    Ready Δ s' u ∧ Current (inPlay Γ v) s σ s' (inPlay Δ u) := by
  have ru := (r.pair hv).2
  have hx : ∀ y ∈ inPlay Γ t, y ∉ u.ascribedVars := fun y hy hu =>
    (mem_inPlay.1 hy).elim (ru.apart y hu) fun ht => hd y ht hu
  refine ⟨ru.next p hx hΔ, ru.current_next p hx hΔ fun y hy => ?_⟩
  rw [mem_inPlay, Term.ascribedVars, hv, List.flatMap_append]
  simpa [inPlay, Term.ascribedVars, or_assoc] using hy

end Ready

/-- An assignment that solves what is known and makes two types equal lets
them be equated, and solves the result. -/
theorem exists_equate {θ : Assignment} (hσ : θ.Solves σ)
    (h : l.instantiate θ = r.instantiate θ) : ∃ ρ, σ.equate l r = .ok ρ ∧ θ.Solves ρ := by
  obtain ⟨τ, hτ, hsolves⟩ := Ty.exists_unify_of_instantiate_eq h
  exact ⟨σ.compose τ, Substitution.equate_eq_ok.2 ⟨τ, hτ, rfl⟩, hσ.compose hsolves⟩

end TypedLambda
