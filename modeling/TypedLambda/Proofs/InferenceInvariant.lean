import TypedLambda.Proofs.InferenceSoundness

/-!
What is true of every result of inference, and of every composition on the way.

A result speaks of the variables of the context and of names drawn during the
call, and what was learned has been worked in everywhere: into its own types,
into the found type and into the context (`Inferred.Invariant`). So there is
nothing left for the application at the end of `typecheck` to do.

Results alone do not show what was composed on the way to them, or on the way
to an error. For that, `inferBy` is run with other ways of joining two
substitutions. It comes to the same as composition for every way that composes
two with no variable in common, whatever it does elsewhere (`inferBy_eq`). A
join that refuses to overwrite an entry is one of these, and it never has to
refuse where no ascription names a variable.
-/

namespace TypedLambda

variable {xs ys : List Name} {Γ Δ : Context} {s s' s'' : NameSupply} {σ τ ρ : Substitution}
  {l r A : Ty} {t u : Term} {i j : Inferred}

/-! ### The invariant of a result -/

/-- What inference in `Γ` with the supply `s` has found about a term. -/
structure Inferred.Invariant (Γ : Context) (s : NameSupply) (i : Inferred) : Prop where
  taken_mono : ∀ y ∈ s.taken, y ∈ i.supply.taken
  type_known : ∀ y ∈ i.type.vars, y ∈ known Γ.tyVars s i.supply
  learned_known : i.learned.Within (known Γ.tyVars s i.supply)
  /-- No variable that has been learned about is left in a type. -/
  worked_in : ∀ k ∈ i.learned.keys,
    k ∉ i.learned.rangeVars ∧ k ∉ i.type.vars ∧ k ∉ (i.learned.applyContext Γ).tyVars
  apply_type : i.learned.apply i.type = i.type

theorem Inferred.Sound.apply_type (si : i.Sound Γ s t) : i.learned.apply i.type = i.type :=
  Substitution.apply_of_disjoint fun k hk hmem => (si.current k hmem).2 hk

theorem Inferred.Sound.invariant (si : i.Sound Γ s t) : i.Invariant Γ s where
  taken_mono := si.progress.taken_mono
  type_known := si.current.known
  learned_known := si.progress.within
  worked_in k hk := by
    refine ⟨si.progress.solved k hk, fun htype => (si.current k htype).2 hk, fun hctx => ?_⟩
    exact (Context.mem_tyVars_applyContext si.progress.solved hctx).1 hk
  apply_type := si.apply_type

/-- The type of a whole term is the type that is found for it. -/
theorem typecheck_eq_map (hc : t.Concrete) :
    t.typecheck Γ = (t.infer Γ (.forTerm Γ t)).map Inferred.type := by
  rw [Term.typecheck]
  cases h : t.infer Γ (.forTerm Γ t) with
  | ok i => exact congrArg Except.ok (infer_sound (fun _ => mem_taken_forTerm) hc h).apply_type
  | error e => rfl

/-! ### Inference with another way of joining substitutions -/

/-- The two bind no variable in common, and to compose them overwrites nothing:
every entry of the first is still there, with the second applied to its type. -/
structure Substitution.Unmixed (σ τ : Substitution) : Prop where
  keys_disjoint : ∀ k ∈ σ.keys, k ∉ τ.keys
  kept : ∀ k A, σ.get? k = some A → (σ.compose τ).get? k = some (τ.apply A)

theorem Substitution.Unmixed.of_disjoint (h : ∀ k ∈ σ.keys, k ∉ τ.keys) : σ.Unmixed τ := by
  refine ⟨h, fun k A hk => ?_⟩
  have hnone := OrderedMap.get?_eq_none_iff.2 (h k (OrderedMap.mem_keys_of_get? hk))
  rw [get?_compose, hnone, hk, Option.none_or, Option.map_some]

def Join.Composes (join : Join) : Prop := ∀ σ τ, σ.Unmixed τ → join σ τ = .ok (σ.compose τ)

def Join.refusing (e : TypeError) : Join := fun σ τ =>
  if ∀ k ∈ σ.keys, k ∉ τ.keys then .ok (σ.compose τ) else .error e

theorem Join.composes_refusing (e : TypeError) : (refusing e).Composes :=
  fun _ _ h => if_pos h.keys_disjoint

/-! ### Nothing is ever overwritten -/

variable {join : Join}

/-- The inference of a further part in a current context: composing what it has
learned with what is known overwrites nothing. -/
theorem Progress.visit (p : Progress xs s σ s') (hΔ : Current xs s σ s' Δ.tyVars)
    (hu : u.Concrete) (h : u.infer Δ s' = .ok j) :
    σ.Unmixed j.learned ∧ (∀ y ∈ s'.taken, y ∈ j.supply.taken) ∧
      Progress xs s (σ.compose j.learned) j.supply ∧
      Current xs s (σ.compose j.learned) j.supply j.type.vars := by
  have sj := infer_sound (p.current_taken hΔ) hu h
  exact ⟨.of_disjoint (p.keys_disjoint hΔ sj.progress), sj.progress.taken_mono,
    p.trans hΔ sj.progress, p.current_trans hΔ sj.progress sj.current⟩

namespace Join.Composes

theorem join_bind {α : Type} (hj : join.Composes) (h : σ.Unmixed τ)
    (f : Substitution → Except TypeError α) : (join σ τ >>= f) = f (σ.compose τ) := by
  rw [hj σ τ h]
  rfl

theorem equate (hj : join.Composes) (p : Progress xs s σ s') (hl : Current xs s σ s' l.vars)
    (hr : Current xs s σ s' r.vars) : σ.equateBy join l r = σ.equate l r := by
  rw [Substitution.equate, Substitution.equateBy, Substitution.equateBy]
  cases hτ : l.unify r with
  | ok τ =>
      have hboth := hl.append hr
      have q := Progress.of_unify (p.current_taken hboth) hτ
      exact hj σ τ (.of_disjoint (p.keys_disjoint hboth q))
  | error clash => rfl

theorem equate_apply (hj : join.Composes) (p : Progress xs s σ s')
    (hA : ∀ y ∈ A.vars, y ∈ known xs s s') (hr : Current xs s σ s' r.vars) :
    σ.equateBy join (σ.apply A) r = σ.equate (σ.apply A) r :=
  hj.equate p (p.current_apply hA) hr

theorem element (hj : join.Composes) (p : Progress xs s i.learned i.supply)
    (hi : Current xs s i.learned i.supply i.type.vars) : i.elementBy join = i.element := by
  rw [Inferred.element, Inferred.elementBy, Inferred.elementBy,
    hj.equate (r := .list (.var i.supply.draw.1)) p.draw (Progress.current_draw hi)
      p.current_drawn]

end Join.Composes

/-- Inference asks of a way of joining no more than that it composes where
nothing can be overwritten. -/
theorem inferBy_eq (hj : join.Composes) (hΓ : ∀ y ∈ Γ.tyVars, y ∈ s.taken) (hc : t.Concrete) :
    t.inferBy join Γ s = t.infer Γ s := by
  -- up to each join both computations are the same, and what they have found so
  -- far is sound, so the join is one that overwrites nothing
  unfold Term.infer
  induction t generalizing Γ s with
  | bool | int | string | unit | nil | var => rfl
  | isZero t ih =>
      rw [Term.inferBy, Term.inferBy, ih hΓ hc]
      refine bind_congr_ok fun i hi => ?_
      have si : i.Sound Γ s t := infer_sound hΓ hc hi
      rw [hj.equate si.progress si.current (by simp [Current, Ty.vars])]
  | isEmpty l ih | tail l ih =>
      rw [Term.inferBy, Term.inferBy, ih hΓ hc]
      refine bind_congr_ok fun i hi => ?_
      have si : i.Sound Γ s l := infer_sound hΓ hc hi
      rw [hj.element si.progress si.current]
  | head l ih =>
      rw [Term.inferBy, Term.inferBy, ih hΓ hc]
      refine bind_congr_ok fun i hi => ?_
      have si : i.Sound Γ s l := infer_sound hΓ hc hi
      exact hj.element si.progress si.current
  | ascribe t ty ih =>
      obtain ⟨hty, ht⟩ := hc.ascribe
      rw [Term.inferBy, Term.inferBy, ih hΓ ht]
      refine bind_congr_ok fun i hi => ?_
      have si := infer_sound hΓ ht hi
      have hknown : ∀ y ∈ ty.vars, y ∈ known Γ.tyVars s i.supply := by
        simp [show ty.vars = [] from hty]
      rw [hj.equate_apply si.progress hknown si.current]
  | abs x b ih =>
      have hparam := Progress.current_param hΓ (fun _ hy => hy) x
      have htaken := (Progress.refl hΓ).draw.current_taken hparam
      rw [Term.inferBy, Term.inferBy, ih htaken hc]
  | wildcard b ih =>
      rw [Term.inferBy, Term.inferBy, ih (fun y hy => by simp [hΓ y hy]) hc]
  | app f a ihf iha =>
      obtain ⟨hf, ha⟩ := hc.pair rfl
      rw [Term.inferBy, Term.inferBy, ihf hΓ hf]
      refine bind_congr_ok fun i hi => ?_
      have si := infer_sound hΓ hf hi
      have hcontext := si.progress.current_context fun _ hy => hy
      rw [iha (si.progress.current_taken hcontext) ha]
      refine bind_congr_ok fun j hj' => ?_
      obtain ⟨hunmixed, hlater, p, carg⟩ := si.progress.visit hcontext ha hj'
      have hfn : ∀ y ∈ i.type.vars, y ∈ known Γ.tyVars s j.supply.draw.2 :=
        si.current.known_later fun y hy => by simp [hlater y hy]
      have hresult := (Progress.current_draw carg).append p.current_drawn
      rw [hj.join_bind hunmixed, Join.composition_bind]
      simp only [hj.equate_apply (r := .arrow j.type (.var j.supply.draw.1)) p.draw hfn hresult]
  | add l r ihl ihr =>
      obtain ⟨hl, hr⟩ := hc.pair rfl
      rw [Term.inferBy, Term.inferBy, ihl hΓ hl]
      refine bind_congr_ok fun i hi => ?_
      have si := infer_sound hΓ hl hi
      have hcontext := si.progress.current_context fun _ hy => hy
      rw [ihr (si.progress.current_taken hcontext) hr]
      refine bind_congr_ok fun j hj' => ?_
      obtain ⟨hunmixed, hlater, p, cright⟩ := si.progress.visit hcontext hr hj'
      have hint {σ : Substitution} : Current Γ.tyVars s σ j.supply Ty.int.vars := by
        simp [Current, Ty.vars]
      have hleft := si.current.known_later hlater
      rw [hj.join_bind hunmixed, Join.composition_bind, hj.equate_apply p hleft hint]
      refine bind_congr_ok fun ρ hρ => ?_
      obtain ⟨p, -⟩ := p.equate_apply hleft hint hρ
      rw [hj.equate_apply p cright.known hint]
  | cons hd tl ihh iht =>
      obtain ⟨hh, ht⟩ := hc.pair rfl
      rw [Term.inferBy, Term.inferBy, ihh hΓ hh]
      refine bind_congr_ok fun i hi => ?_
      have si := infer_sound hΓ hh hi
      have hcontext := si.progress.current_context fun _ hy => hy
      rw [iht (si.progress.current_taken hcontext) ht]
      refine bind_congr_ok fun j hj' => ?_
      obtain ⟨hunmixed, hlater, p, ctail⟩ := si.progress.visit hcontext ht hj'
      have hhead := p.current_apply (si.current.known_later hlater)
      rw [hj.join_bind hunmixed, Join.composition_bind, hj.equate (l := .list _) p hhead ctail]
  | cond c a b ihc iha ihb =>
      obtain ⟨hca, hb⟩ := hc.pair (u := .app c a) rfl
      obtain ⟨hc, ha⟩ := hca.pair rfl
      rw [Term.inferBy, Term.inferBy, ihc hΓ hc]
      refine bind_congr_ok fun i hi => ?_
      have si := infer_sound hΓ hc hi
      have hbool : Current Γ.tyVars s i.learned i.supply Ty.bool.vars := by
        simp [Current, Ty.vars]
      rw [hj.equate si.progress si.current hbool]
      refine bind_congr_ok fun ρ hρ => ?_
      obtain ⟨p, -⟩ := si.progress.equate si.current hbool hρ
      have hcontext := p.current_context fun _ hy => hy
      rw [iha (p.current_taken hcontext) ha]
      refine bind_congr_ok fun j hj' => ?_
      obtain ⟨hunmixed, -, p, cyes⟩ := p.visit hcontext ha hj'
      have hcontext := p.current_context fun _ hy => hy
      rw [hj.join_bind hunmixed, Join.composition_bind, ihb (p.current_taken hcontext) hb]
      refine bind_congr_ok fun k hk => ?_
      obtain ⟨hunmixed, hlater, p, cno⟩ := p.visit hcontext hb hk
      rw [hj.join_bind hunmixed, Join.composition_bind,
        hj.equate_apply p (cyes.known_later hlater) cno]
  | letIn x e b ihe ihb =>
      obtain ⟨he, hb⟩ := hc.pair rfl
      rw [Term.inferBy, Term.inferBy, ihe hΓ he]
      refine bind_congr_ok fun i hi => ?_
      have si := infer_sound hΓ he hi
      have hbody := Progress.current_insert (x := x)
        (si.progress.current_context fun _ hy => hy) si.current
      rw [ihb (si.progress.current_taken hbody) hb]
      refine bind_congr_ok fun j hj' => ?_
      rw [hj.join_bind (si.progress.visit hbody hb hj').1, Join.composition_bind]

/-- The invariant of inference. Where no type variable is written in the term
and those of the context are taken, every result keeps what a result has to
keep, no composition on the way to a result or an error overwrites anything,
and the type of a whole term is the one found for it, as it is. -/
theorem infer_invariant (hc : t.Concrete) (hΓ : ∀ y ∈ Γ.tyVars, y ∈ s.taken) :
    (∀ i, t.infer Γ s = .ok i → i.Invariant Γ s) ∧
      (∀ join : Join, join.Composes → t.inferBy join Γ s = t.infer Γ s) ∧
      t.typecheck Γ = (t.infer Γ (.forTerm Γ t)).map Inferred.type :=
  ⟨fun _ hi => (infer_sound hΓ hc hi).invariant, fun _ hj => inferBy_eq hj hΓ hc,
    typecheck_eq_map hc⟩

/-- Something is learned about two variables of the context, in two steps. -/
theorem infer_invariant_applied :
    let t : Term := .app (.var "f") (.isZero (.var "n"))
    let Γ : Context := .ofList [("f", .var "a"), ("n", .var "b")]
    let s := NameSupply.forTerm Γ t
    let i : Inferred := ⟨.var "α", .ofList [("b", .int), ("a", .arrow .bool (.var "α"))],
      ⟨["a", "b", "α"], 1⟩⟩
    (t.Concrete ∧ ∀ y ∈ Γ.tyVars, y ∈ s.taken) ∧
      t.infer Γ s = .ok i ∧ i.Invariant Γ s ∧
      (∀ e, t.inferBy (.refusing e) Γ s = .ok i) ∧ t.typecheck Γ = .ok (.var "α") := by
  intro t Γ s i
  have hc : t.Concrete := by decide
  have hΓ : ∀ y ∈ Γ.tyVars, y ∈ s.taken := by decide
  have found : t.infer Γ s = .ok i := by cbv
  obtain ⟨invariant, unmixed, typecheck⟩ := infer_invariant hc hΓ
  refine ⟨⟨hc, hΓ⟩, found, invariant i found, fun e => ?_, ?_⟩
  · rw [unmixed _ (Join.composes_refusing e), found]
  · rw [typecheck, found]
    rfl

/-- With a variable written in two ascriptions it does, wherever two parts meet. -/
example (e : TypeError) :
    let one : Term := .ascribe (.int 1) (.var "a")
    let two : Term := .ascribe (.int 2) (.var "a")
    let ts : List Term := [.add one two, .app (.wildcard one) two, .cons one (.cons two .nil),
      .cond (.isZero one) two (.int 3), .cond (.bool true) one two, .letIn "x" one two]
    ts.map (fun t => t.inferBy (.refusing e) .empty (.forTerm .empty t)) =
      List.replicate 6 (.error e) := by
  cbv

end TypedLambda
