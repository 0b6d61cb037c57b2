import Mathlib
import TypedLambda.Proofs.InferenceState
import TypedLambda.Proofs.Judgement

/-!
Inference is sound: what it finds is a typing of the term.

The statement that goes through the induction speaks of all solutions at
once. Every assignment that solves what has been learned types the term,
in the context and with the found type under that assignment. For each form
of term there is a lemma that makes its result from the results for its
parts. The assignment is put into the ascriptions as well, so the statement
holds of every term whose parts share no written type variable
(`infer_typing`). In a term without type variables there is nothing to put
in, and the typing is one of the term itself (`infer_sound`). Since what has
been learned is in solved form, it is its own solution, and that gives the
typing of the found type itself (`typecheck_hasType`).
-/

namespace TypedLambda

variable {xs ys zs : List Name} {Γ : Context} {s s' : NameSupply}
  {σ τ ρ ρ' : Substitution} {t u : Term} {i j k e : Inferred}

/-- An inference that was told of the names `xs` keeps the invariant, finds a
type about which nothing more is known, and gives a typing under each of its
solutions. -/
structure Inferred.Typing (xs : List Name) (Γ : Context) (s : NameSupply) (t : Term)
    (i : Inferred) : Prop where
  progress : Progress xs s i.learned i.supply
  current : Current xs s i.learned i.supply i.type.vars
  hasType (θ : Assignment) : θ.Solves i.learned →
    HasType (Γ.instantiate θ) (t.instantiate θ) (i.type.instantiate θ)

/-- The inference of a further part, in the context to which what is known
has been applied. -/
theorem Progress.next (p : Progress xs s σ s') (hy : Current xs s σ s' ys)
    (tj : j.Typing ys (σ.applyContext Γ) s' u) :
    Progress xs s (σ.compose j.learned) j.supply ∧
      Current xs s (σ.compose j.learned) j.supply j.type.vars ∧
      ∀ θ : Assignment, θ.Solves (σ.compose j.learned) →
        θ.Solves σ ∧ HasType (Γ.instantiate θ) (u.instantiate θ) (j.type.instantiate θ) := by
  refine ⟨p.trans hy tj.progress, p.current_trans hy tj.progress tj.current, fun θ hθ => ?_⟩
  obtain ⟨hσ, hlearned⟩ := (p.solves_trans hy tj.progress).1 hθ
  have hu := tj.hasType θ hlearned
  rw [Context.instantiate_applyContext hσ] at hu
  exact ⟨hσ, hu⟩

/-! ### One lemma for each form of term -/

namespace Inferred.Typing

theorem widen (ti : i.Typing xs Γ s t) (hx : ∀ y ∈ xs, y ∈ zs) (hz : ∀ y ∈ zs, y ∈ s.taken) :
    i.Typing zs Γ s t :=
  ⟨ti.progress.widen hx hz, ti.current.widen hx, ti.hasType⟩

/-- A term without parts: nothing is learned, and its type speaks of the
names in play only. -/
theorem leaf {A : Ty} (hx : ∀ y ∈ xs, y ∈ s.taken) (hA : ∀ y ∈ A.vars, y ∈ xs)
    (h : ∀ θ : Assignment, HasType (Γ.instantiate θ) (t.instantiate θ) (A.instantiate θ)) :
    Typing xs Γ s t ⟨A, .empty, s⟩ :=
  ⟨.refl hx, Progress.current_refl hA, fun θ _ => h θ⟩

theorem isZero (ti : i.Typing xs Γ s t) (hρ : i.learned.equate i.type .int = .ok ρ) :
    Typing xs Γ s (.isZero t) ⟨.bool, ρ, i.supply⟩ := by
  obtain ⟨p, hsolves⟩ := ti.progress.equate ti.current (by simp [Current, Ty.vars]) hρ
  refine ⟨p, by simp [Current, Ty.vars], fun θ hθ => ?_⟩
  obtain ⟨hlearned, htype⟩ := hsolves θ hθ
  have ht := ti.hasType θ hlearned
  rw [htype] at ht
  exact .isZero ht

theorem add (ti : i.Typing xs Γ s t) (hy : Current xs s i.learned i.supply ys)
    (tj : j.Typing ys (i.learned.applyContext Γ) i.supply u)
    (hσ : i.learned.compose j.learned = σ) (hρ : σ.equate (σ.apply i.type) .int = .ok ρ)
    (hρ' : ρ.equate (ρ.apply j.type) .int = .ok ρ') :
    Typing xs Γ s (.add t u) ⟨.int, ρ', j.supply⟩ := by
  subst hσ
  obtain ⟨pj, cj, hright⟩ := ti.progress.next hy tj
  have hleft := ti.current.known_later tj.progress.taken_mono
  obtain ⟨p, hl⟩ := pj.equate_apply hleft (by simp [Current, Ty.vars]) hρ
  obtain ⟨p', hr⟩ := p.equate_apply cj.known (by simp [Current, Ty.vars]) hρ'
  refine ⟨p', by simp [Current, Ty.vars], fun θ hθ => ?_⟩
  -- the solution is taken back through the steps, each of which says one thing about it
  obtain ⟨hθ, hu⟩ := hr θ hθ
  obtain ⟨hθ, ht⟩ := hl θ hθ
  obtain ⟨hθ, tu⟩ := hright θ hθ
  have tt := ti.hasType θ hθ
  rw [ht] at tt
  rw [hu] at tu
  exact .add tt tu

theorem ascribe {ty : Ty} (ti : i.Typing xs Γ s t) (hx : ∀ y ∈ ty.vars, y ∈ xs)
    (hρ : i.learned.equate (i.learned.apply ty) i.type = .ok ρ) :
    Typing xs Γ s (.ascribe t ty) ⟨ρ.apply ty, ρ, i.supply⟩ := by
  have hty : ∀ y ∈ ty.vars, y ∈ known xs s i.supply := fun y hy =>
    mem_known.2 (.inl (hx y hy))
  obtain ⟨p, hsolves⟩ := ti.progress.equate_apply hty ti.current hρ
  refine ⟨p, p.current_apply hty, fun θ hθ => ?_⟩
  rw [hθ.instantiate_apply]
  obtain ⟨hθ, htype⟩ := hsolves θ hθ
  have ht := ti.hasType θ hθ
  rw [← htype] at ht
  exact .ascribe ht

theorem cond {a b : Term} (ti : i.Typing xs Γ s t)
    (hρ : i.learned.equate i.type .bool = .ok ρ) (hy : Current xs s ρ i.supply ys)
    (tj : j.Typing ys (ρ.applyContext Γ) i.supply a) (hσ : ρ.compose j.learned = σ)
    (hz : Current xs s σ j.supply zs) (tk : k.Typing zs (σ.applyContext Γ) j.supply b)
    (hτ : σ.compose k.learned = τ) (hρ' : τ.equate (τ.apply j.type) k.type = .ok ρ') :
    Typing xs Γ s (.cond t a b) ⟨ρ'.apply j.type, ρ', k.supply⟩ := by
  subst hσ hτ
  obtain ⟨pi, htest⟩ := ti.progress.equate ti.current (by simp [Current, Ty.vars]) hρ
  obtain ⟨pj, cj, hyes⟩ := pi.next hy tj
  obtain ⟨pk, ck, hno⟩ := pj.next hz tk
  have hknown := cj.known_later tk.progress.taken_mono
  obtain ⟨p, hsame⟩ := pk.equate_apply hknown ck hρ'
  refine ⟨p, p.current_apply hknown, fun θ hθ => ?_⟩
  rw [hθ.instantiate_apply]
  obtain ⟨hθ, heq⟩ := hsame θ hθ
  obtain ⟨hθ, tb⟩ := hno θ hθ
  obtain ⟨hθ, ta⟩ := hyes θ hθ
  obtain ⟨hθ, hbool⟩ := htest θ hθ
  have tc := ti.hasType θ hθ
  rw [hbool] at tc
  rw [← heq] at tb
  exact .cond tc ta tb

theorem abs {x : Name} (hx : ∀ y ∈ xs, y ∈ s.taken) (hy : Current xs s .empty s.draw.2 ys)
    (ti : i.Typing ys (Γ.insert x (.var s.draw.1)) s.draw.2 t) :
    Typing xs Γ s (.abs x t)
      ⟨.arrow (i.learned.apply (.var s.draw.1)) i.type, i.learned, i.supply⟩ := by
  have p := Progress.refl hx
  have pb := p.draw.trans hy ti.progress
  have cb := p.draw.current_trans hy ti.progress ti.current
  rw [empty_compose] at pb cb
  have hparam := pb.current_apply (p.current_drawn.known_later ti.progress.taken_mono)
  refine ⟨pb, hparam.append cb, fun θ hθ => ?_⟩
  have tb := ti.hasType θ hθ
  rw [Context.instantiate_insert] at tb
  rw [Ty.instantiate, hθ.instantiate_apply]
  exact .abs tb

theorem wildcard (hx : ∀ y ∈ xs, y ∈ s.taken) (ti : i.Typing xs Γ s.draw.2 t) :
    Typing xs Γ s (.wildcard t) ⟨.arrow (.var s.draw.1) i.type, i.learned, i.supply⟩ := by
  have p := Progress.refl hx
  have hcurrent : Current xs s .empty s.draw.2 xs :=
    Progress.current_draw (Progress.current_refl fun _ h => h)
  have pb := p.draw.trans hcurrent ti.progress
  have cb := p.draw.current_trans hcurrent ti.progress ti.current
  rw [empty_compose] at pb cb
  -- the body never hears of the drawn name, so the name needs no substitution
  have hparam : Current xs s i.learned i.supply (Ty.var s.draw.1).vars := by
    intro y hy
    refine ⟨p.current_drawn.known_later ti.progress.taken_mono y hy, ?_⟩
    obtain rfl : y = s.draw.1 := by simpa [Ty.vars] using hy
    exact ti.progress.not_mem_keys (by simp) fun hy => s.draw_not_mem (hx _ hy)
  exact ⟨pb, hparam.append cb, fun θ hθ => .wildcard (ti.hasType θ hθ)⟩

theorem app (ti : i.Typing xs Γ s t) (hy : Current xs s i.learned i.supply ys)
    (tj : j.Typing ys (i.learned.applyContext Γ) i.supply u)
    (hσ : i.learned.compose j.learned = σ)
    (hρ : σ.equate (σ.apply i.type) (.arrow j.type (.var j.supply.draw.1)) = .ok ρ) :
    Typing xs Γ s (.app t u) ⟨ρ.apply (.var j.supply.draw.1), ρ, j.supply.draw.2⟩ := by
  subst hσ
  obtain ⟨pj, cj, harg⟩ := ti.progress.next hy tj
  have hdrawn := pj.current_drawn
  have hfn : ∀ y ∈ i.type.vars, y ∈ known xs s j.supply.draw.2 :=
    ti.current.known_later fun y hy => by simp [tj.progress.taken_mono y hy]
  have hresult : Current xs s (i.learned.compose j.learned) j.supply.draw.2
      (Ty.arrow j.type (.var j.supply.draw.1)).vars :=
    (Progress.current_draw cj).append hdrawn
  obtain ⟨p, hsolves⟩ := pj.draw.equate_apply hfn hresult hρ
  refine ⟨p, p.current_apply hdrawn.known, fun θ hθ => ?_⟩
  rw [hθ.instantiate_apply]
  obtain ⟨hθ, htype⟩ := hsolves θ hθ
  obtain ⟨hθ, ta⟩ := harg θ hθ
  have tf := ti.hasType θ hθ
  rw [htype] at tf
  exact .app tf ta

theorem cons (ti : i.Typing xs Γ s t) (hy : Current xs s i.learned i.supply ys)
    (tj : j.Typing ys (i.learned.applyContext Γ) i.supply u)
    (hσ : i.learned.compose j.learned = σ)
    (hρ : σ.equate (.list (σ.apply i.type)) j.type = .ok ρ) :
    Typing xs Γ s (.cons t u) ⟨ρ.apply j.type, ρ, j.supply⟩ := by
  subst hσ
  obtain ⟨pj, cj, htail⟩ := ti.progress.next hy tj
  have helem := pj.current_apply (ti.current.known_later tj.progress.taken_mono)
  obtain ⟨p, hsolves⟩ := pj.equate (l := .list _) helem cj hρ
  refine ⟨p, p.current_apply cj.known, fun θ hθ => ?_⟩
  rw [hθ.instantiate_apply]
  obtain ⟨hθ, htype⟩ := hsolves θ hθ
  obtain ⟨hlearned, tt⟩ := htail θ hθ
  have th := ti.hasType θ hlearned
  rw [Ty.instantiate, hθ.instantiate_apply] at htype
  rw [← htype] at tt ⊢
  exact .cons th tt

theorem element (ti : i.Typing xs Γ s t) (h : i.element = .ok e) :
    Progress xs s e.learned e.supply ∧ Current xs s e.learned e.supply e.type.vars ∧
      ∀ θ : Assignment, θ.Solves e.learned →
        HasType (Γ.instantiate θ) (t.instantiate θ) (.list (e.type.instantiate θ)) := by
  obtain ⟨ρ, hρ, rfl⟩ := Inferred.element_eq_ok.1 h
  have hdrawn := ti.progress.current_drawn
  have hlist : Current xs s i.learned i.supply.draw.2
      (Ty.list (.var i.supply.draw.1)).vars := hdrawn
  obtain ⟨p, hsolves⟩ := ti.progress.draw.equate (Progress.current_draw ti.current) hlist hρ
  refine ⟨p, p.current_apply hdrawn.known, fun θ hθ => ?_⟩
  obtain ⟨hlearned, htype⟩ := hsolves θ hθ
  have ht := ti.hasType θ hlearned
  rw [htype] at ht
  rwa [hθ.instantiate_apply]

theorem letIn {x : Name} (ti : i.Typing xs Γ s t) (hy : Current xs s i.learned i.supply ys)
    (tj : j.Typing ys ((i.learned.applyContext Γ).insert x i.type) i.supply u) :
    Typing xs Γ s (.letIn x t u) ⟨j.type, i.learned.compose j.learned, j.supply⟩ := by
  have pi := ti.progress
  refine ⟨pi.trans hy tj.progress, pi.current_trans hy tj.progress tj.current, fun θ hθ => ?_⟩
  obtain ⟨hlearned, hθ⟩ := (pi.solves_trans hy tj.progress).1 hθ
  have tb := tj.hasType θ hθ
  rw [Context.instantiate_insert, Context.instantiate_applyContext hlearned] at tb
  exact .letIn (ti.hasType θ hlearned) tb

end Inferred.Typing

theorem infer_typing (r : Ready Γ s t) (hsep : t.Separate) (h : t.infer Γ s = .ok i) :
    i.Typing (inPlay Γ t) Γ s t := by
  induction t generalizing Γ s i with
  | bool b =>
      obtain rfl := Except.ok.inj h
      exact .leaf r.taken (by simp [Ty.vars]) fun _ => .bool
  | int n =>
      obtain rfl := Except.ok.inj h
      exact .leaf r.taken (by simp [Ty.vars]) fun _ => .int
  | string t =>
      obtain rfl := Except.ok.inj h
      exact .leaf r.taken (by simp [Ty.vars]) fun _ => .string
  | unit =>
      obtain rfl := Except.ok.inj h
      exact .leaf r.taken (by simp [Ty.vars]) fun _ => .unit
  | nil =>
      obtain rfl := Except.ok.inj h
      have p := Progress.refl r.taken
      exact ⟨p.draw, p.current_drawn, fun _ _ => .nil⟩
  | var x =>
      obtain ⟨A, hA, rfl⟩ := Term.infer_var_eq_ok.1 h
      have hvars : ∀ y ∈ A.vars, y ∈ inPlay Γ (.var x) := fun y hy =>
        mem_inPlay.2 (.inl (Context.mem_tyVars.2 ⟨x, A, hA, hy⟩))
      refine .leaf r.taken hvars fun θ => .var ?_
      rw [Context.get?_instantiate, hA, Option.map_some]
  | isZero t ih =>
      obtain ⟨i, hi, ρ, hρ, rfl⟩ := Term.infer_isZero_eq_ok.1 h
      exact (ih ⟨r.taken, r.apart⟩ hsep hi).isZero hρ
  | add l u ihl ihu =>
      obtain ⟨hl, hu, hd⟩ := hsep
      obtain ⟨i, hi, j, hj, ρ, hρ, ρ', hρ', rfl⟩ := Term.infer_add_eq_ok.1 h
      have ti := ihl (r.pair rfl).1 hl hi
      obtain ⟨ru, hcurrent⟩ := r.second rfl hd ti.progress ti.progress.current_inPlay
      exact (ti.widen (fun _ => inPlay_left rfl) r.taken).add hcurrent (ihu ru hu hj) rfl hρ hρ'
  | ascribe t ty ih =>
      obtain ⟨i, hi, ρ, hρ, rfl⟩ := Term.infer_ascribe_eq_ok.1 h
      have rt : Ready Γ s t := r.mono fun _ hy => List.mem_append_right _ hy
      have hinner : ∀ y ∈ inPlay Γ t, y ∈ inPlay Γ (.ascribe t ty) := fun y hy =>
        mem_inPlay.2 ((mem_inPlay.1 hy).imp_right (List.mem_append_right _))
      have hty : ∀ y ∈ ty.vars, y ∈ inPlay Γ (.ascribe t ty) := fun y hy =>
        mem_inPlay.2 (.inr (List.mem_append_left _ hy))
      exact ((ih rt hsep hi).widen hinner r.taken).ascribe hty hρ
  | cond c a b ihc iha ihb =>
      obtain ⟨hc, ha, hb, hca, hcb, hab⟩ := hsep
      have rca := (r.pair (t := .app c a) rfl).1
      obtain ⟨i, hi, ρ, hρ, j, hj, k, hk, ρ', hρ', rfl⟩ := Term.infer_cond_eq_ok.1 h
      have ti := ihc (rca.pair rfl).1 hc hi
      obtain ⟨pi, -⟩ := ti.progress.equate ti.current (by simp [Current, Ty.vars]) hρ
      obtain ⟨ra, hyes⟩ := rca.second rfl hca pi pi.current_inPlay
      have tj := iha ra ha hj
      have pj := (pi.widen (fun _ => inPlay_left rfl) rca.taken).trans hyes tj.progress
      obtain ⟨rb, hno⟩ := r.second (t := .app c a) rfl (Term.apart_app.2 ⟨hcb, hab⟩) pj
        pj.current_inPlay
      have hleft : ∀ y ∈ inPlay Γ (.app c a), y ∈ inPlay Γ (.cond c a b) := fun _ => inPlay_left rfl
      have tc := ti.widen (fun _ hy => hleft _ (inPlay_left rfl hy)) r.taken
      exact tc.cond hρ (hyes.widen hleft) tj rfl hno (ihb rb hb hk) rfl hρ'
  | abs x b ih =>
      obtain ⟨i, hi, rfl⟩ := Term.infer_abs_eq_ok.1 h
      have rb : Ready Γ s b := ⟨r.taken, r.apart⟩
      obtain ⟨ready, hbody⟩ := rb.body x
      exact .abs r.taken hbody (ih ready hsep hi)
  | wildcard b ih =>
      obtain ⟨i, hi, rfl⟩ := Term.infer_wildcard_eq_ok.1 h
      have rb : Ready Γ s b := ⟨r.taken, r.apart⟩
      exact .wildcard r.taken (ih rb.draw hsep hi)
  | app f a ihf iha =>
      obtain ⟨hf, ha, hd⟩ := hsep
      obtain ⟨i, hi, j, hj, ρ, hρ, rfl⟩ := Term.infer_app_eq_ok.1 h
      have ti := ihf (r.pair rfl).1 hf hi
      obtain ⟨ra, hcurrent⟩ := r.second rfl hd ti.progress ti.progress.current_inPlay
      exact (ti.widen (fun _ => inPlay_left rfl) r.taken).app hcurrent (iha ra ha hj) rfl hρ
  | cons hd tl ihh iht =>
      obtain ⟨hh, ht, hd⟩ := hsep
      obtain ⟨i, hi, j, hj, ρ, hρ, rfl⟩ := Term.infer_cons_eq_ok.1 h
      have ti := ihh (r.pair rfl).1 hh hi
      obtain ⟨rt, hcurrent⟩ := r.second rfl hd ti.progress ti.progress.current_inPlay
      exact (ti.widen (fun _ => inPlay_left rfl) r.taken).cons hcurrent (iht rt ht hj) rfl hρ
  | isEmpty l ih =>
      obtain ⟨i, hi, e, he, rfl⟩ := Term.infer_isEmpty_eq_ok.1 h
      obtain ⟨p, -, hlist⟩ := (ih ⟨r.taken, r.apart⟩ hsep hi).element he
      exact ⟨p, by simp [Current, Ty.vars], fun θ hθ => .isEmpty (hlist θ hθ)⟩
  | head l ih =>
      obtain ⟨i, hi, he⟩ := Term.infer_head_eq_ok.1 h
      obtain ⟨p, hcurrent, hlist⟩ := (ih ⟨r.taken, r.apart⟩ hsep hi).element he
      exact ⟨p, hcurrent, fun θ hθ => .head (hlist θ hθ)⟩
  | tail l ih =>
      obtain ⟨i, hi, e, he, rfl⟩ := Term.infer_tail_eq_ok.1 h
      obtain ⟨p, hcurrent, hlist⟩ := (ih ⟨r.taken, r.apart⟩ hsep hi).element he
      exact ⟨p, hcurrent, fun θ hθ => .tail (hlist θ hθ)⟩
  | letIn x e b ihe ihb =>
      obtain ⟨he, hb, hd⟩ := hsep
      obtain ⟨i, hi, j, hj, rfl⟩ := Term.infer_letIn_eq_ok.1 h
      have ti := ihe (r.pair rfl).1 he hi
      obtain ⟨rb, hcurrent⟩ := r.second rfl hd ti.progress
        (Progress.current_insert ti.progress.current_inPlay ti.current)
      exact (ti.widen (fun _ => inPlay_left rfl) r.taken).letIn hcurrent (ihb rb hb hj)

/-! ### Terms without type variables -/

theorem Term.Concrete.ascribe {ty : Ty} (h : (Term.ascribe t ty).Concrete) :
    ty.Ground ∧ t.Concrete := by
  simpa [Concrete, ascribedVars, ascribed, Ty.Ground] using h

structure Inferred.Sound (Γ : Context) (s : NameSupply) (t : Term) (i : Inferred) : Prop where
  progress : Progress Γ.tyVars s i.learned i.supply
  current : Current Γ.tyVars s i.learned i.supply i.type.vars
  hasType (θ : Assignment) :
    θ.Solves i.learned → HasType (Γ.instantiate θ) t (i.type.instantiate θ)

theorem Progress.taken_context (p : Progress Γ.tyVars s σ s') :
    ∀ y ∈ (σ.applyContext Γ).tyVars, y ∈ s'.taken :=
  p.current_taken (p.current_context fun _ hy => hy)

theorem Inferred.Sound.next (sj : j.Sound (σ.applyContext Γ) s' u)
    (p : Progress Γ.tyVars s σ s') :
    Progress Γ.tyVars s (σ.compose j.learned) j.supply ∧
      Current Γ.tyVars s (σ.compose j.learned) j.supply j.type.vars := by
  have hcontext := p.current_context fun _ hy => hy
  exact ⟨p.trans hcontext sj.progress, p.current_trans hcontext sj.progress sj.current⟩

theorem infer_sound (hΓ : ∀ y ∈ Γ.tyVars, y ∈ s.taken) (hc : t.Concrete)
    (h : t.infer Γ s = .ok i) : i.Sound Γ s t := by
  have ti := infer_typing (.of_concrete hc hΓ) hc.separate h
  rw [inPlay_of_concrete hc] at ti
  refine ⟨ti.progress, ti.current, fun θ hθ => ?_⟩
  rw [← hc.instantiate θ]
  exact ti.hasType θ hθ

/-! ### The type of a whole term -/

theorem Inferred.Sound.hasType_learned (hi : i.Sound Γ s t) :
    HasType (Γ.instantiate i.learned.assignment) t (i.learned.apply i.type) := by
  rw [hi.progress.solved.apply_eq]
  exact hi.hasType _ hi.progress.solved.assignment_solves

theorem mem_taken_forTerm {y : Name} (hy : y ∈ Γ.tyVars) :
    y ∈ (NameSupply.forTerm Γ t).taken := by
  simp [NameSupply.forTerm, hy]

/-- The type that inference finds for a term without type variables in its
ascriptions is a type of the term, once some assignment has been put into
the context. -/
theorem typecheck_hasType {A : Ty} (hc : t.Concrete) (h : t.typecheck Γ = .ok A) :
    ∃ θ : Assignment, HasType (Γ.instantiate θ) t A := by
  obtain ⟨i, hi, rfl⟩ := Term.typecheck_eq_ok.1 h
  have si := infer_sound (fun _ => mem_taken_forTerm) hc hi
  exact ⟨i.learned.assignment, si.hasType_learned⟩

/-- A variable of the context has to stand for a function. -/
theorem typecheck_hasType_applied :
    (Term.app (.var "f") (.int 1)).typecheck (.single "f" (.var "a")) = .ok (.var "α") ∧
      ∃ θ : Assignment, HasType (Context.instantiate θ (.single "f" (.var "a")))
        (.app (.var "f") (.int 1)) (.var "α") := by
  have found : (Term.app (.var "f") (.int 1)).typecheck (.single "f" (.var "a")) =
      .ok (.var "α") := by cbv
  exact ⟨found, typecheck_hasType (by decide) found⟩

end TypedLambda
