import Mathlib.Logic.Function.Basic
import TypedLambda.Proofs.InferenceSoundness

/-!
Inference is complete, and finds principal types.

Given any typing of a term, under any assignment to the type variables of
its context, inference does not fail, and the assignment can be carried
along: every time a name is drawn, it is extended to that name by the type
that the typing has at this place. The extended assignment solves whatever
has been learned (`Follows`), because unification finds most general
solutions, and in the end it turns the type found into the type given
(`Covers`). Again there is one lemma for each form of term, and the
induction puts them together (`infer_complete`).
-/

namespace TypedLambda

variable {Γ : Context} {s s' : NameSupply} {σ τ ρ : Substitution} {t u : Term}
  {θ φ ψ χ : Assignment} {A B l r : Ty} {xs : List Name} {i j k : Inferred}

/-- The assignment `φ` continues `θ`, from the names taken at the start to
those drawn since, and solves what has been learned. -/
structure Follows (s : NameSupply) (θ : Assignment) (σ : Substitution) (φ : Assignment) :
    Prop where
  agrees : ∀ y ∈ s.taken, φ y = θ y
  solves : φ.Solves σ

theorem update_drawn {y : Name} (hy : y ∈ s.taken) (θ : Assignment) (A : Ty) :
    Function.update θ s.draw.1 A y = θ y := by
  refine Function.update_of_ne ?_ A θ
  rintro rfl
  exact s.draw_not_mem hy

theorem instantiate_update_drawn {B : Ty} (hB : ∀ y ∈ B.vars, y ∈ s.taken) (θ : Assignment)
    (A : Ty) : B.instantiate (Function.update θ s.draw.1 A) = B.instantiate θ :=
  Ty.instantiate_congr fun y hy => update_drawn (hB y hy) θ A

@[simp] theorem instantiate_update_self (θ : Assignment) (x : Name) (A : Ty) :
    (Ty.var x).instantiate (Function.update θ x A) = A := by
  rw [Ty.instantiate, Function.update_self]

namespace Follows

theorem refl (s : NameSupply) (θ : Assignment) : Follows s θ .empty θ :=
  ⟨fun _ _ => rfl, θ.solves_empty⟩

theorem instantiate_eq (f : Follows s θ σ φ) (hA : ∀ y ∈ A.vars, y ∈ s.taken) :
    A.instantiate φ = A.instantiate θ :=
  Ty.instantiate_congr fun y hy => f.agrees y (hA y hy)

/-- The next part is visited in a context that stands for the same. -/
theorem context_eq (f : Follows s θ σ φ) (hΓ : ∀ y ∈ Γ.tyVars, y ∈ s.taken) :
    (σ.applyContext Γ).instantiate φ = Γ.instantiate θ := by
  rw [Context.instantiate_applyContext f.solves]
  exact Context.instantiate_congr fun y hy => f.agrees y (hΓ y hy)

theorem trans (p : Progress xs s σ s') (f : Follows s θ σ φ) (g : Follows s' φ τ ψ) :
    Follows s θ (σ.compose τ) ψ where
  agrees y hy := (g.agrees y (p.taken_mono y hy)).trans (f.agrees y hy)
  solves := by
    refine Assignment.Solves.compose ?_ g.solves
    exact f.solves.congr p.within fun y hy => g.agrees y (p.taken_of_known hy)

/-- To a drawn name the assignment may be extended by any type. -/
theorem draw (p : Progress xs s σ s') (f : Follows s θ σ φ) (A : Ty) :
    Follows s θ σ (Function.update φ s'.draw.1 A) := by
  refine ⟨fun y hy => ?_, f.solves.congr p.within fun y hy => ?_⟩
  · exact (update_drawn (p.taken_mono y hy) φ A).trans (f.agrees y hy)
  · exact update_drawn (p.taken_of_known hy) φ A

theorem equate (f : Follows s θ σ φ) (h : l.instantiate φ = r.instantiate φ) :
    ∃ ρ, σ.equate l r = .ok ρ ∧ Follows s θ ρ φ := by
  obtain ⟨ρ, hρ, hsolves⟩ := exists_equate f.solves h
  exact ⟨ρ, hρ, f.agrees, hsolves⟩

theorem equate_apply (f : Follows s θ σ φ) (h : l.instantiate φ = r.instantiate φ) :
    ∃ ρ, σ.equate (σ.apply l) r = .ok ρ ∧ Follows s θ ρ φ :=
  f.equate ((f.solves.instantiate_apply l).trans h)

end Follows

/-- The inference of the term ends with the result `i`, and the result
covers its typing at `A` under `θ`: that assignment can be continued to `φ`,
which turns the type found into `A`. -/
structure Inferred.Covers (Γ : Context) (s : NameSupply) (t : Term) (θ : Assignment) (A : Ty)
    (i : Inferred) (φ : Assignment) : Prop where
  infer_eq : t.infer Γ s = .ok i
  sound : i.Sound Γ s t
  follows : Follows s θ i.learned φ
  type_eq : i.type.instantiate φ = A

/-! ### One lemma for each form of term -/

namespace Inferred.Covers

/-- What the inference finds covers a typing, if it follows from the start and
its type stands for the type given. -/
theorem of_infer (hΓ : ∀ y ∈ Γ.tyVars, y ∈ s.taken) (hc : t.Concrete)
    (hi : t.infer Γ s = .ok i) (f : Follows s θ i.learned φ) (hA : i.type.instantiate φ = A) :
    Covers Γ s t θ A i φ :=
  ⟨hi, infer_sound hΓ hc hi, f, hA⟩

theorem context_taken (ci : i.Covers Γ s t θ A φ) : ∀ y ∈ Γ.tyVars, y ∈ s.taken :=
  ci.sound.progress.start

theorem type_later (ci : i.Covers Γ s t θ A φ) (f : Follows i.supply φ σ ψ) :
    i.type.instantiate ψ = A := by
  rw [f.instantiate_eq (ci.sound.progress.current_taken ci.sound.current), ci.type_eq]

theorem isZero (hc : (Term.isZero t).Concrete) (ci : i.Covers Γ s t θ .int φ) :
    ∃ e ψ, Covers Γ s (.isZero t) θ .bool e ψ := by
  obtain ⟨ρ, hρ, f⟩ := ci.follows.equate (r := .int) ci.type_eq
  have found := Term.infer_isZero_eq_ok.2 ⟨i, ci.infer_eq, ρ, hρ, rfl⟩
  exact ⟨_, φ, .of_infer ci.context_taken hc found f rfl⟩

theorem add (hc : (Term.add t u).Concrete) (ci : i.Covers Γ s t θ .int φ)
    (cj : j.Covers (i.learned.applyContext Γ) i.supply u φ .int ψ) :
    ∃ e χ, Covers Γ s (.add t u) θ .int e χ := by
  have f := ci.follows.trans ci.sound.progress cj.follows
  obtain ⟨ρ, hρ, f⟩ := f.equate_apply (r := .int) (ci.type_later cj.follows)
  obtain ⟨ρ', hρ', f⟩ := f.equate_apply (r := .int) cj.type_eq
  have found := Term.infer_add_eq_ok.2 ⟨i, ci.infer_eq, j, cj.infer_eq, ρ, hρ, ρ', hρ', rfl⟩
  exact ⟨_, ψ, .of_infer ci.context_taken hc found f rfl⟩

theorem ascribe (hc : (Term.ascribe t A).Concrete) (ci : i.Covers Γ s t θ A φ) :
    ∃ e ψ, Covers Γ s (.ascribe t A) θ A e ψ := by
  have hA := Ty.instantiate_of_ground hc.ascribe.1 φ
  obtain ⟨ρ, hρ, f⟩ := ci.follows.equate_apply (hA.trans ci.type_eq.symm)
  have found := Term.infer_ascribe_eq_ok.2 ⟨i, ci.infer_eq, ρ, hρ, rfl⟩
  refine ⟨_, φ, .of_infer ci.context_taken hc found f ?_⟩
  rw [f.solves.instantiate_apply, hA]

theorem cond {a b : Term} (hc : (Term.cond t a b).Concrete) (ci : i.Covers Γ s t θ .bool φ)
    (hρ : i.learned.equate i.type .bool = .ok ρ) (f : Follows s θ ρ φ)
    (cj : j.Covers (ρ.applyContext Γ) i.supply a φ A ψ)
    (ck : k.Covers ((ρ.compose j.learned).applyContext Γ) j.supply b ψ A χ) :
    ∃ e χ, Covers Γ s (.cond t a b) θ A e χ := by
  obtain ⟨pi, -⟩ := ci.sound.progress.equate ci.sound.current (by simp [Current, Ty.vars]) hρ
  obtain ⟨pj, -⟩ := cj.sound.next pi
  have hyes := cj.type_later ck.follows
  have f := (f.trans pi cj.follows).trans pj ck.follows
  obtain ⟨ρ', hρ', f⟩ := f.equate_apply (hyes.trans ck.type_eq.symm)
  have found := Term.infer_cond_eq_ok.2
    ⟨i, ci.infer_eq, ρ, hρ, j, cj.infer_eq, k, ck.infer_eq, ρ', hρ', rfl⟩
  refine ⟨_, χ, .of_infer ci.context_taken hc found f ?_⟩
  rw [f.solves.instantiate_apply, hyes]

/-- What is found below the binder of a function follows from the start. -/
theorem follows_drawn (hΓ : ∀ y ∈ Γ.tyVars, y ∈ s.taken)
    (f : Follows s.draw.2 (Function.update θ s.draw.1 A) σ φ) :
    Follows s θ σ φ ∧ (Ty.var s.draw.1).instantiate φ = A := by
  have start := (Follows.refl s θ).draw (.refl hΓ) A
  refine ⟨⟨fun y hy => ?_, f.solves⟩, ?_⟩
  · exact (f.agrees y (by simp [hy])).trans (start.agrees y hy)
  · exact (f.instantiate_eq (by simp [Ty.vars])).trans (instantiate_update_self θ _ A)

theorem abs {x : Name} (hΓ : ∀ y ∈ Γ.tyVars, y ∈ s.taken) (hc : (Term.abs x t).Concrete)
    (ci : i.Covers (Γ.insert x (.var s.draw.1)) s.draw.2 t (Function.update θ s.draw.1 A) B φ) :
    ∃ e ψ, Covers Γ s (.abs x t) θ (.arrow A B) e ψ := by
  obtain ⟨f, hparam⟩ := follows_drawn hΓ ci.follows
  have found := (Term.infer_abs_eq_ok (x := x)).2 ⟨i, ci.infer_eq, rfl⟩
  refine ⟨_, φ, .of_infer hΓ hc found f ?_⟩
  rw [Ty.instantiate, f.solves.instantiate_apply, hparam, ci.type_eq]

theorem wildcard (hΓ : ∀ y ∈ Γ.tyVars, y ∈ s.taken) (hc : (Term.wildcard t).Concrete)
    (ci : i.Covers Γ s.draw.2 t (Function.update θ s.draw.1 A) B φ) :
    ∃ e ψ, Covers Γ s (.wildcard t) θ (.arrow A B) e ψ := by
  obtain ⟨f, hparam⟩ := follows_drawn hΓ ci.follows
  have found := Term.infer_wildcard_eq_ok.2 ⟨i, ci.infer_eq, rfl⟩
  refine ⟨_, φ, .of_infer hΓ hc found f ?_⟩
  rw [Ty.instantiate, hparam, ci.type_eq]

theorem app (hc : (Term.app t u).Concrete) (ci : i.Covers Γ s t θ (.arrow B A) φ)
    (cj : j.Covers (i.learned.applyContext Γ) i.supply u φ B ψ) :
    ∃ e χ, Covers Γ s (.app t u) θ A e χ := by
  obtain ⟨pj, hcurrent⟩ := cj.sound.next ci.sound.progress
  -- the name drawn for the result is to stand for the type that the result has
  have f := (ci.follows.trans ci.sound.progress cj.follows).draw pj A
  have hfn : i.type.instantiate (Function.update ψ j.supply.draw.1 A) = .arrow B A := by
    rw [instantiate_update_drawn fun y hy => cj.sound.progress.taken_mono y
      (ci.sound.progress.current_taken ci.sound.current y hy), ci.type_later cj.follows]
  have harg : (Ty.arrow j.type (.var j.supply.draw.1)).instantiate
      (Function.update ψ j.supply.draw.1 A) = .arrow B A := by
    rw [Ty.instantiate, instantiate_update_self,
      instantiate_update_drawn (pj.current_taken hcurrent), cj.type_eq]
  obtain ⟨ρ, hρ, f⟩ := f.equate_apply (hfn.trans harg.symm)
  have found := Term.infer_app_eq_ok.2 ⟨i, ci.infer_eq, j, cj.infer_eq, ρ, hρ, rfl⟩
  refine ⟨_, _, .of_infer ci.context_taken hc found f ?_⟩
  rw [f.solves.instantiate_apply, instantiate_update_self]

theorem cons (hc : (Term.cons t u).Concrete) (ci : i.Covers Γ s t θ A φ)
    (cj : j.Covers (i.learned.applyContext Γ) i.supply u φ (.list A) ψ) :
    ∃ e χ, Covers Γ s (.cons t u) θ (.list A) e χ := by
  have f := ci.follows.trans ci.sound.progress cj.follows
  have hhead : (Ty.list ((i.learned.compose j.learned).apply i.type)).instantiate ψ =
      .list A := by
    rw [Ty.instantiate, f.solves.instantiate_apply, ci.type_later cj.follows]
  obtain ⟨ρ, hρ, f⟩ := f.equate (hhead.trans cj.type_eq.symm)
  have found := Term.infer_cons_eq_ok.2 ⟨i, ci.infer_eq, j, cj.infer_eq, ρ, hρ, rfl⟩
  refine ⟨_, ψ, .of_infer ci.context_taken hc found f ?_⟩
  rw [f.solves.instantiate_apply, cj.type_eq]

theorem element (ci : i.Covers Γ s t θ (.list A) φ) :
    ∃ e ψ, i.element = .ok e ∧ Follows s θ e.learned ψ ∧ e.type.instantiate ψ = A := by
  have hlist : i.type.instantiate (Function.update φ i.supply.draw.1 A) = .list A := by
    rw [instantiate_update_drawn (ci.sound.progress.current_taken ci.sound.current), ci.type_eq]
  obtain ⟨ρ, hρ, f⟩ := (ci.follows.draw ci.sound.progress A).equate
    (r := .list (.var i.supply.draw.1)) (by rw [hlist, Ty.instantiate, instantiate_update_self])
  refine ⟨_, _, Inferred.element_eq_ok.2 ⟨ρ, hρ, rfl⟩, f, ?_⟩
  rw [f.solves.instantiate_apply, instantiate_update_self]

theorem letIn {x : Name} (hc : (Term.letIn x t u).Concrete) (ci : i.Covers Γ s t θ A φ)
    (cj : j.Covers ((i.learned.applyContext Γ).insert x i.type) i.supply u φ B ψ) :
    ∃ e χ, Covers Γ s (.letIn x t u) θ B e χ := by
  have f := ci.follows.trans ci.sound.progress cj.follows
  have found := Term.infer_letIn_eq_ok.2 ⟨i, ci.infer_eq, j, cj.infer_eq, rfl⟩
  exact ⟨_, ψ, .of_infer ci.context_taken hc found f cj.type_eq⟩

end Inferred.Covers

theorem infer_complete (hΓ : ∀ y ∈ Γ.tyVars, y ∈ s.taken) (hc : t.Concrete)
    (h : HasType (Γ.instantiate θ) t A) : ∃ i φ, Inferred.Covers Γ s t θ A i φ := by
  -- every part is typed under the assignment that the parts before it have left
  induction t generalizing Γ s θ A with
  | bool b =>
      cases h
      exact ⟨_, θ, .of_infer hΓ hc rfl (.refl s θ) rfl⟩
  | int n =>
      cases h
      exact ⟨_, θ, .of_infer hΓ hc rfl (.refl s θ) rfl⟩
  | string t =>
      cases h
      exact ⟨_, θ, .of_infer hΓ hc rfl (.refl s θ) rfl⟩
  | unit =>
      cases h
      exact ⟨_, θ, .of_infer hΓ hc rfl (.refl s θ) rfl⟩
  | nil =>
      cases h with
      | @nil _ A =>
          have f := (Follows.refl s θ).draw (.refl hΓ) A
          refine ⟨_, _, .of_infer hΓ hc rfl f ?_⟩
          rw [Ty.instantiate, instantiate_update_self]
  | var x =>
      cases h with
      | var hx =>
          rw [Context.get?_instantiate] at hx
          obtain ⟨B, hB, rfl⟩ := Option.map_eq_some_iff.1 hx
          have found := (Term.infer_var_eq_ok (s := s)).2 ⟨B, hB, rfl⟩
          exact ⟨_, θ, .of_infer hΓ hc found (.refl s θ) rfl⟩
  | isZero t ih =>
      cases h with
      | isZero ht =>
          obtain ⟨i, φ, ci⟩ := ih hΓ hc ht
          exact ci.isZero hc
  | add l r ihl ihr =>
      obtain ⟨hcl, hcr⟩ := hc.pair rfl
      cases h with
      | add hl hr =>
          obtain ⟨i, φ, ci⟩ := ihl hΓ hcl hl
          rw [← ci.follows.context_eq hΓ] at hr
          obtain ⟨j, ψ, cj⟩ := ihr ci.sound.progress.taken_context hcr hr
          exact ci.add hc cj
  | ascribe t ty ih =>
      cases h with
      | ascribe ht =>
          obtain ⟨i, φ, ci⟩ := ih hΓ hc.ascribe.2 ht
          exact ci.ascribe hc
  | cond c a b ihc iha ihb =>
      obtain ⟨hcca, hcb⟩ := hc.pair (u := .app c a) rfl
      obtain ⟨hcc, hca⟩ := hcca.pair rfl
      cases h with
      | cond ht ha hb =>
          obtain ⟨i, φ, ci⟩ := ihc hΓ hcc ht
          obtain ⟨ρ, hρ, f⟩ := ci.follows.equate (r := .bool) ci.type_eq
          obtain ⟨pi, -⟩ :=
            ci.sound.progress.equate ci.sound.current (by simp [Current, Ty.vars]) hρ
          rw [← f.context_eq hΓ] at ha
          obtain ⟨j, ψ, cj⟩ := iha pi.taken_context hca ha
          obtain ⟨pj, -⟩ := cj.sound.next pi
          rw [← (f.trans pi cj.follows).context_eq hΓ] at hb
          obtain ⟨k, χ, ck⟩ := ihb pj.taken_context hcb hb
          exact ci.cond hc hρ f cj ck
  | abs x b ih =>
      cases h with
      | @abs _ _ _ A B hb =>
          have f := (Follows.refl s θ).draw (.refl hΓ) A
          have hcontext : Context.instantiate (Function.update θ s.draw.1 A)
              (Γ.insert x (.var s.draw.1)) = (Γ.instantiate θ).insert x A := by
            rw [Context.instantiate_insert, instantiate_update_self,
              Context.instantiate_congr fun y hy => f.agrees y (hΓ y hy)]
          have htaken := (Progress.refl hΓ).draw.current_taken
            (Progress.current_param hΓ (fun _ hy => hy) x)
          rw [← hcontext] at hb
          obtain ⟨i, φ, ci⟩ := ih htaken hc hb
          exact ci.abs hΓ hc
  | wildcard b ih =>
      cases h with
      | @wildcard _ _ A B hb =>
          have f := (Follows.refl s θ).draw (.refl hΓ) A
          rw [← Context.instantiate_congr fun y hy => f.agrees y (hΓ y hy)] at hb
          have htaken : ∀ y ∈ Γ.tyVars, y ∈ s.draw.2.taken := fun y hy => by simp [hΓ y hy]
          obtain ⟨i, φ, ci⟩ := ih htaken hc hb
          exact ci.wildcard hΓ hc
  | app g a ihf iha =>
      obtain ⟨hcf, hca⟩ := hc.pair rfl
      cases h with
      | app hf ha =>
          obtain ⟨i, φ, ci⟩ := ihf hΓ hcf hf
          rw [← ci.follows.context_eq hΓ] at ha
          obtain ⟨j, ψ, cj⟩ := iha ci.sound.progress.taken_context hca ha
          exact ci.app hc cj
  | cons hd tl ihh iht =>
      obtain ⟨hch, hct⟩ := hc.pair rfl
      cases h with
      | cons hh ht =>
          obtain ⟨i, φ, ci⟩ := ihh hΓ hch hh
          rw [← ci.follows.context_eq hΓ] at ht
          obtain ⟨j, ψ, cj⟩ := iht ci.sound.progress.taken_context hct ht
          exact ci.cons hc cj
  | isEmpty l ih =>
      cases h with
      | isEmpty hl =>
          obtain ⟨i, φ, ci⟩ := ih hΓ hc hl
          obtain ⟨e, ψ, he, f, te⟩ := ci.element
          have found := Term.infer_isEmpty_eq_ok.2 ⟨i, ci.infer_eq, e, he, rfl⟩
          exact ⟨_, ψ, .of_infer hΓ hc found f rfl⟩
  | head l ih =>
      cases h with
      | head hl =>
          obtain ⟨i, φ, ci⟩ := ih hΓ hc hl
          obtain ⟨e, ψ, he, f, te⟩ := ci.element
          have found := Term.infer_head_eq_ok.2 ⟨i, ci.infer_eq, he⟩
          exact ⟨e, ψ, .of_infer hΓ hc found f te⟩
  | tail l ih =>
      cases h with
      | tail hl =>
          obtain ⟨i, φ, ci⟩ := ih hΓ hc hl
          obtain ⟨e, ψ, he, f, te⟩ := ci.element
          have found := Term.infer_tail_eq_ok.2 ⟨i, ci.infer_eq, e, he, rfl⟩
          refine ⟨_, ψ, .of_infer hΓ hc found f ?_⟩
          rw [Ty.instantiate, te]
  | letIn x e b ihe ihb =>
      obtain ⟨hce, hcb⟩ := hc.pair rfl
      cases h with
      | @letIn _ _ _ _ B _ he hb =>
          obtain ⟨i, φ, ci⟩ := ihe hΓ hce he
          have hcontext : Context.instantiate φ ((i.learned.applyContext Γ).insert x i.type) =
              (Γ.instantiate θ).insert x B := by
            rw [Context.instantiate_insert, ci.follows.context_eq hΓ, ci.type_eq]
          have htaken := ci.sound.progress.current_taken (Progress.current_insert (x := x)
            (ci.sound.progress.current_context fun _ hy => hy) ci.sound.current)
          rw [← hcontext] at hb
          obtain ⟨j, ψ, cj⟩ := ihb htaken hcb hb
          exact ci.letIn hc cj

/-- The type found for a whole term, and the instance of it that was given. -/
theorem Inferred.Covers.typecheck (ci : i.Covers Γ (.forTerm Γ t) t θ A φ) :
    t.typecheck Γ = .ok (i.learned.apply i.type) ∧
      A = (i.learned.apply i.type).instantiate φ := by
  refine ⟨Term.typecheck_eq_ok.2 ⟨i, ci.infer_eq, rfl⟩, ?_⟩
  rw [ci.follows.solves.instantiate_apply, ci.type_eq]

/-- If a term has a type at all, under any assignment to the type variables
of its context, then inference finds a type, and the given type is an
instance of it. -/
theorem typecheck_principal (hc : t.Concrete) (h : HasType (Γ.instantiate θ) t A) :
    ∃ B, t.typecheck Γ = .ok B ∧ ∃ φ : Assignment, A = B.instantiate φ := by
  obtain ⟨i, φ, ci⟩ := infer_complete (fun _ => mem_taken_forTerm) hc h
  obtain ⟨found, hinstance⟩ := ci.typecheck
  exact ⟨_, found, φ, hinstance⟩

/-- A function that is bound at a type variable is also used at a type that
is less general than the one found. -/
theorem typecheck_principal_applied :
    HasType (Context.instantiate (fun _ => .arrow .int .bool) (.single "f" (.var "a")))
        (.app (.var "f") (.int 1)) .bool ∧
      ∃ B, (Term.app (.var "f") (.int 1)).typecheck (.single "f" (.var "a")) = .ok B ∧
        ∃ φ : Assignment, .bool = B.instantiate φ := by
  have typed : HasType (Context.instantiate (fun _ => .arrow .int .bool)
      (.single "f" (.var "a"))) (.app (.var "f") (.int 1)) .bool := .app (.var rfl) .int
  exact ⟨typed, typecheck_principal (by decide) typed⟩

end TypedLambda
