import TypedLambda.Name.Supply
import TypedLambda.Term.Basic
import TypedLambda.Ty.Substitution

/-!
A supply gives the first free name, and never the same name twice.

The search for a name goes through the order of names, place by place, and
has no end of its own (`Search`). It ends nevertheless, after at most one
round more than there are taken names, and `draw` gives what it ends with
(`search_iff`). What the search has passed once need not be looked at again:
the names before the place where a supply stands are all taken, whatever it
was asked for and in whatever order (`History.passed`). So the name that is
found from there on is the first free one of the whole order, and it is none
of the names that the supply was to avoid or has given before. Places are
natural numbers, so after every place there is a next one.
-/

namespace TypedLambda

open Name

/-! ### Ascriptions of a term -/

namespace Term

variable {t u : Term} {A : Ty}

def children : Term → List Term
  | bool _ | int _ | string _ | unit | nil | var _ => []
  | abs _ t | wildcard t | ascribe t _ | isZero t | isEmpty t | head t | tail t => [t]
  | app a b | add a b | cons a b | letIn _ a b => [a, b]
  | cond c a b => [c, a, b]

inductive Part : Term → Term → Prop
  | refl (t : Term) : Part t t
  | child {s t u : Term} : t ∈ u.children → Part s t → Part s u

theorem sizeOf_lt_of_mem_children (h : t ∈ u.children) : sizeOf t < sizeOf u := by
  cases u with
  | bool | int | string | unit | nil | var => exact absurd h List.not_mem_nil
  | abs | wildcard | ascribe | isZero | isEmpty | head | tail =>
      obtain rfl := List.mem_singleton.1 h
      simp <;> omega
  | app | add | cons | letIn | cond =>
      simp only [children, List.mem_cons, List.not_mem_nil, or_false] at h
      rcases h with rfl | rfl | rfl <;> simp <;> omega

theorem mem_ascribed_cases :
    A ∈ t.ascribed ↔ (∃ u, t = ascribe u A) ∨ ∃ u ∈ t.children, A ∈ u.ascribed := by
  cases t with
  | ascribe t B => simp [ascribed, children, eq_comm]
  | _ => simp [ascribed, children]

theorem Part.mem_ascribed (h : Part t u) (hA : A ∈ t.ascribed) : A ∈ u.ascribed := by
  induction h with
  | refl => exact hA
  | child hc _ ih => exact mem_ascribed_cases.2 (.inr ⟨_, hc, ih⟩)

theorem exists_part_of_mem_ascribed {t : Term} {A : Ty} (h : A ∈ t.ascribed) :
    ∃ u, Part (ascribe u A) t := by
  rcases mem_ascribed_cases.1 h with ⟨u, rfl⟩ | ⟨c, hc, h⟩
  · exact ⟨u, .refl _⟩
  · obtain ⟨u, hu⟩ := exists_part_of_mem_ascribed h
    exact ⟨u, .child hc hu⟩
termination_by sizeOf t
decreasing_by exact sizeOf_lt_of_mem_children hc

theorem mem_ascribedVars_iff {x : Name} :
    x ∈ t.ascribedVars ↔ ∃ u A, Part (ascribe u A) t ∧ x ∈ A.vars := by
  rw [ascribedVars, List.mem_flatMap]
  constructor
  · rintro ⟨A, hA, hx⟩
    obtain ⟨u, hu⟩ := exists_part_of_mem_ascribed hA
    exact ⟨u, A, hu, hx⟩
  · rintro ⟨u, A, hu, hx⟩
    exact ⟨A, hu.mem_ascribed (mem_ascribed_cases.2 (.inl ⟨u, rfl⟩)), hx⟩

end Term

/-! ### The search for a name -/

namespace NameSupply

variable {s : NameSupply} {m n : Nat} {r r' : Name × NameSupply} {taken : List Name}
  {xs ys : List Name} {ts : List Term}

/-- The search from a supply ends after `n` rounds, with this name and this
supply. In each round the supply goes on to its next place, and the name of
the place is taken if it is free. -/
inductive Search : NameSupply → Nat → Name × NameSupply → Prop
  | found {s : NameSupply} : greek s.next ∉ s.taken →
      Search s 1 (greek s.next, ⟨Name.add (greek s.next) s.taken, s.next + 1⟩)
  | skip {s : NameSupply} {n : Nat} {r : Name × NameSupply} : greek s.next ∈ s.taken →
      Search { s with next := s.next + 1 } n r → Search s (n + 1) r

theorem Search.unique (h : Search s m r) (h' : Search s n r') : m = n ∧ r = r' := by
  induction h generalizing n with
  | found hfree =>
      cases h' with
      | found => exact ⟨rfl, rfl⟩
      | skip htaken => exact absurd htaken hfree
  | skip htaken _ ih =>
      cases h' with
      | found hfree => exact absurd htaken hfree
      | skip _ h' =>
          obtain ⟨rfl, rfl⟩ := ih h'
          exact ⟨rfl, rfl⟩

/-- What a search ends with: the name of the first place from the next one on
that is free. -/
theorem Search.first (h : Search s n r) :
    ∃ i, r = (greek i, ⟨Name.add (greek i) s.taken, i + 1⟩) ∧ s.next ≤ i ∧
      greek i ∉ s.taken ∧ ∀ j, s.next ≤ j → j < i → greek j ∈ s.taken := by
  induction h with
  | @found s hfree =>
      refine ⟨s.next, rfl, Nat.le_refl _, hfree, fun j hj hlt => ?_⟩
      exact absurd hj (Nat.not_le.2 hlt)
  | @skip s n r htaken _ ih =>
      obtain ⟨i, hr, hle, hfree, hpassed⟩ := ih
      refine ⟨i, hr, Nat.le_of_succ_le hle, hfree, fun j hj hlt => ?_⟩
      rcases Nat.eq_or_lt_of_le hj with rfl | hj
      · exact htaken
      · exact hpassed j hj hlt

/-- A bounded search that arrives at a free name is a search that ends. -/
theorem search_seek {rounds i : Nat} (h : greek (seek taken rounds i) ∉ taken) :
    ∃ n ≤ rounds + 1, Search ⟨taken, i⟩ n (greek (seek taken rounds i),
      ⟨Name.add (greek (seek taken rounds i)) taken, seek taken rounds i + 1⟩) := by
  induction rounds generalizing i with
  | zero => exact ⟨1, Nat.le_refl _, .found h⟩
  | succ rounds ih =>
      by_cases hi : greek i ∈ taken
      · have hseek : seek taken (rounds + 1) i = seek taken rounds (i + 1) := by simp [seek, hi]
        rw [hseek] at h ⊢
        obtain ⟨n, hn, hs⟩ := ih h
        exact ⟨n + 1, by omega, .skip hi hs⟩
      · have hseek : seek taken (rounds + 1) i = i := by simp [seek, hi]
        rw [hseek]
        exact ⟨1, by omega, .found hi⟩

theorem search_iff (s : NameSupply) :
    ∃ n ≤ s.taken.length + 1, ∀ m r, Search s m r ↔ m = n ∧ r = s.draw := by
  obtain ⟨n, hn, hs⟩ := search_seek (greek_seek_not_mem s.taken s.next)
  refine ⟨n, hn, fun m r => ⟨fun h => h.unique hs, ?_⟩⟩
  rintro ⟨rfl, rfl⟩
  exact hs

theorem draw_first (s : NameSupply) :
    ∃ i, s.draw = (greek i, ⟨Name.add (greek i) s.taken, i + 1⟩) ∧ s.next ≤ i ∧
      greek i ∉ s.taken ∧ ∀ j, s.next ≤ j → j < i → greek j ∈ s.taken := by
  obtain ⟨n, -, hs⟩ := search_iff s
  exact ((hs n s.draw).2 ⟨rfl, rfl⟩).first

/-! ### What a supply was asked for -/

/-- A supply that began with the names `xs` to avoid, was then told to avoid
the variables ascribed in the terms `ts`, and has given the names `ys`, each
time the last one first. -/
inductive History : List Name → List Term → List Name → NameSupply → Prop
  | full : History [] [] [] .full
  | avoiding (Γ : Context) : History Γ.tyVars [] [] (.avoiding Γ.tyVars)
  | reserve {xs ys : List Name} {ts : List Term} {s : NameSupply} (t : Term) :
      History xs ts ys s → History xs (t :: ts) ys (s.reserve t.ascribedVars)
  | draw {xs ys : List Name} {ts : List Term} {s : NameSupply} :
      History xs ts ys s → History xs ts (s.draw.1 :: ys) s.draw.2

theorem pairwise_taken_reserve (h : s.taken.Pairwise (· < ·)) (xs : List Name) :
    (s.reserve xs).taken.Pairwise (· < ·) := by
  suffices key : (xs.foldr Name.add s.taken).Pairwise (· < ·) from key
  induction xs with
  | nil => exact h
  | cons x rest ih => exact pairwise_add x ih

namespace History

theorem increasing (h : History xs ts ys s) : s.taken.Pairwise (· < ·) := by
  induction h with
  | full => exact .nil
  | avoiding Γ => exact pairwise_taken_reserve .nil Γ.tyVars
  | reserve t _ ih => exact pairwise_taken_reserve ih _
  | draw _ ih => exact pairwise_add _ ih

/-- Nothing is skipped: where a supply has passed, all names are taken. -/
theorem passed (h : History xs ts ys s) : ∀ j < s.next, greek j ∈ s.taken := by
  induction h with
  | full | avoiding Γ => exact fun j hj => absurd hj (Nat.not_lt_zero j)
  | reserve t _ ih => exact fun j hj => mem_taken_reserve.2 (.inr (ih j hj))
  | @draw xs ys ts s _ ih =>
      obtain ⟨i, hdraw, -, -, hskipped⟩ := draw_first s
      intro j hj
      rw [mem_taken_draw]
      rw [hdraw] at hj ⊢
      rcases Nat.eq_or_lt_of_le (Nat.lt_succ_iff.1 hj) with rfl | hlt
      · exact .inl rfl
      · rcases Nat.lt_or_ge j s.next with hbefore | hfrom
        · exact .inr (ih j hbefore)
        · exact .inr (hskipped j hfrom hlt)

theorem mem_taken (h : History xs ts ys s) {x : Name} :
    x ∈ s.taken ↔ x ∈ xs ∨ (∃ t ∈ ts, x ∈ t.ascribedVars) ∨ x ∈ ys := by
  induction h with
  | full => simp [NameSupply.full]
  | avoiding Γ => simp
  | reserve t _ ih =>
      rw [mem_taken_reserve, ih]
      grind
  | draw _ ih =>
      rw [mem_taken_draw, ih]
      grind

theorem nodup (h : History xs ts ys s) : ys.Nodup := by
  induction h with
  | full | avoiding => exact List.nodup_nil
  | reserve _ _ ih => exact ih
  | @draw xs ys ts s h ih =>
      exact List.nodup_cons.2 ⟨fun hy => s.draw_not_mem (h.mem_taken.2 (.inr (.inr hy))), ih⟩

theorem not_mem_avoided (h : History xs ts ys s) : ∀ y ∈ ys, y ∉ xs := by
  induction h with
  | full | avoiding => exact fun y hy => absurd hy List.not_mem_nil
  | reserve _ _ ih => exact ih
  | @draw xs ys ts s h ih =>
      refine List.forall_mem_cons.2 ⟨fun hx => ?_, ih⟩
      exact s.draw_not_mem (h.mem_taken.2 (.inl hx))

end History

/-- What holds of the next name of a supply that began with the names `xs` to
avoid, was told of the ascriptions in `ts` and has given the names `ys`. -/
structure Fresh (xs : List Name) (ts : List Term) (ys : List Name) (s : NameSupply) : Prop where
  taken_nodup : s.taken.Nodup
  /-- The search for the name ends, after at most one round more than there are
  taken names, with the name and the supply that `draw` gives. -/
  ends : ∃ n ≤ s.taken.length + 1, ∀ m r, Search s m r ↔ m = n ∧ r = s.draw
  /-- The name is the first free one of the whole order. -/
  first : ∃ i, s.draw.1 = greek i ∧ greek i ∉ s.taken ∧ ∀ j < i, greek j ∈ s.taken
  taken_after : s.draw.1 ∈ s.draw.2.taken
  /-- No name is given twice. -/
  new : (s.draw.1 :: ys).Nodup
  avoids : ∀ y ∈ s.draw.1 :: ys, y ∉ xs
  avoids_ascribed : ∀ t ∈ ts, ∀ u A, Term.Part (.ascribe u A) t → s.draw.1 ∉ A.vars
  /-- No free name is passed by. -/
  passed : ∀ j < s.next, greek j ∈ s.taken
  /-- No name is taken without a reason. -/
  mem_taken : ∀ x, x ∈ s.taken ↔
    x ∈ xs ∨ (∃ t ∈ ts, ∃ u A, Term.Part (.ascribe u A) t ∧ x ∈ A.vars) ∨ x ∈ ys

/-- A supply gives the first free name, whatever it was asked for before. -/
theorem drawn_fresh (h : History xs ts ys s) : Fresh xs ts ys s where
  taken_nodup := h.increasing.imp fun hlt => String.ne_of_lt hlt
  ends := search_iff s
  first := by
    obtain ⟨i, hdraw, -, hfree, hskipped⟩ := draw_first s
    refine ⟨i, by rw [hdraw], hfree, fun j hj => ?_⟩
    rcases Nat.lt_or_ge j s.next with hbefore | hfrom
    · exact h.passed j hbefore
    · exact hskipped j hfrom hj
  taken_after := mem_taken_draw.2 (.inl rfl)
  new := h.draw.nodup
  avoids := h.draw.not_mem_avoided
  avoids_ascribed t ht u A hu hmem := by
    refine s.draw_not_mem (h.mem_taken.2 (.inr (.inl ⟨t, ht, ?_⟩)))
    exact Term.mem_ascribedVars_iff.2 ⟨u, A, hu, hmem⟩
  passed := h.passed
  mem_taken x := by
    rw [h.mem_taken]
    simp only [Term.mem_ascribedVars_iff]

/-- The context holds the first two names and one of the second round, and an
ascription the fourth name, so the third one and the fifth one are given. -/
theorem drawn_fresh_interleaved :
    let Γ : Context := .ofList [("f", .arrow (.var "β") (.var "α")), ("x", .var "δ1")]
    let t : Term := .cond (.bool true) .nil
      (.abs "y" (.letIn "z" (.ascribe (.var "y") (.list (.var "δ"))) (.var "z")))
    let s := (avoiding Γ.tyVars).draw.2.reserve t.ascribedVars
    s.draw.1 = "ε" ∧ History Γ.tyVars [t] ["γ"] s ∧ Fresh Γ.tyVars [t] ["γ"] s := by
  intro Γ t s
  have first : (avoiding Γ.tyVars).draw.1 = "γ" := by decide
  have history : History Γ.tyVars [t] ["γ"] s := first ▸ .reserve t (.draw (.avoiding Γ))
  exact ⟨by decide, history, drawn_fresh history⟩

/-- After the last letter the letters come again with a number. -/
example :
    let s := avoiding ((List.range 22).map greek)
    s.draw.1 = "ω" ∧ s.draw.2.draw.1 = "α1" := by
  decide

end NameSupply

end TypedLambda
