import Mathlib.Data.List.Induction
import TypedLambda.Ty.Substitution

/-!
A context is a finite map, whatever was done to make it.

Two things can happen to a context: a name is bound, or all its types are
changed in the same way. A context is described by the events that made it,
the first one first (`History`), and the same events one after the other on
the empty context give it again (`run`). So what holds of it is shown event by
event: its names stand in the order in which they were bound first, and a name
has the type that it was bound to last, with all later changes.
-/

namespace TypedLambda.Context

inductive Event
  | bind (x : Name) (A : Ty)
  | change (f : Ty → Ty)

def boundNames : List Event → List Name
  | [] => []
  | .bind x _ :: es => x :: boundNames es
  | .change _ :: es => boundNames es

/-- The type with the changes that are among the events. -/
def changed : List Event → Ty → Ty
  | [], A => A
  | .bind _ _ :: es, A => changed es A
  | .change f :: es, A => changed es (f A)

/-- A context and the events that made it. -/
inductive History : List Event → Context → Prop
  | empty : History [] .empty
  | ofList (es : List (Name × Ty)) : History (es.map fun e => .bind e.1 e.2) (.ofList es)
  | insert {es : List Event} {Γ : Context} (x : Name) (A : Ty) :
      History es Γ → History (es ++ [.bind x A]) (Γ.insert x A)
  | replace {es : List Event} {Γ : Context} (a : Name) (r : Ty) :
      History es Γ → History (es ++ [.change fun A => A.replace a r]) (Γ.replace a r)
  | map {es : List Event} {Γ : Context} (f : Ty → Ty) :
      History es Γ → History (es ++ [.change f]) (Γ.map f)

variable {es : List Event} {Γ : Context} {x : Name} {A B : Ty}

/-! ### Events one after the other -/

@[simp] theorem boundNames_append (es fs : List Event) :
    boundNames (es ++ fs) = boundNames es ++ boundNames fs := by
  induction es with
  | nil => rfl
  | cons e rest ih => cases e <;> simp [boundNames, ih]

theorem exists_last_bind (h : x ∈ boundNames es) :
    ∃ earlier A later, es = earlier ++ .bind x A :: later ∧ x ∉ boundNames later := by
  induction es with
  | nil => exact absurd h List.not_mem_nil
  | cons e rest ih =>
      by_cases hrest : x ∈ boundNames rest
      · obtain ⟨earlier, A, later, rfl, hlater⟩ := ih hrest
        exact ⟨e :: earlier, A, later, rfl, hlater⟩
      · cases e with
        | change f => exact absurd h hrest
        | bind y A =>
            obtain rfl : x = y := (List.mem_cons.1 h).resolve_right hrest
            exact ⟨[], A, rest, rfl, hrest⟩

def Event.apply (Γ : Context) : Event → Context
  | .bind x A => Γ.insert x A
  | .change f => Γ.map f

def run (Γ : Context) (es : List Event) : Context := es.foldl Event.apply Γ

theorem run_append (Γ : Context) (es fs : List Event) : run Γ (es ++ fs) = run (run Γ es) fs :=
  List.foldl_append

theorem History.eq_run (h : History es Γ) : Γ = run .empty es := by
  induction h with
  | empty => rfl
  | ofList es => rw [run, List.foldl_map]; rfl
  | insert x A _ ih => rw [run_append, ← ih]; rfl
  | replace a r _ ih => rw [run_append, ← ih]; rfl
  | map f _ ih => rw [run_append, ← ih]; rfl

theorem keys_run (es : List Event) : (run .empty es).keys = (boundNames es).eraseDups := by
  induction es using List.reverseRecOn with
  | nil => rfl
  | append_singleton es e ih =>
      rw [run_append, boundNames_append, List.eraseDups_append, ← ih]
      cases e with
      | change f => simp [run, Event.apply, boundNames]
      | bind x A =>
          have hmem : x ∈ (run .empty es).keys ↔ x ∈ boundNames es := by
            rw [ih, List.mem_eraseDups]
          have keys : (run (run .empty es) [.bind x A]).keys = _ := OrderedMap.keys_insert _ x A
          rw [keys]
          by_cases hx : x ∈ boundNames es <;>
            simp [boundNames, List.removeAll, List.eraseDups_cons, hx, hmem]

/-- What happens to a context without binding a name changes the type of the
name. -/
theorem get?_run_of_not_mem (h : x ∉ boundNames es) :
    (run Γ es).get? x = (Γ.get? x).map (changed es) := by
  induction es generalizing Γ with
  | nil => simp [run, changed]
  | cons e rest ih =>
      have step : run Γ (e :: rest) = run (e.apply Γ) rest := rfl
      cases e with
      | bind y A =>
          obtain ⟨hne, hrest⟩ := not_or.1 (mt List.mem_cons.2 h)
          rw [step, ih hrest, Event.apply, OrderedMap.get?_insert_of_ne _ _ hne]
          rfl
      | change f =>
          rw [step, ih h, Event.apply, OrderedMap.get?_map, Option.map_map]
          rfl

theorem get?_run_last {earlier later : List Event} (h : x ∉ boundNames later) :
    (run Γ (earlier ++ .bind x A :: later)).get? x = some (changed later A) := by
  have step : run Γ (earlier ++ .bind x A :: later) =
      run ((run Γ earlier).insert x A) later := run_append ..
  rw [step, get?_run_of_not_mem h, OrderedMap.get?_insert_self, Option.map_some]

theorem get?_run_eq_none_iff : (run .empty es).get? x = none ↔ x ∉ boundNames es := by
  rw [OrderedMap.get?_eq_none_iff, keys_run, List.mem_eraseDups]

theorem get?_run_eq_some_iff :
    (run .empty es).get? x = some B ↔
      ∃ earlier A later, es = earlier ++ .bind x A :: later ∧ x ∉ boundNames later ∧
        B = changed later A := by
  constructor
  · intro h
    have hmem : x ∈ boundNames es := by
      by_contra hx
      rw [get?_run_eq_none_iff.2 hx] at h
      cases h
    obtain ⟨earlier, A, later, rfl, hlater⟩ := exists_last_bind hmem
    rw [get?_run_last hlater] at h
    exact ⟨earlier, A, later, rfl, hlater, (Option.some.inj h).symm⟩
  · rintro ⟨earlier, A, later, rfl, hlater, rfl⟩
    exact get?_run_last hlater

/-! ### The finite map -/

/-- What the events say about the context that they made. -/
structure MadeBy (es : List Event) (Γ : Context) : Prop where
  nodup : Γ.keys.Nodup
  /-- The names stand in the order in which they were bound first. -/
  keys : Γ.keys = (boundNames es).eraseDups
  /-- A name has the type that it was bound to last, with all later changes. -/
  get?_eq_some : ∀ x B, Γ.get? x = some B ↔
    ∃ earlier A later, es = earlier ++ .bind x A :: later ∧ x ∉ boundNames later ∧
      B = changed later A
  get?_eq_none : ∀ x, Γ.get? x = none ↔ x ∉ boundNames es

/-- A context is a finite map from the names that were bound to the types that
they were bound to last, as later changes have left them. Contexts with the
same bindings are those in which look-up finds the same, and to have the same
bindings is an equivalence. -/
theorem history_map (h : History es Γ) :
    MadeBy es Γ ∧
      (∀ Δ : Context, Γ.sameBindings Δ = true ↔ ∀ x, Γ.get? x = Δ.get? x) ∧
      Equivalence fun Γ Δ : Context => Γ.sameBindings Δ = true := by
  refine ⟨?_, fun _ => OrderedMap.sameBindings_iff, ?_⟩
  · obtain rfl := h.eq_run
    exact ⟨OrderedMap.nodup_keys _, keys_run es, fun _ _ => get?_run_eq_some_iff,
      fun _ => get?_run_eq_none_iff⟩
  · simp only [OrderedMap.sameBindings_iff]
    exact ⟨fun _ _ => rfl, fun h x => (h x).symm, fun h h' x => (h x).trans (h' x)⟩

/-- A name is bound twice at the start and keeps its place, another one is bound
again between the changes, and the same bindings are made in another order. -/
theorem history_map_rebound :
    let start : List (Name × Ty) := [("x", .int), ("y", .var "a"), ("x", .var "a")]
    let Γ : Context := ((Context.replace (.ofList start) "a" .bool).insert "y" (.var "a")).map .list
    let Δ : Context := .ofList [("y", .list (.var "a")), ("x", .list .bool)]
    let es : List Event := [.bind "x" .int, .bind "y" (.var "a"), .bind "x" (.var "a"),
      .change (·.replace "a" .bool), .bind "y" (.var "a"), .change .list]
    History es Γ ∧ MadeBy es Γ ∧ Γ.keys = ["x", "y"] ∧ Δ.keys = ["y", "x"] ∧
      Γ.sameBindings Δ = true ∧ Δ.sameBindings Γ = true := by
  intro start Γ Δ es
  have history : History es Γ := .map .list (.insert "y" _ (.replace "a" .bool (.ofList start)))
  obtain ⟨made, -, equivalence⟩ := history_map history
  have same : Γ.sameBindings Δ = true := by decide
  exact ⟨history, made, by decide, by decide, same, equivalence.symm same⟩

end TypedLambda.Context
