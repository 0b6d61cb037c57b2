import TypedLambda.Name

/-!
Finite maps from names to values that remember the order in which their names were first bound.

A map is a list of entries in which no name occurs twice. Binding a name that is already there
changes its value where it stands; a new name goes to the end. The order is visible in `entries`
and in the printed form only: `get?` is the view that the other modules reason with, and
`sameBindings` compares two maps without regard to order.
-/

namespace TypedLambda

universe u v

namespace OrderedMap

/-! ### Entry lists -/

def bindEntry {α : Type u} (k : Name) (a : α) : List (Name × α) → List (Name × α)
  | [] => [(k, a)]
  | (j, b) :: rest => if j = k then (k, a) :: rest else (j, b) :: bindEntry k a rest

theorem keys_bindEntry {α : Type u} (k : Name) (a : α) (es : List (Name × α)) :
    (bindEntry k a es).map Prod.fst =
      if k ∈ es.map Prod.fst then es.map Prod.fst else es.map Prod.fst ++ [k] := by
  induction es with
  | nil => rfl
  | cons e rest ih =>
    obtain ⟨j, b⟩ := e
    by_cases h : j = k
    · simp [bindEntry, h]
    · have h' : ¬ k = j := fun e => h e.symm
      simp only [bindEntry, h, if_false, List.map_cons, ih, List.mem_cons, h', false_or]
      split <;> simp

theorem bindEntry_of_not_mem {α : Type u} {k : Name} (a : α) {es : List (Name × α)}
    (h : k ∉ es.map Prod.fst) : bindEntry k a es = es ++ [(k, a)] := by
  induction es with
  | nil => rfl
  | cons e rest ih =>
    rw [List.map_cons, List.mem_cons, not_or] at h
    rw [bindEntry, if_neg fun he => h.1 he.symm, ih h.2, List.cons_append]

theorem bindEntry_map {α : Type u} {β : Type v} (f : α → β) (k : Name) (a : α)
    (es : List (Name × α)) :
    (bindEntry k a es).map (fun e => (e.1, f e.2)) =
      bindEntry k (f a) (es.map fun e => (e.1, f e.2)) := by
  induction es with
  | nil => rfl
  | cons e rest ih =>
    by_cases h : e.1 = k
    · simp [bindEntry, h]
    · simp [bindEntry, h, ih]

theorem nodup_bindEntry {α : Type u} (k : Name) (a : α) {es : List (Name × α)}
    (h : (es.map Prod.fst).Nodup) : ((bindEntry k a es).map Prod.fst).Nodup := by
  rw [keys_bindEntry]
  split
  · exact h
  · next hk =>
    rw [List.nodup_append]
    refine ⟨h, by simp, ?_⟩
    rintro x hx y hy rfl
    simp only [List.mem_singleton] at hy
    exact hk (hy ▸ hx)

theorem lookup_entry {α : Type u} (e : Name × α) (es : List (Name × α)) (j : Name) :
    (e :: es).lookup j = if j = e.1 then some e.2 else es.lookup j := by
  rw [List.lookup_cons]
  by_cases h : j = e.1
  · simp [h]
  · have : (j == e.1) = false := by simpa using h
    simp [h, this]

theorem lookup_bindEntry {α : Type u} (k : Name) (a : α) (es : List (Name × α)) (j : Name) :
    (bindEntry k a es).lookup j = if j = k then some a else es.lookup j := by
  induction es with
  | nil => simp [bindEntry, lookup_entry]
  | cons e rest ih =>
    obtain ⟨i, b⟩ := e
    by_cases hi : i = k
    · subst hi
      by_cases h : j = i <;> simp [bindEntry, lookup_entry, h]
    · by_cases h : j = i
      · subst h; simp [bindEntry, hi]
      · simp [bindEntry, hi, lookup_entry, h, ih]

end OrderedMap

/-! ### Maps -/

/-- A finite map from names, with its entries in the order of first binding. -/
structure OrderedMap (α : Type u) where
  entries : List (Name × α)
  nodup : (entries.map Prod.fst).Nodup
  deriving DecidableEq

namespace OrderedMap

variable {α : Type u} {β : Type v}

@[ext] theorem ext {m n : OrderedMap α} (h : m.entries = n.entries) : m = n := by
  cases m; cases n; cases h; rfl

def empty : OrderedMap α := ⟨[], List.nodup_nil⟩

/-- Binds `k` to `a`, in place if `k` is bound already and at the end otherwise. -/
def insert (m : OrderedMap α) (k : Name) (a : α) : OrderedMap α :=
  ⟨bindEntry k a m.entries, nodup_bindEntry k a m.nodup⟩

def single (k : Name) (a : α) : OrderedMap α := empty.insert k a

def get? (m : OrderedMap α) (k : Name) : Option α := m.entries.lookup k

def contains (m : OrderedMap α) (k : Name) : Bool := (m.get? k).isSome

def keys (m : OrderedMap α) : List Name := m.entries.map Prod.fst

def values (m : OrderedMap α) : List α := m.entries.map Prod.snd

def size (m : OrderedMap α) : Nat := m.entries.length

def isEmpty (m : OrderedMap α) : Bool := m.entries.isEmpty

def map (f : α → β) (m : OrderedMap α) : OrderedMap β :=
  ⟨m.entries.map fun e => (e.1, f e.2), by simpa [Function.comp_def] using m.nodup⟩

def insertAll (m : OrderedMap α) (es : List (Name × α)) : OrderedMap α :=
  es.foldl (fun acc e => acc.insert e.1 e.2) m

def ofList (es : List (Name × α)) : OrderedMap α := empty.insertAll es

/-- All bindings of both maps; where both bind a name, `n` decides. -/
def union (m n : OrderedMap α) : OrderedMap α := m.insertAll n.entries

/-- Whether two maps hold the same bindings, in whatever order. -/
def sameBindings [DecidableEq α] (m n : OrderedMap α) : Bool :=
  m.size == n.size && m.entries.all fun e => n.get? e.1 == some e.2

def render (text : α → String) (m : OrderedMap α) : String :=
  "\x7b" ++ String.intercalate ", " (m.entries.map fun e => e.1 ++ ": " ++ text e.2) ++ "\x7d"

/-! ### What the operations do to the entries and keys -/

@[simp] theorem entries_empty : (empty : OrderedMap α).entries = [] := rfl

@[simp] theorem entries_single (k : Name) (a : α) : (single k a).entries = [(k, a)] := rfl

@[simp] theorem entries_map (f : α → β) (m : OrderedMap α) :
    (m.map f).entries = m.entries.map fun e => (e.1, f e.2) := rfl

theorem nodup_keys (m : OrderedMap α) : m.keys.Nodup := m.nodup

@[simp] theorem length_keys (m : OrderedMap α) : m.keys.length = m.size := List.length_map ..

@[simp] theorem keys_empty : (empty : OrderedMap α).keys = [] := rfl

@[simp] theorem keys_single (k : Name) (a : α) : (single k a).keys = [k] := rfl

@[simp] theorem values_single (k : Name) (a : α) : (single k a).values = [a] := rfl

@[simp] theorem keys_map (f : α → β) (m : OrderedMap α) : (m.map f).keys = m.keys := by
  simp [keys, Function.comp_def]

theorem keys_insert (m : OrderedMap α) (k : Name) (a : α) :
    (m.insert k a).keys = if k ∈ m.keys then m.keys else m.keys ++ [k] :=
  keys_bindEntry k a m.entries

@[simp] theorem mem_keys_insert {m : OrderedMap α} {k j : Name} {a : α} :
    j ∈ (m.insert k a).keys ↔ j = k ∨ j ∈ m.keys := by
  rw [keys_insert]
  split
  · next h => exact ⟨.inr, fun o => o.elim (fun e => e ▸ h) id⟩
  · simp [or_comm]

theorem map_insert (f : α → β) (m : OrderedMap α) (k : Name) (a : α) :
    (m.insert k a).map f = (m.map f).insert k (f a) :=
  ext (bindEntry_map f k a m.entries)

/-- Entries with new names go to the end, in their order. -/
theorem entries_insertAll {es : List (Name × α)} {m : OrderedMap α}
    (h : ((m.entries ++ es).map Prod.fst).Nodup) : (m.insertAll es).entries = m.entries ++ es := by
  induction es generalizing m with
  | nil => simp [insertAll]
  | cons e rest ih =>
    have step : m.insertAll (e :: rest) = (m.insert e.1 e.2).insertAll rest := rfl
    have new : e.1 ∉ m.entries.map Prod.fst := by
      rw [List.map_append, List.nodup_append] at h
      exact fun hm => h.2.2 _ hm _ (List.mem_cons_self ..) rfl
    have entries : (m.insert e.1 e.2).entries = m.entries ++ [e] := bindEntry_of_not_mem e.2 new
    rw [step, ih (by simpa [entries] using h), entries, List.append_assoc, List.singleton_append]

theorem empty_union (m : OrderedMap α) : empty.union m = m :=
  ext (entries_insertAll (m := empty) m.nodup)

@[simp] theorem mem_keys_insertAll {es : List (Name × α)} {m : OrderedMap α} {j : Name} :
    j ∈ (m.insertAll es).keys ↔ j ∈ es.map Prod.fst ∨ j ∈ m.keys := by
  induction es generalizing m with
  | nil => simp [insertAll]
  | cons e rest ih =>
    have : m.insertAll (e :: rest) = (m.insert e.1 e.2).insertAll rest := rfl
    rw [this, ih]
    simp [or_assoc, or_left_comm]

@[simp] theorem mem_keys_union {m n : OrderedMap α} {j : Name} :
    j ∈ (m.union n).keys ↔ j ∈ m.keys ∨ j ∈ n.keys := by
  rw [union, mem_keys_insertAll, or_comm]; rfl

/-! ### What the operations do to look-up -/

@[simp] theorem get?_empty (k : Name) : (empty : OrderedMap α).get? k = none := rfl

theorem get?_insert (m : OrderedMap α) (k : Name) (a : α) (j : Name) :
    (m.insert k a).get? j = if j = k then some a else m.get? j :=
  lookup_bindEntry k a m.entries j

@[simp] theorem get?_insert_self (m : OrderedMap α) (k : Name) (a : α) :
    (m.insert k a).get? k = some a := by
  simp [get?_insert]

theorem get?_insert_of_ne (m : OrderedMap α) {k j : Name} (a : α) (h : j ≠ k) :
    (m.insert k a).get? j = m.get? j := by
  simp [get?_insert, h]

@[simp] theorem get?_map (f : α → β) (m : OrderedMap α) (k : Name) :
    (m.map f).get? k = (m.get? k).map f := by
  have key : ∀ es : List (Name × α),
      (es.map fun e => (e.1, f e.2)).lookup k = (es.lookup k).map f := by
    intro es
    induction es with
    | nil => rfl
    | cons e rest ih => by_cases h : k = e.1 <;> simp [lookup_entry, h, ih]
  exact key m.entries

theorem get?_eq_none_iff {m : OrderedMap α} {k : Name} : m.get? k = none ↔ k ∉ m.keys := by
  have key : ∀ es : List (Name × α), es.lookup k = none ↔ k ∉ es.map Prod.fst := by
    intro es
    induction es with
    | nil => simp
    | cons e rest ih => by_cases h : k = e.1 <;> simp [lookup_entry, h, ih]
  exact key m.entries

theorem get?_eq_some_iff {m : OrderedMap α} {k : Name} {a : α} :
    m.get? k = some a ↔ (k, a) ∈ m.entries := by
  have key : ∀ es : List (Name × α), (es.map Prod.fst).Nodup →
      (es.lookup k = some a ↔ (k, a) ∈ es) := by
    intro es
    induction es with
    | nil => simp
    | cons e rest ih =>
      obtain ⟨j, b⟩ := e
      intro hn
      rw [List.map_cons, List.nodup_cons] at hn
      by_cases h : k = j
      · subst h
        have : (k, a) ∉ rest := fun hm => hn.1 (List.mem_map.2 ⟨_, hm, rfl⟩)
        simp [this, eq_comm]
      · simp [lookup_entry, h, ih hn.2]
  exact key m.entries m.nodup

theorem mem_keys_of_get? {m : OrderedMap α} {k : Name} {a : α} (h : m.get? k = some a) :
    k ∈ m.keys :=
  List.mem_map.2 ⟨_, get?_eq_some_iff.1 h, rfl⟩

theorem get?_insertAll (es : List (Name × α)) (m : OrderedMap α) (h : (es.map Prod.fst).Nodup)
    (j : Name) : (m.insertAll es).get? j = (es.lookup j).or (m.get? j) := by
  induction es generalizing m with
  | nil => rfl
  | cons e rest ih =>
    have step : m.insertAll (e :: rest) = (m.insert e.1 e.2).insertAll rest := rfl
    rw [List.map_cons, List.nodup_cons] at h
    rw [step, ih _ h.2, get?_insert, lookup_entry]
    by_cases hj : j = e.1
    · have : rest.lookup j = none := by
        rw [List.lookup_eq_none_iff]
        intro p hp
        have : p.1 ≠ j := fun hpj => h.1 (List.mem_map.2 ⟨p, hp, hpj.trans hj⟩)
        simpa using fun hjp : j = p.1 => this hjp.symm
      rw [if_pos hj, if_pos hj, this]; rfl
    · rw [if_neg hj, if_neg hj]

/-- In a union the second map decides, and the first answers where the second is silent. -/
theorem get?_union (m n : OrderedMap α) (j : Name) :
    (m.union n).get? j = (n.get? j).or (m.get? j) :=
  get?_insertAll n.entries m n.nodup j

/-! ### Maps with the same bindings -/

theorem get?_of_perm {m n : OrderedMap α} (h : m.entries.Perm n.entries) (k : Name) :
    m.get? k = n.get? k := by
  ext a
  rw [get?_eq_some_iff, get?_eq_some_iff, h.mem_iff]

theorem mem_keys_congr {m n : OrderedMap α} (h : ∀ k, m.get? k = n.get? k) {k : Name} :
    k ∈ m.keys ↔ k ∈ n.keys := by
  rw [← Decidable.not_iff_not, ← get?_eq_none_iff, ← get?_eq_none_iff, h k]

/-- A map that is as large as another one and holds all its bindings binds no further name. -/
theorem get?_eq_none_of_size_eq {m n : OrderedMap α} (hs : m.size = n.size)
    (h : ∀ e ∈ m.entries, n.get? e.1 = some e.2) {k : Name} (hk : k ∉ m.keys) :
    n.get? k = none := by
  refine get?_eq_none_iff.2 fun hkn => ?_
  have nodup : (k :: m.keys).Nodup := List.nodup_cons.2 ⟨hk, m.nodup_keys⟩
  have subset : k :: m.keys ⊆ n.keys := by
    intro j hj
    rcases List.mem_cons.1 hj with rfl | hj
    · exact hkn
    · obtain ⟨e, he, rfl⟩ := List.mem_map.1 hj
      exact mem_keys_of_get? (h e he)
  have := nodup.length_le_of_subset subset
  simp only [List.length_cons, length_keys] at this
  omega

theorem sameBindings_iff [DecidableEq α] {m n : OrderedMap α} :
    m.sameBindings n = true ↔ ∀ k, m.get? k = n.get? k := by
  simp only [sameBindings, Bool.and_eq_true, beq_iff_eq, List.all_eq_true]
  constructor
  · rintro ⟨hs, h⟩ k
    cases hk : m.get? k with
    | none => rw [get?_eq_none_of_size_eq hs h (get?_eq_none_iff.1 hk)]
    | some a => rw [h (k, a) (get?_eq_some_iff.1 hk)]
  · intro h
    have hle := m.nodup_keys.length_le_of_subset fun _ hk => (mem_keys_congr h).1 hk
    have hge := n.nodup_keys.length_le_of_subset fun _ hk => (mem_keys_congr h).2 hk
    rw [length_keys, length_keys] at hle hge
    refine ⟨Nat.le_antisymm hle hge, fun e he => ?_⟩
    rw [← h e.1, get?_eq_some_iff]
    exact he

end OrderedMap

end TypedLambda
