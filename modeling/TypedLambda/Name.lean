/-!
Names, and sets of names written as lists in strictly increasing order.

Names are ordered by code points. `Name.add` puts a name at its place unless it is there already,
so `Name.sorted` lists each name of a list once and in order.
-/

namespace TypedLambda

abbrev Name := String

namespace Name

def add (x : Name) : List Name → List Name
  | [] => [x]
  | y :: rest => if x = y then y :: rest else if x < y then x :: y :: rest else y :: add x rest

/-- The names of a list in increasing order, each once. -/
def sorted (xs : List Name) : List Name := xs.foldr add []

@[simp] theorem mem_add {x y : Name} {xs : List Name} : y ∈ add x xs ↔ y = x ∨ y ∈ xs := by
  induction xs with
  | nil => simp [add]
  | cons z rest ih =>
    by_cases h : x = z
    · simp [add, h]
    · by_cases hlt : x < z
      · simp [add, h, hlt]
      · simp [add, h, hlt, ih, or_left_comm]

@[simp] theorem mem_sorted {y : Name} {xs : List Name} : y ∈ sorted xs ↔ y ∈ xs := by
  induction xs with
  | nil => simp [sorted]
  | cons x rest ih =>
    have : sorted (x :: rest) = add x (sorted rest) := rfl
    simp [this, ih]

theorem pairwise_add (x : Name) {xs : List Name} (h : xs.Pairwise (· < ·)) :
    (add x xs).Pairwise (· < ·) := by
  induction xs with
  | nil => simp [add]
  | cons y rest ih =>
    rw [List.pairwise_cons] at h
    by_cases hxy : x = y
    · simpa [add, hxy] using h
    · by_cases hlt : x < y
      · simp only [add, hxy, hlt, if_true, if_false, List.pairwise_cons]
        refine ⟨?_, h⟩
        intro z hz
        rcases List.mem_cons.1 hz with rfl | hz
        · exact hlt
        · exact String.lt_trans hlt (h.1 z hz)
      · simp only [add, hxy, hlt, if_false, List.pairwise_cons]
        refine ⟨?_, ih h.2⟩
        intro z hz
        rcases mem_add.1 hz with rfl | hz
        · exact String.not_le.1 fun hle => hxy (String.le_antisymm hle (String.not_lt.1 hlt))
        · exact h.1 z hz

theorem pairwise_sorted (xs : List Name) : (sorted xs).Pairwise (· < ·) := by
  induction xs with
  | nil => exact List.Pairwise.nil
  | cons x rest ih => exact pairwise_add x ih

theorem nodup_sorted (xs : List Name) : (sorted xs).Nodup :=
  (pairwise_sorted xs).imp fun h => String.ne_of_lt h

theorem sorted_congr {xs ys : List Name} (h : ∀ x, x ∈ xs ↔ x ∈ ys) : sorted xs = sorted ys := by
  have perm : (sorted xs).Perm (sorted ys) :=
    (List.perm_ext_iff_of_nodup (nodup_sorted xs) (nodup_sorted ys)).2 fun x => by simpa using h x
  exact perm.eq_of_pairwise (fun _ _ _ _ hab hba => absurd hba (String.lt_asymm hab))
    (pairwise_sorted xs) (pairwise_sorted ys)

/-- Fewer names are listed where every name is among the others and one of those is missing. -/
theorem length_sorted_lt {xs ys : List Name} (h : ∀ x ∈ xs, x ∈ ys) {z : Name} (hz : z ∈ ys)
    (hzx : z ∉ xs) : (sorted xs).length < (sorted ys).length := by
  have nodup : (z :: sorted xs).Nodup := List.nodup_cons.2 ⟨by simpa using hzx, nodup_sorted xs⟩
  refine nodup.length_le_of_subset fun x hx => ?_
  rcases List.mem_cons.1 hx with rfl | hx
  · simpa using hz
  · simpa using h x (by simpa using hx)

theorem length_sorted_le {xs ys : List Name} (h : ∀ x ∈ xs, x ∈ ys) :
    (sorted xs).length ≤ (sorted ys).length :=
  (nodup_sorted xs).length_le_of_subset fun x hx => by simpa using h x (by simpa using hx)

end Name

end TypedLambda
