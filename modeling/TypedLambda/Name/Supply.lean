import TypedLambda.Name
import TypedLambda.Text

/-!
A supply of names for type variables.

The names come in a fixed order: the Greek letters without `λ`, then the same letters with the
suffix 1, then with the suffix 2, and so on. A supply knows which names are taken and where in the
order it stands, and `draw` gives the first name from there on that is not taken. The search for
it never fails: names at different places differ, so among as many places as there are taken
names and one more, one is free (`greek_seek_not_mem`).
-/

namespace TypedLambda

namespace Name

/-! ### The order of names -/

def letters : List Char :=
  ['α', 'β', 'γ', 'δ', 'ε', 'ζ', 'η', 'θ', 'ι', 'κ', 'μ', 'ν', 'ξ', 'ο', 'π', 'ρ', 'σ', 'τ', 'υ',
    'φ', 'χ', 'ψ', 'ω']

def letterAt (i : Nat) : Char := letters.get ⟨i % letters.length, Nat.mod_lt i (by decide)⟩

/-- The suffix of the name at place `i`: nothing in the first round, then its number. -/
def suffixAt (i : Nat) : List Char :=
  if i / letters.length = 0 then [] else Decimal.digits (i / letters.length)

def greek (i : Nat) : Name := String.ofList (letterAt i :: suffixAt i)

theorem greek_injective {i j : Nat} (h : greek i = greek j) : i = j := by
  have hl : letterAt i :: suffixAt i = letterAt j :: suffixAt j := by
    simpa [greek] using congrArg String.toList h
  obtain ⟨hletter, hsuffix⟩ := List.cons.inj hl
  have hmod : i % letters.length = j % letters.length :=
    (List.getElem_inj (by decide : letters.Nodup)).1 (by simpa [letterAt] using hletter)
  have hdiv : i / letters.length = j / letters.length := by
    unfold suffixAt at hsuffix
    split at hsuffix <;> split at hsuffix
    · next hi hj => rw [hi, hj]
    · exact absurd hsuffix.symm (Decimal.digits_ne_nil _)
    · exact absurd hsuffix (Decimal.digits_ne_nil _)
    · exact Decimal.digits_injective hsuffix
  rw [← Nat.div_add_mod i letters.length, ← Nat.div_add_mod j letters.length, hdiv, hmod]

/-- The first of the places `i`, `i + 1`, …, `i + rounds` whose name is not taken; the last one if
all others are. -/
def seek (taken : List Name) : Nat → Nat → Nat
  | 0, i => i
  | rounds + 1, i => if greek i ∈ taken then seek taken rounds (i + 1) else i

/-- If the name that `seek` arrives at is taken, so are those of all places before it. -/
theorem greek_mem_of_seek {taken : List Name} {rounds i : Nat}
    (h : greek (seek taken rounds i) ∈ taken) : ∀ j ≤ rounds, greek (i + j) ∈ taken := by
  induction rounds generalizing i with
  | zero =>
    intro j hj
    obtain rfl : j = 0 := Nat.le_zero.1 hj
    exact h
  | succ rounds ih =>
    by_cases hi : greek i ∈ taken
    · simp only [seek, hi, if_true] at h
      intro j hj
      cases j with
      | zero => exact hi
      | succ j =>
        have := ih h j (Nat.le_of_succ_le_succ hj)
        rwa [Nat.add_right_comm, Nat.add_assoc] at this
    · simp [seek, hi] at h

/-- As many rounds as there are taken names lead to a name that is not taken. -/
theorem greek_seek_not_mem (taken : List Name) (i : Nat) :
    greek (seek taken taken.length i) ∉ taken := by
  intro h
  let candidates := (List.range (taken.length + 1)).map fun j => greek (i + j)
  have nodup : candidates.Nodup := by
    rw [List.nodup_iff_pairwise_ne, List.pairwise_map]
    exact List.nodup_range.imp fun hne heq => hne (Nat.add_left_cancel (greek_injective heq))
  have subset : candidates ⊆ taken := by
    intro x hx
    obtain ⟨j, hj, rfl⟩ := List.mem_map.1 hx
    exact greek_mem_of_seek h j (Nat.lt_succ_iff.1 (List.mem_range.1 hj))
  have := nodup.length_le_of_subset subset
  simp only [candidates, List.length_map, List.length_range] at this
  omega

end Name

/-! ### Supplies -/

structure NameSupply where
  /-- The names that are taken, in increasing order. -/
  taken : List Name
  /-- Where in the order of names the search goes on. -/
  next : Nat
  deriving DecidableEq

namespace NameSupply

def full : NameSupply := ⟨[], 0⟩

def reserve (s : NameSupply) (xs : List Name) : NameSupply :=
  { s with taken := xs.foldr Name.add s.taken }

def avoiding (xs : List Name) : NameSupply := full.reserve xs

/-- Gives the next name that is not taken, and takes it. -/
def draw (s : NameSupply) : Name × NameSupply :=
  let i := Name.seek s.taken s.taken.length s.next
  (Name.greek i, ⟨Name.add (Name.greek i) s.taken, i + 1⟩)

@[simp] theorem mem_taken_reserve {s : NameSupply} {xs : List Name} {x : Name} :
    x ∈ (s.reserve xs).taken ↔ x ∈ xs ∨ x ∈ s.taken := by
  have key : ∀ ys : List Name, x ∈ ys.foldr Name.add s.taken ↔ x ∈ ys ∨ x ∈ s.taken := by
    intro ys
    induction ys with
    | nil => simp
    | cons y rest ih => simp [ih, or_assoc]
  exact key xs

@[simp] theorem mem_taken_avoiding {xs : List Name} {x : Name} :
    x ∈ (avoiding xs).taken ↔ x ∈ xs := by
  simp [avoiding, full]

theorem avoiding_congr {xs ys : List Name} (h : ∀ x, x ∈ xs ↔ x ∈ ys) :
    avoiding xs = avoiding ys := by
  show NameSupply.mk (Name.sorted xs) 0 = ⟨Name.sorted ys, 0⟩
  rw [Name.sorted_congr h]

@[simp] theorem mem_taken_draw {s : NameSupply} {x : Name} :
    x ∈ s.draw.2.taken ↔ x = s.draw.1 ∨ x ∈ s.taken :=
  Name.mem_add

theorem draw_not_mem (s : NameSupply) : s.draw.1 ∉ s.taken :=
  Name.greek_seek_not_mem s.taken s.next

end NameSupply

end TypedLambda
