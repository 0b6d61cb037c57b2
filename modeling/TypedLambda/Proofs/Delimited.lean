import TypedLambda.Text

/-!
Parts of a text that end where a reader can see it.

A word ends before the first character that cannot stand in it, so a text that
begins with a word does not begin with another one, as long as no such
character follows (`Stops`). Numbers are words. A quoted string ends of itself:
the characters inside are written so that none of them begins like another one
or like the closing quote (`escape_cases`).
-/

namespace TypedLambda

variable {p : Char → Bool} {u v r s : List Char} {c d : Char}

/-! ### Words -/

theorem ne_of_kind (hc : p c = true) (hd : p d = false) : c ≠ d := by
  rintro rfl
  exact Bool.false_ne_true (hd.symm.trans hc)

/-- The text does not go on with a character of the given kind. -/
def Stops (p : Char → Bool) (r : List Char) : Prop := ∀ c ∈ r.head?, p c = false

theorem takeWhile_append_of_stops (hu : ∀ c ∈ u, p c = true) (hr : Stops p r) :
    (u ++ r).takeWhile p = u := by
  rw [List.takeWhile_append_of_pos hu]
  cases r with
  | nil => simp
  | cons c r => simp [hr c rfl]

theorem dropWhile_append_of_stops (hu : ∀ c ∈ u, p c = true) (hr : Stops p r) :
    (u ++ r).dropWhile p = r := by
  rw [List.dropWhile_append_of_pos hu]
  cases r with
  | nil => simp
  | cons c r => simp [hr c rfl]

/-- Equal texts that begin with words begin with the same word. -/
theorem append_inj_of_stops (hu : ∀ c ∈ u, p c = true) (hv : ∀ c ∈ v, p c = true)
    (hr : Stops p r) (hs : Stops p s) (h : u ++ r = v ++ s) : u = v ∧ r = s := by
  have heq : u = v := by
    rw [← takeWhile_append_of_stops hu hr, h, takeWhile_append_of_stops hv hs]
  subst heq
  exact ⟨rfl, List.append_cancel_left h⟩

/-! ### Numbers -/

namespace Decimal

variable {m n : Int}

theorem toList_ofNat (n : Nat) : (integer (.ofNat n)).toList = digits n := by
  simp [integer, natural]

theorem toList_negSucc (n : Nat) : (integer (.negSucc n)).toList = '-' :: digits (n + 1) := by
  simp [integer, natural]

theorem isDigit_of_mem_digits {n : Nat} (h : c ∈ digits n) : c.isDigit = true :=
  Nat.isDigit_of_mem_toDigits (by decide) (by decide) h

theorem isDigit_or_minus (h : c ∈ (integer n).toList) : c.isDigit = true ∨ c = '-' := by
  cases n with
  | ofNat n => exact .inl (isDigit_of_mem_digits (toList_ofNat n ▸ h))
  | negSucc n =>
      rw [toList_negSucc] at h
      exact (List.mem_cons.1 h).symm.imp_left isDigit_of_mem_digits

theorem toList_integer_ne_nil (n : Int) : (integer n).toList ≠ [] := by
  cases n with
  | ofNat n => exact toList_ofNat n ▸ digits_ne_nil n
  | negSucc n => simp [toList_negSucc]

theorem minus_not_mem_digits (n : Nat) : '-' ∉ digits n :=
  fun h => absurd (isDigit_of_mem_digits h) (by decide)

theorem integer_injective (h : integer m = integer n) : m = n := by
  have htext : (integer m).toList = (integer n).toList := by rw [h]
  cases m with
  | ofNat m =>
      cases n with
      | ofNat n =>
          rw [toList_ofNat, toList_ofNat] at htext
          rw [digits_injective htext]
      | negSucc n =>
          rw [toList_ofNat, toList_negSucc] at htext
          exact (minus_not_mem_digits m (htext ▸ List.mem_cons_self)).elim
  | negSucc m =>
      cases n with
      | ofNat n =>
          rw [toList_ofNat, toList_negSucc] at htext
          exact (minus_not_mem_digits n (htext ▸ List.mem_cons_self)).elim
      | negSucc n =>
          rw [toList_negSucc, toList_negSucc] at htext
          rw [Nat.succ.inj (digits_injective (List.cons.inj htext).2)]

def isNumeral (c : Char) : Bool := c.isDigit || c == '-'

theorem integer_isNumeral (n : Int) : ∀ c ∈ (integer n).toList, isNumeral c = true := by
  intro c hc
  simpa [isNumeral] using isDigit_or_minus hc

/-- A number is read up to the first character that cannot stand in one. -/
theorem integer_append_inj (hr : Stops isNumeral r) (hs : Stops isNumeral s)
    (h : (integer m).toList ++ r = (integer n).toList ++ s) : m = n ∧ r = s :=
  (append_inj_of_stops (integer_isNumeral m) (integer_isNumeral n) hr hs h).imp_left fun heq =>
    integer_injective (String.toList_inj.1 heq)

theorem toList_integer_eq_cons (n : Int) :
    ∃ c u, (integer n).toList = c :: u ∧ isNumeral c = true := by
  obtain ⟨c, u, h⟩ := List.exists_cons_of_ne_nil (toList_integer_ne_nil n)
  exact ⟨c, u, h, integer_isNumeral n c (h ▸ List.mem_cons_self)⟩

end Decimal

/-! ### Hexadecimal digits -/

theorem toDigits_sixteen_injective {m n : Nat} (h : Nat.toDigits 16 m = Nat.toDigits 16 n) :
    m = n := by
  have digit : ∀ i < 16, ∀ j < 16, Nat.digitChar i = Nat.digitChar j → i = j := by decide
  induction m using Nat.strongRecOn generalizing n with
  | ind m ih =>
      rw [Nat.toDigits_eq_if (by decide), Nat.toDigits_eq_if (n := n) (by decide)] at h
      split at h
      · next hm =>
        split at h
        · next hn => exact digit m hm n hn (List.singleton_inj.1 h)
        · simp [List.singleton_eq_append_iff, Nat.toDigits_ne_nil] at h
      · next hm =>
        split at h
        · simp [List.append_eq_singleton_iff, Nat.toDigits_ne_nil] at h
        · next hn =>
          obtain ⟨hinit, hlast⟩ := List.append_inj' h rfl
          have hdiv : m / 16 = n / 16 := ih _ (by omega) hinit
          have hmod : m % 16 = n % 16 :=
            digit _ (Nat.mod_lt _ (by decide)) _ (Nat.mod_lt _ (by decide))
              (List.singleton_inj.1 hlast)
          omega

theorem brace_not_mem_toDigits (n : Nat) : '\x7d' ∉ Nat.toDigits 16 n := by
  have digit (d : Nat) : '\x7d' ∉ [Nat.digitChar d] := by simp
  induction n using Nat.strongRecOn with
  | ind n ih =>
      rw [Nat.toDigits_eq_if (by decide)]
      split
      · exact digit n
      · next hn =>
        rw [List.mem_append, not_or]
        exact ⟨ih _ (by omega), digit _⟩

/-! ### Quoted strings -/

namespace Quoted

def shortEscapes : List (Char × Char) :=
  [('"', '"'), ('\\', '\\'), ('n', '\n'), ('r', '\r'), ('t', '\t'), ('0', '\x00')]

/-- How a character is written: as it is, with one character after a backslash,
or by its code point. -/
theorem escape_cases (c : Char) :
    (escape c = [c] ∧ c ≠ '"' ∧ c ≠ '\\') ∨
      (∃ k, escape c = ['\\', k] ∧ (k, c) ∈ shortEscapes) ∨
      escape c = '\\' :: 'u' :: '\x7b' :: (Nat.toDigits 16 c.toNat ++ ['\x7d']) := by
  unfold escape
  split
  · exact .inr (.inl ⟨_, rfl, by decide⟩)
  · exact .inr (.inl ⟨_, rfl, by decide⟩)
  · exact .inr (.inl ⟨_, rfl, by decide⟩)
  · exact .inr (.inl ⟨_, rfl, by decide⟩)
  · exact .inr (.inl ⟨_, rfl, by decide⟩)
  · exact .inr (.inl ⟨_, rfl, by decide⟩)
  · next hquote hbackslash _ _ _ _ =>
    split
    · exact .inl ⟨rfl, hquote, hbackslash⟩
    · exact .inr (.inr (by simp))

theorem shortEscapes_eq {k : Char} (hc : (k, c) ∈ shortEscapes) (hd : (k, d) ∈ shortEscapes) :
    c = d := by
  have key : ∀ e ∈ shortEscapes, ∀ f ∈ shortEscapes, e.1 = f.1 → e.2 = f.2 := by decide
  exact key _ hc _ hd rfl

theorem not_mem_shortEscapes (c : Char) : ('u', c) ∉ shortEscapes := by
  have key : ∀ e ∈ shortEscapes, e.1 ≠ 'u' := by decide
  exact fun h => key _ h rfl

theorem codePoint_append_inj
    (h : Nat.toDigits 16 c.toNat ++ '\x7d' :: r = Nat.toDigits 16 d.toNat ++ '\x7d' :: s) :
    c = d ∧ r = s := by
  have digits (n : Nat) : ∀ a ∈ Nat.toDigits 16 n, (a != '\x7d') = true := by
    rintro a ha
    simpa using fun heq : a = '\x7d' => brace_not_mem_toDigits n (heq ▸ ha)
  have stops (r : List Char) : Stops (· != '\x7d') ('\x7d' :: r) := by simp [Stops]
  obtain ⟨hdigits, hrest⟩ := append_inj_of_stops (digits _) (digits _) (stops r) (stops s) h
  exact ⟨Char.toNat_inj.1 (toDigits_sixteen_injective hdigits), (List.cons.inj hrest).2⟩

/-- No written character begins like another one. -/
theorem escape_append_inj (h : escape c ++ r = escape d ++ s) : c = d ∧ r = s := by
  rcases escape_cases c with ⟨hc, -, hcback⟩ | ⟨k, hc, hk⟩ | hc <;>
    rcases escape_cases d with ⟨hd, -, hdback⟩ | ⟨l, hd, hl⟩ | hd <;>
    rw [hc, hd] at h
  · exact List.cons.inj h
  · exact (hcback (List.cons.inj h).1).elim
  · exact (hcback (List.cons.inj h).1).elim
  · exact (hdback (List.cons.inj h).1.symm).elim
  · obtain ⟨rfl, rfl⟩ : k = l ∧ r = s := by simpa using h
    exact ⟨shortEscapes_eq hk hl, rfl⟩
  · obtain ⟨rfl, -⟩ : k = 'u' ∧ _ := by simpa using h
    exact (not_mem_shortEscapes c hk).elim
  · exact (hdback (List.cons.inj h).1.symm).elim
  · obtain ⟨rfl, -⟩ : 'u' = l ∧ _ := by simpa using h
    exact (not_mem_shortEscapes d hl).elim
  · exact codePoint_append_inj (by simpa using h)

theorem escape_append_ne (c : Char) (r s : List Char) : escape c ++ r ≠ '"' :: s := by
  rcases escape_cases c with ⟨hc, hquote, -⟩ | ⟨k, hc, -⟩ | hc
  · simp [hc, hquote]
  · simp [hc]
  · simp [hc]

theorem flatMap_escape_append_inj
    (h : u.flatMap escape ++ '"' :: r = v.flatMap escape ++ '"' :: s) : u = v ∧ r = s := by
  induction u generalizing v with
  | nil =>
      cases v with
      | nil => exact ⟨rfl, (List.cons.inj h).2⟩
      | cons d v =>
          rw [List.flatMap_cons, List.append_assoc] at h
          exact (escape_append_ne d _ _ h.symm).elim
  | cons c u ih =>
      cases v with
      | nil =>
          rw [List.flatMap_cons, List.append_assoc] at h
          exact (escape_append_ne c _ _ h).elim
      | cons d v =>
          rw [List.flatMap_cons, List.flatMap_cons, List.append_assoc, List.append_assoc] at h
          obtain ⟨rfl, hinside⟩ := escape_append_inj h
          obtain ⟨rfl, hrest⟩ := ih hinside
          exact ⟨rfl, hrest⟩

theorem toList_render (x : String) :
    (render x).toList = '"' :: (x.toList.flatMap escape ++ ['"']) := by
  simp [render]

/-- A quoted string ends at its closing quote, and is the text of no other
string. -/
theorem render_append_inj {x y : String} (h : (render x).toList ++ r = (render y).toList ++ s) :
    x = y ∧ r = s := by
  have hinside : x.toList.flatMap escape ++ '"' :: r = y.toList.flatMap escape ++ '"' :: s := by
    simpa [toList_render] using h
  exact (flatMap_escape_append_inj hinside).imp_left String.toList_inj.1

end Quoted

end TypedLambda
