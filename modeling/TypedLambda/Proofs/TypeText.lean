import TypedLambda.Proofs.Delimited
import TypedLambda.Ty.Basic

/-!
The written form of types is unambiguous.

Names are written as they are, so this holds for plain names (`Name.Plain`):
those that are words of their own and cannot be taken for a number or for a
word with a meaning. The first characters of a text tell the form of the type
that it begins with (`kind_ofText`), and the text of each part ends where a
blank or a closing sign follows. So a type is read from left to right, part by
part (`Readable`).
-/

namespace TypedLambda

variable {r s : List Char} {x y : Name}

/-! ### Words -/

def isWordChar (c : Char) : Bool := c ∉ [' ', '(', ')', '<', '>', '.', ':', '"']

/-- A term or type has ended, since what follows cannot belong to it. -/
def Ends (r : List Char) : Prop := ∀ c ∈ r.head?, c ∈ [' ', ')', '>']

theorem Ends.stops (h : Ends r) : Stops isWordChar r := by
  have key : ∀ c ∈ [' ', ')', '>'], isWordChar c = false := by simp [isWordChar]
  exact fun c hc => key c (h c hc)

theorem Ends.stops_isNumeral (h : Ends r) : Stops Decimal.isNumeral r := by
  have key : ∀ c ∈ [' ', ')', '>'], Decimal.isNumeral c = false := by simp [Decimal.isNumeral]
  exact fun c hc => key c (h c hc)

theorem Ends.ne_angle (h : Ends r) : r.head? ≠ some '<' :=
  fun hc => absurd (h _ hc) (by decide)

theorem ends_nil : Ends [] := by simp [Ends]

theorem ends_cons {c : Char} : Ends (c :: r) ↔ c ∈ [' ', ')', '>'] := by simp [Ends]

def readWord {κ : Type} (table : List (Name × κ)) (other : κ) (cs : List Char) : κ :=
  (table.lookup (String.ofList (cs.takeWhile isWordChar))).getD other

theorem readWord_append {κ : Type} {table : List (Name × κ)} {other : κ}
    (hx : x.toList.all isWordChar = true) (hr : Stops isWordChar r) :
    readWord table other (x.toList ++ r) = (table.lookup x).getD other := by
  rw [readWord, takeWhile_append_of_stops (List.all_eq_true.1 hx) hr, String.ofList_toList]

theorem lookup_of_not_mem {κ : Type} {table : List (Name × κ)} (h : x ∉ table.map Prod.fst) :
    table.lookup x = none := by
  rw [List.lookup_eq_none_iff]
  exact fun e he => by simpa using fun heq : x = e.1 => h (heq ▸ List.mem_map_of_mem he)

/-! ### Reading -/

section

variable {α : Type} {plain : α → Prop} {render : α → String} {a b : α}

/-- The text of `a` ends where this can be seen, and it is the text of nothing
else that is plain. -/
def Readable (plain : α → Prop) (render : α → String) (a : α) : Prop :=
  ∀ b r s, plain b → Ends r → Ends s → (render a).toList ++ r = (render b).toList ++ s →
    a = b ∧ r = s

/-- What stands before a closing sign or a blank is read up to it. -/
theorem Readable.before {c : Char} (h : Readable plain render a) (hb : plain b)
    (hc : c ∈ [' ', ')', '>'])
    (heq : (render a).toList ++ c :: r = (render b).toList ++ c :: s) : a = b ∧ r = s :=
  (h b _ _ hb (ends_cons.2 hc) (ends_cons.2 hc) heq).imp_right fun hrest => (List.cons.inj hrest).2

theorem Readable.eq (h : Readable plain render a) (hb : plain b) (heq : render a = render b) :
    a = b :=
  (h b [] [] hb ends_nil ends_nil (by rw [heq])).1

end

/-! ### Plain names -/

/-- A name that cannot be taken for anything else, where the words `reserved`
have a meaning. -/
structure Name.Plain (reserved : List Name) (x : Name) : Prop where
  ne_empty : x ≠ ""
  chars : ∀ c ∈ x.toList, c ∉ [' ', '(', ')', '<', '>', '.', ':', '"', '?']
  first : ∀ c ∈ x.toList.head?, c.isDigit = false ∧ c ∉ ['-', '+', '_', 'λ']
  not_reserved : x ∉ reserved

namespace Name.Plain

variable {reserved : List Name}

instance : Decidable (x.Plain reserved) :=
  decidable_of_iff
    (x ≠ "" ∧ (x.toList.all fun c => c ∉ [' ', '(', ')', '<', '>', '.', ':', '"', '?']) ∧
      (x.toList.head?.all fun c => !c.isDigit && c ∉ ['-', '+', '_', 'λ']) ∧ x ∉ reserved)
    ⟨fun ⟨hne, hchars, hfirst, hx⟩ =>
        ⟨hne, by simpa using hchars, by simpa [Option.all_eq_true] using hfirst, hx⟩,
      fun h => ⟨h.1, by simpa using h.2, by simpa [Option.all_eq_true] using h.3, h.4⟩⟩

theorem word (h : x.Plain reserved) : x.toList.all isWordChar = true :=
  List.all_eq_true.2 fun c hc =>
    decide_eq_true fun hmem => h.chars c hc (List.mem_append_left ['?'] hmem)

theorem toList_ne_nil (h : x.Plain reserved) : x.toList ≠ [] :=
  fun hnil => h.ne_empty (String.toList_inj.1 hnil)

theorem toList_eq_cons (h : x.Plain reserved) :
    ∃ c u, x.toList = c :: u ∧ Decimal.isNumeral c = false ∧ c ≠ '_' ∧ c ≠ 'λ' ∧ c ≠ ':' := by
  obtain ⟨c, u, hx⟩ := List.exists_cons_of_ne_nil h.toList_ne_nil
  obtain ⟨hdigit, hsign⟩ := h.first c (by rw [hx]; rfl)
  simp only [List.mem_cons, not_or] at hsign
  obtain ⟨hminus, -, hunderscore, hlambda, -⟩ := hsign
  have hcolon : c ≠ ':' := by
    rintro rfl
    exact h.chars _ (hx ▸ List.mem_cons_self) (by decide)
  exact ⟨c, u, hx, by simp [Decimal.isNumeral, hdigit, hminus], hunderscore, hlambda, hcolon⟩

theorem append_inj (hx : x.Plain reserved) (hy : y.Plain reserved) (hr : Stops isWordChar r)
    (hs : Stops isWordChar s) (h : x.toList ++ r = y.toList ++ s) : x = y ∧ r = s :=
  (append_inj_of_stops (List.all_eq_true.1 hx.word) (List.all_eq_true.1 hy.word) hr hs h).imp_left
    String.toList_inj.1

end Name.Plain

/-! ### Types -/

namespace Ty

variable {A B : Ty}

def reserved : List Name := ["Bool", "Int", "Unit", "String"]

def Plain (A : Ty) : Prop := ∀ a ∈ A.vars, a.Plain reserved

instance (A : Ty) : Decidable A.Plain :=
  inferInstanceAs (Decidable (∀ a ∈ A.vars, a.Plain reserved))

theorem plain_arrow : (arrow A B).Plain ↔ A.Plain ∧ B.Plain := List.forall_mem_append

theorem plain_list : (list A).Plain ↔ A.Plain := Iff.rfl

theorem plain_var : (var x).Plain ↔ x.Plain reserved := List.forall_mem_singleton

inductive Kind
  | bool
  | int
  | unit
  | string
  | arrow
  | list
  | var

def kind : Ty → Kind
  | bool => .bool
  | int => .int
  | unit => .unit
  | string => .string
  | arrow _ _ => .arrow
  | list _ => .list
  | var _ => .var

def constants : List (Name × Kind) :=
  [("Bool", .bool), ("Int", .int), ("Unit", .unit), ("String", .string)]

def Kind.ofText (cs : List Char) : Kind :=
  if cs.head? = some '(' then .arrow
  else if (cs.dropWhile isWordChar).head? = some '<' then .list
  else readWord constants .var cs

theorem kind_ofText_word (hx : x.toList.all isWordChar = true) (hne : x.toList ≠ []) (hr : Ends r) :
    Kind.ofText (x.toList ++ r) = (constants.lookup x).getD .var := by
  have hword := List.all_eq_true.1 hx
  have hparen : (x.toList ++ r).head? ≠ some '(' := by
    obtain ⟨c, u, hcons⟩ := List.exists_cons_of_ne_nil hne
    simpa [hcons] using ne_of_kind (hword c (hcons ▸ List.mem_cons_self)) (by decide)
  have hangle : ((x.toList ++ r).dropWhile isWordChar).head? ≠ some '<' := by
    rw [dropWhile_append_of_stops hword hr.stops]
    exact hr.ne_angle
  rw [Kind.ofText, if_neg hparen, if_neg hangle, readWord_append hx hr.stops]

theorem kind_ofText (hA : A.Plain) (hr : Ends r) : Kind.ofText (A.render.toList ++ r) = A.kind := by
  cases A with
  | bool => exact kind_ofText_word (x := "Bool") (by decide) (by decide) hr
  | int => exact kind_ofText_word (x := "Int") (by decide) (by decide) hr
  | unit => exact kind_ofText_word (x := "Unit") (by decide) (by decide) hr
  | string => exact kind_ofText_word (x := "String") (by decide) (by decide) hr
  | arrow A B => simp [render, Kind.ofText, kind]
  | list A =>
      have hangle : ("List".toList ++ '<' :: (A.render.toList ++ '>' :: r)).dropWhile isWordChar =
          '<' :: (A.render.toList ++ '>' :: r) :=
        dropWhile_append_of_stops (List.all_eq_true.1 (by decide)) (by simp [Stops, isWordChar])
      have htext : (list A).render.toList ++ r =
          "List".toList ++ '<' :: (A.render.toList ++ '>' :: r) := by simp [render]
      rw [htext, Kind.ofText, if_neg (by simp), if_pos (by rw [hangle]; rfl)]
      rfl
  | var x =>
      have hx := plain_var.1 hA
      rw [render, kind_ofText_word hx.word hx.toList_ne_nil hr, lookup_of_not_mem hx.not_reserved]
      rfl

theorem kind_eq (hA : A.Plain) (hB : B.Plain) (hr : Ends r) (hs : Ends s)
    (h : A.render.toList ++ r = B.render.toList ++ s) : A.kind = B.kind := by
  rw [← kind_ofText hA hr, h, kind_ofText hB hs]

theorem readable (hA : A.Plain) : Readable Plain render A := by
  induction A with
  | bool | int | unit | string =>
      intro B r s hB hr hs heq
      have hkind := kind_eq hA hB hr hs heq
      cases B <;> simp [kind] at hkind
      exact ⟨rfl, List.append_cancel_left heq⟩
  | var x =>
      intro B r s hB hr hs heq
      have hkind := kind_eq hA hB hr hs heq
      cases B <;> simp [kind] at hkind
      next y =>
        have hname := (plain_var.1 hA).append_inj (plain_var.1 hB) hr.stops hs.stops heq
        exact hname.imp_left (congrArg var)
  | list A ih =>
      intro B r s hB hr hs heq
      have hkind := kind_eq hA hB hr hs heq
      cases B <;> simp [kind] at hkind
      next B =>
        have hinside : A.render.toList ++ '>' :: r = B.render.toList ++ '>' :: s := by
          simpa [render] using heq
        obtain ⟨rfl, hrest⟩ :=
          (ih (plain_list.1 hA)).before (plain_list.1 hB) (by decide) hinside
        exact ⟨rfl, hrest⟩
  | arrow A A' ih ih' =>
      intro B r s hB hr hs heq
      have hkind := kind_eq hA hB hr hs heq
      cases B <;> simp [kind] at hkind
      next B B' =>
        obtain ⟨hA, hA'⟩ := plain_arrow.1 hA
        obtain ⟨hB, hB'⟩ := plain_arrow.1 hB
        have hinside :
            A.render.toList ++ ' ' :: '-' :: '>' :: ' ' :: (A'.render.toList ++ ')' :: r) =
              B.render.toList ++ ' ' :: '-' :: '>' :: ' ' :: (B'.render.toList ++ ')' :: s) := by
          simpa [render] using heq
        obtain ⟨rfl, harrow⟩ := (ih hA).before hB (by decide) hinside
        have hcod : A'.render.toList ++ ')' :: r = B'.render.toList ++ ')' :: s := by
          simpa using harrow
        obtain ⟨rfl, hrest⟩ := (ih' hA').before hB' (by decide) hcod
        exact ⟨rfl, hrest⟩

end Ty

end TypedLambda
