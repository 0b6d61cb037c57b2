import TypedLambda.Proofs.Delimited
import TypedLambda.Proofs.Simulation

/-!
The written form of lists of values.

A chain that ends in `nil` is written between brackets, with a comma and a
blank between its elements. Such a text is read from its first characters on:
they tell the form of the value (`kind_ofText`), and after the text of an
element there is the closing bracket or a comma, which stands in no number. So
values without functions whose chains all end in `nil` are told apart by their
texts, in whatever way lists are nested and whatever their strings contain.
-/

namespace TypedLambda.Value

variable {v w hd tl : Value} {r s : List Char}

/-! ### Lists -/

def IsList : Value → Prop
  | nil => True
  | cons _ tl => tl.IsList
  | _ => False

def elements : Value → List Value
  | cons hd tl => hd :: tl.elements
  | _ => []

def Proper : Value → Prop
  | cons hd tl => hd.Proper ∧ tl.Proper ∧ tl.IsList
  | _ => True

theorem pieces_of_isList (h : v.IsList) : v.pieces = (v.elements.map render, none) := by
  induction v with
  | nil => rfl
  | cons hd tl _ ih => rw [pieces, ih h]; rfl
  | bool | int | string | unit | fn | wildcard => exact h.elim

/-- A chain that ends in `nil` is written as the list of its elements. -/
theorem render_of_isList (h : v.IsList) :
    v.render = "[" ++ ", ".intercalate (v.elements.map render) ++ "]" := by
  rw [render, pieces_of_isList h, join]

/-! ### Element after element -/

/-- What is written in a list after an element, up to the closing bracket. -/
def after : Value → List Char
  | cons hd tl => ',' :: ' ' :: (hd.render.toList ++ tl.after)
  | _ => [']']

theorem intercalate_elements (h : tl.IsList) (x : String) :
    (", ".intercalate (x :: tl.elements.map render)).toList ++ [']'] = x.toList ++ tl.after := by
  induction tl generalizing x with
  | nil => simp [elements, after]
  | cons hd tl _ ih =>
      rw [elements, List.map_cons, String.intercalate_cons_cons, after, ← ih h]
      simp
  | bool | int | string | unit | fn | wildcard => exact h.elim

theorem toList_render_cons (h : tl.IsList) :
    (cons hd tl).render.toList = '[' :: (hd.render.toList ++ tl.after) := by
  have hlist : (cons hd tl).IsList := h
  rw [render_of_isList hlist, ← intercalate_elements h]
  simp [elements]

/-! ### Forms of values -/

inductive Kind
  | bool (b : Bool)
  | int
  | string
  | unit
  | nil
  | cons
  | function

def kind : Value → Kind
  | bool b => .bool b
  | int _ => .int
  | string _ => .string
  | unit => .unit
  | fn _ _ | wildcard _ => .function
  | nil => .nil
  | cons _ _ => .cons

def Kind.ofText : List Char → Kind
  | 't' :: _ => .bool true
  | 'f' :: _ => .bool false
  | 'u' :: _ => .unit
  | '"' :: _ => .string
  | '<' :: _ => .function
  | '[' :: ']' :: _ => .nil
  | '[' :: _ => .cons
  | _ => .int

theorem kind_ofText_numeral {c : Char} (hc : Decimal.isNumeral c = true) (r : List Char) :
    Kind.ofText (c :: r) = .int := by
  have hne (d : Char) (hd : Decimal.isNumeral d = false) : c ≠ d := ne_of_kind hc hd
  simp [Kind.ofText, hne 't' (by decide), hne 'f' (by decide), hne 'u' (by decide),
    hne '"' (by decide), hne '<' (by decide), hne '[' (by decide)]

theorem toList_render_eq_cons (h : v.Proper) : ∃ c u, v.render.toList = c :: u ∧ c ≠ ']' := by
  cases v with
  | bool b => cases b <;> simp [render, pieces, join]
  | int n =>
      obtain ⟨c, u, hn, hc⟩ := Decimal.toList_integer_eq_cons n
      exact ⟨c, u, by simpa [render, pieces, join] using hn, ne_of_kind hc (by decide)⟩
  | string x => simp [render, pieces, join, Quoted.toList_render]
  | unit | fn | wildcard | nil => simp [render, pieces, join]
  | cons hd tl => simp [toList_render_cons h.2.2]

theorem kind_ofText (h : v.Proper) (r : List Char) :
    Kind.ofText (v.render.toList ++ r) = v.kind := by
  cases v with
  | bool b => cases b <;> simp [render, pieces, join, Kind.ofText, kind]
  | int n =>
      obtain ⟨c, u, hn, hc⟩ := Decimal.toList_integer_eq_cons n
      simp [render, pieces, join, hn, kind_ofText_numeral hc, kind]
  | string x => simp [render, pieces, join, Kind.ofText, kind, Quoted.toList_render]
  | unit | fn | wildcard | nil => simp [render, pieces, join, Kind.ofText, kind]
  | cons hd tl =>
      obtain ⟨c, u, hhd, hc⟩ := toList_render_eq_cons h.1
      simp [toList_render_cons h.2.2, Kind.ofText, kind, hhd, hc]

/-! ### Reading -/

def Data (v : Value) : Prop := v.FunctionFree ∧ v.Proper

theorem data_cons : (cons hd tl).Data ↔ hd.Data ∧ tl.Data ∧ tl.IsList := by
  constructor
  · rintro ⟨⟨hhd, htl⟩, hhd', htl', hlist⟩
    exact ⟨⟨hhd, hhd'⟩, ⟨htl, htl'⟩, hlist⟩
  · rintro ⟨⟨hhd, hhd'⟩, ⟨htl, htl'⟩, hlist⟩
    exact ⟨⟨hhd, htl⟩, hhd', htl', hlist⟩

theorem kind_eq (hv : v.Data) (hw : w.Data)
    (h : v.render.toList ++ r = w.render.toList ++ s) : v.kind = w.kind := by
  rw [← kind_ofText hv.2 r, h, kind_ofText hw.2 s]

def Ended (r : List Char) : Prop := Stops Decimal.isNumeral r

theorem ended_after (v : Value) (r : List Char) : Ended (v.after ++ r) := by
  cases v <;> simp [Ended, Stops, after] <;> decide

/-- The text of the value ends where this can be seen, and it is the text of no
other value. -/
def Readable (v : Value) : Prop :=
  ∀ w r s, w.Data → Ended r → Ended s → v.render.toList ++ r = w.render.toList ++ s →
    v = w ∧ r = s

def ReadableAfter (v : Value) : Prop :=
  ∀ w r s, w.Data → w.IsList → v.after ++ r = w.after ++ s → v = w ∧ r = s

/-- One element is read, and then the rest of the list. -/
theorem readable_element (hhd : hd.Readable) (htl : tl.ReadableAfter) {hd' tl' : Value}
    (hw : (cons hd' tl').Data)
    (h : hd.render.toList ++ (tl.after ++ r) = hd'.render.toList ++ (tl'.after ++ s)) :
    cons hd tl = cons hd' tl' ∧ r = s := by
  obtain ⟨hhd', htl', hlist⟩ := data_cons.1 hw
  obtain ⟨rfl, hafter⟩ := hhd _ _ _ hhd' (ended_after _ _) (ended_after _ _) h
  obtain ⟨rfl, hrest⟩ := htl _ _ _ htl' hlist hafter
  exact ⟨rfl, hrest⟩

theorem readable_cons (h : (cons hd tl).Data) (hhd : hd.Readable) (htl : tl.ReadableAfter) :
    (cons hd tl).Readable := by
  intro w r s hw _ _ heq
  have hkind := kind_eq h hw heq
  cases w with
  | cons hd' tl' =>
      refine readable_element hhd htl hw ?_
      simpa [toList_render_cons, (data_cons.1 h).2.2, (data_cons.1 hw).2.2] using heq
  | _ => simp [kind] at hkind

theorem readableAfter_nil : nil.ReadableAfter := by
  intro w r s _ hlist heq
  cases w with
  | nil => exact ⟨rfl, (List.cons.inj heq).2⟩
  | cons => simp [after] at heq
  | bool | int | string | unit | fn | wildcard => exact hlist.elim

theorem readableAfter_cons (hhd : hd.Readable) (htl : tl.ReadableAfter) :
    (cons hd tl).ReadableAfter := by
  intro w r s hw hlist heq
  cases w with
  | nil => simp [after] at heq
  | cons hd' tl' => exact readable_element hhd htl hw (by simpa [after] using heq)
  | bool | int | string | unit | fn | wildcard => exact hlist.elim

theorem readable_of_ne_cons (hv : v.Data) (hne : ∀ hd tl, v ≠ cons hd tl) : v.Readable := by
  intro w r s hw hr hs heq
  have hkind := kind_eq hv hw heq
  cases v with
  | bool b =>
      cases w <;> simp [kind] at hkind
      next b' =>
        subst hkind
        exact ⟨rfl, List.append_cancel_left heq⟩
  | int n =>
      cases w <;> simp [kind] at hkind
      next n' =>
        have hnumbers : (Decimal.integer n).toList ++ r = (Decimal.integer n').toList ++ s := by
          simpa [render, pieces, join] using heq
        exact (Decimal.integer_append_inj hr hs hnumbers).imp_left (congrArg int)
  | string x =>
      cases w <;> simp [kind] at hkind
      next x' =>
        have hstrings : (Quoted.render x).toList ++ r = (Quoted.render x').toList ++ s := by
          simpa [render, pieces, join] using heq
        exact (Quoted.render_append_inj hstrings).imp_left (congrArg string)
  | unit | nil =>
      cases w <;> simp [kind] at hkind
      exact ⟨rfl, List.append_cancel_left heq⟩
  | fn | wildcard => exact hv.1.elim
  | cons hd tl => exact (hne hd tl rfl).elim

theorem readable (h : v.Data) : v.Readable ∧ (v.IsList → v.ReadableAfter) := by
  induction v with
  | bool | int | string | unit => exact ⟨readable_of_ne_cons h (by simp), False.elim⟩
  | nil => exact ⟨readable_of_ne_cons h (by simp), fun _ => readableAfter_nil⟩
  | fn | wildcard => exact h.1.elim
  | cons hd tl ihhd ihtl =>
      obtain ⟨hhd, htl, hlist⟩ := data_cons.1 h
      have hafter := (ihtl htl).2 hlist
      exact ⟨readable_cons h (ihhd hhd).1 hafter, fun _ => readableAfter_cons (ihhd hhd).1 hafter⟩

/-- A chain that ends in `nil` is written as its elements between brackets, with
a comma and a blank after each one but the last. Values without functions
whose chains all end in `nil` are the same if and only if their texts are. -/
theorem render_lists :
    (∀ v : Value, v.IsList →
        v.render = "[" ++ ", ".intercalate (v.elements.map render) ++ "]") ∧
      ∀ v w : Value, v.Data → w.Data → (v.render = w.render ↔ v = w) := by
  refine ⟨fun v => render_of_isList, fun v w hv hw => ⟨fun h => ?_, congrArg render⟩⟩
  have ended : Ended [] := by simp [Ended, Stops]
  exact ((readable hv).1 w [] [] hw ended ended (by rw [h])).1

/-- Lists that differ in how they are nested, with strings that look like parts
of a list. -/
theorem render_lists_nested :
    let v : Value := .cons (.cons (.string "], [\"") .nil) (.cons .nil .nil)
    let w : Value := .cons (.cons (.string "]") (.cons .nil (.cons (.string "\"") .nil))) .nil
    (v.IsList ∧ v.Data ∧ w.Data) ∧
      v.render = "[" ++ ", ".intercalate (v.elements.map render) ++ "]" ∧
      v.render = "[[\"], [\\\"\"], []]" ∧ v.render ≠ w.render := by
  intro v w
  have hv : v.Data := by simp [v, Data, FunctionFree, Proper, IsList]
  have hw : w.Data := by simp [w, Data, FunctionFree, Proper, IsList]
  have different : v ≠ w := by decide
  exact ⟨⟨trivial, hv, hw⟩, render_lists.1 v trivial, by decide,
    fun h => different ((render_lists.2 v w hv hw).1 h)⟩

end TypedLambda.Value
