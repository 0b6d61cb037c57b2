import TypedLambda.Proofs.FreshNames
import TypedLambda.Proofs.TypeText
import TypedLambda.Term.Binders

/-!
The written form of terms is unambiguous.

As with types, this holds for terms whose names are plain. After an opening
parenthesis there is a keyword, the sign of a function, or another term; all
other terms are words of their own or quoted strings (`kind_ofText`). Only an
application and an ascription begin alike, with a term; what follows that term
tells them apart. What is said of a term is said from what is known of the
terms it is put together from (`readable_of_children`).
-/

namespace TypedLambda.Term

variable {r s : List Char} {x y : Name} {t u a b a' b' : Term} {A : Ty}

def reserved : List Name :=
  ["true", "false", "unit", "nil", "if", "cons", "head", "tail", "let"]

/-- All variables, binders and ascribed type variables have plain names. -/
def Plain (t : Term) : Prop :=
  (∀ x ∈ t.names, x.Plain reserved) ∧ ∀ a ∈ t.ascribedVars, a.Plain Ty.reserved

instance (t : Term) : Decidable t.Plain :=
  inferInstanceAs (Decidable ((∀ x ∈ t.names, x.Plain reserved) ∧
    ∀ a ∈ t.ascribedVars, a.Plain Ty.reserved))

theorem names_of_mem_children (h : u ∈ t.children) (hx : x ∈ u.names) : x ∈ t.names := by
  cases t with
  | bool | int | string | unit | nil | var => exact absurd h List.not_mem_nil
  | wildcard | ascribe | isZero | isEmpty | head | tail =>
      obtain rfl := List.mem_singleton.1 h
      exact hx
  | abs =>
      obtain rfl := List.mem_singleton.1 h
      exact List.mem_cons_of_mem _ hx
  | app | add | cons | letIn | cond =>
      simp only [children, List.mem_cons, List.not_mem_nil, or_false] at h
      rcases h with rfl | rfl | rfl <;> simp [names, hx]

theorem Plain.name (ht : t.Plain) (hx : x ∈ t.names) : x.Plain reserved := ht.1 x hx

theorem Plain.child (ht : t.Plain) (h : u ∈ t.children) : u.Plain := by
  refine ⟨fun x hx => ht.1 x (names_of_mem_children h hx), fun a ha => ht.2 a ?_⟩
  obtain ⟨A, hA, haA⟩ := List.mem_flatMap.1 ha
  exact List.mem_flatMap.2 ⟨A, mem_ascribed_cases.2 (.inr ⟨u, h, hA⟩), haA⟩

theorem Plain.ascription (h : (ascribe t A).Plain) : A.Plain :=
  fun a ha => h.2 a (List.mem_flatMap.2 ⟨A, by simp [ascribed], ha⟩)

inductive Kind
  | bool (b : Bool)
  | int
  | string
  | unit
  | nil
  | var
  | abs
  | wildcard
  | pair
  | add
  | cond
  | isZero
  | cons
  | isEmpty
  | head
  | tail
  | letIn
  deriving DecidableEq

def kind : Term → Kind
  | bool b => .bool b
  | int _ => .int
  | string _ => .string
  | unit => .unit
  | nil => .nil
  | var _ => .var
  | abs _ _ => .abs
  | wildcard _ => .wildcard
  | app _ _ | ascribe _ _ => .pair
  | add _ _ => .add
  | cond _ _ _ => .cond
  | isZero _ => .isZero
  | cons _ _ => .cons
  | isEmpty _ => .isEmpty
  | head _ => .head
  | tail _ => .tail
  | letIn _ _ _ => .letIn

def constants : List (Name × Kind) :=
  [("true", .bool true), ("false", .bool false), ("unit", .unit), ("nil", .nil)]

/-- The words after an opening parenthesis that terms begin with. -/
def keywords : List (Name × Kind) :=
  [("+", .add), ("if", .cond), ("isZero?", .isZero), ("cons", .cons), ("isEmpty?", .isEmpty),
    ("head", .head), ("tail", .tail), ("let", .letIn)]

def Kind.ofText : List Char → Kind
  | '"' :: _ => .string
  | '(' :: 'λ' :: '_' :: _ => .wildcard
  | '(' :: 'λ' :: _ => .abs
  | '(' :: cs => readWord keywords .pair cs
  | cs => if cs.head?.any Decimal.isNumeral then .int else readWord constants .var cs

theorem not_mem_constants (h : x.Plain reserved) : x ∉ constants.map Prod.fst :=
  fun hx => h.not_reserved (List.mem_append_left ["if", "cons", "head", "tail", "let"] hx)

theorem not_mem_keywords (h : x.Plain reserved) : x ∉ keywords.map Prod.fst := by
  have key : ∀ k ∈ keywords.map Prod.fst, ¬ k.Plain reserved := by decide
  exact fun hx => key x hx h

/-- A term's text begins neither like a binder nor like an ascription. -/
theorem toList_render_eq_cons (ht : t.Plain) :
    ∃ c u, t.render.toList = c :: u ∧ c ≠ 'λ' ∧ c ≠ ':' := by
  cases t with
  | bool b => cases b <;> simp [render]
  | int n =>
      obtain ⟨c, u, hn, hc⟩ := Decimal.toList_integer_eq_cons n
      exact ⟨c, u, hn, ne_of_kind hc (by decide), ne_of_kind hc (by decide)⟩
  | string x => simp [render, Quoted.toList_render]
  | var x =>
      have hx : x.Plain reserved := ht.name (by simp [names])
      obtain ⟨c, u, htext, -, -, hlambda, hcolon⟩ := hx.toList_eq_cons
      exact ⟨c, u, htext, hlambda, hcolon⟩
  | _ => simp [render]

theorem kind_ofText_numeral {c : Char} (hc : Decimal.isNumeral c = true) (r : List Char) :
    Kind.ofText (c :: r) = .int := by
  have hne (d : Char) (hd : Decimal.isNumeral d = false) : c ≠ d := ne_of_kind hc hd
  simp [Kind.ofText, hne '"' (by decide), hne '(' (by decide), hc]

theorem kind_ofText_word (hx : x.toList.all isWordChar = true)
    (hhead : ∃ c u, x.toList = c :: u ∧ Decimal.isNumeral c = false) (hr : Ends r) :
    Kind.ofText (x.toList ++ r) = (constants.lookup x).getD .var := by
  obtain ⟨c, u, htext, hc⟩ := hhead
  have hne (d : Char) (hd : isWordChar d = false) : c ≠ d :=
    ne_of_kind (List.all_eq_true.1 hx c (htext ▸ List.mem_cons_self)) hd
  have hread : readWord constants .var (x.toList ++ r) = (constants.lookup x).getD .var :=
    readWord_append hx hr.stops
  rw [← hread, htext]
  simp [Kind.ofText, hne '"' (by decide), hne '(' (by decide), hc]

theorem kind_ofText_paren {c : Char} (hc : c ≠ 'λ') (r : List Char) :
    Kind.ofText ('(' :: c :: r) = readWord keywords .pair (c :: r) := by
  simp [Kind.ofText, hc]

theorem kind_ofText_keyword {k : Name} {form : Kind} (hk : (k, form) ∈ keywords)
    (r : List Char) : Kind.ofText ('(' :: (k.toList ++ ' ' :: r)) = form := by
  have hlookup : ∀ e ∈ keywords, (keywords.lookup e.1).getD .pair = e.2 := by decide
  have hword : ∀ e ∈ keywords, e.1.toList.all isWordChar = true := by decide
  have hhead : ∀ e ∈ keywords, e.1.toList.head? ≠ some 'λ' ∧ e.1.toList ≠ [] := by decide
  obtain ⟨hlambda, hne⟩ := hhead (k, form) hk
  obtain ⟨c, w, hcons⟩ := List.exists_cons_of_ne_nil hne
  have hread : readWord keywords .pair (k.toList ++ ' ' :: r) = form := by
    rw [readWord_append (hword (k, form) hk) (ends_cons.2 (by decide)).stops]
    exact hlookup (k, form) hk
  rw [hcons] at hread hlambda ⊢
  exact (kind_ofText_paren (by simpa using hlambda) _).trans hread

theorem readWord_of_not_isWordChar {c : Char} (hc : isWordChar c = false) (r : List Char) :
    readWord keywords .pair (c :: r) = .pair := by
  rw [readWord, List.takeWhile_cons_of_neg (by simp [hc])]
  rfl

theorem integer_word (n : Int) : (Decimal.integer n).toList.all isWordChar = true := by
  have key : [' ', '(', ')', '<', '>', '.', ':', '"'].all fun d => !Decimal.isNumeral d := by decide
  refine List.all_eq_true.2 fun c hc => decide_eq_true fun hmem => ?_
  have hnot : Decimal.isNumeral c = false := by simpa using List.all_eq_true.1 key c hmem
  exact ne_of_kind (Decimal.integer_isNumeral n c hc) hnot rfl

theorem integer_not_mem_keywords (n : Int) : Decimal.integer n ∉ keywords.map Prod.fst := by
  have key : ∀ k ∈ keywords.map Prod.fst, (k.toList.head?.any Decimal.isNumeral) = false := by
    decide
  obtain ⟨c, u, hn, hc⟩ := Decimal.toList_integer_eq_cons n
  exact fun h => absurd (key _ h) (by simp [hn, hc])

/-- No term's text begins with a keyword. -/
theorem readWord_render (ht : t.Plain) (hr : Ends r) :
    readWord keywords .pair (t.render.toList ++ r) = .pair := by
  have word {x : Name} (hx : x.toList.all isWordChar = true) (hkey : x ∉ keywords.map Prod.fst) :
      readWord keywords .pair (x.toList ++ r) = .pair := by
    rw [readWord_append hx hr.stops, lookup_of_not_mem hkey]
    rfl
  cases t with
  | bool b => cases b <;> exact word (by decide) (by decide)
  | unit | nil => exact word (by decide) (by decide)
  | int n => exact word (integer_word n) (integer_not_mem_keywords n)
  | var x =>
      have hx : x.Plain reserved := ht.name (by simp [names])
      exact word hx.word (not_mem_keywords hx)
  | string x => simpa [render, Quoted.toList_render] using readWord_of_not_isWordChar (by decide) _
  | _ => simpa [render] using readWord_of_not_isWordChar (by decide) _

theorem kind_ofText_pair (ht : t.Plain) (r : List Char) :
    Kind.ofText ('(' :: (t.render.toList ++ ' ' :: r)) = .pair := by
  have hread := readWord_render ht (r := ' ' :: r) (ends_cons.2 (by decide))
  obtain ⟨c, u, htext, hc, -⟩ := toList_render_eq_cons ht
  rw [htext] at hread ⊢
  exact (kind_ofText_paren hc _).trans hread

theorem kind_ofText (ht : t.Plain) (hr : Ends r) :
    Kind.ofText (t.render.toList ++ r) = t.kind := by
  cases t with
  | bool b =>
      cases b
      · exact kind_ofText_word (x := "false") (by decide) ⟨_, _, rfl, by decide⟩ hr
      · exact kind_ofText_word (x := "true") (by decide) ⟨_, _, rfl, by decide⟩ hr
  | unit => exact kind_ofText_word (x := "unit") (by decide) ⟨_, _, rfl, by decide⟩ hr
  | nil => exact kind_ofText_word (x := "nil") (by decide) ⟨_, _, rfl, by decide⟩ hr
  | int n =>
      obtain ⟨c, u, hn, hc⟩ := Decimal.toList_integer_eq_cons n
      simp [render, hn, kind_ofText_numeral hc, kind]
  | string x => simp [render, Quoted.toList_render, Kind.ofText, kind]
  | var x =>
      have hx : x.Plain reserved := ht.name (by simp [names])
      obtain ⟨c, u, htext, hc, -⟩ := hx.toList_eq_cons
      rw [render, kind_ofText_word hx.word ⟨c, u, htext, hc⟩ hr,
        lookup_of_not_mem (not_mem_constants hx)]
      rfl
  | abs x b =>
      have hx : x.Plain reserved := ht.name (by simp [names])
      obtain ⟨c, u, htext, -, hc, -⟩ := hx.toList_eq_cons
      simp [render, htext, Kind.ofText, hc, kind]
  | wildcard b => simp [render, Kind.ofText, kind]
  | app a b => simpa [render, kind] using kind_ofText_pair (ht.child (by simp [children])) _
  | ascribe a A => simpa [render, kind] using kind_ofText_pair (ht.child (by simp [children])) _
  | add => simpa [render, kind] using kind_ofText_keyword (k := "+") (by decide) _
  | cond => simpa [render, kind] using kind_ofText_keyword (k := "if") (by decide) _
  | isZero => simpa [render, kind] using kind_ofText_keyword (k := "isZero?") (by decide) _
  | cons => simpa [render, kind] using kind_ofText_keyword (k := "cons") (by decide) _
  | isEmpty => simpa [render, kind] using kind_ofText_keyword (k := "isEmpty?") (by decide) _
  | head => simpa [render, kind] using kind_ofText_keyword (k := "head") (by decide) _
  | tail => simpa [render, kind] using kind_ofText_keyword (k := "tail") (by decide) _
  | letIn => simpa [render, kind] using kind_ofText_keyword (k := "let") (by decide) _

theorem kind_eq (ht : t.Plain) (hu : u.Plain) (hr : Ends r) (hs : Ends s)
    (h : t.render.toList ++ r = u.render.toList ++ s) : t.kind = u.kind := by
  rw [← kind_ofText ht hr, h, kind_ofText hu hs]

theorem read_two (ha : Readable Plain render a) (hb : Readable Plain render b) (ha' : a'.Plain)
    (hb' : b'.Plain)
    (h : a.render.toList ++ ' ' :: (b.render.toList ++ ')' :: r) =
      a'.render.toList ++ ' ' :: (b'.render.toList ++ ')' :: s)) :
    a = a' ∧ b = b' ∧ r = s := by
  obtain ⟨rfl, hsecond⟩ := ha.before ha' (by decide) h
  exact ⟨rfl, hb.before hb' (by decide) hsecond⟩

theorem render_ne_colon (ht : t.Plain) : t.render.toList ++ r ≠ ':' :: s := by
  obtain ⟨c, u, htext, -, hcolon⟩ := toList_render_eq_cons ht
  rw [htext]
  exact fun h => hcolon (List.cons.inj h).1

theorem forall_mem_pair {P : Term → Prop} : (∀ p ∈ [a, b], P p) ↔ P a ∧ P b := by simp

/-- A term is read part by part. -/
theorem readable_of_children (ht : t.Plain) (hparts : ∀ p ∈ t.children, Readable Plain render p) :
    Readable Plain render t := by
  intro u r s hu hr hs heq
  have hkind := kind_eq ht hu hr hs heq
  have hplain : ∀ p ∈ u.children, p.Plain := fun p => hu.child
  cases t with
  | bool b =>
      cases u <;> simp [kind] at hkind
      next b' =>
        subst hkind
        exact ⟨rfl, List.append_cancel_left heq⟩
  | unit | nil =>
      cases u <;> simp [kind] at hkind
      exact ⟨rfl, List.append_cancel_left heq⟩
  | int n =>
      cases u <;> simp [kind] at hkind
      next n' =>
        have hnumber := Decimal.integer_append_inj hr.stops_isNumeral hs.stops_isNumeral heq
        exact hnumber.imp_left (congrArg int)
  | string x =>
      cases u <;> simp [kind] at hkind
      next y => exact (Quoted.render_append_inj heq).imp_left (congrArg string)
  | var x =>
      cases u <;> simp [kind] at hkind
      next y =>
        have hx : x.Plain reserved := ht.name (by simp [names])
        have hy : y.Plain reserved := hu.name (by simp [names])
        have hname := hx.append_inj hy hr.stops hs.stops heq
        exact hname.imp_left (congrArg var)
  | abs x b =>
      cases u <;> simp [kind] at hkind
      next y b' =>
        simp only [children, List.forall_mem_singleton] at hparts hplain
        have hinside : x.toList ++ '.' :: (b.render.toList ++ ')' :: r) =
            y.toList ++ '.' :: (b'.render.toList ++ ')' :: s) := by simpa [render] using heq
        have hx : x.Plain reserved := ht.name (by simp [names])
        have hy : y.Plain reserved := hu.name (by simp [names])
        obtain ⟨rfl, hbody⟩ := hx.append_inj hy (by simp [Stops, isWordChar])
          (by simp [Stops, isWordChar]) hinside
        obtain ⟨rfl, hrest⟩ := hparts.before hplain (by decide) (List.cons.inj hbody).2
        exact ⟨rfl, hrest⟩
  | wildcard t | isZero t | isEmpty t | head t | tail t =>
      cases u <;> simp [kind] at hkind
      next u =>
        simp only [children, List.forall_mem_singleton] at hparts hplain
        have hinside : t.render.toList ++ ')' :: r = u.render.toList ++ ')' :: s := by
          simpa [render] using heq
        obtain ⟨rfl, hrest⟩ := hparts.before hplain (by decide) hinside
        exact ⟨rfl, hrest⟩
  | add a b | cons a b =>
      cases u <;> simp [kind] at hkind
      next a' b' =>
        obtain ⟨ha, hb⟩ := forall_mem_pair.1 hparts
        obtain ⟨ha', hb'⟩ := forall_mem_pair.1 hplain
        obtain ⟨rfl, rfl, hrest⟩ := read_two ha hb ha' hb' (by simpa [render] using heq)
        exact ⟨rfl, hrest⟩
  | app a b =>
      cases u <;> simp [kind] at hkind
      · next a' b' =>
        obtain ⟨ha, hb⟩ := forall_mem_pair.1 hparts
        obtain ⟨ha', hb'⟩ := forall_mem_pair.1 hplain
        obtain ⟨rfl, rfl, hrest⟩ := read_two ha hb ha' hb' (by simpa [render] using heq)
        exact ⟨rfl, hrest⟩
      · next a' A =>
        have hinside : a.render.toList ++ ' ' :: (b.render.toList ++ ')' :: r) =
            a'.render.toList ++ ' ' :: ':' :: ' ' :: (A.render.toList ++ ')' :: s) := by
          simpa [render] using heq
        -- the first words do not tell these two forms apart, so the first part is read
        have ha := hparts a List.mem_cons_self
        obtain ⟨-, hargument⟩ := ha.before (hplain a' List.mem_cons_self) (by decide) hinside
        exact (render_ne_colon (ht.child (by simp [children])) hargument).elim
  | ascribe a A =>
      cases u <;> simp [kind] at hkind
      · next a' b =>
        have hinside : a.render.toList ++ ' ' :: ':' :: ' ' :: (A.render.toList ++ ')' :: r) =
            a'.render.toList ++ ' ' :: (b.render.toList ++ ')' :: s) := by
          simpa [render] using heq
        have ha := hparts a List.mem_cons_self
        obtain ⟨-, hargument⟩ := ha.before (hplain a' List.mem_cons_self) (by decide) hinside
        exact (render_ne_colon (hplain b (by simp [children])) hargument.symm).elim
      · next a' A' =>
        simp only [children, List.forall_mem_singleton] at hparts hplain
        have hinside : a.render.toList ++ ' ' :: ':' :: ' ' :: (A.render.toList ++ ')' :: r) =
            a'.render.toList ++ ' ' :: ':' :: ' ' :: (A'.render.toList ++ ')' :: s) := by
          simpa [render] using heq
        obtain ⟨rfl, hcolon⟩ := hparts.before hplain (by decide) hinside
        have hty : A.render.toList ++ ')' :: r = A'.render.toList ++ ')' :: s := by
          simpa using hcolon
        obtain ⟨rfl, hrest⟩ := (Ty.readable ht.ascription).before hu.ascription (by decide) hty
        exact ⟨rfl, hrest⟩
  | cond c a b =>
      cases u <;> simp [kind] at hkind
      next c' a' b' =>
        obtain ⟨hc, hbranches⟩ := List.forall_mem_cons.1 hparts
        obtain ⟨hc', hbranches'⟩ := List.forall_mem_cons.1 hplain
        obtain ⟨ha, hb⟩ := forall_mem_pair.1 hbranches
        obtain ⟨ha', hb'⟩ := forall_mem_pair.1 hbranches'
        have hinside :
            c.render.toList ++ ' ' :: (a.render.toList ++ ' ' :: (b.render.toList ++ ')' :: r)) =
              c'.render.toList ++ ' ' ::
                (a'.render.toList ++ ' ' :: (b'.render.toList ++ ')' :: s)) := by
          simpa [render] using heq
        obtain ⟨rfl, hthen⟩ := hc.before hc' (by decide) hinside
        obtain ⟨rfl, rfl, hrest⟩ := read_two ha hb ha' hb' hthen
        exact ⟨rfl, hrest⟩
  | letIn x a b =>
      cases u <;> simp [kind] at hkind
      next y a' b' =>
        obtain ⟨ha, hb⟩ := forall_mem_pair.1 hparts
        obtain ⟨ha', hb'⟩ := forall_mem_pair.1 hplain
        have hinside :
            x.toList ++ ' ' :: '=' :: ' ' :: (a.render.toList ++ ' ' :: 'i' :: 'n' :: ' ' ::
                (b.render.toList ++ ')' :: r)) =
              y.toList ++ ' ' :: '=' :: ' ' :: (a'.render.toList ++ ' ' :: 'i' :: 'n' :: ' ' ::
                (b'.render.toList ++ ')' :: s)) := by
          simpa [render] using heq
        have hx : x.Plain reserved := ht.name (by simp [names])
        have hy : y.Plain reserved := hu.name (by simp [names])
        obtain ⟨rfl, hequals⟩ := hx.append_inj hy (by simp [Stops, isWordChar])
          (by simp [Stops, isWordChar]) hinside
        simp only [List.cons.injEq, true_and] at hequals
        obtain ⟨rfl, hin⟩ := ha.before ha' (by decide) hequals
        simp only [List.cons.injEq, true_and] at hin
        obtain ⟨rfl, hrest⟩ := hb.before hb' (by decide) hin
        exact ⟨rfl, hrest⟩

theorem readable {t : Term} (ht : t.Plain) : Readable Plain render t :=
  readable_of_children ht fun _ hu => readable (ht.child hu)
termination_by sizeOf t
decreasing_by exact sizeOf_lt_of_mem_children hu

/-- Terms whose names are plain are the same if and only if their texts are, and
so it is with types. -/
theorem render_unambiguous :
    (∀ t u : Term, t.Plain → u.Plain → (t.render = u.render ↔ t = u)) ∧
      ∀ A B : Ty, A.Plain → B.Plain → (A.render = B.render ↔ A = B) :=
  ⟨fun _ _ ht hu => ⟨(readable ht).eq hu, congrArg render⟩,
    fun _ _ hA hB => ⟨(Ty.readable hA).eq hB, congrArg Ty.render⟩⟩

/-- Terms that differ in where an ascription stands, with a string that looks
like the end of one, and types that differ in where a list stands. -/
theorem render_unambiguous_ascription :
    let A : Ty := .arrow (.list (.var "a")) .int
    let B : Ty := .list (.arrow (.var "a") .int)
    let t : Term := .ascribe (.app (.var "f") (.string "x\") : a)")) A
    let u : Term := .app (.ascribe (.var "f") A) (.string "x\") : a)")
    (t.Plain ∧ u.Plain ∧ A.Plain ∧ B.Plain) ∧
      t.render = "((f \"x\\\") : a)\") : (List<a> -> Int))" ∧
      t.render ≠ u.render ∧ A.render ≠ B.render := by
  intro A B t u
  have ht : t.Plain := by decide
  have hu : u.Plain := by decide
  have hA : A.Plain := by decide
  have hB : B.Plain := by decide
  have different : t ≠ u := by decide
  have different' : A ≠ B := by decide
  exact ⟨⟨ht, hu, hA, hB⟩, by decide,
    fun h => different ((render_unambiguous.1 t u ht hu).1 h),
    fun h => different' ((render_unambiguous.2 A B hA hB).1 h)⟩

end TypedLambda.Term
