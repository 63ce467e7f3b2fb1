import Mathlib.Data.List.Forall2
import PrologText.Proofs.Literals
import PrologText.Term.Projection

/-!
# What the projection of a term keeps

The projections of terms of all kinds are objects, and a list is projected as a whole, with its tail
if it has one besides the empty list. Main statement: nevertheless terms have equal projections only
if they are equal but for the marks of atoms and the numbers of variables, whatever equality of
floating point numbers is meant (`Term.toJson_faithful`).
-/

namespace PrologText

/-! ## Equal values -/

namespace Json

/-- Two values are the same, if floating point numbers that are `same` are taken for equal. The
members of an object are known by their names and have no order. -/
inductive Same (same : Binary64 → Binary64 → Prop) : Json → Json → Prop where
  | integer (n : Int) : Same same (integer n) (integer n)
  | float {x y : Binary64} (h : same x y) : Same same (float x) (float y)
  | text (t : Text) : Same same (text t) (text t)
  | array {xs ys : List Json} (h : List.Forall₂ (Same same) xs ys) :
      Same same (array xs) (array ys)
  | object {xs ys : List (String × Json)}
      (h : ∀ name, Option.Rel (Same same) (xs.lookup name) (ys.lookup name)) :
      Same same (object xs) (object ys)

/-- The member of an object that has a name. -/
def member? (name : String) : Json → Option Json
  | object members => members.lookup name
  | _ => none

@[simp] theorem member?_integer (name : String) (n : Int) : (integer n).member? name = none := rfl

@[simp] theorem member?_float (name : String) (x : Binary64) : (float x).member? name = none := rfl

@[simp] theorem member?_object_nil (name : String) : (object []).member? name = none := rfl

@[simp] theorem member?_object_cons (name first : String) (x : Json) (xs : List (String × Json)) :
    (object ((first, x) :: xs)).member? name =
      if name = first then some x else (object xs).member? name := by
  by_cases h : name = first
  · simp [member?, h]
  · simp [member?, List.lookup_cons, h, beq_eq_false_iff_ne.2 h]

variable {same : Binary64 → Binary64 → Prop} {x y : Json}

/-- A member of a value is the same as that of the other value with the same name. -/
theorem Same.rel_member? (h : Same same x y) (name : String) :
    Option.Rel (Same same) (x.member? name) (y.member? name) := by
  cases h with
  | object h => exact h name
  | integer | float | text | array => exact .none

theorem Same.exists_member? {name : String} {a : Json} (h : Same same x y)
    (hx : x.member? name = some a) : ∃ b, y.member? name = some b ∧ Same same a b := by
  have hrel := h.rel_member? name
  rw [hx] at hrel
  generalize y.member? name = m at hrel
  cases hrel with
  | some hab => exact ⟨_, rfl, hab⟩

theorem Same.eq_integer {n : Int} (h : Same same (.integer n) y) : y = .integer n := by
  cases h
  rfl

theorem Same.exists_float {a : Binary64} (h : Same same (.float a) y) :
    ∃ b, y = .float b ∧ same a b := by
  cases h with
  | float hab => exact ⟨_, rfl, hab⟩

theorem Same.eq_text {t : Text} (h : Same same (.text t) y) : y = .text t := by
  cases h
  rfl

/-- A text that is a member of a value is one of the other value as well. -/
theorem Same.member?_text {name : String} {t : Text} (h : Same same x y)
    (hx : x.member? name = some (.text t)) : y.member? name = some (.text t) := by
  obtain ⟨b, hb, hsame⟩ := h.exists_member? hx
  rw [hb, hsame.eq_text]

theorem Same.member?_array {name : String} {xs : List Json} (h : Same same x y)
    (hx : x.member? name = some (.array xs)) :
    ∃ ys, y.member? name = some (.array ys) ∧ List.Forall₂ (Same same) xs ys := by
  obtain ⟨b, hb, hsame⟩ := h.exists_member? hx
  cases hsame with
  | array hitems => exact ⟨_, hb, hitems⟩

theorem Same.object_nil : Same same (.object []) (.object []) :=
  .object fun _ => .none

theorem Same.object_cons {name : String} {xs ys : List (String × Json)} (hxy : Same same x y)
    (h : Same same (.object xs) (.object ys)) :
    Same same (.object ((name, x) :: xs)) (.object ((name, y) :: ys)) := by
  refine .object fun other => ?_
  show Option.Rel _ (member? other (.object ((name, x) :: xs)))
    (member? other (.object ((name, y) :: ys)))
  rw [member?_object_cons, member?_object_cons]
  split
  · exact .some hxy
  · exact h.rel_member? other

end Json

/-! ## Equal terms -/

/-- Two terms are equal but for the marks of atoms and for variables that are written alike, if
floating point numbers that are `same` are taken for equal. -/
inductive Term.Alike (same : Binary64 → Binary64 → Prop) : Term → Term → Prop where
  | atom {a b : Atom} (h : a.name = b.name) : Alike same (atom a) (atom b)
  | integer (v : Int64) : Alike same (integer v) (integer v)
  | bigInteger (n : Int) : Alike same (bigInteger n) (bigInteger n)
  | float {x y : Binary64} (h : same x y) : Alike same (float x) (float y)
  | string (s : Text) : Alike same (string s) (string s)
  | var {v w : Variable} (h : v.text = w.text) : Alike same (var v) (var w)
  | compound {f g : Atom} {ts us : List Term} (hf : f.name = g.name)
      (h : List.Forall₂ (Alike same) ts us) : Alike same (compound f ts) (compound g us)
  | nil : Alike same nil nil
  | cons {t t' u u' : Term} (h : Alike same t u) (h' : Alike same t' u') :
      Alike same (cons t t') (cons u u')

namespace Term

variable {same : Binary64 → Binary64 → Prop}

/-- The projections of the elements of a list, and of the tail that it has besides the empty list.
A term that is no list is all tail. -/
def SameParts (same : Binary64 → Binary64 → Prop) (t u : Term) : Prop :=
  List.Forall₂ (Json.Same same) (project t).2.1 (project u).2.1 ∧
    Option.Rel (Json.Same same) (project t).2.2 (project u).2.2

@[simp] theorem member?_listObject (items : List Json) (last : Option Json) (name : String) :
    (project.listObject items last).member? name =
      if name = "list" then some (.array items) else if name = "tail" then last else none := by
  cases last with
  | none => simp [project.listObject]
  | some j =>
    by_cases hl : name = "list" <;> by_cases ht : name = "tail" <;>
      simp [project.listObject, hl, ht]

section

variable (f : Atom) (args : List Term)

@[simp] theorem toJson_atom (a : Atom) : (atom a).toJson = .object [("atom", .text a.name)] := rfl

@[simp] theorem toJson_integer (v : Int64) : (integer v).toJson = .integer v.toInt := rfl

@[simp] theorem toJson_bigInteger (n : Int) :
    (bigInteger n).toJson = .object [("integer", .text (Positional.integer n))] := rfl

@[simp] theorem toJson_float (x : Binary64) : (float x).toJson = .float x := rfl

@[simp] theorem toJson_string (s : Text) : (string s).toJson = .object [("string", .text s)] := rfl

@[simp] theorem toJson_var (v : Variable) : (var v).toJson = .object [("var", .text v.text)] := rfl

@[simp] theorem toJson_compound :
    (compound f args).toJson =
      .object [("args", .array (projectAll args)), ("functor", .text f.name)] := by
  simp only [toJson, project, project.single]

@[simp] theorem toJson_nil : nil.toJson = .object [("list", .array [])] := rfl

@[simp] theorem toJson_cons (head tail : Term) :
    (cons head tail).toJson =
      project.listObject (head.toJson :: (project tail).2.1) (project tail).2.2 := by
  simp only [toJson, project]

end

/-- Whether a term is the empty list or starts with a cell. -/
def isList : Term → Bool
  | nil | cons _ _ => true
  | _ => false

theorem toJson_of_isList {t : Term} (h : t.isList = true) :
    t.toJson = project.listObject (project t).2.1 (project t).2.2 := by
  cases t with
  | nil => rfl
  | cons head tail => simp only [toJson, project]
  | _ => cases h

theorem parts_of_not_isList {t : Term} (h : t.isList = false) :
    (project t).2 = ([], some t.toJson) := by
  cases t with
  | nil | cons => cases h
  | compound f args => simp only [toJson, project, project.single]
  | _ => rfl

theorem exists_integer_of_toJson {t : Term} {n : Int} (h : t.toJson = .integer n) :
    ∃ v, t = integer v ∧ v.toInt = n := by
  cases t with
  | integer v => exact ⟨v, rfl, by simpa using h⟩
  | cons head tail =>
    have hlist := congrArg (Json.member? "list") h
    simp at hlist
  | _ => simp at h

theorem eq_float_of_toJson {t : Term} {x : Binary64} (h : t.toJson = .float x) : t = float x := by
  cases t with
  | float y => rw [show y = x by simpa using h]
  | cons head tail =>
    have hlist := congrArg (Json.member? "list") h
    simp at hlist
  | _ => simp at h

theorem isList_of_member? {t : Term} {j : Json} (h : t.toJson.member? "list" = some j) :
    t.isList = true := by
  cases t with
  | nil | cons => rfl
  | _ => simp at h

/-! ## Equal projections -/

variable {t u : Term}

/-- Lists with the same projection have the same elements and the same tail. -/
theorem sameParts_of_isList (ht : t.isList = true) (h : Json.Same same t.toJson u.toJson) :
    SameParts same t u := by
  have hitems : t.toJson.member? "list" = some (.array (project t).2.1) := by
    simp [toJson_of_isList ht]
  obtain ⟨ys, hys, hsame⟩ := h.member?_array hitems
  have hu : u.isList = true := isList_of_member? hys
  have htail := h.rel_member? "tail"
  rw [toJson_of_isList hu] at hys htail
  rw [toJson_of_isList ht] at htail
  simp only [member?_listObject, String.reduceEq, if_true, if_false, Option.some.injEq,
    Json.array.injEq] at hys htail
  exact ⟨hys ▸ hsame, htail⟩

/-- A term that is no list is the tail of no other term than itself. -/
theorem same_of_sameParts (ht : t.isList = false) (h : SameParts same t u) :
    Json.Same same t.toJson u.toJson := by
  obtain ⟨hitems, htail⟩ := h
  rw [parts_of_not_isList ht] at hitems htail
  cases u with
  | nil => cases htail
  | cons head tail =>
    simp only [project] at hitems
    cases hitems
  | compound g us =>
    rw [parts_of_not_isList rfl] at htail
    cases htail with
    | some h => exact h
  | _ =>
    cases htail with
    | some h => exact h

/-- Whichever two projections are the same, those that the terms are told by are. -/
theorem projection_cases (h : Json.Same same t.toJson u.toJson ∨ SameParts same t u) :
    (t.isList = true → SameParts same t u) ∧
      (t.isList = false → Json.Same same t.toJson u.toJson) :=
  ⟨fun ht => h.elim (sameParts_of_isList ht) id, fun ht => h.elim id (same_of_sameParts ht)⟩

mutual

/-- Terms with the same projection are alike, and so are lists that go on with the same elements and
the same tail. -/
theorem alike_of_projection (t u : Term)
    (h : Json.Same same t.toJson u.toJson ∨ SameParts same t u) : Alike same t u := by
  obtain ⟨hparts, hsame⟩ := projection_cases h
  cases t with
  | atom a =>
    have hname : u.toJson.member? "atom" = some (.text a.name) :=
      (hsame rfl).member?_text (by simp)
    cases u with
    | atom b => exact .atom (by simpa using hname.symm)
    | _ => simp at hname
  | integer v =>
    obtain ⟨w, rfl, hw⟩ := exists_integer_of_toJson (hsame rfl).eq_integer
    rw [Int64.toInt_inj.1 hw]
    exact .integer v
  | bigInteger n =>
    have hdigits : u.toJson.member? "integer" = some (.text (Positional.integer n)) :=
      (hsame rfl).member?_text (by simp)
    cases u with
    | bigInteger m =>
      have heq : Positional.integer m = Positional.integer n := by simpa using hdigits
      rw [Positional.eq_of_integer_eq heq]
      exact .bigInteger n
    | _ => simp at hdigits
  | float x =>
    obtain ⟨y, hy, hxy⟩ := (hsame rfl).exists_float
    rw [eq_float_of_toJson hy]
    exact .float hxy
  | string s =>
    have htext : u.toJson.member? "string" = some (.text s) := (hsame rfl).member?_text (by simp)
    cases u with
    | string s' =>
      obtain rfl : s' = s := by simpa using htext
      exact .string s'
    | _ => simp at htext
  | var v =>
    have hname : u.toJson.member? "var" = some (.text v.text) := (hsame rfl).member?_text (by simp)
    cases u with
    | var w => exact .var (by simpa using hname.symm)
    | _ => simp at hname
  | compound f args =>
    have hname : u.toJson.member? "functor" = some (.text f.name) :=
      (hsame rfl).member?_text (by simp)
    obtain ⟨ys, hys, hargs⟩ : ∃ ys, u.toJson.member? "args" = some (.array ys) ∧
        List.Forall₂ (Json.Same same) (projectAll args) ys := (hsame rfl).member?_array (by simp)
    cases u with
    | compound g us =>
      obtain rfl : projectAll us = ys := by simpa using hys
      exact .compound (by simpa using hname.symm) (forall₂_alike_of_projectAll args us hargs)
    | _ => simp at hname
  | nil =>
    obtain ⟨hitems, htail⟩ := hparts rfl
    cases u with
    | nil => exact .nil
    | cons => simp only [project] at hitems; cases hitems
    | compound => simp only [project] at htail; cases htail
    | _ => cases htail
  | cons head tail =>
    obtain ⟨hitems, htail⟩ := hparts rfl
    cases u with
    | cons head' tail' =>
      simp only [project, List.forall₂_cons] at hitems htail
      exact .cons (alike_of_projection head head' (.inl hitems.1))
        (alike_of_projection tail tail' (.inr ⟨hitems.2, htail⟩))
    | _ => simp only [project] at hitems; cases hitems

theorem forall₂_alike_of_projectAll (ts us : List Term)
    (h : List.Forall₂ (Json.Same same) (projectAll ts) (projectAll us)) :
    List.Forall₂ (Alike same) ts us := by
  cases ts with
  | nil =>
    cases us with
    | nil => exact .nil
    | cons => cases h
  | cons t ts =>
    cases us with
    | nil => cases h
    | cons u us =>
      simp only [projectAll, List.forall₂_cons] at h
      exact .cons (alike_of_projection t u (.inl h.1)) (forall₂_alike_of_projectAll ts us h.2)

end

/-! ## Terms that are alike -/

theorem same_listObject {items items' : List Json} {last last' : Option Json}
    (hitems : List.Forall₂ (Json.Same same) items items')
    (hlast : Option.Rel (Json.Same same) last last') :
    Json.Same same (project.listObject items last) (project.listObject items' last') := by
  cases hlast with
  | none => exact .object_cons (.array hitems) .object_nil
  | some htail => exact .object_cons (.array hitems) (.object_cons htail .object_nil)

theorem sameParts_of_same (ht : t.isList = false) (hu : u.isList = false)
    (h : Json.Same same t.toJson u.toJson) : SameParts same t u := by
  rw [SameParts, parts_of_not_isList ht, parts_of_not_isList hu]
  exact ⟨.nil, .some h⟩

mutual

/-- Terms that are alike have the same projection, elements and tail. -/
theorem projection_of_alike (t u : Term) (h : Alike same t u) :
    Json.Same same t.toJson u.toJson ∧ SameParts same t u := by
  -- a term that is no list has its projection for its tail
  have hsingle (ht : t.isList = false) (hu : u.isList = false)
      (h : Json.Same same t.toJson u.toJson) :
      Json.Same same t.toJson u.toJson ∧ SameParts same t u := ⟨h, sameParts_of_same ht hu h⟩
  cases h with
  | @atom a b hname =>
    refine hsingle rfl rfl ?_
    rw [toJson_atom, toJson_atom, hname]
    exact .object_cons (.text _) .object_nil
  | integer v => exact hsingle rfl rfl (.integer _)
  | bigInteger n => exact hsingle rfl rfl (.object_cons (.text _) .object_nil)
  | float hxy => exact hsingle rfl rfl (.float hxy)
  | string s => exact hsingle rfl rfl (.object_cons (.text s) .object_nil)
  | @var v w htext =>
    refine hsingle rfl rfl ?_
    rw [toJson_var, toJson_var, htext]
    exact .object_cons (.text _) .object_nil
  | @compound f g ts us hname hargs =>
    refine hsingle rfl rfl ?_
    rw [toJson_compound, toJson_compound, hname]
    exact .object_cons (.array (forall₂_projectAll_of_alike ts us hargs))
      (.object_cons (.text _) .object_nil)
  | nil => exact ⟨same_listObject .nil .none, .nil, .none⟩
  | @cons head tail head' tail' hhead htail =>
    obtain ⟨hitems, hlast⟩ := (projection_of_alike tail tail' htail).2
    have hall := List.Forall₂.cons (projection_of_alike head head' hhead).1 hitems
    rw [toJson_cons, toJson_cons]
    simp only [SameParts, project]
    exact ⟨same_listObject hall hlast, hall, hlast⟩

theorem forall₂_projectAll_of_alike (ts us : List Term) (h : List.Forall₂ (Alike same) ts us) :
    List.Forall₂ (Json.Same same) (projectAll ts) (projectAll us) := by
  cases h with
  | nil => exact .nil
  | @cons t u ts us h hs =>
    rw [projectAll, projectAll]
    exact .cons (projection_of_alike t u h).1 (forall₂_projectAll_of_alike ts us hs)

end

mutual

theorem project_eq_of_alike (t u : Term) (h : Alike Eq t u) : project t = project u := by
  cases h with
  | atom hname => simp only [project, hname]
  | integer | bigInteger | string | nil => rfl
  | float hxy => rw [hxy]
  | var htext => simp only [project, htext]
  | @compound f g ts us hname hargs =>
    simp only [project, hname, projectAll_eq_of_alike ts us hargs]
  | @cons head tail head' tail' hhead htail =>
    simp only [project, project_eq_of_alike head head' hhead, project_eq_of_alike tail tail' htail]

theorem projectAll_eq_of_alike (ts us : List Term) (h : List.Forall₂ (Alike Eq) ts us) :
    projectAll ts = projectAll us := by
  cases h with
  | nil => rfl
  | @cons t u ts us h hs =>
    rw [projectAll, projectAll, project_eq_of_alike t u h, projectAll_eq_of_alike ts us hs]

end

mutual

theorem alike_self (hsame : ∀ x, same x x) (t : Term) : Alike same t t := by
  cases t with
  | atom a => exact .atom rfl
  | integer v => exact .integer v
  | bigInteger n => exact .bigInteger n
  | float x => exact .float (hsame x)
  | string s => exact .string s
  | var v => exact .var rfl
  | compound f args => exact .compound rfl (forall₂_alike_self hsame args)
  | nil => exact .nil
  | cons head tail => exact .cons (alike_self hsame head) (alike_self hsame tail)

theorem forall₂_alike_self (hsame : ∀ x, same x x) (ts : List Term) :
    List.Forall₂ (Alike same) ts ts := by
  cases ts with
  | nil => exact .nil
  | cons t ts => exact .cons (alike_self hsame t) (forall₂_alike_self hsame ts)

end

/-- Terms have equal projections exactly if they are equal but for the marks of atoms and functors
and for variables that are written alike. This holds where floating point numbers are equal if all
their bits are, and likewise for every other equality of these numbers, such as one that takes both
zeros for equal. -/
theorem toJson_faithful (t u : Term) :
    (t.toJson = u.toJson ↔ t.Alike Eq u) ∧
      ∀ same, Json.Same same t.toJson u.toJson ↔ t.Alike same u := by
  have hsame (same : Binary64 → Binary64 → Prop) :
      Json.Same same t.toJson u.toJson ↔ t.Alike same u :=
    ⟨fun h => alike_of_projection t u (.inl h), fun h => (projection_of_alike t u h).1⟩
  refine ⟨⟨fun h => (hsame Eq).1 ?_, fun h => ?_⟩, hsame⟩
  · rw [← h]
    exact (projection_of_alike t t (alike_self (fun _ => rfl) t)).1
  · exact congrArg Prod.fst (project_eq_of_alike t u h)

end Term

end PrologText
