import PrologText.Sentence.Variables
import PrologText.Term.Canonical

/-!
# Terms up to marks and numbers

The mark of an atom and the number of a variable carry no meaning of their own. `Term.map` changes
both throughout a term, `Term.raised` only the numbers, all by the same amount. `Bindings.Grows` and
`Bindings.Distinct` say how the variables of a sentence are numbered: a known one keeps its number,
and no two have the same.
-/

namespace PrologText

/-! ## Changing atoms and variables throughout a term -/

/-- The atom without its mark. -/
def Atom.unmarked (a : Atom) : Atom :=
  .plain a.name

namespace Term

mutual

/-- Changes all atoms and variables of a term. -/
def map (onAtom : Atom → Atom) (onVar : Variable → Variable) : Term → Term
  | atom a => atom (onAtom a)
  | var v => var (onVar v)
  | compound f args => compound (onAtom f) (mapAll onAtom onVar args)
  | cons head tail => cons (map onAtom onVar head) (map onAtom onVar tail)
  | t => t

/-- Changes all atoms and variables of some terms. -/
def mapAll (onAtom : Atom → Atom) (onVar : Variable → Variable) : List Term → List Term
  | [] => []
  | t :: ts => map onAtom onVar t :: mapAll onAtom onVar ts

end

mutual

/-- The variables of a term, from left to right. -/
def vars : Term → List Variable
  | var v => [v]
  | compound _ args => varsOfAll args
  | cons head tail => vars head ++ vars tail
  | _ => []

/-- The variables of some terms, from left to right. -/
def varsOfAll : List Term → List Variable
  | [] => []
  | t :: ts => vars t ++ varsOfAll ts

end

/-- The term without marks. -/
def unmarked (t : Term) : Term :=
  t.map Atom.unmarked id

/-- The term with other numbers of its variables, which are named as they are written. -/
def renumbered (number : Variable → Nat) (t : Term) : Term :=
  t.map id fun v => ⟨v.text, number v⟩

theorem mapAll_eq_map (f : Atom → Atom) (g : Variable → Variable) (ts : List Term) :
    mapAll f g ts = ts.map (map f g) := by
  induction ts with
  | nil => rfl
  | cons t ts ih => rw [mapAll, ih, List.map_cons]

mutual

theorem map_map (f g : Atom → Atom) (h k : Variable → Variable) (t : Term) :
    (t.map f h).map g k = t.map (g ∘ f) (k ∘ h) := by
  cases t with
  | compound functor args => simp only [map, mapAll_mapAll f g h k args, Function.comp]
  | cons head tail => simp only [map, map_map f g h k head, map_map f g h k tail]
  | _ => rfl

theorem mapAll_mapAll (f g : Atom → Atom) (h k : Variable → Variable) (ts : List Term) :
    mapAll g k (mapAll f h ts) = mapAll (g ∘ f) (k ∘ h) ts := by
  cases ts with
  | nil => rfl
  | cons t ts => simp only [mapAll, map_map f g h k t, mapAll_mapAll f g h k ts]

end

mutual

theorem map_id (t : Term) : t.map id id = t := by
  cases t with
  | compound functor args => simp only [map, mapAll_id args, id]
  | cons head tail => simp only [map, map_id head, map_id tail]
  | _ => rfl

theorem mapAll_id (ts : List Term) : mapAll id id ts = ts := by
  cases ts with
  | nil => rfl
  | cons t ts => simp only [mapAll, map_id t, mapAll_id ts]

end

theorem map_ofList (f : Atom → Atom) (g : Variable → Variable) (ts : List Term) (tail : Term) :
    (ofList ts tail).map f g = ofList (ts.map (map f g)) (tail.map f g) := by
  induction ts with
  | nil => rfl
  | cons t ts ih =>
    have hmap : (ofList (t :: ts) tail).map f g = .cons (t.map f g) ((ofList ts tail).map f g) :=
      rfl
    rw [hmap, ih]
    rfl

mutual

/-- How a term is written depends on the names of atoms and the texts of variables only. -/
theorem renderAt_map_congr {a b : Atom → Atom} {f g : Variable → Variable} (p : Position) (t : Term)
    (ha : ∀ x, (a x).name = (b x).name) (hf : ∀ v ∈ t.vars, (f v).text = (g v).text)
    (rest : Text) : (t.map a f).renderAt p rest = (t.map b g).renderAt p rest := by
  have htext (x : Atom) : (a x).text = (b x).text := by simp only [Atom.text, ha]
  cases t with
  | atom x => simp only [map, renderAt, htext]
  | var v => simp only [map, renderAt, hf v (by simp [vars])]
  | compound functor args =>
    simp only [map, renderAt, ha, htext, mapAll_eq_map, List.length_map]
    rw [← mapAll_eq_map, ← mapAll_eq_map, renderArguments_mapAll_congr args ha hf,
      renderArguments_mapAll_congr args ha hf]
  | cons head tail =>
    obtain ⟨hhead, htail⟩ := List.forall_mem_append.1 hf
    simp only [map, renderAt, renderAt_map_congr .listEnd tail ha htail,
      renderAt_map_congr .whole head ha hhead]
  | integer | bigInteger | float | string | nil => rfl

theorem renderArguments_mapAll_congr {a b : Atom → Atom} {f g : Variable → Variable}
    (ts : List Term) (ha : ∀ x, (a x).name = (b x).name)
    (hf : ∀ v ∈ varsOfAll ts, (f v).text = (g v).text) (rest : Text) :
    renderArguments (mapAll a f ts) rest = renderArguments (mapAll b g ts) rest := by
  cases ts with
  | nil => rfl
  | cons t ts =>
    obtain ⟨ht, hts⟩ := List.forall_mem_append.1 hf
    rw [mapAll, mapAll, renderArguments, renderArguments, renderArguments_mapAll_congr ts ha hts,
      renderAt_map_congr .whole t ha ht, mapAll_eq_map, mapAll_eq_map, List.isEmpty_map,
      List.isEmpty_map]

end

end Term

/-! ## Higher numbers -/

/-- A variable with a number that is higher by `n`. -/
def Variable.raised (n : Nat) (v : Variable) : Variable :=
  ⟨v.name, n + v.id⟩

@[simp] theorem Variable.raised_zero (v : Variable) : v.raised 0 = v := by
  simp [raised]

/-- A term with higher numbers of its variables. -/
def Term.raised (n : Nat) (t : Term) : Term :=
  t.map id (.raised n)

@[simp] theorem Term.raised_zero (t : Term) : t.raised 0 = t := by
  rw [raised, show Variable.raised 0 = id from funext Variable.raised_zero, map_id]

theorem Term.raised_compound (n : Nat) (f : Atom) (ts : List Term) :
    (compound f ts).raised n = compound f (ts.map (.raised n)) := by
  rw [raised, map, mapAll_eq_map]
  rfl

theorem Term.raised_ofList (n : Nat) (ts : List Term) (tail : Term) :
    (ofList ts tail).raised n = ofList (ts.map (.raised n)) (tail.raised n) :=
  map_ofList id (.raised n) ts tail

def Binding.raised (n : Nat) (b : Binding) : Binding :=
  { b with var := b.var.raised n }

namespace Bindings

/-- The variables of a sentence with higher numbers. -/
def raised (n : Nat) (b : Bindings) : Bindings :=
  ⟨b.entries.map (.raised n), n + b.issued⟩

variable (n : Nat) (b : Bindings)

@[simp] theorem raised_zero : b.raised 0 = b := by
  have hentry : Binding.raised 0 = id := funext fun e => by simp [Binding.raised]
  simp [raised, hentry]

theorem named_raised (name : Text) :
    (b.raised n).named name = ((b.named name).1.raised n, (b.named name).2.raised n) := by
  have hfind : (b.raised n).entries.find? (·.var.name = name) =
      (b.entries.find? (·.var.name = name)).map (.raised n) :=
    List.find?_map ..
  simp only [named, hfind]
  cases b.entries.find? (·.var.name = name) with
  | none => simp [raised, Binding.raised, Variable.raised, Nat.add_assoc]
  | some known =>
    simp only [Option.map_some, raised, count, List.map_map, Prod.mk.injEq, Bindings.mk.injEq,
      and_true]
    refine ⟨rfl, List.map_congr_left fun e _ => ?_⟩
    by_cases he : e.var.name = name <;> simp [Binding.raised, Variable.raised, he]

theorem namedVariables_raised : (b.raised n).namedVariables = b.namedVariables.map (.raised n) := by
  simp [namedVariables, raised, Binding.raised]

theorem singletons_raised : (b.raised n).singletons = b.singletons.map (.raised n) := by
  simp only [singletons, raised, List.filter_map, List.map_map]
  rfl

end Bindings

/-! ## How variables are numbered -/

namespace Bindings

variable {b b' b'' : Bindings} {name name' : Text} {v w : Variable}

/-- The variable that a name stands for so far. -/
def var? (b : Bindings) (name : Text) : Option Variable :=
  b.namedVariables.find? (·.name = name)

/-- Whether no two variables have the same number, nor one that is still to be given. -/
structure Distinct (b : Bindings) : Prop where
  increasing : b.namedVariables.Pairwise (·.id < ·.id)
  issued : ∀ v ∈ b.namedVariables, v.id ≤ b.issued

/-- Whether all variables of `b` are known in `b'`, with their numbers. -/
structure Grows (b b' : Bindings) : Prop where
  known : ∀ {name v}, b.var? name = some v → b'.var? name = some v
  distinct : b.Distinct → b'.Distinct

theorem Grows.refl (b : Bindings) : b.Grows b :=
  ⟨id, id⟩

theorem Grows.trans (h : b.Grows b') (h' : b'.Grows b'') : b.Grows b'' :=
  ⟨h'.known ∘ h.known, h'.distinct ∘ h.distinct⟩

theorem distinct_startingAfter (issued : Nat) : (startingAfter issued).Distinct :=
  ⟨.nil, nofun⟩

theorem name_of_var? (h : b.var? name = some v) : v.name = name := by
  simpa using List.find?_some h

theorem mem_of_var? (h : b.var? name = some v) : v ∈ b.namedVariables :=
  List.mem_of_find?_eq_some h

/-- Variables with the same number are one. -/
theorem Distinct.eq_of_id (hb : b.Distinct) (hv : v ∈ b.namedVariables) (hw : w ∈ b.namedVariables)
    (h : v.id = w.id) : v = w := by
  have hinc := hb.increasing
  generalize b.namedVariables = vs at hv hw hinc
  induction hinc with
  | nil => cases hv
  | cons hlt _ ih =>
    rcases List.mem_cons.1 hv with rfl | hv' <;> rcases List.mem_cons.1 hw with rfl | hw'
    · rfl
    · exact absurd h (Nat.ne_of_lt (hlt w hw'))
    · exact absurd h.symm (Nat.ne_of_lt (hlt v hv'))
    · exact ih hv' hw'

/-- Counting occurrences changes no variable. -/
theorem map_var_count (name : Text) (entries : List Binding) :
    (count name entries).map (·.var) = entries.map (·.var) := by
  rw [count, List.map_map]
  refine List.map_congr_left fun e _ => ?_
  simp only [Function.comp]
  split <;> rfl

theorem find?_entries (b : Bindings) (name : Text) :
    (b.entries.find? (·.var.name = name)).map (·.var) = b.var? name := by
  rw [var?, namedVariables, List.find?_map]
  rfl

theorem named_of_known (h : b.var? name = some v) :
    (b.named name).1 = v ∧ (b.named name).2.namedVariables = b.namedVariables ∧
      (b.named name).2.issued = b.issued := by
  rw [← find?_entries] at h
  obtain ⟨e, he, rfl⟩ := Option.map_eq_some_iff.1 h
  rw [named, he]
  exact ⟨rfl, map_var_count name b.entries, rfl⟩

theorem named_of_unknown (h : b.var? name = none) :
    (b.named name).1 = ⟨name, b.issued + 1⟩ ∧
      (b.named name).2.namedVariables = b.namedVariables ++ [⟨name, b.issued + 1⟩] ∧
      (b.named name).2.issued = b.issued + 1 := by
  rw [← find?_entries] at h
  rw [named, Option.map_eq_none_iff.1 h]
  exact ⟨rfl, List.map_append, rfl⟩

/-- Behind a name, the name stands for the variable that it was read as. -/
theorem var?_named (b : Bindings) (name : Text) :
    (b.named name).2.var? name = some (b.named name).1 := by
  cases h : b.var? name with
  | some v =>
    obtain ⟨h1, h2, -⟩ := named_of_known h
    rw [var?, h2, h1]
    exact h
  | none =>
    obtain ⟨h1, h2, -⟩ := named_of_unknown h
    rw [var?] at h
    rw [var?, h2, h1, List.find?_append, h]
    simp

theorem grows_named (b : Bindings) (name : Text) : b.Grows (b.named name).2 := by
  cases h : b.var? name with
  | some v =>
    obtain ⟨-, h2, h3⟩ := named_of_known h
    refine ⟨?_, fun hb => ⟨?_, ?_⟩⟩
    · intro n w hw
      rwa [var?, h2]
    · rw [h2]
      exact hb.increasing
    · rw [h2, h3]
      exact hb.issued
  | none =>
    obtain ⟨-, h2, h3⟩ := named_of_unknown h
    refine ⟨?_, fun hb => ⟨?_, ?_⟩⟩
    · intro n w hw
      rw [var?] at hw
      rw [var?, h2, List.find?_append, hw]
      rfl
    · rw [h2]
      refine List.pairwise_append.2 ⟨hb.increasing, List.pairwise_singleton .., ?_⟩
      intro x hx y hy
      rw [List.mem_singleton.1 hy]
      exact Nat.lt_succ_of_le (hb.issued x hx)
    · rw [h2, h3]
      intro x hx
      rcases List.mem_append.1 hx with hx | hx
      · exact Nat.le_succ_of_le (hb.issued x hx)
      · exact Nat.le_of_eq (by rw [List.mem_singleton.1 hx])

/-- The number of the variable that a name stands for. -/
def number (b : Bindings) (name : Text) : Nat :=
  ((b.var? name).map (·.id)).getD 0

/-- Names with the same number are one. -/
theorem Distinct.eq_of_number (hb : b.Distinct) (hv : (b.var? name).isSome)
    (hw : (b.var? name').isSome) (h : b.number name = b.number name') : name = name' := by
  obtain ⟨v, hv⟩ := Option.isSome_iff_exists.1 hv
  obtain ⟨w, hw⟩ := Option.isSome_iff_exists.1 hw
  simp only [number, hv, hw, Option.map_some, Option.getD_some] at h
  rw [← name_of_var? hv, ← name_of_var? hw, hb.eq_of_id (mem_of_var? hv) (mem_of_var? hw) h]

end Bindings

/-! ## Terms as they are read back -/

namespace Term

/-- Whether `u` is `t`, up to marks, with the variables that `b`, and whatever it grows to, knows
them as. -/
def Echoes (b : Bindings) (u t : Term) : Prop :=
  ∀ final, b.Grows final →
    (∀ v ∈ t.vars, (final.var? v.text).isSome) ∧
      u.map Atom.unmarked id = t.map Atom.unmarked fun v => ⟨v.text, final.number v.text⟩

/-- The same for terms in a row. -/
def EchoAll (b : Bindings) (us ts : List Term) : Prop :=
  ∀ final, b.Grows final →
    (∀ v ∈ varsOfAll ts, (final.var? v.text).isSome) ∧
      mapAll Atom.unmarked id us =
        mapAll Atom.unmarked (fun v => ⟨v.text, final.number v.text⟩) ts

variable {b b' : Bindings} {u t : Term} {us ts : List Term}

theorem Echoes.mono (h : Echoes b u t) (hg : b.Grows b') : Echoes b' u t :=
  fun final hfinal => h final (hg.trans hfinal)

theorem echoAll_nil : EchoAll b [] [] :=
  fun _ _ => ⟨nofun, rfl⟩

theorem EchoAll.cons (h : Echoes b u t) (hs : EchoAll b us ts) : EchoAll b (u :: us) (t :: ts) := by
  intro final hfinal
  obtain ⟨hvars, hmap⟩ := h final hfinal
  obtain ⟨hvars', hmap'⟩ := hs final hfinal
  refine ⟨fun v hv => ?_, by rw [mapAll, mapAll, hmap, hmap']⟩
  rcases List.mem_append.1 hv with hv | hv
  · exact hvars v hv
  · exact hvars' v hv

theorem echoes_compound {f g : Atom} (hf : f.name = g.name) (hs : EchoAll b us ts) :
    Echoes b (.compound f us) (.compound g ts) := by
  intro final hfinal
  obtain ⟨hvars, hmap⟩ := hs final hfinal
  exact ⟨hvars, by rw [map, map, hmap, Atom.unmarked, Atom.unmarked, hf]⟩

theorem echoes_cons {u' t' : Term} (h : Echoes b u t) (h' : Echoes b u' t') :
    Echoes b (.cons u u') (.cons t t') := by
  intro final hfinal
  obtain ⟨hvars, hmap⟩ := h final hfinal
  obtain ⟨hvars', hmap'⟩ := h' final hfinal
  refine ⟨fun v hv => ?_, by rw [map, map, hmap, hmap']⟩
  rcases List.mem_append.1 hv with hv | hv
  · exact hvars v hv
  · exact hvars' v hv

theorem echoes_atom {a a' : Atom} (h : a.name = a'.name) : Echoes b (.atom a) (.atom a') :=
  fun _ _ => ⟨nofun, by rw [map, map, Atom.unmarked, Atom.unmarked, h]⟩

/-- The variable that a name is read as. -/
theorem echoes_var {v : Variable} :
    Echoes (b.named v.text).2 (.var (b.named v.text).1) (.var v) := by
  intro final hfinal
  have hknown := hfinal.known (b.var?_named v.text)
  generalize (b.named v.text).1 = w at hknown
  obtain ⟨name, n⟩ := w
  obtain rfl : name = v.text := Bindings.name_of_var? hknown
  refine ⟨fun w hw => ?_, ?_⟩
  · rw [List.mem_singleton.1 hw, hknown]
    rfl
  · rw [map, map, Bindings.number, hknown]
    rfl

end Term

end PrologText
