import PrologText.Proofs.Renaming
import PrologText.Token.Basic
import PrologText.Flags

/-!
# Terms of literals

What is in a term: its variables (`Term.vars`) and the functors of its compounds. The terms that
numbers and quoted texts stand for have neither (`Token.bare_number`, `QuoteKind.bare_term`), so
that no change of variables reaches them (`Term.Bare.map_eq`).
-/

namespace PrologText

namespace Term

mutual

/-- The functors of the compounds in a term, from left to right. -/
def functors : Term → List Atom
  | compound f xs => f :: functorsOfAll xs
  | cons x y => functors x ++ functors y
  | _ => []

def functorsOfAll : List Term → List Atom
  | [] => []
  | x :: xs => functors x ++ functorsOfAll xs

end

theorem varsOfAll_append (xs ys : List Term) :
    varsOfAll (xs ++ ys) = varsOfAll xs ++ varsOfAll ys := by
  induction xs with
  | nil => rfl
  | cons x xs ih => simp only [List.cons_append, varsOfAll, ih, List.append_assoc]

theorem functorsOfAll_append (xs ys : List Term) :
    functorsOfAll (xs ++ ys) = functorsOfAll xs ++ functorsOfAll ys := by
  induction xs with
  | nil => rfl
  | cons x xs ih => simp only [List.cons_append, functorsOfAll, ih, List.append_assoc]

theorem vars_ofList (xs : List Term) (tail : Term) :
    (ofList xs tail).vars = varsOfAll xs ++ tail.vars := by
  induction xs with
  | nil => rfl
  | cons x xs ih =>
    have hvars : (ofList (x :: xs) tail).vars = x.vars ++ (ofList xs tail).vars := rfl
    rw [hvars, ih, varsOfAll, List.append_assoc]

theorem functors_ofList (xs : List Term) (tail : Term) :
    (ofList xs tail).functors = functorsOfAll xs ++ tail.functors := by
  induction xs with
  | nil => rfl
  | cons x xs ih =>
    have hfunctors : (ofList (x :: xs) tail).functors = x.functors ++ (ofList xs tail).functors :=
      rfl
    rw [hfunctors, ih, functorsOfAll, List.append_assoc]

/-- A term without variables and compounds, as a literal stands for. -/
def Bare (x : Term) : Prop :=
  x.vars = [] ∧ x.functors = []

theorem bare_ofInt (n : Int) : (ofInt n).Bare := by
  unfold ofInt
  split <;> exact ⟨rfl, rfl⟩

theorem Bare.negate {x : Term} (h : x.Bare) : (x.negate?.getD x).Bare := by
  cases x with
  | integer =>
    simp only [negate?, Option.getD_some]
    split <;> exact ⟨rfl, rfl⟩
  | bigInteger n => exact bare_ofInt (-n)
  | float => exact ⟨rfl, rfl⟩
  | _ => exact h

theorem bare_ofList {xs : List Term} (h : ∀ x ∈ xs, x.Bare) : (ofList xs .nil).Bare := by
  induction xs with
  | nil => exact ⟨rfl, rfl⟩
  | cons x xs ih =>
    obtain ⟨hx, hxs⟩ := List.forall_mem_cons.1 h
    have := ih hxs
    rw [Bare, vars_ofList, functors_ofList, List.append_eq_nil_iff, List.append_eq_nil_iff] at *
    simp [varsOfAll, functorsOfAll, hx.1, hx.2, this]

theorem Bare.map_eq {x : Term} (h : x.Bare) (f : Variable → Variable) : x.map id f = x := by
  cases x with
  | var => cases h.1
  | compound => cases h.2
  | cons x y =>
    obtain ⟨hvars, hfunctors⟩ := h
    obtain ⟨hx, hy⟩ := List.append_eq_nil_iff.1 hvars
    obtain ⟨hx', hy'⟩ := List.append_eq_nil_iff.1 hfunctors
    rw [map, Bare.map_eq ⟨hx, hx'⟩, Bare.map_eq ⟨hy, hy'⟩]
  | _ => rfl

end Term

theorem QuoteKind.bare_term (k : QuoteKind) (t : Text) : (k.term t).Bare := by
  cases k with
  | atom | string => exact ⟨rfl, rfl⟩
  | chars | codes | unknown =>
    refine Term.bare_ofList ?_
    simp only [List.mem_map]
    rintro x ⟨g, -, rfl⟩
    exact ⟨rfl, rfl⟩

/-- The terms that numbers are read as. -/
theorem Token.number_cases {t : Token} {n : Term} (h : t.number? = some (.ok n)) :
    (∃ v, n = .integer v) ∨ (∃ m, n = .bigInteger m) ∨ ∃ x, n = .float x := by
  unfold number? at h
  split at h
  · simp only [Option.some.injEq, Term.ofDigits] at h
    split at h
    · cases h
    · cases h
      unfold Term.ofInt
      split
      · split
        · exact .inl ⟨_, rfl⟩
        · exact .inr (.inl ⟨_, rfl⟩)
      · exact .inr (.inl ⟨_, rfl⟩)
  · simp only [Option.some.injEq, Term.ofFloatText] at h
    split at h
    · cases h
    · cases h
      exact .inr (.inr ⟨_, rfl⟩)
  · cases h
    exact .inl ⟨_, rfl⟩
  · cases h

theorem Token.bare_number {t : Token} {n : Term} (h : t.number? = some (.ok n)) : n.Bare := by
  rcases number_cases h with ⟨v, rfl⟩ | ⟨m, rfl⟩ | ⟨x, rfl⟩ <;> exact ⟨rfl, rfl⟩

end PrologText
