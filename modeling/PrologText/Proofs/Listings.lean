import Mathlib.Data.List.Nodup
import PrologText.Proofs.Bytes
import PrologText.Proofs.Tables

/-!
# Listings of operators

A look-up goes from a table down its ancestors and stops at the first definition of the name. A
listing is made the other way round: the definitions of all layers are gathered from the lowest
upwards, the deletions among them are left out, and the rest is sorted. Main statement: a listing
holds exactly the operators that look-ups find, each once, in a strict order, and it does not depend
on the order in which the entries of a slot are met (`Table.operators_listing`).
-/

namespace PrologText

/-! ## The order of a listing -/

theorem Specifier.eq_of_name_eq {s s' : Specifier} (h : s.name = s'.name) : s = s' := by
  revert h
  cases s <;> cases s' <;> decide

namespace Operator

/-- An operator comes before another in a listing: its priority is higher, or its name comes first
by the bytes, or its specifier does by the name. -/
def Precedes (a b : Operator) : Prop :=
  b.priority < a.priority ∨ a.priority = b.priority ∧
    (a.name.bytes < b.name.bytes ∨ a.name.bytes = b.name.bytes ∧
      ¬b.specifier.name ≤ a.specifier.name)

instance (a b : Operator) : Decidable (a.Precedes b) :=
  inferInstanceAs (Decidable (_ ∨ _ ∧ (_ ∨ _ ∧ _)))

variable {a b c : Operator}

theorem not_precedes_self (a : Operator) : ¬a.Precedes a := by
  rintro (h | ⟨-, h | ⟨-, h⟩⟩)
  · exact Nat.lt_irrefl _ h
  · exact List.lt_irrefl _ h
  · exact h (String.le_refl _)

theorem Precedes.trans (h : a.Precedes b) (h' : b.Precedes c) : a.Precedes c := by
  rcases h with h | ⟨hp, h⟩ <;> rcases h' with h' | ⟨hp', h'⟩
  · exact .inl (Nat.lt_trans h' h)
  · exact .inl (hp' ▸ h)
  · exact .inl (hp ▸ h')
  · refine .inr ⟨hp.trans hp', ?_⟩
    rcases h with h | ⟨hn, h⟩ <;> rcases h' with h' | ⟨hn', h'⟩
    · exact .inl (List.lt_trans h h')
    · exact .inl (hn' ▸ h)
    · exact .inl (hn ▸ h')
    · have hab := (String.le_total b.specifier.name a.specifier.name).resolve_left h
      exact .inr ⟨hn.trans hn', fun hca => h' (String.le_trans hca hab)⟩

/-- What the order of a listing goes by. -/
def rank (op : Operator) : Nat × List UInt8 × Specifier :=
  (op.priority, op.name.bytes, op.specifier)

theorem precedes_or_rank_eq (a b : Operator) :
    a.Precedes b ∨ b.Precedes a ∨ a.rank = b.rank := by
  rcases Nat.lt_trichotomy a.priority b.priority with hp | hp | hp
  · exact .inr (.inl (.inl hp))
  · by_cases hn : a.name.bytes < b.name.bytes
    · exact .inl (.inr ⟨hp, .inl hn⟩)
    · by_cases hn' : b.name.bytes < a.name.bytes
      · exact .inr (.inl (.inr ⟨hp.symm, .inl hn'⟩))
      · have heq : a.name.bytes = b.name.bytes :=
          List.le_antisymm (List.not_lt.1 hn') (List.not_lt.1 hn)
        by_cases hs : b.specifier.name ≤ a.specifier.name
        · by_cases hs' : a.specifier.name ≤ b.specifier.name
          · have hname := String.le_antisymm hs' hs
            simp only [rank, hp, heq, Specifier.eq_of_name_eq hname, or_true]
          · exact .inr (.inl (.inr ⟨hp.symm, .inr ⟨heq.symm, hs'⟩⟩))
        · exact .inl (.inr ⟨hp, .inr ⟨heq, hs⟩⟩)
  · exact .inl (.inl hp)

theorem Precedes.congr {a' b' : Operator} (ha : a.rank = a'.rank) (hb : b.rank = b'.rank)
    (h : a.Precedes b) : a'.Precedes b' := by
  simp only [rank, Prod.mk.injEq] at ha hb
  simpa only [Precedes, ha, hb] using h

theorem not_precedes_trans (h : ¬b.Precedes a) (h' : ¬c.Precedes b) : ¬c.Precedes a := by
  intro hca
  rcases precedes_or_rank_eq a b with hab | hba | hab
  · exact h' (hca.trans hab)
  · exact h hba
  · exact h' (hca.congr rfl hab)

theorem eq_of_rank_eq (ha : a.name.IsJoined) (hb : b.name.IsJoined) (h : a.rank = b.rank) :
    a = b := by
  obtain ⟨name, priority, specifier⟩ := a
  obtain ⟨name', priority', specifier'⟩ := b
  simp only [rank, Prod.mk.injEq] at h
  obtain ⟨rfl, hbytes, rfl⟩ := h
  have hname : name = name' := ha.eq_of_bytes_eq hb hbytes
  rw [hname]

end Operator

/-! ## Slots -/

namespace Slot

/-- A slot that holds each name once and operators with certain specifiers only. A name is a text as
bytes are read: no bytes of it are left that form a character. -/
structure WellFormed (specifiers : List Specifier) (s : Slot) : Prop where
  names : (s.map (·.name)).Nodup
  joined : ∀ op ∈ s, op.name.IsJoined
  specifier : ∀ op ∈ s, op.specifier ∈ specifiers

variable {specifiers : List Specifier} {s s' below : Slot} {op : Operator} {name : Text}

instance : Decidable (s.WellFormed specifiers) :=
  decidable_of_iff ((s.map (·.name)).Nodup ∧
      ∀ op ∈ s, op.name.rejoin = op.name ∧ op.specifier ∈ specifiers)
    ⟨fun ⟨hn, h⟩ => ⟨hn, fun op hop => (h op hop).1, fun op hop => (h op hop).2⟩,
      fun h => ⟨h.names, fun op hop => ⟨h.joined op hop, h.specifier op hop⟩⟩⟩

theorem WellFormed.perm (h : s.WellFormed specifiers) (hperm : s.Perm s') :
    s'.WellFormed specifiers where
  names := (hperm.map _).nodup_iff.1 h.names
  joined op hop := h.joined op (hperm.mem_iff.2 hop)
  specifier op hop := h.specifier op (hperm.mem_iff.2 hop)

theorem nodup_of_names (h : (s.map (·.name)).Nodup) : s.Nodup :=
  List.Pairwise.of_map (·.name) (fun _ _ hne heq => hne (congrArg Operator.name heq)) h

theorem get?_eq_of_perm (hs : (s.map (·.name)).Nodup) (h : s.Perm s') (name : Text) :
    s'.get? name = s.get? name := by
  have hs' : (s'.map (·.name)).Nodup := (h.map _).nodup_iff.1 hs
  refine Option.ext fun op => ?_
  rw [get?_eq_some_iff hs', get?_eq_some_iff hs, h.mem_iff]

theorem get?_cons (op : Operator) (s : Slot) (name : Text) :
    get? (op :: s) name = if op.name = name then some op else s.get? name := by
  by_cases h : op.name = name <;> simp [get?, h]

theorem get?_eq_none_of_not_mem (h : name ∉ s.map (·.name)) : s.get? name = none := by
  refine List.find?_eq_none.2 fun op hop hname => h ?_
  exact List.mem_map.2 ⟨op, hop, of_decide_eq_true hname⟩

/-- The definitions of a slot hide those that were gathered before. -/
theorem get?_foldl_insert (h : (s.map (·.name)).Nodup) (below : Slot) (name : Text) :
    get? (s.foldl insert below) name = (s.get? name).or (below.get? name) := by
  induction s generalizing below with
  | nil => rfl
  | cons op s ih =>
    obtain ⟨hop, hs⟩ := List.nodup_cons.1 h
    rw [List.foldl_cons, ih hs, get?_insert, get?_cons]
    by_cases hname : op.name = name
    · subst hname
      have hnone : Slot.get? s op.name = none := get?_eq_none_of_not_mem hop
      simp [hnone]
    · simp [hname]

theorem nodup_foldl_insert (s : Slot) (h : (below.map (·.name)).Nodup) :
    ((s.foldl insert below).map (·.name)).Nodup := by
  induction s generalizing below with
  | nil => exact h
  | cons op s ih => exact ih (nodup_insert h)

end Slot

/-! ## Gathering definitions -/

namespace Table

variable {specifiers : List Specifier} {slots slots' : List Slot} {op : Operator}

theorem nodup_effective (slots : List Slot) : ((effective slots).map (·.name)).Nodup := by
  induction slots with
  | nil => exact List.nodup_nil
  | cons s slots ih => exact Slot.nodup_foldl_insert s ih

/-- What is gathered under a name is what a look-up through the slots finds. -/
theorem get?_effective (h : ∀ s ∈ slots, s.WellFormed specifiers) (name : Text) :
    Slot.get? (effective slots) name = slots.findSome? (·.get? name) := by
  induction slots with
  | nil => rfl
  | cons s slots ih =>
    obtain ⟨hs, hslots⟩ := List.forall_mem_cons.1 h
    have heffective : effective (s :: slots) = s.foldl Slot.insert (effective slots) := rfl
    rw [heffective, Slot.get?_foldl_insert hs.names, ih hslots, List.findSome?_cons]
    cases s.get? name <;> rfl

theorem mem_effective (h : ∀ s ∈ slots, s.WellFormed specifiers) :
    op ∈ effective slots ↔ slots.findSome? (·.get? op.name) = some op := by
  rw [← get?_effective h, Slot.get?_eq_some_iff (nodup_effective slots)]
  simp

theorem wellFormed_effective (h : ∀ s ∈ slots, s.WellFormed specifiers) :
    Slot.WellFormed specifiers (effective slots) := by
  have hmem {op : Operator} (hop : op ∈ effective slots) : ∃ s ∈ slots, op ∈ s := by
    obtain ⟨s, hs, hget⟩ := List.exists_of_findSome?_eq_some ((mem_effective h).1 hop)
    exact ⟨s, hs, List.mem_of_find?_eq_some hget⟩
  refine ⟨nodup_effective slots, fun op hop => ?_, fun op hop => ?_⟩
  · obtain ⟨s, hs, hop⟩ := hmem hop
    exact (h s hs).joined op hop
  · obtain ⟨s, hs, hop⟩ := hmem hop
    exact (h s hs).specifier op hop

/-- The entries of a slot can be met in any order. -/
theorem effective_perm (h : ∀ s ∈ slots, s.WellFormed specifiers)
    (hperm : List.Forall₂ List.Perm slots slots') :
    (effective slots').Perm (effective slots) := by
  have hslots : (∀ s ∈ slots', s.WellFormed specifiers) ∧
      ∀ name, slots'.findSome? (·.get? name) = slots.findSome? (·.get? name) := by
    induction hperm with
    | nil => exact ⟨h, fun _ => rfl⟩
    | cons hs _ ih =>
      obtain ⟨hfirst, hlater⟩ := List.forall_mem_cons.1 h
      obtain ⟨hlater', hfind⟩ := ih hlater
      refine ⟨List.forall_mem_cons.2 ⟨hfirst.perm hs, hlater'⟩, fun name => ?_⟩
      rw [List.findSome?_cons, List.findSome?_cons, Slot.get?_eq_of_perm hfirst.names hs, hfind]
  obtain ⟨h', hfind⟩ := hslots
  have hnodup (slots : List Slot) : (effective slots).Nodup :=
    Slot.nodup_of_names (nodup_effective slots)
  refine (List.perm_ext_iff_of_nodup (hnodup slots') (hnodup slots)).2 fun op => ?_
  rw [mem_effective h', mem_effective h, hfind]

end Table

/-! ## Well-formed tables -/

structure Layer.WellFormed (l : Layer) : Prop where
  prefixes : l.prefixes.WellFormed Specifier.prefixes
  infixes : l.infixes.WellFormed Specifier.infixes

instance (l : Layer) : Decidable l.WellFormed :=
  decidable_of_iff
    (l.prefixes.WellFormed Specifier.prefixes ∧ l.infixes.WellFormed Specifier.infixes)
    ⟨fun ⟨hp, hi⟩ => ⟨hp, hi⟩, fun h => ⟨h.prefixes, h.infixes⟩⟩

/-- The layers hold the same definitions, which come in any order. -/
structure Layer.Reordered (l l' : Layer) : Prop where
  prefixes : l.prefixes.Perm l'.prefixes
  infixes : l.infixes.Perm l'.infixes

theorem Layer.forall₂_reordered_self (ls : List Layer) : List.Forall₂ Reordered ls ls :=
  List.forall₂_same.2 fun _ _ => ⟨.refl _, .refl _⟩

namespace Table

/-- A table whose slots are well-formed, and so are those of its ancestors. -/
def WellFormed (t : Table) : Prop :=
  ∀ l ∈ t.layers, l.WellFormed

instance (t : Table) : Decidable t.WellFormed :=
  inferInstanceAs (Decidable (∀ l ∈ t.layers, l.WellFormed))

/-- The definitions of a table that count, deletions among them: the prefix operators first. -/
def gathered (t : Table) : List Operator :=
  effective (t.layers.map (·.prefixes)) ++ effective (t.layers.map (·.infixes))

/-- What a listing may come to where the entries of a slot have no order of their own. The layers
are gathered with their entries in any order, what was gathered is put in any order, the deletions
are left out, and the rest is sorted in some way that puts no operator before one that precedes
it. -/
def MayList (t : Table) (listed : List Operator) : Prop :=
  ∃ (t' : Table) (ops : List Operator), List.Forall₂ Layer.Reordered t.layers t'.layers ∧
    ops.Perm t'.gathered ∧ listed.Perm (ops.filter (·.priority ≠ 0)) ∧
    listed.Pairwise fun a b => ¬b.Precedes a

variable {t t' : Table} {op : Operator} {listed : List Operator}

namespace WellFormed

theorem prefixes (h : t.WellFormed) :
    ∀ s ∈ t.layers.map (·.prefixes), s.WellFormed Specifier.prefixes :=
  List.forall_mem_map.2 fun l hl => (h l hl).prefixes

theorem infixes (h : t.WellFormed) :
    ∀ s ∈ t.layers.map (·.infixes), s.WellFormed Specifier.infixes :=
  List.forall_mem_map.2 fun l hl => (h l hl).infixes

theorem mem_gathered (h : t.WellFormed) :
    op ∈ t.gathered ↔ t.prefixEntry? op.name = some op ∨ t.infixEntry? op.name = some op := by
  rw [gathered, List.mem_append, mem_effective h.prefixes, mem_effective h.infixes,
    List.findSome?_map, List.findSome?_map]
  rfl

theorem joined_of_mem (h : t.WellFormed) (hop : op ∈ t.gathered) : op.name.IsJoined := by
  rcases List.mem_append.1 hop with hop | hop
  · exact (wellFormed_effective h.prefixes).joined op hop
  · exact (wellFormed_effective h.infixes).joined op hop

/-- A prefix operator and an infix or postfix operator differ in their specifiers. -/
theorem nodup_gathered (h : t.WellFormed) : t.gathered.Nodup := by
  have hprefixes := wellFormed_effective h.prefixes
  have hinfixes := wellFormed_effective h.infixes
  refine List.nodup_append.2 ⟨Slot.nodup_of_names hprefixes.names,
    Slot.nodup_of_names hinfixes.names, ?_⟩
  rintro op hop _ hop' rfl
  have hspecifier := hprefixes.specifier op hop
  have hspecifier' := hinfixes.specifier op hop'
  revert hspecifier hspecifier'
  cases op.specifier <;> decide

theorem gathered_perm (h : t.WellFormed)
    (hperm : List.Forall₂ Layer.Reordered t.layers t'.layers) : t'.gathered.Perm t.gathered := by
  refine List.Perm.append ?_ ?_
  · refine effective_perm h.prefixes ?_
    rw [List.forall₂_map_left_iff, List.forall₂_map_right_iff]
    exact hperm.imp fun _ _ hl => hl.prefixes
  · refine effective_perm h.infixes ?_
    rw [List.forall₂_map_left_iff, List.forall₂_map_right_iff]
    exact hperm.imp fun _ _ hl => hl.infixes

end WellFormed

/-! ## Sorting -/

/-- The order that a listing is sorted by, for names as bytes are read. -/
theorem listedBefore_eq {a b : Operator} (ha : a.name.IsJoined) (hb : b.name.IsJoined) :
    listedBefore a b = decide ¬b.Precedes a := by
  have hbytes : b.name.bytes = a.name.bytes ↔ b.name = a.name :=
    ⟨hb.eq_of_bytes_eq ha, congrArg Text.bytes⟩
  rw [listedBefore, Bool.eq_iff_iff, decide_eq_true_eq, Operator.Precedes]
  by_cases hp : a.priority = b.priority
  · by_cases hn : a.name = b.name
    · simp only [hp, hn, ne_eq, not_true_eq_false, if_false, decide_eq_true_eq, Nat.lt_irrefl,
        List.lt_irrefl, true_and, false_or, Decidable.not_not]
    · have hne : b.name.bytes ≠ a.name.bytes := fun heq => hn (hbytes.1 heq).symm
      simp [hp, hn, hne]
  · have hne : b.priority ≠ a.priority := Ne.symm hp
    simp [hp, hne]
    omega

theorem operators_perm (t : Table) : t.operators.Perm (t.gathered.filter (·.priority ≠ 0)) :=
  List.mergeSort_perm ..

namespace WellFormed

theorem mem_operators (h : t.WellFormed) :
    op ∈ t.operators ↔
      t.prefixOperator? op.name = some op ∨ t.infixOperator? op.name = some op := by
  rw [t.operators_perm.mem_iff, List.mem_filter, h.mem_gathered, prefixOperator?, infixOperator?,
    Option.filter_eq_some_iff, Option.filter_eq_some_iff, or_and_right]

theorem joined_of_mem_operators (h : t.WellFormed) (hop : op ∈ t.operators) :
    op.name.IsJoined :=
  h.joined_of_mem (List.mem_of_mem_filter (t.operators_perm.mem_iff.1 hop))

theorem nodup_operators (h : t.WellFormed) : t.operators.Nodup :=
  t.operators_perm.nodup_iff.2 (h.nodup_gathered.filter _)

/-- No operator of a listing stands behind one that it precedes. -/
theorem pairwise_not_precedes (h : t.WellFormed) :
    t.operators.Pairwise fun a b => ¬b.Precedes a := by
  have hjoined {op : Operator} (hop : op ∈ t.gathered.filter (·.priority ≠ 0)) :
      op.name.IsJoined :=
    h.joined_of_mem (List.mem_of_mem_filter hop)
  -- the order of the listing is transitive among names as bytes are read only
  have hsame : t.operators =
      (t.gathered.filter (·.priority ≠ 0)).mergeSort fun a b => decide ¬b.Precedes a := by
    have hmap := List.map_mergeSort (f := id) (s := fun a b => decide ¬b.Precedes a)
      fun a ha b hb => listedBefore_eq (hjoined ha) (hjoined hb)
    rwa [List.map_id, List.map_id] at hmap
  have htrans (a b c : Operator) (hab : decide (¬b.Precedes a) = true)
      (hbc : decide (¬c.Precedes b) = true) : decide (¬c.Precedes a) = true :=
    decide_eq_true (Operator.not_precedes_trans (of_decide_eq_true hab) (of_decide_eq_true hbc))
  have htotal (a b : Operator) : (decide (¬b.Precedes a) || decide (¬a.Precedes b)) = true := by
    rw [Bool.or_eq_true, decide_eq_true_eq, decide_eq_true_eq]
    by_cases hab : a.Precedes b
    · exact .inl fun hba => a.not_precedes_self (hab.trans hba)
    · exact .inr hab
  rw [hsame]
  exact (List.pairwise_mergeSort htrans htotal _).imp of_decide_eq_true

theorem pairwise_precedes (h : t.WellFormed) : t.operators.Pairwise Operator.Precedes := by
  refine (h.pairwise_not_precedes.and h.nodup_operators).imp_of_mem ?_
  intro a b ha hb ⟨hba, hne⟩
  rcases a.precedes_or_rank_eq b with hab | hba' | heq
  · exact hab
  · exact absurd hba' hba
  · have hab := Operator.eq_of_rank_eq (h.joined_of_mem_operators ha)
      (h.joined_of_mem_operators hb) heq
    exact absurd hab hne

theorem mayList_iff (h : t.WellFormed) : t.MayList listed ↔ listed = t.operators := by
  constructor
  · rintro ⟨t', ops, hlayers, hops, hlisted, hsorted⟩
    have hperm : listed.Perm t.operators :=
      hlisted.trans (((hops.trans (h.gathered_perm hlayers)).filter _).trans t.operators_perm.symm)
    have hstrict : t.operators.Pairwise fun a b => ¬b.Precedes a := h.pairwise_not_precedes
    refine List.Perm.eq_of_pairwise (fun a b ha hb hba hab => ?_) hsorted hstrict hperm
    have hrank := ((a.precedes_or_rank_eq b).resolve_left hab).resolve_left hba
    exact Operator.eq_of_rank_eq (h.joined_of_mem_operators (hperm.mem_iff.1 ha))
      (h.joined_of_mem_operators hb) hrank
  · rintro rfl
    exact ⟨t, t.gathered, Layer.forall₂_reordered_self _, .refl _, t.operators_perm,
      h.pairwise_not_precedes⟩

end WellFormed

/-- A listing holds the operators that look-ups find under their names and no others, each of them
once, in the order of priorities, names and specifiers. In whatever order the entries of the slots
are met, and however they are sorted, there is no other listing. -/
theorem operators_listing {t : Table} (h : t.WellFormed) :
    (∀ op, op ∈ t.operators ↔
      t.prefixOperator? op.name = some op ∨ t.infixOperator? op.name = some op) ∧
    (∀ op ∈ t.operators, t.operators.count op = 1) ∧
    t.operators.Pairwise Operator.Precedes ∧
    ∀ listed, t.MayList listed ↔ listed = t.operators := by
  refine ⟨fun _ => h.mem_operators, fun op hop => ?_, h.pairwise_precedes, fun _ => h.mayList_iff⟩
  exact List.count_eq_one_of_mem h.nodup_operators hop

/-- A table with two ancestors. Its own layer deletes an operator of the next one and puts another
in place of a deletion there. -/
def layeredTable : Table :=
  ⟨⟨[⟨"-", 0, .fy⟩, ⟨"é", 200, .fy⟩], [⟨"mod", 400, .yfx⟩, ⟨"is", 700, .xfx⟩]⟩, false,
    [⟨[⟨"+", 200, .fy⟩, ⟨"-", 200, .fy⟩], [⟨"is", 0, .xfx⟩, ⟨"+", 200, .xfx⟩, ⟨"*", 400, .yfx⟩]⟩,
      ⟨[⟨":-", 1200, .fx⟩], [⟨"is", 650, .xfx⟩, ⟨":-", 1200, .xfx⟩, ⟨"-", 500, .yfx⟩]⟩]⟩

/-- The operators of the table, those of its ancestors among them. -/
def layeredOperators : List Operator :=
  [⟨":-", 1200, .fx⟩, ⟨":-", 1200, .xfx⟩, ⟨"is", 700, .xfx⟩, ⟨"-", 500, .yfx⟩, ⟨"*", 400, .yfx⟩,
    ⟨"mod", 400, .yfx⟩, ⟨"+", 200, .fy⟩, ⟨"+", 200, .xfx⟩, ⟨"é", 200, .fy⟩]

theorem operators_listing_layeredTable :
    layeredTable.WellFormed ∧ layeredTable.operators = layeredOperators ∧
      (∀ op, op ∈ layeredOperators ↔ layeredTable.prefixOperator? op.name = some op ∨
        layeredTable.infixOperator? op.name = some op) ∧
      (∀ op ∈ layeredOperators, layeredOperators.count op = 1) ∧
      layeredOperators.Pairwise Operator.Precedes ∧
      ∀ listed, layeredTable.MayList listed ↔ listed = layeredOperators := by
  have h : layeredTable.WellFormed := by decide +kernel
  obtain ⟨hmem, hcount, hsorted, hlisted⟩ := operators_listing h
  have hoperators : layeredOperators = layeredTable.operators :=
    (hlisted _).1 ⟨layeredTable, layeredTable.gathered, Layer.forall₂_reordered_self _, .refl _,
      by decide +kernel, by decide +kernel⟩
  rw [← hoperators] at hmem hcount hsorted hlisted
  exact ⟨h, hoperators.symm, hmem, hcount, hsorted, hlisted⟩

end Table

end PrologText
