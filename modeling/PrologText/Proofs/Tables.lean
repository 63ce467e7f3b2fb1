import PrologText.Config

/-!
# Well-formed operator tables

What a definition changes in a table, and what no definition changes: entries are found under their
own names and have a specifier of their slot, the comma is an infix operator of priority 1000, the
empty brackets are no operators, and a bar is at most an infix operator of priority 1001 or more
(`Table.Proper`). Main statement: whatever is defined in a table, be it by a configuration, a table
that is proper stays proper (`Table.Proper.define`, `Config.proper_of_table`).
-/

namespace PrologText

/-! ## Slots -/

namespace Slot

variable {s : Slot} {op x : Operator} {name : Text}

theorem get?_insert (s : Slot) (op : Operator) (name : Text) :
    (s.insert op).get? name = if op.name = name then some op else s.get? name := by
  induction s with
  | nil => by_cases hn : op.name = name <;> simp [insert, get?, hn]
  | cons o s ih =>
    simp only [get?] at ih
    by_cases ho : o.name = op.name
    · by_cases hn : op.name = name <;> simp [insert, get?, ho, hn]
    · by_cases hn : op.name = name
      · subst hn
        simpa [insert, get?, List.find?_cons, ho] using ih
      · simp only [insert, if_neg ho, get?, List.find?_cons, ih, if_neg hn]

theorem mem_insert (h : x ∈ s.insert op) : x = op ∨ x ∈ s := by
  induction s with
  | nil => exact .inl (List.mem_singleton.1 h)
  | cons o s ih =>
    simp only [insert] at h
    split at h
    · exact (List.mem_cons.1 h).imp id (List.mem_cons_of_mem _)
    · rcases List.mem_cons.1 h with rfl | h
      · exact .inr List.mem_cons_self
      · exact (ih h).imp id (List.mem_cons_of_mem _)

theorem nodup_insert (h : (s.map (·.name)).Nodup) : ((s.insert op).map (·.name)).Nodup := by
  induction s with
  | nil => simp [insert]
  | cons o s ih =>
    obtain ⟨ho, hs⟩ := List.nodup_cons.1 h
    simp only [insert]
    split
    · next heq => simpa [heq] using h
    · next hne =>
      refine List.nodup_cons.2 ⟨fun hmem => ?_, ih hs⟩
      obtain ⟨x, hx, hname⟩ := List.mem_map.1 hmem
      rcases mem_insert hx with rfl | hx
      · exact hne hname.symm
      · exact ho (List.mem_map.2 ⟨x, hx, hname⟩)

theorem get?_eq_some_iff (h : (s.map (·.name)).Nodup) :
    s.get? name = some x ↔ x ∈ s ∧ x.name = name := by
  induction s with
  | nil => simp [get?]
  | cons o s ih =>
    obtain ⟨ho, hs⟩ := List.nodup_cons.1 h
    replace ih := ih hs
    simp only [get?] at ih
    by_cases hn : o.name = name
    · simp only [get?, List.find?_cons, hn, decide_true, Option.some.injEq, List.mem_cons]
      refine ⟨fun hx => ⟨.inl hx.symm, hx ▸ hn⟩, fun ⟨hx, hname⟩ => ?_⟩
      exact (hx.resolve_right fun hx =>
        ho (List.mem_map.2 ⟨x, hx, hname.trans hn.symm⟩)).symm
    · simp only [get?, List.find?_cons, hn, decide_false, ih, List.mem_cons]
      refine ⟨fun ⟨hx, hname⟩ => ⟨.inr hx, hname⟩, fun ⟨hx, hname⟩ => ⟨?_, hname⟩⟩
      exact hx.resolve_left fun hx => hn (hx ▸ hname)

/-- The entries of a slot that holds operators with certain specifiers only. -/
structure Proper (specifiers : List Specifier) (s : Slot) : Prop where
  names : (s.map (·.name)).Nodup
  /-- An entry is found under its own name and under no other. -/
  keys : ∀ name op, s.get? name = some op ↔ op ∈ s ∧ op.name = name
  priority : ∀ op ∈ s, op.priority ≤ Operator.maxPriority
  specifier : ∀ op ∈ s, op.specifier ∈ specifiers

theorem Proper.insert {specifiers : List Specifier} (h : s.Proper specifiers)
    (hp : op.priority ≤ Operator.maxPriority) (hs : op.specifier ∈ specifiers) :
    (s.insert op).Proper specifiers where
  names := nodup_insert h.names
  keys _ _ := get?_eq_some_iff (nodup_insert h.names)
  priority x hx := by
    rcases mem_insert hx with rfl | hx
    · exact hp
    · exact h.priority x hx
  specifier x hx := by
    rcases mem_insert hx with rfl | hx
    · exact hs
    · exact h.specifier x hx

end Slot

/-! ## Single definitions -/

namespace Table

variable (t : Table) (op : Operator) (name : Text)

@[simp] theorem ancestors_set : (t.set op).ancestors = t.ancestors := by
  unfold set
  split
  · rfl
  · split <;> rfl

/-- Whether a definition is kept as one of an infix or postfix operator. -/
def Takes (t : Table) (op : Operator) : Prop :=
  op.specifier.fixity ≠ .prefixOp ∧
    ¬(op.priority = 0 ∧ t.hasOtherFixity op.specifier.fixity op.name)

instance (t : Table) (op : Operator) : Decidable (t.Takes op) :=
  inferInstanceAs (Decidable (_ ∧ _))

theorem own_set :
    (t.set op).own =
      ⟨if op.specifier.fixity = .prefixOp then t.own.prefixes.insert op else t.own.prefixes,
        if t.Takes op then t.own.infixes.insert op else t.own.infixes⟩ := by
  unfold set Takes
  by_cases hf : op.specifier.fixity = .prefixOp
  · simp [hf]
  · by_cases hz : op.priority = 0 ∧ t.hasOtherFixity op.specifier.fixity op.name
    · simp [hf, hz]
    · simp only [hf, hz, if_false, ne_eq, not_false_eq_true, and_self, if_true]

theorem prefixEntry?_set :
    prefixEntry? (t.set op) name =
      if op.specifier.fixity = .prefixOp ∧ op.name = name then some op
      else t.prefixEntry? name := by
  simp only [ prefixEntry?, layers, ancestors_set, own_set, List.findSome?_cons]
  by_cases hf : op.specifier.fixity = .prefixOp
  · by_cases hn : op.name = name <;> simp [hf, hn, Slot.get?_insert]
  · simp [hf]

theorem infixEntry?_set :
    infixEntry? (t.set op) name =
      if t.Takes op ∧ op.name = name then some op else t.infixEntry? name := by
  simp only [ infixEntry?, layers, ancestors_set, own_set, List.findSome?_cons]
  by_cases hf : t.Takes op
  · by_cases hn : op.name = name <;> simp [hf, hn, Slot.get?_insert]
  · simp [hf]

end Table

/-! ## Proper tables -/

/-- The specifiers of prefix operators. -/
def Specifier.prefixes : List Specifier := [fx, fy]

/-- The specifiers of infix and postfix operators. -/
def Specifier.infixes : List Specifier := [xf, yf, xfx, xfy, yfx]

theorem Specifier.mem_prefixes {s : Specifier} (h : s.fixity = .prefixOp) : s ∈ prefixes := by
  revert h
  cases s <;> decide

theorem Specifier.mem_infixes {s : Specifier} (h : s.fixity ≠ .prefixOp) : s ∈ infixes := by
  revert h
  cases s <;> decide

structure Layer.Proper (l : Layer) : Prop where
  prefixes : l.prefixes.Proper Specifier.prefixes
  infixes : l.infixes.Proper Specifier.infixes

/-- What every text relies on in a table. -/
structure Table.Proper (t : Table) : Prop where
  layers : ∀ l ∈ t.layers, l.Proper
  comma : t.infixOperator? "," = some ⟨",", 1000, .xfy⟩
  commaPrefix : t.prefixOperator? "," = none
  brackets : ∀ name : Text, name = "[]" ∨ name = "\x7b\x7d" →
    t.prefixOperator? name = none ∧ t.infixOperator? name = none
  bar : ∀ op, t.infixOperator? "|" = some op →
    op.specifier.fixity = .infixOp ∧ 1001 ≤ op.priority
  barPrefix : t.prefixOperator? "|" = none

/-- A definition that leaves a proper table proper. -/
structure Operator.Definable (op : Operator) : Prop where
  priority : op.priority ≤ Operator.maxPriority
  comma : op.name ≠ ","
  brackets : ¬(op.name = "[]" ∨ op.name = "\x7b\x7d")
  bar : op.name = "|" → op.priority ≠ 0 → op.specifier.fixity = .infixOp ∧ 1001 ≤ op.priority

theorem Layer.proper_empty : Layer.Proper ⟨[], []⟩ := by
  have h (specifiers : List Specifier) : Slot.Proper specifiers [] :=
    ⟨.nil, by simp [Slot.get?], nofun, nofun⟩
  exact ⟨h _, h _⟩

namespace Table

variable {t t' : Table} {op : Operator}

theorem proper_standard : standard.Proper where
  layers l hl := by
    cases List.mem_singleton.1 hl
    have hp : (standardPrefixes.map (·.name)).Nodup := by decide +kernel
    have hi : (standardInfixes.map (·.name)).Nodup := by decide +kernel
    exact ⟨⟨hp, fun _ _ => Slot.get?_eq_some_iff hp, by decide +kernel, by decide +kernel⟩,
      ⟨hi, fun _ _ => Slot.get?_eq_some_iff hi, by decide +kernel, by decide +kernel⟩⟩
  comma := by decide +kernel
  commaPrefix := by decide +kernel
  brackets := by
    rintro name (rfl | rfl) <;> decide +kernel
  bar op hop := by
    have hbar : standard.infixOperator? "|" = some ⟨"|", 1100, .xfy⟩ := by decide +kernel
    cases hbar.symm.trans hop
    decide
  barPrefix := by decide +kernel

theorem Proper.derive (h : t.Proper) : t.derive.Proper where
  layers l hl := by
    rcases List.mem_cons.1 hl with rfl | hl
    · exact Layer.proper_empty
    · exact h.layers l hl
  comma := h.comma
  commaPrefix := h.commaPrefix
  brackets := h.brackets
  bar := h.bar
  barPrefix := h.barPrefix

theorem Proper.own_set (h : t.Proper) (hop : op.Definable) : (t.set op).own.Proper := by
  have hown := h.layers t.own List.mem_cons_self
  rw [Table.own_set]
  refine ⟨?_, ?_⟩
  · dsimp only
    split
    · next hf => exact hown.prefixes.insert hop.priority (Specifier.mem_prefixes hf)
    · exact hown.prefixes
  · dsimp only
    split
    · next ht => exact hown.infixes.insert hop.priority (Specifier.mem_infixes ht.1)
    · exact hown.infixes

/-- Only a definition of a name changes what the name means as a prefix operator. -/
theorem prefixOperator?_set_of_ne {name : Text} (h : op.name ≠ name) :
    (t.set op).prefixOperator? name = t.prefixOperator? name := by
  simp [prefixOperator?, prefixEntry?_set, h]

theorem infixOperator?_set_of_ne {name : Text} (h : op.name ≠ name) :
    (t.set op).infixOperator? name = t.infixOperator? name := by
  simp [infixOperator?, infixEntry?_set, h]

theorem Proper.set (h : t.Proper) (hop : op.Definable) : (t.set op).Proper where
  layers l hl := by
    rcases List.mem_cons.1 hl with rfl | hl
    · exact h.own_set hop
    · exact h.layers l (List.mem_cons_of_mem _ (by simpa using hl))
  comma := by rw [infixOperator?_set_of_ne hop.comma, h.comma]
  commaPrefix := by rw [prefixOperator?_set_of_ne hop.comma, h.commaPrefix]
  brackets name hname := by
    have hne : op.name ≠ name := fun heq => hop.brackets (heq ▸ hname)
    rw [prefixOperator?_set_of_ne hne, infixOperator?_set_of_ne hne]
    exact h.brackets name hname
  bar x hx := by
    by_cases hname : op.name = "|"
    · simp only [infixOperator?, infixEntry?_set, hname, and_true] at hx
      split at hx
      · obtain ⟨hx, hpriority⟩ := Option.filter_eq_some_iff.1 hx
        cases hx
        exact hop.bar hname (by simpa using hpriority)
      · exact h.bar x hx
    · exact h.bar x (by rwa [infixOperator?_set_of_ne hname] at hx)
  barPrefix := by
    by_cases hname : op.name = "|"
    · simp only [prefixOperator?, prefixEntry?_set, hname, and_true]
      split
      · next hf =>
        have hzero : op.priority = 0 := Decidable.not_not.1 fun hne => by
          simpa [hf] using (hop.bar hname hne).1
        simp [hzero]
      · exact h.barPrefix
    · rw [prefixOperator?_set_of_ne hname, h.barPrefix]

/-! ## Definitions of several names -/

theorem definable_of_checkName {priority : Nat} {s : Specifier} {name : Text}
    (hp : priority ≤ Operator.maxPriority) (h : t.checkName priority s name = .ok ()) :
    Operator.Definable ⟨name, priority, s⟩ := by
  unfold checkName at h
  split at h
  · cases h
  · next hcomma =>
    split at h
    · cases h
    · next hbrackets =>
      split at h
      · cases h
      · next hbar =>
        refine ⟨hp, hcomma, hbrackets, fun hname hzero => ?_⟩
        simpa [show name = "|" from hname, show priority ≠ 0 from hzero] using hbar

theorem checkName_of_forM {check : Text → Except OperatorError Unit} {names : List Text}
    (h : names.forM check = .ok ()) {name : Text} (hn : name ∈ names) : check name = .ok () := by
  induction names with
  | nil => cases hn
  | cons first names ih =>
    change (check first >>= fun _ => names.forM check) = .ok () at h
    cases hfirst : check first with
    | error e => simp [hfirst, bind, Except.bind] at h
    | ok u =>
      rw [hfirst] at h
      rcases List.mem_cons.1 hn with rfl | hn
      · exact hfirst
      · exact ih h hn

/-- What a definition that succeeds has checked, and what it makes of the table. -/
theorem define_cases {priority : Int} {specifier : Text} {names : List Text}
    (h : t.define priority specifier names = .ok t') :
    ∃ s, t' = names.foldl (fun t name => t.set ⟨name, priority.toNat, s⟩) t ∧
      ∀ name ∈ names, Operator.Definable ⟨name, priority.toNat, s⟩ := by
  unfold define at h
  split at h
  · cases h
  · next hrange =>
    split at h
    · cases h
    · next s _ =>
      split at h
      · cases h
      · split at h
        · cases h
        · next hcheck =>
          have hp : priority.toNat ≤ Operator.maxPriority := by omega
          cases h
          exact ⟨s, rfl, fun name hn => definable_of_checkName hp (checkName_of_forM hcheck hn)⟩

theorem Proper.define {priority : Int} {specifier : Text} {names : List Text} (ht : t.Proper)
    (h : t.define priority specifier names = .ok t') : t'.Proper := by
  obtain ⟨s, rfl, hnames⟩ := define_cases h
  clear h
  induction names generalizing t with
  | nil => exact ht
  | cons name names ih =>
    exact ih (ht.set (hnames name List.mem_cons_self))
      fun name hn => hnames name (List.mem_cons_of_mem _ hn)

theorem ancestors_define {priority : Int} {specifier : Text} {names : List Text}
    (h : t.define priority specifier names = .ok t') : t'.ancestors = t.ancestors := by
  obtain ⟨s, rfl, -⟩ := define_cases h
  clear h
  induction names generalizing t with
  | nil => rfl
  | cons name names ih => exact ih.trans (ancestors_set t _)

end Table

/-! ## Configurations -/

namespace Config

variable {t t' : Table}

theorem proper_define {i : Nat} {ds : List OperatorDefinition} (ht : t.Proper)
    (h : define t i ds = .ok t') : t'.Proper := by
  induction ds generalizing t i with
  | nil =>
    cases h
    exact ht
  | cons d ds ih =>
    simp only [define] at h
    split at h
    · next hd => exact ih (ht.define hd) h
    · cases h

theorem proper_of_table {c : Config} (ht : t.Proper) (h : c.table t = .ok t') : t'.Proper := by
  unfold table at h
  split at h
  · next u hu =>
    cases h
    have hproper := proper_define ht.derive hu
    exact ⟨hproper.layers, hproper.comma, hproper.commaPrefix, hproper.brackets, hproper.bar,
      hproper.barPrefix⟩
  · cases h

end Config

end PrologText
