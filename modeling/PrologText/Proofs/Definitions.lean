import PrologText.Proofs.Tables

/-!
# What a definition does to a table

Defining operators either fails and changes nothing, or gives every name its definition. Names are
checked against the table before any of them is defined, so a table that is updated in place, name
by name (`Table.defining`), is left as it was by a definition that fails. Main statement: when a
definition fails, and what every look-up finds after one that succeeds (`Table.define_effect`).
-/

namespace PrologText

theorem Specifier.ofText?_eq_some_iff {t : Text} {s : Specifier} :
    ofText? t = some s ↔ Text.ofString s.name = t := by
  refine ⟨fun h => by simpa using List.find?_some h, ?_⟩
  rintro rfl
  cases s <;> decide

namespace Table

/-! ## Definitions that are refused -/

/-- Whether a name is a postfix operator where `s` is a specifier of infix operators, or the other
way round. -/
def Contradicts (t : Table) (s : Specifier) (name : Text) : Prop :=
  ∃ op, t.infixOperator? name = some op ∧ op.specifier.fixity ≠ s.fixity

/-- Whether a name cannot be defined as an operator of a priority and specifier. -/
def RefusesName (t : Table) (priority : Nat) (s : Specifier) (name : Text) : Prop :=
  name = "," ∨ name = "[]" ∨ name = "\x7b\x7d" ∨
    (name = "|" ∧ priority ≠ 0 ∧ ¬(s.fixity = .infixOp ∧ 1001 ≤ priority)) ∨
    (priority ≠ 0 ∧ s.fixity ≠ .prefixOp ∧ t.Contradicts s name)

/-- Whether names cannot be defined as operators of a priority and specifier. -/
def Refuses (t : Table) (priority : Int) (specifier : Text) (names : List Text) : Prop :=
  priority < 0 ∨ 1200 < priority ∨ (∀ s : Specifier, Text.ofString s.name ≠ specifier) ∨
    t.readOnly = true ∨
    ∃ s : Specifier, Text.ofString s.name = specifier ∧
      ∃ name ∈ names, t.RefusesName priority.toNat s name

variable {t : Table} {priority : Nat} {s : Specifier} {name : Text} {names : List Text}

theorem hasOtherFixity_iff : t.hasOtherFixity s.fixity name = true ↔ t.Contradicts s name := by
  unfold hasOtherFixity Contradicts
  cases t.infixOperator? name <;> simp

instance : Decidable (t.Contradicts s name) :=
  decidable_of_iff _ hasOtherFixity_iff

theorem checkName_eq_ok_iff :
    t.checkName priority s name = .ok () ↔ ¬t.RefusesName priority s name := by
  unfold checkName RefusesName
  split
  · next h => simp [h]
  · next hcomma =>
    split
    · next h => rcases h with h | h <;> simp [h]
    · next hbrackets =>
      rw [not_or] at hbrackets
      split
      · next h =>
        obtain ⟨hname, hzero, hbar⟩ := h
        have hinfix : ¬(s.fixity = .infixOp ∧ 1001 ≤ priority) := fun hi =>
          hbar.elim (· hi.1) (Nat.not_lt.2 hi.2)
        simp [hname, hzero, hinfix]
      · next hbar =>
        have hbar : ¬(name = "|" ∧ priority ≠ 0 ∧ ¬(s.fixity = .infixOp ∧ 1001 ≤ priority)) := by
          rintro ⟨hname, hzero, hinfix⟩
          refine hbar ⟨hname, hzero, ?_⟩
          by_cases hi : s.fixity = .infixOp
          · exact .inr (Nat.lt_of_not_le fun hp => hinfix ⟨hi, hp⟩)
          · exact .inl hi
        split
        · next h =>
          rw [hasOtherFixity_iff] at h
          simp [h]
        · next h =>
          rw [hasOtherFixity_iff] at h
          simp only [hcomma, hbrackets, hbar, h, or_self, not_false_eq_true]

theorem forM_checkName_eq_ok_iff :
    names.forM (t.checkName priority s) = .ok () ↔
      ∀ name ∈ names, ¬t.RefusesName priority s name := by
  refine ⟨fun h name hn => checkName_eq_ok_iff.1 (checkName_of_forM h hn), fun h => ?_⟩
  induction names with
  | nil => rfl
  | cons first names ih =>
    have hfirst : t.checkName priority s first = .ok () :=
      checkName_eq_ok_iff.2 (h first List.mem_cons_self)
    change (t.checkName priority s first >>= fun _ => names.forM (t.checkName priority s)) = .ok ()
    rw [hfirst]
    exact ih fun name hn => h name (List.mem_cons_of_mem _ hn)

/-- A definition that is not refused gives each name its definition, one after the other. -/
def setAll (t : Table) (priority : Nat) (s : Specifier) (names : List Text) : Table :=
  names.foldl (fun t name => t.set ⟨name, priority, s⟩) t

/-- A definition is refused and fails, or it is not and every name is defined. -/
theorem define_outcome (t : Table) (priority : Int) (specifier : Text) (names : List Text) :
    (t.Refuses priority specifier names ∧ ∃ e, t.define priority specifier names = .error e) ∨
      (¬t.Refuses priority specifier names ∧ ∃ s : Specifier, Text.ofString s.name = specifier ∧
        t.define priority specifier names = .ok (t.setAll priority.toNat s names)) := by
  unfold define
  split
  · next hrange =>
    refine .inl ⟨?_, _, rfl⟩
    exact hrange.elim .inl fun h => .inr (.inl h)
  · next hrange =>
    obtain ⟨hlow, hhigh⟩ := not_or.1 hrange
    split
    · next hnone =>
      have hunknown (s : Specifier) : Text.ofString s.name ≠ specifier := fun hs => by
        rw [Specifier.ofText?_eq_some_iff.2 hs] at hnone
        cases hnone
      exact .inl ⟨.inr (.inr (.inl hunknown)), _, rfl⟩
    · next s hs =>
      have hname : Text.ofString s.name = specifier := Specifier.ofText?_eq_some_iff.1 hs
      split
      · next hw => exact .inl ⟨.inr (.inr (.inr (.inl hw))), _, rfl⟩
      · next hw =>
        cases hcheck : names.forM (t.checkName priority.toNat s) with
        | error e =>
          refine .inl ⟨.inr (.inr (.inr (.inr ⟨s, hname, ?_⟩))), e, rfl⟩
          refine Classical.byContradiction fun hrefused => ?_
          have hok := forM_checkName_eq_ok_iff.2 fun name hn hr => hrefused ⟨name, hn, hr⟩
          rw [hok] at hcheck
          cases hcheck
        | ok u =>
          refine .inr ⟨?_, s, hname, rfl⟩
          rintro (h | h | h | h | ⟨s', hname', name, hn, hr⟩)
          · exact hlow h
          · exact hhigh h
          · exact h s hname
          · exact hw h
          · have hsame := hs.symm.trans (Specifier.ofText?_eq_some_iff.2 hname')
            cases hsame
            exact forM_checkName_eq_ok_iff.1 hcheck name hn hr

/-! ## What is found after a definition -/

/-- Whether a name keeps its definition because it is an operator of another fixity than the one
that is deleted. -/
def Spares (t : Table) (priority : Nat) (s : Specifier) (name : Text) : Prop :=
  priority = 0 ∧ t.Contradicts s name

instance : Decidable (t.Spares priority s name) :=
  inferInstanceAs (Decidable (_ ∧ _))

theorem takes_iff :
    t.Takes ⟨name, priority, s⟩ ↔ s.fixity ≠ .prefixOp ∧ ¬t.Spares priority s name := by
  unfold Takes Spares
  rw [hasOtherFixity_iff]

/-- What was defined before does not decide whether a further name is spared, be it the same one:
where the definition is a deletion, the name is no operator any more, and else nothing is spared. -/
theorem spares_set (first : Text) :
    (t.set ⟨first, priority, s⟩).Spares priority s name ↔ t.Spares priority s name := by
  by_cases hname : first = name
  · subst hname
    by_cases ht : t.Takes ⟨first, priority, s⟩
    · refine iff_of_false (fun h => ?_) (takes_iff.1 ht).2
      obtain ⟨rfl, op, hop, -⟩ := h
      obtain ⟨rfl, hzero⟩ : _ ∧ op.priority ≠ 0 := by
        simpa [infixOperator?, infixEntry?_set, ht] using hop
      exact hzero rfl
    · have hlookup :
          (t.set ⟨first, priority, s⟩).infixOperator? first = t.infixOperator? first := by
        simp [infixOperator?, infixEntry?_set, ht]
      unfold Spares Contradicts
      rw [hlookup]
  · unfold Spares Contradicts
    rw [infixOperator?_set_of_ne hname]

theorem setAll_cons (t : Table) (first : Text) (names : List Text) :
    t.setAll priority s (first :: names) = (t.set ⟨first, priority, s⟩).setAll priority s names :=
  rfl

theorem prefixEntry?_setAll (t : Table) (names : List Text) :
    prefixEntry? (t.setAll priority s names) name =
      if s.fixity = .prefixOp ∧ name ∈ names then some ⟨name, priority, s⟩
      else t.prefixEntry? name := by
  induction names generalizing t with
  | nil => simp [setAll]
  | cons first names ih =>
    rw [setAll_cons, ih, prefixEntry?_set]
    by_cases hname : first = name
    · subst hname
      by_cases hs : s.fixity = .prefixOp <;> simp [hs]
    · simp [hname, Ne.symm hname]

theorem infixEntry?_setAll (t : Table) (names : List Text) :
    infixEntry? (t.setAll priority s names) name =
      if s.fixity ≠ .prefixOp ∧ name ∈ names ∧ ¬t.Spares priority s name then
        some ⟨name, priority, s⟩
      else t.infixEntry? name := by
  induction names generalizing t with
  | nil => simp [setAll]
  | cons first names ih =>
    rw [setAll_cons, ih, infixEntry?_set]
    simp only [spares_set, takes_iff]
    by_cases hname : first = name
    · subst hname
      by_cases hs : s.fixity ≠ .prefixOp ∧ ¬t.Spares priority s first
      · simp [hs]
      · simp [hs, and_left_comm]
    · simp [hname, Ne.symm hname]

theorem readOnly_set (t : Table) (op : Operator) : (t.set op).readOnly = t.readOnly := by
  unfold set
  split
  · rfl
  · split <;> rfl

theorem readOnly_setAll (t : Table) (names : List Text) :
    (t.setAll priority s names).readOnly = t.readOnly := by
  induction names generalizing t with
  | nil => rfl
  | cons first names ih => rw [setAll_cons, ih, readOnly_set]

/-- What the definition of some names makes of a table. In the slot of the specifier each of the
names has the new definition, which counts as an operator unless it is a deletion; a deletion leaves
operators of another fixity alone. Nothing else is found to be other than before. -/
structure Defines (t : Table) (priority : Nat) (s : Specifier) (names : List Text) (t' : Table) :
    Prop where
  prefixEntry : ∀ name, t'.prefixEntry? name =
    if s.fixity = .prefixOp ∧ name ∈ names then some ⟨name, priority, s⟩ else t.prefixEntry? name
  prefixOperator : ∀ name, t'.prefixOperator? name =
    if s.fixity = .prefixOp ∧ name ∈ names then
      if priority = 0 then none else some ⟨name, priority, s⟩
    else t.prefixOperator? name
  infixEntry : ∀ name, t'.infixEntry? name =
    if s.fixity ≠ .prefixOp ∧ name ∈ names ∧ ¬t.Spares priority s name then
      some ⟨name, priority, s⟩
    else t.infixEntry? name
  infixOperator : ∀ name, t'.infixOperator? name =
    if s.fixity ≠ .prefixOp ∧ name ∈ names ∧ ¬t.Spares priority s name then
      if priority = 0 then none else some ⟨name, priority, s⟩
    else t.infixOperator? name
  ancestors : t'.ancestors = t.ancestors
  readOnly : t'.readOnly = t.readOnly

theorem defines_setAll (t : Table) (names : List Text) :
    t.Defines priority s names (t.setAll priority s names) where
  prefixEntry _ := prefixEntry?_setAll t names
  prefixOperator name := by
    rw [prefixOperator?, prefixEntry?_setAll]
    split
    · by_cases hzero : priority = 0 <;> simp [hzero]
    · rfl
  infixEntry _ := infixEntry?_setAll t names
  infixOperator name := by
    rw [infixOperator?, infixEntry?_setAll]
    split
    · by_cases hzero : priority = 0 <;> simp [hzero]
    · rfl
  ancestors := by
    induction names generalizing t with
    | nil => rfl
    | cons first names ih => rw [setAll_cons, ih, ancestors_set]
  readOnly := readOnly_setAll t names

/-! ## Updates in place -/

/-- Checks a name against the table that is at hand. -/
def checking (priority : Nat) (s : Specifier) (name : Text) :
    ExceptT OperatorError (StateM Table) Unit :=
  ExceptT.mk fun t => (t.checkName priority s name, t)

/-- Defines operators in a table that is at hand: what was changed before a failure stays
changed. -/
def defining (priority : Int) (specifier : Text) (names : List Text) :
    ExceptT OperatorError (StateM Table) Unit :=
  if priority < 0 ∨ Operator.maxPriority < priority then throw (.priorityOutOfRange priority)
  else
    match Specifier.ofText? specifier with
    | none => throw (.unknownSpecifier specifier)
    | some s => do
      if (← get).readOnly then throw .readOnlyTable
      else
        names.forM (checking priority.toNat s)
        names.forM fun name => modify (·.set ⟨name, priority.toNat, s⟩)

theorem run_checking (t : Table) (names : List Text) :
    (names.forM (checking priority s)).run.run t = (names.forM (t.checkName priority s), t) := by
  induction names with
  | nil => rfl
  | cons first names ih =>
    change (checking priority s first >>= fun _ => names.forM (checking priority s)).run.run t =
      ((t.checkName priority s first >>= fun _ => names.forM (t.checkName priority s)), t)
    rw [ExceptT.run_bind, StateT.run_bind,
      show (checking priority s first).run.run t = (t.checkName priority s first, t) from rfl]
    cases t.checkName priority s first with
    | error e => rfl
    | ok u => exact ih

theorem run_set (t : Table) (names : List Text) :
    (names.forM fun name => modify (·.set ⟨name, priority, s⟩) :
      ExceptT OperatorError (StateM Table) Unit).run.run t =
        (.ok (), t.setAll priority s names) := by
  induction names generalizing t with
  | nil => rfl
  | cons first names ih => exact ih _

/-- A table that is updated in place is as it was where the definition fails. -/
theorem run_defining (t : Table) (priority : Int) (specifier : Text) (names : List Text) :
    (defining priority specifier names).run.run t =
      match t.define priority specifier names with
      | .ok t' => (.ok (), t')
      | .error e => (.error e, t) := by
  by_cases hrange : priority < 0 ∨ (Operator.maxPriority : Int) < priority
  · simp only [defining, define, hrange, if_true]
    rfl
  · simp only [defining, define, hrange, if_false]
    cases Specifier.ofText? specifier with
    | none => rfl
    | some s =>
      -- what the program has come to once it has looked at the table
      change (if t.readOnly then throw .readOnlyTable else
        names.forM (checking priority.toNat s) >>= fun _ =>
          names.forM fun name => modify (·.set ⟨name, priority.toNat, s⟩) :
        ExceptT OperatorError (StateM Table) Unit).run.run t = _
      cases t.readOnly with
      | true => rfl
      | false =>
        simp only [Bool.false_eq_true, if_false]
        rw [ExceptT.run_bind, StateT.run_bind, run_checking]
        cases names.forM (t.checkName priority.toNat s) with
        | error e => rfl
        | ok u => exact run_set t names

/-- A definition fails exactly if it is refused, and then nothing has changed; else the names have
their definitions, and all other look-ups and the ancestors are as they were. -/
theorem define_effect (t : Table) (priority : Int) (specifier : Text) (names : List Text) :
    ((∃ e, t.define priority specifier names = .error e) ↔
        t.Refuses priority specifier names) ∧
      (∀ e, t.define priority specifier names = .error e →
        (defining priority specifier names).run.run t = (.error e, t)) ∧
      (∀ t', t.define priority specifier names = .ok t' →
        (defining priority specifier names).run.run t = (.ok (), t') ∧
          ∃ s : Specifier, Text.ofString s.name = specifier ∧
            t.Defines priority.toNat s names t') := by
  have hrun := run_defining t priority specifier names
  rcases define_outcome t priority specifier names with ⟨hrefused, e, he⟩ | ⟨hfine, s, hs, hok⟩
  · rw [he] at hrun ⊢
    refine ⟨iff_of_true ⟨e, rfl⟩ hrefused, ?_, fun _ h => by cases h⟩
    rintro _ ⟨⟩
    exact hrun
  · rw [hok] at hrun ⊢
    refine ⟨iff_of_false (fun ⟨_, h⟩ => by cases h) hfine, fun _ h => (by cases h), ?_⟩
    rintro _ ⟨⟩
    exact ⟨hrun, s, hs, defines_setAll t names⟩

end Table

end PrologText
