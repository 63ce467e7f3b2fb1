import PrologText.Proofs.Course

/-!
# Reading one operand

A reading that starts an expression is `Reading.fresh`; one that has read a single operand and no
operator `Holds` it. An atom that is a prefix operator is held as well: it waits for an argument
until a bracket, a comma or a bar says that there is none. Main statements: what brackets, commas
and bars make of an operand that is held (`Holds.step_closing`, `Holds.step_separate`).
-/

namespace PrologText

/-- Whether a kind of token cannot end an expression. -/
def TokenKind.goesOn : TokenKind → Bool
  | .stop | .endOfFile | .closing _ => false
  | _ => true

/-- The kinds of tokens that stand for numbers. -/
theorem Token.kind_of_number? {t : Token} {n : Except NumberError Term} (h : t.number? = some n) :
    (∃ base, t.kind = .integer base) ∨ t.kind = .float ∨ t.kind = .charCode := by
  unfold number? at h
  split at h <;> simp_all

theorem Token.goesOn_of_number? {t : Token} {n : Except NumberError Term}
    (h : t.number? = some n) : t.kind.goesOn := by
  rcases kind_of_number? h with ⟨base, hk⟩ | hk | hk <;> simp [hk, TokenKind.goesOn]

namespace Enclosure

/-- What an enclosure becomes when a token separates the term in it from the next one. -/
def separated : Enclosure → TokenKind → Option (Term → Enclosure)
  | .arguments f done, .comma => some fun x => .arguments f (x :: done)
  | .list done false, .comma => some fun x => .list (x :: done) false
  | .list done false, .bar => some fun x => .list (x :: done) true
  | _, _ => none

theorem kind_of_separated {e : Enclosure} {kind : TokenKind} {next : Term → Enclosure}
    (h : e.separated kind = some next) : kind = .comma ∨ kind = .bar := by
  unfold separated at h
  split at h <;> simp_all

end Enclosure

namespace Reading

variable {d : Dialect} {r r' r'' : Reading} {t : Token} {c c' c'' after : Cursor}
variable {o : List (Enclosure × List Pending)} {b : Bindings} {x : Term}

/-! ## From one point to another -/

/-- A reading becomes another while the tokens between two cursors are taken. -/
def Goes (d : Dialect) (r : Reading) (c : Cursor) (r' : Reading) (c' : Cursor) : Prop :=
  ∃ ts, Scans d.flags c ts c' ∧ r.feed d ts = .more r'

theorem Goes.step (hs : scan d.flags c = .token t after) (h : r.step d t = .more r') :
    Goes d r c r' after :=
  ⟨[t], .cons hs .nil, feed_more h⟩

theorem Goes.trans (h : Goes d r c r' c') (h' : Goes d r' c' r'' c'') : Goes d r c r'' c'' := by
  obtain ⟨ts, hts, hfeed⟩ := h
  obtain ⟨us, hus, hfeed'⟩ := h'
  refine ⟨ts ++ us, hts.append hus, ?_⟩
  rw [feed_append, hfeed]
  exact hfeed'

/-! ## Readings at the start of an expression -/

/-- A reading at the start of an expression. -/
def fresh (o : List (Enclosure × List Pending)) (b : Bindings) : Reading :=
  ⟨o, [], .operand, b⟩

/-- A reading behind an operand without operators. -/
def holding (o : List (Enclosure × List Pending)) (b : Bindings) (x : Term) : Reading :=
  ⟨o, [], .operator ⟨x, 0⟩, b⟩

theorem endsWith_of_goesOn (h : t.kind.goesOn) : r.endsWith d.flags t = false := by
  have hstop : t.kind ≠ .stop := fun hk => by simp [hk, TokenKind.goesOn] at h
  have heof : t.kind ≠ .endOfFile := fun hk => by simp [hk, TokenKind.goesOn] at h
  have hclose : ∀ br, t.kind ≠ .closing br := fun br hk => by simp [hk, TokenKind.goesOn] at h
  unfold endsWith terminal
  split <;> simp [hstop, heof, hclose]

/-- A reading that takes every token that does not end an expression as another one does. -/
def Opens (d : Dialect) (r start : Reading) : Prop :=
  ∀ t : Token, t.kind.goesOn → r.step d t = start.step d t

theorem Opens.refl (d : Dialect) (r : Reading) : Opens d r r :=
  fun _ _ => rfl

/-- Inside the bracket of a list. -/
theorem opens_list (d : Dialect) (ps : List Pending) :
    Opens d ⟨o, ps, .listStart, b⟩ (fresh ((.list [] false, ps) :: o) b) := by
  intro t hk
  have hclose : t.kind ≠ .closing .square := fun h => by simp [h, TokenKind.goesOn] at hk
  simp [step, settle, hclose, enter, fresh]

/-- Inside braces. -/
theorem opens_braces (d : Dialect) (ps : List Pending) :
    Opens d ⟨o, ps, .bracesStart, b⟩ (fresh ((.braces, ps) :: o) b) := by
  intro t hk
  have hclose : t.kind ≠ .closing .curly := fun h => by simp [h, TokenKind.goesOn] at hk
  simp [step, settle, hclose, enter, fresh]

theorem step_of_operand (hr : r.expects = .operand) (h : t.kind.goesOn) :
    r.step d t = r.takeOperand d t := by
  simp only [step, settle, hr, take, endsWith_of_goesOn h, Bool.false_eq_true, if_false]

theorem step_fresh (h : t.kind.goesOn) : (fresh o b).step d t = (fresh o b).takeOperand d t :=
  step_of_operand rfl h

/-! ## Operands of one token or two -/

theorem step_number (hn : t.number? = some (.ok x)) :
    (fresh o b).step d t = .more (holding o b x) := by
  rw [step_fresh (Token.goesOn_of_number? hn)]
  rcases Token.kind_of_number? hn with ⟨base, hk⟩ | hk | hk
  all_goals
    simp only [takeOperand, hk, hn]
    rfl

theorem step_variable (hk : t.kind = .variable) :
    (fresh o b).step d t = .more (holding o (b.named t.text).2 (.var (b.named t.text).1)) := by
  rw [step_fresh (by simp [hk, TokenKind.goesOn])]
  simp only [takeOperand, hk]
  rfl

theorem step_doubleQuoted (hk : t.kind = .doubleQuoted) :
    (fresh o b).step d t = .more (holding o b (d.flags.doubleQuotes.term t.text)) := by
  rw [step_fresh (by simp [hk, TokenKind.goesOn])]
  simp only [takeOperand, hk]
  rfl

theorem step_openingSquare (hk : t.kind = .opening .square) :
    (fresh o b).step d t = .more ⟨o, [], .listStart, b⟩ := by
  rw [step_fresh (by simp [hk, TokenKind.goesOn])]
  simp only [takeOperand, hk]
  rfl

theorem step_openingCurly (hk : t.kind = .opening .curly) :
    (fresh o b).step d t = .more ⟨o, [], .bracesStart, b⟩ := by
  rw [step_fresh (by simp [hk, TokenKind.goesOn])]
  simp only [takeOperand, hk]
  rfl

theorem step_emptyList (hk : t.kind = .closing .square) :
    (⟨o, [], .listStart, b⟩ : Reading).step d t = .more (holding o b .nil) := by
  simp [step, settle, hk, withOperand, holding]

theorem step_emptyBraces (hk : t.kind = .closing .curly) :
    (⟨o, [], .bracesStart, b⟩ : Reading).step d t = .more (holding o b (.atom .braces)) := by
  simp [step, settle, hk, withOperand, holding]

/-- A name with a parenthesis directly behind it. -/
theorem step_functor (hk : t.kind = .atom ∨ t.kind = .quotedAtom) (hf : t.functional) :
    (fresh o b).step d t = .more ⟨o, [], .arguments t.toAtom, b⟩ := by
  rcases hk with hk | hk
  all_goals
    rw [step_fresh (by simp [hk, TokenKind.goesOn])]
    simp only [takeOperand, hk, takeName, hf]
    rfl

theorem step_arguments {f : Atom} (hk : t.kind = .opening .round) :
    (⟨o, [], .arguments f, b⟩ : Reading).step d t =
      .more (fresh ((.arguments f [], []) :: o) b) := by
  simp [step, settle, hk, enter, fresh]

/-- A minus that is a prefix operator. -/
theorem step_minus {op : Operator} (hk : t.kind = .atom) (hf : t.functional = false)
    (ht : t.text = "-") (hop : d.table.prefixOperator? t.text = some op) :
    (fresh o b).step d t = .more ⟨o, [], .signed op t, b⟩ := by
  rw [step_fresh (by simp [hk, TokenKind.goesOn])]
  simp only [takeOperand, hk, takeName, hf, if_true, hop, if_pos (Or.inl ht)]
  rfl

theorem step_signed {op : Operator} {sign : Token} {n : Term} (hs : sign.text = "-")
    (hl : t.layoutBefore = false) (hn : t.number? = some (.ok n)) :
    (⟨o, [], .signed op sign, b⟩ : Reading).step d t =
      .more (holding o b (n.negate?.getD n)) := by
  simp [step, settle, hl, hn, hs, withOperand, holding]

/-! ## Operands that are held -/

/-- A reading whose expression is the operand `x` so far, written as in canonical text. -/
inductive Holds (d : Dialect) (o : List (Enclosure × List Pending)) (b : Bindings) :
    Term → Reading → Prop where
  | operand (x : Term) : Holds d o b x (holding o b x)
  /-- A prefix operator that waits for an argument is an atom if none comes. -/
  | waiting {op : Operator} {t : Token} (h : t.IsPrefix d op) (hb : Atom.isBare t.text) :
    Holds d o b (.atom t.toAtom) ⟨o, [.prefixOp op t], .operand, b⟩
  | sign {op : Operator} {t : Token} (h : t.IsPrefix d op) (hb : Atom.isBare t.text) :
    Holds d o b (.atom t.toAtom) ⟨o, [], .signed op t, b⟩

theorem step_name (hk : t.kind = .atom ∧ Atom.isBare t.text ∨ t.kind = .quotedAtom)
    (hf : t.functional = false) :
    ∃ r, (fresh o b).step d t = .more r ∧ Holds d o b (.atom t.toAtom) r := by
  have hstep : (fresh o b).step d t = .ofExcept ((fresh o b).takeName d t) := by
    rcases hk with ⟨hk, -⟩ | hk
    all_goals
      rw [step_fresh (by simp [hk, TokenKind.goesOn])]
      simp only [takeOperand, hk]
  rw [hstep, takeName, hf]
  simp only [Bool.false_eq_true, if_false]
  split
  · next op hop =>
    obtain ⟨hop, hb⟩ : t.IsPrefix d op ∧ Atom.isBare t.text := by
      split at hop
      · next hatom =>
        refine ⟨⟨hatom, hf, hop⟩, ?_⟩
        rcases hk with ⟨-, hb⟩ | hk
        · exact hb
        · simp [hk] at hatom
      · cases hop
    split
    · exact ⟨_, rfl, .sign hop hb⟩
    · exact ⟨_, rfl, .waiting hop hb⟩
  · exact ⟨_, rfl, .operand _⟩

/-- The next token after a sign that is no number makes it wait for an argument. -/
theorem step_sign {op : Operator} {sign : Token} (hn : t.number? = none) :
    (⟨o, [], .signed op sign, b⟩ : Reading).step d t =
      (⟨o, [.prefixOp op sign], .operand, b⟩ : Reading).step d t := by
  simp [step, settle, hn, takePrefix]

theorem Holds.step_closing {e : Enclosure} {ps : List Pending} (h : Holds d ((e, ps) :: o) b x r)
    (hk : t.kind = .closing e.bracket) :
    r.step d t = .more ⟨o, ps, .operator ⟨e.close x, 0⟩, b⟩ := by
  cases h with
  | operand =>
    simp [step, settle, take, endsWith, terminal, enclosure?, hk, expression, lastOperand,
      Pending.applyAll, close, holding]
  | waiting =>
    simp [step, settle, take, endsWith, terminal, enclosure?, hk, expression, lastOperand, atTop,
      Pending.applyAll, close]
  | sign =>
    rw [step_sign (by simp [Token.number?, hk])]
    simp [step, settle, take, endsWith, terminal, enclosure?, hk, expression, lastOperand, atTop,
      Pending.applyAll, close]

theorem takeOperator_separated {e : Enclosure} {ps : List Pending} {next : Term → Enclosure}
    (h : e.separated t.kind = some next) (expects : Expectation) :
    (⟨(e, ps) :: o, [], expects, b⟩ : Reading).takeOperator d ⟨x, 0⟩ t =
      .more (fresh ((next x, ps) :: o) b) := by
  unfold Enclosure.separated at h
  split at h
  case h_4 => cases h
  all_goals
    next hk =>
      cases h
      simp [takeOperator, hk, enclosure?, separate, Pending.applyAll, Step.ofExcept, fresh]

theorem Holds.step_separate {e : Enclosure} {ps : List Pending} {next : Term → Enclosure}
    (h : Holds d ((e, ps) :: o) b x r) (hs : e.separated t.kind = some next) :
    r.step d t = .more (fresh ((next x, ps) :: o) b) := by
  have hk := Enclosure.kind_of_separated hs
  have hends : ∀ r' : Reading, r'.endsWith d.flags t = false := fun r' =>
    endsWith_of_goesOn (by rcases hk with hk | hk <;> simp [hk, TokenKind.goesOn])
  -- A comma or bar shows that the prefix operator before it has no argument.
  have hwait : ∀ op (name : Token),
      (⟨(e, ps) :: o, [.prefixOp op name], .operand, b⟩ : Reading).step d t =
        .more (fresh ((next (.atom name.toAtom), ps) :: o) b) := by
    intro op name
    rw [← takeOperator_separated (d := d) hs .operand]
    rcases hk with hk | hk <;> simp [step, settle, take, hends, takeOperand, hk]
  cases h with
  | operand =>
    rw [← takeOperator_separated (d := d) hs (.operator ⟨x, 0⟩)]
    simp [step, settle, take, hends, holding]
  | waiting => exact hwait _ _
  | sign =>
    rw [step_sign (by rcases hk with hk | hk <;> simp [Token.number?, hk])]
    exact hwait _ _

/-- A full stop after an operand completes the sentence. -/
theorem step_stop (hk : t.kind = .stop) : (holding [] b x).step d t = .done x b := by
  simp [step, settle, take, endsWith, terminal, enclosure?, hk, expression, lastOperand,
    Pending.applyAll, close, holding]

end Reading

end PrologText
