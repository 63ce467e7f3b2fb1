import PrologText.Proofs.Course
import PrologText.Proofs.Phrases

/-!
# What a reading has read

`Reading.Covers` ties the state between two tokens to the tokens before it: every token stands in
the state once and in order, be it as an operator that waits, as part of an operand with a
derivation, or as an open bracket. `Reading.step_sound` says that a step keeps this, and that the
term of a complete sentence has a derivation from its tokens.

Derivations are those of `DerivesWith`, where some tokens are no operators. A reading never takes a
quoted comma or bar for an operator but at one point (`Reading.misreads`).
-/

namespace PrologText

variable {able : Token → Prop} {d : Dialect} {s : Scope} {b : Bindings}

theorem Token.IsPrefix.see {t : Token} {op : Operator} (h : t.IsPrefix d op) (b : Bindings) :
    b.see t = b := by
  simp [Bindings.see, h.1]

theorem Token.IsFunctor.see {t : Token} (h : t.IsFunctor) (b : Bindings) : b.see t = b := by
  rcases h.1 with hk | hk <;> simp [Bindings.see, hk]

theorem Token.IsInfix.see {t : Token} {op : Operator} (h : t.IsInfix d s op) (b : Bindings) :
    b.see t = b := by
  have hk := h.1
  unfold Bindings.see
  split <;> simp_all [Scope.admits]

/-! ## Operators that wait -/

namespace Pending

/-- The tokens of operators that wait, last first, and of the left operands they have. -/
inductive Covers (able : Token → Prop) (d : Dialect) (s : Scope) (b : Bindings) :
    List Pending → List Token → Prop where
  | nil : Covers able d s b [] []
  | prefixOp {ps ts op t} (h : Covers able d s b ps ts) (ht : t.IsPrefix d op) :
      Covers able d s b (.prefixOp op t :: ps) (ts ++ [t])
  | infixOp {ps ts left us op t} (h : Covers able d s b ps ts)
      (hl : DerivesWith able d s (b.after ts) us left.term left.priority) (ht : t.IsInfix d s op)
      (ha : able t) (hf : op.specifier.fixity ≠ .postfixOp) :
      Covers able d s b (.infixOp left op t :: ps) (ts ++ (us ++ [t]))

/-- An operator takes the operand behind it: the two and its left operand become one operand. -/
theorem Covers.apply {p : Pending} {ps : List Pending} {x y : Operand} {ts us : List Token}
    (hp : Covers able d s b (p :: ps) ts)
    (hx : DerivesWith able d s (b.after ts) us x.term x.priority) (h : p.apply x = .ok y) :
    ∃ front back, ts ++ us = front ++ back ∧ Covers able d s b ps front ∧
      DerivesWith able d s (b.after front) back y.term y.priority := by
  -- The tokens of the new operand start with the left operand, or with a prefix operator itself.
  cases hp with
  | @prefixOp _ front op t hps ht =>
    simp only [Pending.apply] at h
    split at h
    · cases h
    · next hle =>
      cases h
      simp only [Bindings.after_append, Bindings.after_cons, Bindings.after_nil, ht.see] at hx
      exact ⟨front, t :: us, by simp, hps, .prefixOp ht hx (Int.not_lt.1 hle)⟩
  | @infixOp _ front left ls op t hps hl ht ha hf =>
    simp only [Pending.apply] at h
    split at h
    · cases h
    · next hle =>
      cases h
      obtain ⟨hleft, hright⟩ := not_or.1 hle
      simp only [Bindings.after_append, Bindings.after_cons, Bindings.after_nil, ht.see] at hx
      exact ⟨front, ls ++ t :: us, by simp, hps,
        .infixOp hl ht ha hf hx (Int.not_lt.1 hleft) (Int.not_lt.1 hright)⟩

theorem Covers.applyAll {ps : List Pending} {x y : Operand} {ts us : List Token}
    (hp : Covers able d s b ps ts) (hx : DerivesWith able d s (b.after ts) us x.term x.priority)
    (h : Pending.applyAll ps x = .ok y) : DerivesWith able d s b (ts ++ us) y.term y.priority := by
  induction ps generalizing x ts us with
  | nil =>
    cases hp
    cases h
    exact hx
  | cons p ps ih =>
    simp only [Pending.applyAll] at h
    split at h
    · cases h
    · next z hz =>
      obtain ⟨front, back, heq, hps, hback⟩ := hp.apply hx hz
      rw [heq]
      exact ih hps hback h

theorem Covers.applyTighter {op : Operator} {t : Token} {ps qs : List Pending} {x y : Operand}
    {ts us : List Token}
    (hp : Covers able d s b ps ts) (hx : DerivesWith able d s (b.after ts) us x.term x.priority)
    (h : Pending.applyTighter op t ps x = .ok (qs, y)) :
    ∃ front back, ts ++ us = front ++ back ∧ Covers able d s b qs front ∧
      DerivesWith able d s (b.after front) back y.term y.priority := by
  induction ps generalizing x ts us with
  | nil =>
    cases h
    exact ⟨ts, us, rfl, hp, hx⟩
  | cons p ps ih =>
    simp only [Pending.applyTighter] at h
    split at h
    · split at h
      · cases h
      · cases h
        exact ⟨ts, us, rfl, hp, hx⟩
    · split at h
      · cases h
      · next z hz =>
        obtain ⟨front, back, heq, hps, hback⟩ := hp.apply hx hz
        rw [heq]
        exact ih hps hback h

end Pending

/-- Whether a token is a quoted comma or bar, by itself, whose name is an infix or postfix
operator. -/
def Token.misleads (d : Dialect) (t : Token) : Bool :=
  t.IsQuotedSeparator ∧ t.functional = false ∧ (d.table.infixOperator? t.text).isSome

/-! ## Open enclosures -/

namespace Enclosure

/-- Where the expressions inside an enclosure stand. -/
def scope : Enclosure → Scope
  | group | braces => .whole
  | arguments _ _ => .argument
  | list _ _ => .element

/-- The tokens of an open enclosure: its bracket, and the complete expressions inside it with the
comma or bar behind each. -/
inductive Covers (able : Token → Prop) (d : Dialect) (b : Bindings) :
    Enclosure → List Token → Prop where
  | group {t} (ht : t.kind = .opening .round) : Covers able d b .group [t]
  | braces {t} (ht : t.kind = .opening .curly) : Covers able d b .braces [t]
  | noArguments {f t} (hf : f.IsFunctor) (ht : t.kind = .opening .round) :
      Covers able d b (.arguments f.toAtom []) [f, t]
  | arguments {f t ts done comma} (hf : f.IsFunctor) (ht : t.kind = .opening .round)
      (h : ItemsWith able d .argument b ts done.reverse) (hc : comma.kind = .comma) :
      Covers able d b (.arguments f.toAtom done) (f :: t :: ts ++ [comma])
  | noElements {t} (ht : t.kind = .opening .square) : Covers able d b (.list [] false) [t]
  | elements {t ts done comma} (ht : t.kind = .opening .square)
      (h : ItemsWith able d .element b ts done.reverse) (hc : comma.kind = .comma) :
      Covers able d b (.list done false) (t :: ts ++ [comma])
  | tail {t ts done bar} (ht : t.kind = .opening .square)
      (h : ItemsWith able d .element b ts done.reverse) (hb : bar.kind = .bar) :
      Covers able d b (.list done true) (t :: ts ++ [bar])

/-- The complete arguments and one more are arguments with commas between them. -/
theorem Covers.argument {f : Atom} {done : List Term} {ts us : List Token} {x : Term} {p : Nat}
    (he : Covers able d b (.arguments f done) ts)
    (hx : DerivesWith able d .argument (b.after ts) us x p) :
    ∃ name opening vs, name.IsFunctor ∧ name.toAtom = f ∧ opening.kind = .opening .round ∧
      ts ++ us = name :: opening :: vs ∧ ItemsWith able d .argument b vs (x :: done).reverse := by
  cases he with
  | @noArguments name opening hf ho =>
    simp only [Bindings.after_cons, Bindings.after_nil, hf.see] at hx
    simp only [Bindings.see, ho] at hx
    exact ⟨name, opening, us, hf, rfl, ho, rfl, .one hx⟩
  | @arguments name opening ts _ comma hf ho h hc =>
    simp only [List.cons_append, Bindings.after_cons, Bindings.after_append, Bindings.after_nil,
      hf.see] at hx
    simp only [Bindings.see, ho, hc] at hx
    refine ⟨name, opening, ts ++ comma :: us, hf, rfl, ho, by simp, ?_⟩
    rw [List.reverse_cons]
    exact h.snoc hc hx

/-- The complete elements and one more are elements with commas between them. -/
theorem Covers.element {done : List Term} {ts us : List Token} {x : Term} {p : Nat}
    (he : Covers able d b (.list done false) ts)
    (hx : DerivesWith able d .element (b.after ts) us x p) :
    ∃ opening vs, opening.kind = .opening .square ∧ ts ++ us = opening :: vs ∧
      ItemsWith able d .element b vs (x :: done).reverse := by
  cases he with
  | @noElements opening ho =>
    simp only [Bindings.after_cons, Bindings.after_nil, Bindings.see, ho] at hx
    exact ⟨opening, us, ho, rfl, .one hx⟩
  | @elements opening ts _ comma ho h hc =>
    simp only [List.cons_append, Bindings.after_cons, Bindings.after_append,
      Bindings.after_nil] at hx
    simp only [Bindings.see, ho, hc] at hx
    refine ⟨opening, ts ++ comma :: us, ho, by simp, ?_⟩
    rw [List.reverse_cons]
    exact h.snoc hc hx

/-- The closing bracket makes an operand of an enclosure and the expression before the bracket. -/
theorem Covers.close {e : Enclosure} {ts us : List Token} {x : Term} {p : Nat} {t : Token}
    (he : Covers able d b e ts) (hx : DerivesWith able d e.scope (b.after ts) us x p)
    (ht : t.kind = .closing e.bracket) :
    DerivesWith able d s b (ts ++ us ++ [t]) (e.close x) 0 := by
  cases e with
  | group =>
    cases he with
    | group ho =>
      simp only [Bindings.after_cons, Bindings.after_nil, Bindings.see, ho] at hx
      exact .group ho hx ht
  | braces =>
    cases he with
    | braces ho =>
      simp only [Bindings.after_cons, Bindings.after_nil, Bindings.see, ho] at hx
      exact .braces ho hx ht
  | arguments f done =>
    obtain ⟨name, opening, vs, hf, rfl, ho, heq, hvs⟩ := he.argument hx
    rw [heq]
    exact .compound hf ho hvs ht
  | list done afterBar =>
    cases afterBar with
    | false =>
      obtain ⟨opening, vs, ho, heq, hvs⟩ := he.element hx
      rw [heq]
      exact .list ho hvs ht
    | true =>
      cases he with
      | @tail opening vs _ bar ho h hb =>
        simp only [List.cons_append, Bindings.after_cons, Bindings.after_append,
          Bindings.after_nil] at hx
        simp only [Bindings.see, ho, hb] at hx
        have := DerivesWith.partialList (s := s) ho h hb hx ht
        simpa [Enclosure.close] using this

end Enclosure

/-- Where an expression inside some open enclosures, innermost first, stands. -/
def Scope.inside : List (Enclosure × List Pending) → Scope
  | [] => .whole
  | (e, _) :: _ => e.scope

/-- The tokens of open enclosures, innermost first, and of the operators that wait for them. -/
inductive OuterCovers (able : Token → Prop) (d : Dialect) (b : Bindings) :
    List (Enclosure × List Pending) → List Token → Prop where
  | nil : OuterCovers able d b [] []
  | cons {e ps outer ts us vs} (ho : OuterCovers able d b outer ts)
      (hp : Pending.Covers able d (.inside outer) (b.after ts) ps us)
      (he : Enclosure.Covers able d (b.after (ts ++ us)) e vs) :
      OuterCovers able d b ((e, ps) :: outer) (ts ++ us ++ vs)

/-! ## Readings -/

/-- The tokens of what a reading expects something behind. -/
inductive Expectation.Covers (able : Token → Prop) (d : Dialect) (s : Scope) (b : Bindings) :
    Expectation → List Token → Prop where
  | operand : Covers able d s b .operand []
  | operator {left ts} (h : DerivesWith able d s b ts left.term left.priority) :
      Covers able d s b (.operator left) ts
  | arguments {t} (ht : t.IsFunctor) : Covers able d s b (.arguments t.toAtom) [t]
  | listStart {t} (ht : t.kind = .opening .square) : Covers able d s b .listStart [t]
  | bracesStart {t} (ht : t.kind = .opening .curly) : Covers able d s b .bracesStart [t]
  | signed {op : Operator} {t : Token} (ht : t.IsPrefix d op) (hs : t.text = "-" ∨ t.text = "+") :
      Covers able d s b (.signed op t) [t]

namespace Reading

/-- Where the expression that a reading is in stands. -/
def scope (r : Reading) : Scope :=
  .inside r.outer

/-- The tokens that a reading has read: those of the enclosures, then those of the operators that
wait, then those of what comes last. `b` are the variables met before them. -/
inductive Covers (able : Token → Prop) (d : Dialect) (b : Bindings) (r : Reading) :
    List Token → Prop where
  | mk {ts us vs} (ho : OuterCovers able d b r.outer ts)
      (hp : Pending.Covers able d r.scope (b.after ts) r.pending us)
      (he : r.expects.Covers able d r.scope (b.after (ts ++ us)) vs)
      (hn : r.names = b.after (ts ++ us ++ vs)) : Covers able d b r (ts ++ us ++ vs)

variable {r r' : Reading} {tokens : List Token} {t : Token} {op : Operator}

theorem covers_start (d : Dialect) (issued : Nat) :
    (start issued).Covers able d (.startingAfter issued) [] := by
  change Covers _ _ _ _ ([] ++ [] ++ [])
  exact .mk .nil .nil .operand rfl

theorem Covers.names_eq (hr : r.Covers able d b tokens) : r.names = b.after tokens := by
  cases hr with
  | mk ho hp he hn => exact hn

/-- Where an operand is expected, tokens come that something is expected behind. -/
theorem Covers.expect {e : Expectation} {ws : List Token} (hr : r.Covers able d b tokens)
    (hx : r.expects = .operand) (he : e.Covers able d r.scope r.names ws) :
    Covers able d b { r with expects := e, names := r.names.after ws } (tokens ++ ws) := by
  cases hr with
  | @mk ts us vs ho hp he' hn =>
    rw [hx] at he'
    cases he'
    simp only [List.append_nil] at hn ⊢
    rw [hn] at he ⊢
    exact .mk ho hp he (by simp)

/-- A bracket opens, with nothing inside it yet. -/
theorem Covers.enter {e : Enclosure} {ws : List Token} (hr : r.Covers able d b tokens)
    (he : ∀ b' vs, r.expects.Covers able d r.scope b' vs → e.Covers able d b' (vs ++ ws))
    (hn : r.names.after ws = r.names) : (r.enter e).Covers able d b (tokens ++ ws) := by
  cases hr with
  | @mk ts us vs ho hp hx hnames =>
    have hnames' : r.names = b.after (ts ++ us ++ (vs ++ ws)) := by
      rw [← hn, hnames]
      simp
    have := Covers.mk (r := r.enter e) (.cons ho hp (he _ _ hx)) .nil .operand
      (by simpa [Reading.enter] using hnames')
    simpa using this

/-- A bracket is found to be open before a token that is no part of it. -/
theorem Covers.enterBefore {e : Enclosure} (hr : r.Covers able d b tokens)
    (he : ∀ b' vs, r.expects.Covers able d r.scope b' vs → e.Covers able d b' vs) :
    (r.enter e).Covers able d b tokens := by
  have : (r.enter e).Covers able d b (tokens ++ []) :=
    hr.enter (fun b' vs h => by simpa using he b' vs h) rfl
  simpa using this

/-- A prefix operator without an argument is an operand. -/
theorem Covers.prefixToAtom {ps : List Pending} {token : Token} (hr : r.Covers able d b tokens)
    (hx : r.expects = .operand) (hp : r.pending = .prefixOp op token :: ps) :
    Covers able d b { r with pending := ps, expects := .operator ⟨.atom token.toAtom, 0⟩ }
      tokens := by
  cases hr with
  | @mk ts us vs ho hq he hn =>
    rw [hx] at he
    rw [hp] at hq
    cases he
    cases hq with
    | @prefixOp _ us _ _ hps ht =>
      have hleft : DerivesWith able d r.scope (b.after (ts ++ us)) [token] (.atom token.toAtom) 0 :=
        .atom ⟨.inl ht.1, ht.2.1⟩
      have := Covers.mk
        (r := { r with pending := ps, expects := .operator ⟨.atom token.toAtom, 0⟩ })
        ho hps (.operator hleft) (by simpa using hn)
      simpa using this

/-- The operators that wait and the operand behind them become one operand. -/
theorem Covers.applyAll {left whole : Operand} (hr : r.Covers able d b tokens)
    (hx : r.expects = .operator left) (h : Pending.applyAll r.pending left = .ok whole) :
    ∃ ts us, tokens = ts ++ us ∧ OuterCovers able d b r.outer ts ∧
      DerivesWith able d r.scope (b.after ts) us whole.term whole.priority := by
  cases hr with
  | @mk ts us vs ho hp he hn =>
    rw [hx] at he
    cases he with
    | operator hl =>
      rw [Bindings.after_append] at hl
      exact ⟨ts, us ++ vs, by simp, ho, hp.applyAll hl h⟩

theorem takeInfix_covers {left : Operand}
    (hr : Covers able d b { r with expects := .operator left } tokens) (ht : t.IsInfix d r.scope op)
    (ha : able t) (h : r.takeInfix left op t = .ok r') : r'.Covers able d b (tokens ++ [t]) := by
  cases hr with
  | @mk ts us vs ho hp he hn =>
    cases he with
    | operator hl =>
      simp only [takeInfix] at h
      split at h
      · cases h
      · next ps whole happ =>
        rw [Bindings.after_append] at hl
        obtain ⟨front, back, heq, hps, hback⟩ := hp.applyTighter hl happ
        have htokens : ts ++ us ++ vs ++ [t] = ts ++ front ++ (back ++ [t]) := by
          rw [List.append_assoc ts, heq]
          simp
        have hnames : r.names = b.after (ts ++ front ++ (back ++ [t])) := by
          rw [← htokens, Bindings.after_append]
          simpa [ht.see] using hn
        rw [htokens]
        split at h
        · next hfix =>
          split at h
          · cases h
          · next hle =>
            cases h
            refine .mk ho hps (.operator ?_) hnames
            rw [Bindings.after_append]
            exact .postfixOp hback ht ha hfix (Int.not_lt.1 hle)
        · next hfix =>
          cases h
          have := Covers.mk
            (r := { r with pending := .infixOp whole op t :: ps, expects := .operand })
            ho (hps.infixOp hback ht ha hfix) .operand (by simpa using hnames)
          simpa using this

/-- The prefix operator that waits was no operator after all: an infix or postfix operator comes
behind it. -/
theorem takeInfix_covers_of_prefix {before : Operator} {token : Token} {ps : List Pending}
    (hr : r.Covers able d b tokens) (hx : r.expects = .operand)
    (hp : r.pending = .prefixOp before token :: ps) (ht : t.IsInfix d r.scope op) (ha : able t)
    (h : takeInfix { r with pending := ps } ⟨.atom token.toAtom, 0⟩ op t = .ok r') :
    r'.Covers able d b (tokens ++ [t]) :=
  takeInfix_covers (r := { r with pending := ps }) (hr.prefixToAtom hx hp) ht ha h

/-- Whether a prefix operator waits right before the next token. -/
def isBehindPrefix (r : Reading) : Bool :=
  match r.expects, r.pending with
  | .operand, .prefixOp _ _ :: _ => true
  | _, _ => false

theorem isInfix_of_kind (s : Scope) (hk : t.kind = .atom ∨ t.kind = .quotedAtom)
    (hop : d.table.infixOperator? t.text = some op) : t.IsInfix d s op := by
  refine ⟨?_, hop⟩
  rcases hk with hk | hk <;> simp [Scope.admits, hk]

theorem not_isQuotedSeparator (h : t.kind = .atom) : ¬t.IsQuotedSeparator := by
  simp [Token.IsQuotedSeparator, h]

theorem takePrefix_covers (hable : ∀ t : Token, ¬t.IsQuotedSeparator → able t)
    (hr : Covers able d b { r with expects := .operand } tokens) (ht : t.IsPrefix d op)
    (h : r.takePrefix d op t = .ok r') : r'.Covers able d b (tokens ++ [t]) := by
  have waiting : Covers able d b
      { r with pending := .prefixOp op t :: r.pending, expects := .operand } (tokens ++ [t]) := by
    cases hr with
    | @mk ts us vs ho hp he hn =>
      cases he
      have := Covers.mk
        (r := { r with pending := .prefixOp op t :: r.pending, expects := .operand })
        ho (hp.prefixOp ht) .operand (by simpa [ht.see] using hn)
      simpa using this
  simp only [takePrefix] at h
  split at h
  · next before token ps infixOp hp hop =>
    split at h
    · exact takeInfix_covers_of_prefix (r := { r with expects := .operand }) hr rfl hp
        (isInfix_of_kind _ (.inl ht.1) hop) (hable t (not_isQuotedSeparator ht.1)) h
    · cases h
      exact waiting
  · cases h
    exact waiting

theorem takeName_covers (hable : ∀ t : Token, ¬t.IsQuotedSeparator → able t)
    (hr : r.Covers able d b tokens) (hx : r.expects = .operand)
    (hk : t.kind = .atom ∨ t.kind = .quotedAtom)
    (hm : r.isBehindPrefix → t.misleads d → able t) (h : r.takeName d t = .ok r') :
    r'.Covers able d b (tokens ++ [t]) := by
  have hsee : r.names.after [t] = r.names := by
    rcases hk with hk | hk <;> simp [Bindings.see, hk]
  have expecting {e : Expectation} (he : e.Covers able d r.scope r.names [t]) :
      Covers able d b { r with expects := e } (tokens ++ [t]) := by
    simpa only [hsee] using hr.expect hx he
  simp only [takeName] at h
  split at h
  · next hf =>
    cases h
    exact expecting (.arguments ⟨hk, hf⟩)
  · next hf =>
    have hf : t.functional = false := by simpa using hf
    split at h
    · next op hop =>
      have ht : t.IsPrefix d op := by
        split at hop
        · next hk => exact ⟨hk, hf, hop⟩
        · cases hop
      split at h
      · next hs =>
        cases h
        exact expecting (.signed ht hs)
      · refine takePrefix_covers hable ?_ ht h
        rwa [← hx]
    · split at h
      · next before token ps op hp hop =>
        have ha : able t := by
          by_cases hq : t.IsQuotedSeparator
          · exact hm (by simp [isBehindPrefix, hx, hp]) (by simp [Token.misleads, hq, hf, hop])
          · exact hable t hq
        exact takeInfix_covers_of_prefix hr hx hp (isInfix_of_kind _ hk hop) ha h
      · cases h
        exact expecting (.operator (.atom ⟨hk, hf⟩))

theorem separate_covers {left : Operand} {next : Term → Enclosure} {e : Enclosure}
    (hr : Covers able d b { r with expects := .operator left } tokens) (he : r.enclosure? = some e)
    (hk : t.kind = .comma ∨ t.kind = .bar)
    (hnext : ∀ b' ts us x p, e.Covers able d b' ts →
      DerivesWith able d e.scope (b'.after ts) us x p →
      (next x).Covers able d b' (ts ++ us ++ [t]))
    (h : r.separate left next = .ok r') : r'.Covers able d b (tokens ++ [t]) := by
  have hsee (b' : Bindings) : b'.see t = b' := by
    rcases hk with hk | hk <;> simp [Bindings.see, hk]
  simp only [separate] at h
  split at h
  · cases h
  · next whole happ =>
    cases h
    have hnames := hr.names_eq
    obtain ⟨ts, us, rfl, houter, hwhole⟩ := hr.applyAll rfl happ
    obtain ⟨outer, pending, expects, names⟩ := r
    cases houter with
    | nil => cases he
    | @cons e' ps outer ts ps' vs ho hp henc =>
      obtain rfl : e' = e := by simpa [enclosure?] using he
      have hwhole' : DerivesWith able d e'.scope ((b.after (ts ++ ps')).after vs) us whole.term
          whole.priority := by
        simpa [scope, Scope.inside] using hwhole
      have := Covers.mk (r := ⟨(next whole.term, ps) :: outer, [], .operand, names⟩)
        (.cons ho hp (hnext _ _ _ _ _ henc hwhole')) .nil .operand (by simpa [hsee] using hnames)
      simpa using this

end Reading

/-! ## Steps -/

/-- A token that ends a sentence: a full stop or, where that may be missing, the end of the
file. -/
def Flags.Ends (f : Flags) (t : Token) : Prop :=
  t.kind = .stop ∨ f.fullStopOptional ∧ t.kind = .endOfFile

/-- What a step at the token `t` behind `tokens` has to be like. -/
def Step.Sound (able : Token → Prop) (d : Dialect) (b : Bindings) (tokens : List Token)
    (t : Token) : Step → Prop
  | .more r => r.Covers able d b (tokens ++ [t])
  | .done x names =>
    (∃ p, DerivesWith able d .whole b tokens x p) ∧ names = b.after tokens ∧ d.flags.Ends t
  | _ => True

namespace Reading

variable {r r' : Reading} {tokens : List Token} {t : Token} {op : Operator}

theorem sound_ofExcept {x : Except SyntaxError Reading}
    (h : ∀ r', x = .ok r' → r'.Covers able d b (tokens ++ [t])) :
    (Step.ofExcept x).Sound able d b tokens t := by
  cases x with
  | error e => trivial
  | ok r' => exact h r' rfl

theorem sound_unexpectedEnd : (r.unexpectedEnd t).Sound able d b tokens t := by
  unfold unexpectedEnd
  split <;> trivial

theorem scope_eq (r : Reading) : r.scope = (r.enclosure?.map Enclosure.scope).getD .whole := by
  obtain ⟨outer, pending, expects, names⟩ := r
  cases outer <;> rfl

theorem admits_bar (hlist : ∀ done, r.enclosure? = some (.list done false) → False)
    (htail : ∀ done, r.enclosure? = some (.list done true) → False) : r.scope.admits .bar := by
  rw [scope_eq]
  rcases he : r.enclosure? with _ | _ | _ | _ | ⟨done, _ | _⟩
  · rfl
  · rfl
  · rfl
  · rfl
  · exact (hlist done he).elim
  · exact (htail done he).elim

theorem admits_comma (hargs : ∀ f done, r.enclosure? = some (.arguments f done) → False)
    (hlist : ∀ done, r.enclosure? = some (.list done false) → False)
    (htail : ∀ done, r.enclosure? = some (.list done true) → False) : r.scope.admits .comma := by
  rw [scope_eq]
  rcases he : r.enclosure? with _ | _ | _ | ⟨f, done⟩ | ⟨done, _ | _⟩
  · rfl
  · rfl
  · rfl
  · exact (hargs f done he).elim
  · exact (hlist done he).elim
  · exact (htail done he).elim

theorem takeOperator_sound {left : Operand} (hable : ∀ t : Token, ¬t.IsQuotedSeparator → able t)
    (hr : Covers able d b { r with expects := .operator left } tokens) :
    (r.takeOperator d left t).Sound able d b tokens t := by
  have asOperator (ht : r.scope.admits t.kind) (hq : ¬t.IsQuotedSeparator) :
      (r.takeSymbol d left t).Sound able d b tokens t := by
    unfold takeSymbol
    split
    · next op hop => exact sound_ofExcept fun r' h => takeInfix_covers hr ⟨ht, hop⟩ (hable t hq) h
    · trivial
  -- A comma or bar is an operator only where the enclosure does not use it to separate.
  unfold takeOperator
  simp only
  split
  · next functor done hk he =>
    refine sound_ofExcept fun r' h => separate_covers hr he (.inl hk) ?_ h
    intro b' ts us x p henc hx
    obtain ⟨name, opening, vs, hf, rfl, ho, heq, hvs⟩ := henc.argument hx
    rw [heq]
    exact .arguments hf ho hvs hk
  · next done hk he =>
    refine sound_ofExcept fun r' h => separate_covers hr he (.inl hk) ?_ h
    intro b' ts us x p henc hx
    obtain ⟨opening, vs, ho, heq, hvs⟩ := henc.element hx
    rw [heq]
    exact .elements ho hvs hk
  · trivial
  · next done hk he =>
    refine sound_ofExcept fun r' h => separate_covers hr he (.inr hk) ?_ h
    intro b' ts us x p henc hx
    obtain ⟨opening, vs, ho, heq, hvs⟩ := henc.element hx
    rw [heq]
    exact .tail ho hvs hk
  · trivial
  · next hk =>
    exact asOperator (by simp [Scope.admits, hk]) (by simp [Token.IsQuotedSeparator, hk])
  · next hk hargs hlist htail =>
    exact asOperator (hk ▸ admits_comma hargs hlist htail) (by simp [Token.IsQuotedSeparator, hk])
  · next hk hlist htail =>
    exact asOperator (hk ▸ admits_bar hlist htail) (by simp [Token.IsQuotedSeparator, hk])
  · next hk =>
    split
    · trivial
    · next hq => exact asOperator (by simp [Scope.admits, hk]) fun h => hq h.2
  · exact sound_unexpectedEnd
  · exact sound_unexpectedEnd
  · trivial
  · trivial

theorem takeOperand_sound (hable : ∀ t : Token, ¬t.IsQuotedSeparator → able t)
    (hr : r.Covers able d b tokens) (hx : r.expects = .operand)
    (hm : r.isBehindPrefix → t.misleads d → able t) :
    (r.takeOperand d t).Sound able d b tokens t := by
  have operand {x : Term} {names : Bindings} (h : DerivesWith able d r.scope r.names [t] x 0)
      (hn : r.names.see t = names) :
      Covers able d b { r with names, expects := .operator ⟨x, 0⟩ } (tokens ++ [t]) := by
    subst hn
    exact hr.expect hx (@Expectation.Covers.operator able d r.scope r.names ⟨x, 0⟩ [t] h)
  unfold takeOperand
  split
  · exact sound_unexpectedEnd
  · exact sound_unexpectedEnd
  iterate 3
    · split
      · next before token ps hp => exact takeOperator_sound hable (hr.prefixToAtom hx hp)
      · trivial
  iterate 3
    · next hk =>
      split
      · next n hn => exact operand (.number hn) (by simp [Bindings.see, hk])
      · trivial
      · trivial
  · next hk => exact operand (.named hk) (by simp only [Bindings.see, hk]; rfl)
  · next hk => exact operand (.anonymous hk) (by simp only [Bindings.see, hk]; rfl)
  · next hk => exact operand (.doubleQuoted hk) (by simp [Bindings.see, hk])
  · next hk => exact operand (.backQuoted hk) (by simp [Bindings.see, hk])
  · next hk =>
    refine hr.enter (fun b' vs he => ?_) (by simp [Bindings.see, hk])
    rw [hx] at he
    cases he
    exact .group hk
  · next hk =>
    simpa [Step.Sound, Bindings.see, hk] using hr.expect hx (.listStart hk)
  · next hk =>
    simpa [Step.Sound, Bindings.see, hk] using hr.expect hx (.bracesStart hk)
  · next hk => exact sound_ofExcept fun r' h => takeName_covers hable hr hx (.inl hk) hm h
  · next hk => exact sound_ofExcept fun r' h => takeName_covers hable hr hx (.inr hk) hm h
  · trivial

/-- An operand or an operator is expected: the next token is looked at for itself. -/
def Ready (r : Reading) : Prop :=
  r.expects = .operand ∨ ∃ left, r.expects = .operator left

/-- The last operand of an expression, and the operators that wait for it. -/
theorem lastOperand_covers {ps : List Pending} {last : Operand} (hr : r.Covers able d b tokens)
    (hx : r.Ready)
    (h : r.lastOperand t = .ok (ps, last)) :
    Covers able d b { r with pending := ps, expects := .operator last } tokens := by
  rcases hx with hx | ⟨left, hx⟩
  · simp only [lastOperand, hx] at h
    split at h
    · next heq => cases heq
    · next hp _ =>
      split at h
      · cases h
      · cases h
        exact hr.prefixToAtom hx hp
    · cases h
    · cases h
  · simp only [lastOperand, hx] at h
    cases h
    rwa [← hx]

theorem ends_of_endsWith {f : Flags} (ho : r.outer = []) (h : r.endsWith f t) : f.Ends t := by
  simp only [endsWith, terminal, enclosure?, ho, Bool.or_eq_true, Bool.and_eq_true,
    decide_eq_true_eq] at h
  exact h.imp id fun h => ⟨h.1.1.2, h.1.2⟩

theorem kind_of_endsWith {f : Flags} {e : Enclosure} {ps : List Pending}
    {outer : List (Enclosure × List Pending)} (ho : r.outer = (e, ps) :: outer)
    (h : r.endsWith f t) : t.kind = .closing e.bracket := by
  simp only [endsWith, terminal, enclosure?, atTop, ho, Bool.or_eq_true, Bool.and_eq_true,
    decide_eq_true_eq] at h
  exact h.resolve_right fun h => by simp at h

/-- The expression that a token ends, inside the open enclosures. -/
theorem expression_derives {x : Term} (hr : r.Covers able d b tokens)
    (hx : r.Ready)
    (h : r.expression t = .ok x) :
    ∃ ts us p, tokens = ts ++ us ∧ OuterCovers able d b r.outer ts ∧
      DerivesWith able d r.scope (b.after ts) us x p := by
  simp only [expression] at h
  split at h
  · cases h
  · next ps last hlast =>
    split at h
    · cases h
    · next whole happ =>
      cases h
      obtain ⟨ts, us, heq, ho, hus⟩ := (lastOperand_covers hr hx hlast).applyAll rfl happ
      exact ⟨ts, us, whole.priority, heq, ho, hus⟩

theorem close_sound {x : Term} (hr : r.Covers able d b tokens) (hends : r.endsWith d.flags t)
    (h : ∃ ts us p, tokens = ts ++ us ∧ OuterCovers able d b r.outer ts ∧
      DerivesWith able d r.scope (b.after ts) us x p) : (r.close x).Sound able d b tokens t := by
  have hnames := hr.names_eq
  obtain ⟨ts, us, p, rfl, ho, hus⟩ := h
  unfold close
  split
  · next houter =>
    rw [houter] at ho
    cases ho
    refine ⟨⟨p, ?_⟩, hnames, ends_of_endsWith houter hends⟩
    simpa [scope, Scope.inside, houter] using hus
  · next e ps outer houter =>
    have hk := kind_of_endsWith houter hends
    rw [houter] at ho
    cases ho with
    | @cons _ _ _ ts qs vs ho hp he =>
      have hus' : DerivesWith able d e.scope ((b.after (ts ++ qs)).after vs) us x p := by
        simpa [scope, Scope.inside, houter] using hus
      have hsee (b' : Bindings) : b'.see t = b' := by simp [Bindings.see, hk]
      have := Covers.mk
        (r := { r with outer := outer, pending := ps, expects := .operator ⟨e.close x, 0⟩ })
        ho hp (.operator (he.close hus' hk)) (by simpa [hsee] using hnames)
      simpa [Step.Sound] using this

theorem take_sound (hable : ∀ t : Token, ¬t.IsQuotedSeparator → able t)
    (hr : r.Covers able d b tokens) (hx : r.Ready)
    (hm : r.isBehindPrefix → t.misleads d → able t) :
    (r.take d t).Sound able d b tokens t := by
  unfold take
  split
  · next hends =>
    split
    · trivial
    · next x hexpr =>
      exact close_sound hr hends (expression_derives hr hx hexpr)
  · split
    · next left heq => exact takeOperator_sound hable (by rwa [← heq])
    · next hne =>
      refine takeOperand_sound hable hr (hx.resolve_right ?_) hm
      rintro ⟨left, heq⟩
      exact hne left heq

theorem takeInfix_ready {left : Operand} (h : r.takeInfix left op t = .ok r') : r'.Ready := by
  simp only [takeInfix] at h
  split at h
  · cases h
  · split at h
    · split at h
      · cases h
      · cases h
        exact .inr ⟨_, rfl⟩
    · cases h
      exact .inl rfl

theorem takePrefix_ready (h : r.takePrefix d op t = .ok r') : r'.Ready := by
  simp only [takePrefix] at h
  split at h
  · split at h
    · exact takeInfix_ready h
    · cases h
      exact .inl rfl
  · cases h
    exact .inl rfl

/-- The tokens that something is expected behind become an operand with the token that comes. -/
theorem Covers.complete {x : Term} (hr : r.Covers able d b tokens)
    (hx : ∀ b' vs, r.expects.Covers able d r.scope b' vs →
      DerivesWith able d r.scope b' (vs ++ [t]) x 0)
    (ht : r.names.see t = r.names) : (r.withOperand x).Covers able d b (tokens ++ [t]) := by
  cases hr with
  | @mk ts us vs ho hp he hn =>
    have hnames : r.names = b.after (ts ++ us ++ (vs ++ [t])) := by
      rw [← ht, hn]
      simp
    rw [List.append_assoc]
    exact .mk (r := r.withOperand x) ho hp (.operator (hx _ _ he)) hnames

theorem Covers.beforeSign {sign : Token} (hr : r.Covers able d b tokens)
    (hx : r.expects = .signed op sign) :
    ∃ ts, tokens = ts ++ [sign] ∧ sign.IsPrefix d op ∧ (sign.text = "-" ∨ sign.text = "+") ∧
      Covers able d b { r with expects := .operand } ts := by
  cases hr with
  | @mk ts us vs ho hp he hn =>
    rw [hx] at he
    cases he with
    | signed ht hs =>
      refine ⟨ts ++ us, rfl, ht, hs, ?_⟩
      have := Covers.mk (r := { r with expects := .operand }) ho hp .operand
        (by simpa [ht.see] using hn)
      simpa using this

theorem see_of_number? {n : Except NumberError Term} (b' : Bindings) (h : t.number? = some n) :
    b'.see t = b' := by
  unfold Token.number? at h
  unfold Bindings.see
  split at h <;> simp_all

/-- What the decision of the token `t` about the tokens before it has to be like. -/
def Settled.Sound (able : Token → Prop) (d : Dialect) (b : Bindings) (tokens : List Token)
    (t : Token) : Settled → Prop
  | .taken s => s.Sound able d b tokens t
  | .ready r => r.Covers able d b tokens ∧ r.Ready

theorem settle_sound (hable : ∀ t : Token, ¬t.IsQuotedSeparator → able t)
    (hr : r.Covers able d b tokens) : (r.settle d t).Sound able d b tokens t := by
  cases hx : r.expects with
  | operand => simpa only [settle, hx] using ⟨hr, .inl hx⟩
  | operator left => simpa only [settle, hx] using ⟨hr, .inr ⟨left, hx⟩⟩
  | arguments functor =>
    simp only [settle, hx]
    split
    · next hk =>
      refine hr.enter (fun b' vs he => ?_) (by simp [Bindings.see, hk])
      rw [hx] at he
      cases he with
      | arguments ht => exact .noArguments ht hk
    · trivial
  | listStart =>
    simp only [settle, hx]
    split
    · next hk =>
      refine hr.complete (fun b' vs he => ?_) (by simp [Bindings.see, hk])
      rw [hx] at he
      cases he with
      | listStart ht => exact .noElements ht hk
    · refine ⟨hr.enterBefore fun b' vs he => ?_, .inl rfl⟩
      rw [hx] at he
      cases he with
      | listStart ht => exact .noElements ht
  | bracesStart =>
    simp only [settle, hx]
    split
    · next hk =>
      refine hr.complete (fun b' vs he => ?_) (by simp [Bindings.see, hk])
      rw [hx] at he
      cases he with
      | bracesStart ht => exact .noBraces ht hk
    · refine ⟨hr.enterBefore fun b' vs he => ?_, .inl rfl⟩
      rw [hx] at he
      cases he with
      | bracesStart ht => exact .braces ht
  | signed op sign =>
    simp only [settle, hx]
    split
    · trivial
    · next n hn =>
      have hl : t.layoutBefore = false := by
        split at hn
        · cases hn
        · next hl => simpa using hl
      rw [if_neg (by simp [hl])] at hn
      refine hr.complete (fun b' vs he => ?_) (see_of_number? _ hn)
      rw [hx] at he
      cases he with
      | signed ht hs => exact .signed ⟨⟨op, ht⟩, hs⟩ hl hn
    · split
      · trivial
      · next next hnext =>
        obtain ⟨ts, rfl, ht, -, hcovers⟩ := hr.beforeSign hx
        exact ⟨takePrefix_covers hable hcovers ht hnext, takePrefix_ready hnext⟩

/-- Whether a quoted comma or bar is taken for an operator, because a prefix operator waits right
before it. -/
def misreads (d : Dialect) (r : Reading) (t : Token) : Bool :=
  match r.settle d t with
  | .ready next => next.isBehindPrefix && t.misleads d
  | .taken _ => false

theorem step_sound (hable : ∀ t : Token, ¬t.IsQuotedSeparator → able t)
    (hr : r.Covers able d b tokens) (hm : r.misreads d t → able t) :
    (r.step d t).Sound able d b tokens t := by
  have h := settle_sound (t := t) hable hr
  unfold misreads at hm
  unfold step
  split
  · next s hs =>
    rw [hs] at h
    exact h
  · next r' hs =>
    rw [hs] at h hm
    exact take_sound hable h.1 h.2 fun hb ht => hm (by simp [hb, ht])

end Reading

end PrologText
