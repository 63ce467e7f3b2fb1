import PrologText.Proofs.Grammar

/-!
# Phrases

The part of the operator grammar in which no operator stands for itself as an atom. A name with a
parenthesis directly behind it is a functor, a sign directly before a number belongs to the number,
and a quoted comma or bar is no operator. Main statement: every phrase stands for some term in the
whole grammar, at the same priority (`Phrase.derives`).
-/

namespace PrologText

namespace Token

/-- A name that stands for itself and is no operator. Quotes keep a name from being a prefix
operator. -/
def IsPlain (d : Dialect) (t : Token) : Prop :=
  t.IsAtom ∧ (t.kind = .atom → d.table.prefixOperator? t.text = none) ∧
    d.table.infixOperator? t.text = none

/-- A token that is an operand by itself. -/
inductive IsOperand (d : Dialect) (t : Token) : Prop where
  | number {n} (h : t.number? = some (.ok n))
  | named (h : t.kind = .variable)
  | anonymous (h : t.kind = .anonymousVariable)
  | doubleQuoted (h : t.kind = .doubleQuoted)
  | backQuoted (h : t.kind = .backQuoted)
  | name (h : t.IsPlain d)

/-- A quoted comma or bar. -/
def IsQuotedSeparator (t : Token) : Prop :=
  t.kind = .quotedAtom ∧ (t.text = "," ∨ t.text = "|")

instance (t : Token) : Decidable t.IsQuotedSeparator :=
  inferInstanceAs (Decidable (_ ∧ _))

/-- A token that is an infix or postfix operator and no quoted comma or bar. -/
def IsOperator (d : Dialect) (s : Scope) (op : Operator) (t : Token) : Prop :=
  t.IsInfix d s op ∧ ¬t.IsQuotedSeparator

/-- A sign and a number directly behind it. -/
def Joins (d : Dialect) (sign t : Token) : Prop :=
  sign.IsSign d ∧ t.layoutBefore = false ∧ t.number?.isSome

end Token

mutual

/-- The tokens of an expression in which no operator is an atom, and its priority. -/
inductive Phrase (d : Dialect) : Scope → List Token → Nat → Prop where
  | operand {s t} (h : t.IsOperand d) : Phrase d s [t] 0
  | signed {s sign t n} (hs : sign.IsSign d) (hl : t.layoutBefore = false)
      (h : t.number? = some (.ok n)) : Phrase d s [sign, t] 0
  | empty {s opening br closing} (ho : opening.kind = .opening br) (hbr : br ≠ .round)
      (hc : closing.kind = .closing br) : Phrase d s [opening, closing] 0
  | enclosed {s opening br ts p closing} (ho : opening.kind = .opening br) (hbr : br ≠ .square)
      (h : Phrase d .whole ts p) (hc : closing.kind = .closing br) :
      Phrase d s (opening :: ts ++ [closing]) 0
  | compound {s f opening ts closing} (hf : f.IsFunctor) (ho : opening.kind = .opening .round)
      (h : Phrases d .argument ts) (hc : closing.kind = .closing .round) :
      Phrase d s (f :: opening :: ts ++ [closing]) 0
  | list {s opening ts closing} (ho : opening.kind = .opening .square) (h : Phrases d .element ts)
      (hc : closing.kind = .closing .square) : Phrase d s (opening :: ts ++ [closing]) 0
  | partialList {s opening ts bar us p closing} (ho : opening.kind = .opening .square)
      (h : Phrases d .element ts) (hb : bar.kind = .bar) (ht : Phrase d .element us p)
      (hc : closing.kind = .closing .square) :
      Phrase d s (opening :: ts ++ bar :: us ++ [closing]) 0
  | prefixOp {s op t ts p} (ht : t.IsPrefix d op) (h : Phrase d s ts p)
      (hj : ∀ u ∈ ts.head?, ¬t.Joins d u) (hp : (p : Int) ≤ op.rightBound) :
      Phrase d s (t :: ts) op.priority
  | infixOp {s op ts p t us q} (h : Phrase d s ts p) (ht : t.IsOperator d s op)
      (hf : op.specifier.fixity ≠ .postfixOp) (h' : Phrase d s us q)
      (hp : (p : Int) ≤ op.leftBound) (hq : (q : Int) ≤ op.rightBound) :
      Phrase d s (ts ++ t :: us) op.priority
  | postfixOp {s op ts p t} (h : Phrase d s ts p) (ht : t.IsOperator d s op)
      (hf : op.specifier.fixity = .postfixOp) (hp : (p : Int) ≤ op.leftBound) :
      Phrase d s (ts ++ [t]) op.priority

/-- The tokens of phrases with commas between them, at least one. -/
inductive Phrases (d : Dialect) : Scope → List Token → Prop where
  | one {s ts p} (h : Phrase d s ts p) : Phrases d s ts
  | snoc {s ts comma us p} (h : Phrases d s ts) (hc : comma.kind = .comma) (h' : Phrase d s us p) :
      Phrases d s (ts ++ comma :: us)

end

theorem Token.IsOperand.derives {d : Dialect} {t : Token} (h : t.IsOperand d) (s : Scope)
    (b : Bindings) : ∃ x, Derives d s b [t] x 0 := by
  cases h with
  | number h => exact ⟨_, .number h⟩
  | named h => exact ⟨_, .named h⟩
  | anonymous h => exact ⟨_, .anonymous h⟩
  | doubleQuoted h => exact ⟨_, .doubleQuoted h⟩
  | backQuoted h => exact ⟨_, .backQuoted h⟩
  | name h => exact ⟨_, .atom h.1⟩

theorem derives_empty {d : Dialect} {opening closing : Token} {br : Bracket}
    (ho : opening.kind = .opening br) (hbr : br ≠ .round) (hc : closing.kind = .closing br)
    (s : Scope) (b : Bindings) : ∃ x, Derives d s b [opening, closing] x 0 := by
  cases br with
  | round => exact absurd rfl hbr
  | square => exact ⟨_, .noElements ho hc⟩
  | curly => exact ⟨_, .noBraces ho hc⟩

theorem DerivesWith.enclosed {able : Token → Prop} {d : Dialect} {b : Bindings} {ts : List Token}
    {x : Term} {p : Nat} {opening closing : Token} {br : Bracket}
    (h : DerivesWith able d .whole b ts x p) (ho : opening.kind = .opening br)
    (hbr : br ≠ .square) (hc : closing.kind = .closing br) (s : Scope) :
    ∃ y, DerivesWith able d s b (opening :: ts ++ [closing]) y 0 := by
  cases br with
  | round => exact ⟨_, .group ho h hc⟩
  | square => exact absurd rfl hbr
  | curly => exact ⟨_, .braces ho h hc⟩

mutual

/-- A phrase is an expression of the whole grammar, whatever variables come before it. -/
theorem Phrase.derives {d s ts p} : Phrase d s ts p → ∀ b, ∃ x, Derives d s b ts x p
  | .operand h => h.derives _
  | .signed hs hl h => fun _ => ⟨_, .signed hs hl h⟩
  | .empty ho hbr hc => derives_empty ho hbr hc _
  | .enclosed ho hbr h hc => fun b =>
    have ⟨_, hx⟩ := h.derives b
    hx.enclosed ho hbr hc _
  | .compound hf ho h hc => fun b =>
    have ⟨_, hxs⟩ := h.derives b
    ⟨_, .compound hf ho hxs hc⟩
  | .list ho h hc => fun b =>
    have ⟨_, hxs⟩ := h.derives b
    ⟨_, .list ho hxs hc⟩
  | @Phrase.partialList _ _ _ ts _ _ _ _ ho h hb ht hc => fun b =>
    have ⟨_, hxs⟩ := h.derives b
    have ⟨_, hx⟩ := ht.derives (b.after ts)
    ⟨_, .partialList ho hxs hb hx hc⟩
  | .prefixOp ht h _ hp => fun b =>
    have ⟨_, hx⟩ := h.derives b
    ⟨_, .prefixOp ht hx hp⟩
  | @Phrase.infixOp _ _ _ ts _ _ _ _ h ht hf h' hp hq => fun b =>
    have ⟨_, hx⟩ := h.derives b
    have ⟨_, hy⟩ := h'.derives (b.after ts)
    ⟨_, .infixOp hx ht.1 trivial hf hy hp hq⟩
  | .postfixOp h ht hf hp => fun b =>
    have ⟨_, hx⟩ := h.derives b
    ⟨_, .postfixOp hx ht.1 trivial hf hp⟩

theorem Phrases.derives {d s ts} : Phrases d s ts → ∀ b, ∃ xs, Items d s b ts xs
  | .one h => fun b =>
    have ⟨_, hx⟩ := h.derives b
    ⟨_, .one hx⟩
  | @Phrases.snoc _ _ ts _ _ _ h hc h' => fun b =>
    have ⟨_, hxs⟩ := h.derives b
    have ⟨_, hx⟩ := h'.derives (b.after ts)
    ⟨_, .snoc hxs hc hx⟩

end

end PrologText
