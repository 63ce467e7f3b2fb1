import PrologText.Dialect
import PrologText.Sentence.Variables
import PrologText.Token.Basic

/-!
# The prioritised operator grammar

Which terms a sequence of tokens can stand for, and at which priority, said without a reader.
`Derives` is the grammar of expressions and `Items` that of expressions with commas between them.
Both follow the variables of a sentence: `Bindings.after` tells what is known of them behind some
tokens. The rules are those of `DerivesWith` and `ItemsWith`, where certain tokens only are
operators between or behind operands; with every token admitted, they are the whole grammar.
-/

namespace PrologText

/-! ## Variables along tokens -/

namespace Bindings

/-- The variables known behind a token. -/
def see (b : Bindings) (t : Token) : Bindings :=
  match t.kind with
  | .variable => (b.named t.text).2
  | .anonymousVariable => b.anonymous.2
  | _ => b

/-- The variables known behind some tokens. -/
def after (b : Bindings) (ts : List Token) : Bindings :=
  ts.foldl see b

@[simp] theorem after_nil (b : Bindings) : b.after [] = b := rfl

@[simp] theorem after_cons (b : Bindings) (t : Token) (ts : List Token) :
    b.after (t :: ts) = (b.see t).after ts := rfl

@[simp] theorem after_append (b : Bindings) (ts us : List Token) :
    b.after (ts ++ us) = (b.after ts).after us :=
  List.foldl_append

end Bindings

/-! ## Operators among tokens -/

/-- Where an expression stands, as far as this decides what separates it from the next one. -/
inductive Scope where
  /-- By itself, in parentheses or in braces. -/
  | whole
  /-- Among the arguments of a compound term. -/
  | argument
  /-- Among the elements of a list or at its end. -/
  | element
deriving DecidableEq

/-- Whether a token of some kind can be an operator between or behind the operands of an expression.
A comma that ends an argument or an element is none, nor is the bar of a list. -/
def Scope.admits : Scope → TokenKind → Bool
  | _, .atom | _, .quotedAtom => true
  | s, .comma => s = .whole
  | s, .bar => s ≠ .element
  | _, _ => false

namespace Token

/-- A name that stands for itself. -/
def IsAtom (t : Token) : Prop :=
  (t.kind = .atom ∨ t.kind = .quotedAtom) ∧ t.functional = false

/-- A name with its arguments in parentheses directly behind it. -/
def IsFunctor (t : Token) : Prop :=
  (t.kind = .atom ∨ t.kind = .quotedAtom) ∧ t.functional = true

/-- A name without quotes that is the prefix operator `op`. -/
def IsPrefix (d : Dialect) (op : Operator) (t : Token) : Prop :=
  t.kind = .atom ∧ t.functional = false ∧ d.table.prefixOperator? t.text = some op

/-- A token that is the infix or postfix operator `op`. -/
def IsInfix (d : Dialect) (s : Scope) (op : Operator) (t : Token) : Prop :=
  s.admits t.kind ∧ d.table.infixOperator? t.text = some op

/-- A sign: a plus or minus that is a prefix operator. -/
def IsSign (d : Dialect) (t : Token) : Prop :=
  (∃ op, t.IsPrefix d op) ∧ (t.text = "-" ∨ t.text = "+")

/-- The number `n` with a sign in front. -/
def signing (sign : Token) (n : Term) : Term :=
  if sign.text = "-" then n.negate?.getD n else n

end Token

/-! ## Expressions -/

mutual

/-- In the dialect `d`, the tokens of an expression, the term that they stand for and its priority,
where only tokens with the property `able` are operators between or behind operands. `b` are the
variables met before the expression. -/
inductive DerivesWith (able : Token → Prop) (d : Dialect) :
    Scope → Bindings → List Token → Term → Nat → Prop where
  | number {s b t n} (h : t.number? = some (.ok n)) : DerivesWith able d s b [t] n 0
  | signed {s b sign t n} (hs : sign.IsSign d) (hl : t.layoutBefore = false)
      (h : t.number? = some (.ok n)) : DerivesWith able d s b [sign, t] (sign.signing n) 0
  | named {s b t} (h : t.kind = .variable) :
      DerivesWith able d s b [t] (.var (b.named t.text).1) 0
  | anonymous {s b t} (h : t.kind = .anonymousVariable) :
      DerivesWith able d s b [t] (.var b.anonymous.1) 0
  | doubleQuoted {s b t} (h : t.kind = .doubleQuoted) :
      DerivesWith able d s b [t] (d.flags.doubleQuotes.term t.text) 0
  | backQuoted {s b t} (h : t.kind = .backQuoted) :
      DerivesWith able d s b [t] (d.flags.backQuotes.term t.text) 0
  | atom {s b t} (h : t.IsAtom) : DerivesWith able d s b [t] (.atom t.toAtom) 0
  | group {s b opening ts x p closing} (ho : opening.kind = .opening .round)
      (h : DerivesWith able d .whole b ts x p) (hc : closing.kind = .closing .round) :
      DerivesWith able d s b (opening :: ts ++ [closing]) x 0
  | noBraces {s b opening closing} (ho : opening.kind = .opening .curly)
      (hc : closing.kind = .closing .curly) :
      DerivesWith able d s b [opening, closing] (.atom .braces) 0
  | braces {s b opening ts x p closing} (ho : opening.kind = .opening .curly)
      (h : DerivesWith able d .whole b ts x p) (hc : closing.kind = .closing .curly) :
      DerivesWith able d s b (opening :: ts ++ [closing]) x.inBraces 0
  | compound {s b f opening ts xs closing} (hf : f.IsFunctor) (ho : opening.kind = .opening .round)
      (h : ItemsWith able d .argument b ts xs) (hc : closing.kind = .closing .round) :
      DerivesWith able d s b (f :: opening :: ts ++ [closing]) (.compound f.toAtom xs) 0
  | noElements {s b opening closing} (ho : opening.kind = .opening .square)
      (hc : closing.kind = .closing .square) : DerivesWith able d s b [opening, closing] .nil 0
  | list {s b opening ts xs closing} (ho : opening.kind = .opening .square)
      (h : ItemsWith able d .element b ts xs) (hc : closing.kind = .closing .square) :
      DerivesWith able d s b (opening :: ts ++ [closing]) (.ofList xs .nil) 0
  | partialList {s b opening ts xs bar us x p closing} (ho : opening.kind = .opening .square)
      (h : ItemsWith able d .element b ts xs) (hb : bar.kind = .bar)
      (hx : DerivesWith able d .element (b.after ts) us x p)
      (hc : closing.kind = .closing .square) :
      DerivesWith able d s b (opening :: ts ++ bar :: us ++ [closing]) (.ofList xs x) 0
  | prefixOp {s b op t ts x p} (ht : t.IsPrefix d op) (hx : DerivesWith able d s b ts x p)
      (hp : (p : Int) ≤ op.rightBound) :
      DerivesWith able d s b (t :: ts) (.compound t.toAtom [x]) op.priority
  | infixOp {s b op ts x p t us y q} (hx : DerivesWith able d s b ts x p) (ht : t.IsInfix d s op)
      (ha : able t) (hf : op.specifier.fixity ≠ .postfixOp)
      (hy : DerivesWith able d s (b.after ts) us y q) (hp : (p : Int) ≤ op.leftBound)
      (hq : (q : Int) ≤ op.rightBound) :
      DerivesWith able d s b (ts ++ t :: us) (.compound t.toAtom [x, y]) op.priority
  | postfixOp {s b op ts x p t} (hx : DerivesWith able d s b ts x p) (ht : t.IsInfix d s op)
      (ha : able t) (hf : op.specifier.fixity = .postfixOp) (hp : (p : Int) ≤ op.leftBound) :
      DerivesWith able d s b (ts ++ [t]) (.compound t.toAtom [x]) op.priority

/-- The tokens of such expressions with commas between them, at least one, and the terms that they
stand for. -/
inductive ItemsWith (able : Token → Prop) (d : Dialect) :
    Scope → Bindings → List Token → List Term → Prop where
  | one {s b ts x p} (h : DerivesWith able d s b ts x p) : ItemsWith able d s b ts [x]
  | snoc {s b ts xs comma us x p} (h : ItemsWith able d s b ts xs) (hc : comma.kind = .comma)
      (hx : DerivesWith able d s (b.after ts) us x p) :
      ItemsWith able d s b (ts ++ comma :: us) (xs ++ [x])

end

/-- In the dialect `d`, the tokens of an expression, the term that they stand for and its priority.
`b` are the variables met before the expression. -/
abbrev Derives (d : Dialect) : Scope → Bindings → List Token → Term → Nat → Prop :=
  DerivesWith (fun _ => True) d

/-- The tokens of expressions with commas between them, at least one, and the terms that they stand
for. -/
abbrev Items (d : Dialect) : Scope → Bindings → List Token → List Term → Prop :=
  ItemsWith (fun _ => True) d

mutual

/-- More operators leave the expressions that there are. -/
theorem DerivesWith.mono {able able' : Token → Prop} {d s b ts x p}
    (hable : ∀ t, able t → able' t) :
    DerivesWith able d s b ts x p → DerivesWith able' d s b ts x p
  | .number h => .number h
  | .signed hs hl h => .signed hs hl h
  | .named h => .named h
  | .anonymous h => .anonymous h
  | .doubleQuoted h => .doubleQuoted h
  | .backQuoted h => .backQuoted h
  | .atom h => .atom h
  | .group ho h hc => .group ho (h.mono hable) hc
  | .noBraces ho hc => .noBraces ho hc
  | .braces ho h hc => .braces ho (h.mono hable) hc
  | .compound hf ho h hc => .compound hf ho (h.mono hable) hc
  | .noElements ho hc => .noElements ho hc
  | .list ho h hc => .list ho (h.mono hable) hc
  | .partialList ho h hb hx hc => .partialList ho (h.mono hable) hb (hx.mono hable) hc
  | .prefixOp ht hx hp => .prefixOp ht (hx.mono hable) hp
  | .infixOp hx ht ha hf hy hp hq =>
    .infixOp (hx.mono hable) ht (hable _ ha) hf (hy.mono hable) hp hq
  | .postfixOp hx ht ha hf hp => .postfixOp (hx.mono hable) ht (hable _ ha) hf hp

theorem ItemsWith.mono {able able' : Token → Prop} {d s b ts xs}
    (hable : ∀ t, able t → able' t) : ItemsWith able d s b ts xs → ItemsWith able' d s b ts xs
  | .one h => .one (h.mono hable)
  | .snoc h hc hx => .snoc (h.mono hable) hc (hx.mono hable)

end

/-- Fewer operators make no other expressions. -/
theorem DerivesWith.derives {able d s b ts x p} (h : DerivesWith able d s b ts x p) :
    Derives d s b ts x p :=
  h.mono fun _ _ => trivial

/-! ## The tokens of expressions -/

/-- Whether tokens of a kind can be part of an expression. -/
def TokenKind.isPart : TokenKind → Bool
  | .stop | .endOfFile | .comment => false
  | _ => true

namespace Token

variable {d : Dialect} {s : Scope} {op : Operator} {t : Token}

theorem isPart_of_number? {n : Except NumberError Term} (h : t.number? = some n) :
    t.kind.isPart := by
  unfold Token.number? at h
  split at h <;> simp_all [TokenKind.isPart]

theorem IsPrefix.isPart (h : t.IsPrefix d op) : t.kind.isPart := by
  simp [h.1, TokenKind.isPart]

theorem IsAtom.isPart (h : t.IsAtom) : t.kind.isPart := by
  rcases h.1 with hk | hk <;> simp [hk, TokenKind.isPart]

theorem IsFunctor.isPart (h : t.IsFunctor) : t.kind.isPart := by
  rcases h.1 with hk | hk <;> simp [hk, TokenKind.isPart]

theorem IsInfix.isPart (h : t.IsInfix d s op) : t.kind.isPart := by
  have hk := h.1
  unfold TokenKind.isPart
  split <;> simp_all [Scope.admits]

end Token

mutual

theorem DerivesWith.all_isPart {able d s b ts x p} :
    DerivesWith able d s b ts x p → ts.all (·.kind.isPart)
  | .number h => by simp [Token.isPart_of_number? h]
  | .signed ⟨⟨_, hs⟩, _⟩ _ h => by simp [hs.isPart, Token.isPart_of_number? h]
  | .named h | .anonymous h | .doubleQuoted h | .backQuoted h => by simp [h, TokenKind.isPart]
  | .atom h => by simp [h.isPart]
  | .group ho h hc | .braces ho h hc => by
    have := h.all_isPart
    simp_all [TokenKind.isPart]
  | .noBraces ho hc | .noElements ho hc => by simp [ho, hc, TokenKind.isPart]
  | .compound hf ho h hc => by
    have := h.all_isPart
    have := hf.isPart
    simp_all [TokenKind.isPart]
  | .list ho h hc => by
    have := h.all_isPart
    simp_all [TokenKind.isPart]
  | .partialList ho h hb hx hc => by
    have := h.all_isPart
    have := hx.all_isPart
    simp_all [TokenKind.isPart]
  | .prefixOp ht hx _ => by
    simpa [ht.isPart] using hx.all_isPart
  | .infixOp hx ht _ _ hy _ _ => by
    have := hx.all_isPart
    have := hy.all_isPart
    have := ht.isPart
    simp_all
  | .postfixOp hx ht _ _ _ => by
    simpa [ht.isPart] using hx.all_isPart

theorem ItemsWith.all_isPart {able d s b ts xs} :
    ItemsWith able d s b ts xs → ts.all (·.kind.isPart)
  | .one h => h.all_isPart
  | .snoc h hc hx => by
    have := h.all_isPart
    have := hx.all_isPart
    simp_all [TokenKind.isPart]

end

end PrologText
