import PrologText.Proofs.FloatLiterals
import PrologText.Proofs.Operands
import PrologText.Proofs.Renaming
import PrologText.Proofs.Spelling
import PrologText.Sentence.Single

/-!
# Canonical text is read back

The canonical text of a term with a full stop after it is read as the term again, whatever the
operators are: atoms lose or gain their marks, and variables are numbered anew
(`SingleRead.ofText_canonical`). `Term.Legible` says of which terms this holds; `Term.Readable`
adds finite floating point numbers and stray bytes in names without quotes.
-/

namespace PrologText

/-! ## Terms that can be read back -/

/-- Whether a text consists of characters only. -/
def Text.IsValid (t : Text) : Prop :=
  ∃ s : String, t = s

/-- Whether a variable has no name, or one that is read as a variable. -/
def Variable.WellFormed (v : Variable) : Prop :=
  v.name = [] ∨ v.name = [.char '_'] ∨
    ∃ g t, v.name = g :: t ∧ CharClass.isVariableStart g.code ∧
      ∀ x ∈ t, CharClass.isAlphanumeric x.code

/-- Terms whose canonical text can be read back with the operators of a table. There are no floating
point numbers among them. -/
inductive Term.Legible (table : Table) : Term → Prop where
  | atom {a : Atom} (hv : a.name.IsValid) (hc : ¬a.name.HidesComment) : Legible table (.atom a)
  | integer {n : Int64} (hm : n.toInt < 0 → (table.prefixOperator? "-").isSome) :
    Legible table (.integer n)
  | bigInteger {n : Int} (hn : ¬FitsInt64 n) (hm : n < 0 → (table.prefixOperator? "-").isSome) :
    Legible table (.bigInteger n)
  | string {s : Text} (hv : s.IsValid) : Legible table (.string s)
  | var {v : Variable} (hv : v.WellFormed) : Legible table (.var v)
  | compound {f : Atom} {args : List Term} (hv : f.name.IsValid) (hc : ¬f.name.HidesComment)
    (hne : args ≠ []) (hb : f.name = Atom.braces.name → args.length = 1)
    (hargs : ∀ x ∈ args, Legible table x) : Legible table (.compound f args)
  | nil : Legible table .nil
  | cons {head tail : Term} (hh : Legible table head) (ht : Legible table tail) :
    Legible table (.cons head tail)

/-- Whether the name of an atom is read back as it is written: without quotes if no comment opens in
it, and between quotes if it has no stray bytes. -/
structure Atom.Faithful (a : Atom) : Prop where
  bare : isBare a.name → ¬a.name.HidesComment
  quoted : ¬isBare a.name → a.name.IsValid

/-- Terms whose canonical text can be read back with the operators of a table, with finite floating
point numbers and with stray bytes in names without quotes. -/
inductive Term.Readable (table : Table) : Term → Prop where
  | atom {a : Atom} (ha : a.Faithful) : Readable table (.atom a)
  | integer {n : Int64} (hm : n.toInt < 0 → (table.prefixOperator? "-").isSome) :
    Readable table (.integer n)
  | bigInteger {n : Int} (hn : ¬FitsInt64 n) (hm : n < 0 → (table.prefixOperator? "-").isSome) :
    Readable table (.bigInteger n)
  | float {x : Binary64} (hx : x.IsFinite)
    (hm : x.isNegative → (table.prefixOperator? "-").isSome) : Readable table (.float x)
  | string {s : Text} (hv : s.IsValid) : Readable table (.string s)
  | var {v : Variable} (hv : v.WellFormed) : Readable table (.var v)
  | compound {f : Atom} {args : List Term} (hf : f.Faithful) (hne : args ≠ [])
    (hb : f.name = Atom.braces.name → args.length = 1) (hargs : ∀ x ∈ args, Readable table x) :
    Readable table (.compound f args)
  | nil : Readable table .nil
  | cons {head tail : Term} (hh : Readable table head) (ht : Readable table tail) :
    Readable table (.cons head tail)

theorem Term.Legible.readable {table : Table} {t : Term} (h : t.Legible table) :
    t.Readable table := by
  induction h with
  | atom hv hc => exact .atom ⟨fun _ => hc, fun _ => hv⟩
  | integer hm => exact .integer hm
  | bigInteger hn hm => exact .bigInteger hn hm
  | string hv => exact .string hv
  | var hv => exact .var hv
  | compound hv hc hne hb _ ih => exact .compound ⟨fun _ => hc, fun _ => hv⟩ hne hb ih
  | nil => exact .nil
  | cons _ _ ihh iht => exact .cons ihh iht

/-! ## Numbers -/

namespace Term

theorem ofInt_toInt (n : Int64) : ofInt n.toInt = .integer n := by
  have hfits : FitsInt64 n.toInt := ⟨n.minValue_le_toInt, n.toInt_le⟩
  rw [ofInt, if_pos hfits, Int64.ofInt_toInt]

theorem ofInt_of_not_fits {n : Int} (h : ¬FitsInt64 n) : ofInt n = .bigInteger n :=
  if_neg h

theorem fitsInt64_iff {n : Int} : FitsInt64 n ↔ -2 ^ 63 ≤ n ∧ n ≤ 2 ^ 63 - 1 :=
  Iff.rfl

/-- The number with the opposite sign. -/
theorem negate?_ofInt (n : Int) : (ofInt n).negate? = some (ofInt (-n)) := by
  by_cases h : FitsInt64 n
  · have hv : (Int64.ofInt n).toInt = n :=
      Int64.toInt_ofInt_of_le h.1 (lt_of_le_of_lt h.2 (by decide))
    by_cases hmin : n = Int64.minValue.toInt
    · subst hmin
      rfl
    · have hne : Int64.ofInt n ≠ Int64.minValue := by
        intro heq
        rw [heq] at hv
        exact hmin hv.symm
      have hfits : FitsInt64 (-n) := by
        have hleast : n ≠ -2 ^ 63 := hmin
        rw [fitsInt64_iff] at h ⊢
        omega
      rw [ofInt, if_pos h, ofInt, if_pos hfits, Int64.ofInt_neg]
      simp [negate?, hne]
  · rw [ofInt_of_not_fits h]
    rfl

end Term

/-- The text of a variable is the name of one, and not `_`. -/
theorem Variable.text_cases {v : Variable} (hv : v.WellFormed) :
    ∃ g t, v.text = g :: t ∧ CharClass.isVariableStart g.code ∧
      (∀ x ∈ t, CharClass.isAlphanumeric x.code) ∧ v.text ≠ [.char '_'] := by
  unfold Variable.text
  split
  · next h =>
    refine ⟨.char '_', .char 'G' :: Positional.decimal v.id, rfl, by decide, ?_, ?_⟩
    · intro x hx
      rcases List.mem_cons.1 hx with rfl | hx
      · decide
      · obtain ⟨ch, rfl, hd⟩ := Positional.isDecimal_of_mem_decimal hx
        exact CharClass.isAlphanumeric_of_isDecimal hd
    · intro h
      exact absurd (List.cons.inj h).2 (List.cons_ne_nil _ _)
  · next h =>
    rcases hv with hn | hn | ⟨g, t, hn, hs, hall⟩
    · exact absurd (.inl hn) h
    · exact absurd (.inr hn) h
    · exact ⟨g, t, hn, hs, hall, fun h' => h (.inr h')⟩

/-! ## One token after the other -/

namespace Reading

variable {d : Dialect} {r r' : Reading} {c c' : Cursor} {rest : Text}
variable {o : List (Enclosure × List Pending)} {b : Bindings} {t : Term}

theorem goes_of_yields {kind : TokenKind} {text : Text} {functional : Bool}
    (hy : c.Yields d.flags kind text functional rest)
    (h : r.step d ⟨kind, text, false, functional, c.place⟩ = .more r') :
    ∃ c', Goes d r c r' c' ∧ c'.Before rest := by
  obtain ⟨after, hs, hafter⟩ := hy
  exact ⟨after, .step hs h, hafter⟩

/-- A reading comes to hold a term that is `t` up to marks and numbers, before the text `rest`. -/
def Returns (d : Dialect) (o : List (Enclosure × List Pending)) (b : Bindings) (r : Reading)
    (c : Cursor) (t : Term) (rest : Text) : Prop :=
  ∃ r' c' b' u, Goes d r c r' c' ∧ c'.Before rest ∧ b.Grows b' ∧ Holds d o b' u r' ∧ u.Echoes b' t

theorem Returns.of_holding {u : Term} (h : Goes d r c (holding o b u) c') (hc : c'.Before rest)
    (hu : u.Echoes b t) : Returns d o b r c t rest :=
  ⟨_, c', b, u, h, hc, .refl b, .operand u, hu⟩

/-! ## Operands without parts -/

theorem returns_string {s : Text} (hflags : d.flags = .standard) (hv : s.IsValid)
    (hopen : Opens d r (fresh o b)) (hc : c.Before (s.quoted '"' ++ rest)) (hr : rest.Apart) :
    Returns d o b r c (.string s) rest := by
  obtain ⟨s, rfl⟩ := hv
  have hy : c.Yields d.flags .doubleQuoted (s.toList.map .char) false rest :=
    yields_doubleQuoted hc (by rw [hflags]; rfl) hr
  obtain ⟨c', hgoes, hc'⟩ := goes_of_yields hy ((hopen _ rfl).trans (step_doubleQuoted rfl))
  refine .of_holding hgoes hc' fun final _ => ⟨nofun, ?_⟩
  rw [hflags]
  rfl

theorem returns_var {v : Variable} (hv : v.WellFormed) (hopen : Opens d r (fresh o b))
    (hc : c.Before (v.text ++ rest)) (hr : rest.Apart) : Returns d o b r c (.var v) rest := by
  obtain ⟨g, t, htext, hs, hall, hne⟩ := Variable.text_cases hv
  have hy : c.Yields d.flags .variable v.text false rest := by
    rw [htext] at hc hne ⊢
    exact yields_variable hc hs hall hne hr
  obtain ⟨c', hgoes, hc'⟩ := goes_of_yields hy ((hopen _ rfl).trans (step_variable rfl))
  exact ⟨_, c', _, _, hgoes, hc', b.grows_named v.text, .operand _, Term.echoes_var⟩

/-- A number without a sign is one token. -/
theorem goes_number {kind : TokenKind} {text : Text} {n : Term}
    (hn : ∀ place, (⟨kind, text, false, false, place⟩ : Token).number? = some (.ok n))
    (hopen : Opens d r (fresh o b)) (hy : c.Yields d.flags kind text false rest) :
    ∃ c', Goes d r c (holding o b n) c' ∧ c'.Before rest :=
  goes_of_yields hy ((hopen _ (Token.goesOn_of_number? (hn c.place))).trans
    (step_number (hn c.place)))

/-- A negative number is two tokens: a minus, and the number without its sign. -/
theorem goes_negative {ch : Char} {u : Text} {kind : TokenKind} {n : Term}
    (hm : (d.table.prefixOperator? "-").isSome) (hch : CharClass.isDecimal ch)
    (hn : ∀ place, (⟨kind, .char ch :: u, false, false, place⟩ : Token).number? = some (.ok n))
    (hopen : Opens d r (fresh o b)) (hc : c.Before (.char '-' :: .char ch :: u ++ rest))
    (hy : ∀ ⦃c : Cursor⦄, c.Before (.char ch :: u ++ rest) →
      c.Yields d.flags kind (.char ch :: u) false rest) :
    ∃ c', Goes d r c (holding o b (n.negate?.getD n)) c' ∧ c'.Before rest := by
  obtain ⟨op, hop⟩ := Option.isSome_iff_exists.1 hm
  obtain ⟨c₁, hgoes, hc₁⟩ := goes_of_yields (yields_minus hc hch)
    ((hopen _ rfl).trans (step_minus rfl rfl rfl hop))
  let sign : Token := ⟨.atom, "-", false, false, c.place⟩
  obtain ⟨c₂, hgoes', hc₂⟩ :=
    goes_of_yields (hy hc₁) (step_signed (show sign.text = "-" from rfl) rfl (hn c₁.place))
  exact ⟨c₂, hgoes.trans hgoes', hc₂⟩

/-- An integer is read as the term of its value. -/
theorem goes_integer {n : Int} (hm : n < 0 → (d.table.prefixOperator? "-").isSome)
    (hopen : Opens d r (fresh o b)) (hc : c.Before (Positional.integer n ++ rest))
    (hr : rest.Apart) : ∃ c', Goes d r c (holding o b (.ofInt n)) c' ∧ c'.Before rest := by
  have hdigits : ∀ place, (⟨.integer 10, Positional.decimal n.natAbs, false, false, place⟩ :
      Token).number? = some (.ok (.ofInt n.natAbs)) :=
    fun _ => congrArg some (Term.ofDigits_decimal n.natAbs)
  unfold Positional.integer at hc
  split at hc
  · next hneg =>
    have hvalue : (Term.ofInt n.natAbs).negate?.getD (.ofInt n.natAbs) = .ofInt n := by
      rw [Term.negate?_ofInt, Option.getD_some, show -(n.natAbs : Int) = n by omega]
    obtain ⟨ch, u, hu, hch, -⟩ := Positional.exists_decimal_eq n.natAbs
    have hy : ∀ ⦃c : Cursor⦄, c.Before (Positional.decimal n.natAbs ++ rest) →
        c.Yields d.flags (.integer 10) (Positional.decimal n.natAbs) false rest :=
      fun _ hc => yields_decimal hc hr
    rw [hu] at hdigits hy hc
    rw [← hvalue]
    exact goes_negative (hm hneg) hch hdigits hopen hc hy
  · next hneg =>
    rw [show (n.natAbs : Int) = n by omega] at hdigits
    exact goes_number hdigits hopen (yields_decimal hc hr)

theorem goes_float {x : Binary64} (hx : x.IsFinite)
    (hm : x.isNegative → (d.table.prefixOperator? "-").isSome) (hopen : Opens d r (fresh o b))
    (hc : c.Before (x.render Term.floatNotation ++ rest)) (hr : rest.Apart) :
    ∃ c', Goes d r c (holding o b (.float x)) c' ∧ c'.Before rest := by
  obtain ⟨l, htext, hl⟩ := Binary64.exists_literal hx
  have hdigits : ∀ place, (⟨.float, l.text, false, false, place⟩ : Token).number? =
      some (.ok (.float (.ofFields false x.exponentField x.fraction))) :=
    fun _ => congrArg some hl
  rw [htext] at hc
  have hfields := x.ofFields_fields
  cases hsign : x.isNegative with
  | true =>
    rw [hsign] at hc hfields
    have hvalue : (Binary64.ofFields false x.exponentField x.fraction).negate = x := by
      rw [Binary64.negate_ofFields false x.exponentField_lt x.fraction_lt]
      exact hfields
    obtain ⟨ch, u, hu, hch⟩ := l.exists_text_eq
    have hy : ∀ ⦃c : Cursor⦄, c.Before (l.text ++ rest) →
        c.Yields d.flags .float l.text false rest := fun _ hc => l.yields hc hr
    rw [hu] at hdigits hy hc
    have hgoes := goes_negative (hm hsign) hch hdigits hopen hc hy
    rwa [Term.negate?, Option.getD_some, hvalue] at hgoes
  | false =>
    rw [hsign] at hc hfields
    rw [hfields] at hdigits
    exact goes_number hdigits hopen (l.yields hc hr)

/-- The token of a name, written as canonical text writes it. -/
theorem yields_atom {a : Atom} (hflags : d.flags = .standard) (ha : a.Faithful)
    (hbraces : a.name ≠ Atom.braces.name) (h : c.Before (a.text ++ rest)) (hr : rest.Apart)
    (hstop : Lexeme.endsSentence rest → Atom.isBare a.name → ¬a.name.EndsInStop) :
    ∃ kind, (kind = .atom ∧ Atom.isBare a.name ∨ kind = .quotedAtom) ∧
      c.Yields d.flags kind a.name (rest.head? = some (.char '(')) rest := by
  unfold Atom.text at h
  split at h
  · next hb =>
    exact ⟨.atom, .inl ⟨rfl, hb⟩, yields_bare h hb hbraces (ha.bare hb) hr fun he => hstop he hb⟩
  · next hb =>
    obtain ⟨s, hs⟩ := ha.quoted hb
    rw [hs] at h ⊢
    exact ⟨.quotedAtom, .inr rfl, yields_quotedAtom h (by rw [hflags]; rfl) hr⟩

theorem returns_atom {a : Atom} (hflags : d.flags = .standard) (ha : a.Faithful)
    (hopen : Opens d r (fresh o b)) (hc : c.Before (a.text ++ rest)) (hr : rest.Apart)
    (ho : rest.head? ≠ some (.char '('))
    (hstop : Lexeme.endsSentence rest → Atom.isBare a.name → ¬a.name.EndsInStop) :
    Returns d o b r c (.atom a) rest := by
  by_cases hbraces : a.name = Atom.braces.name
  · -- the atom of braces is a pair of brackets
    have htext : a.text ++ rest = .char '\x7b' :: .char '\x7d' :: rest := by
      rw [Atom.text, hbraces]
      rfl
    rw [htext] at hc
    obtain ⟨c₁, hgoes, hc₁⟩ := goes_of_yields (yields_solo hc rfl)
      ((hopen _ rfl).trans (step_openingCurly rfl))
    obtain ⟨c₂, hgoes', hc₂⟩ := goes_of_yields (yields_solo hc₁ rfl) (step_emptyBraces rfl)
    exact .of_holding (hgoes.trans hgoes') hc₂ (Term.echoes_atom hbraces.symm)
  · obtain ⟨kind, hkind, hy⟩ := yields_atom hflags ha hbraces hc hr hstop
    rw [decide_eq_false ho] at hy
    obtain ⟨r', hstep, hholds⟩ := step_name (d := d) (o := o) (b := b)
      (t := ⟨kind, a.name, false, false, c.place⟩) hkind rfl
    have hgo : kind.goesOn := by rcases hkind with ⟨rfl, -⟩ | rfl <;> rfl
    obtain ⟨c', hgoes, hc'⟩ := goes_of_yields hy ((hopen _ hgo).trans hstep)
    exact ⟨r', c', b, _, hgoes, hc', .refl b, hholds, Term.echoes_atom rfl⟩

/-! ## Operands with parts -/

/-- A term that is read back wherever an operand can stand. -/
def ReadsBack (d : Dialect) (t : Term) : Prop :=
  ∀ ⦃o b r c rest⦄, Opens d r (fresh o b) → c.Before (t.renderAt .whole rest) → rest.Apart →
    rest.head? ≠ some (.char '(') →
    (Lexeme.endsSentence rest → ∀ a, t = .atom a → Atom.isBare a.name → ¬a.name.EndsInStop) →
    Returns d o b r c t rest

/-- A term that is read back at the end of a list, together with the bracket that ends the list. -/
def EndsList (d : Dialect) (t : Term) : Prop :=
  ∀ ⦃o ps b r c rest done last⦄, Holds d ((.list done false, ps) :: o) b last r →
    c.Before (t.renderAt .listEnd rest) →
    ∃ c' b' u, Goes d r c ⟨o, ps, .operator ⟨.ofList (last :: done).reverse u, 0⟩, b'⟩ c' ∧
      c'.Before rest ∧ b.Grows b' ∧ u.Echoes b' t

/-- Before a character that is no parenthesis and ends no sentence. -/
theorem ReadsBack.before (h : ReadsBack d t) (hopen : Opens d r (fresh o b)) {ch : Char}
    (hc : c.Before (t.renderAt .whole (.char ch :: rest)))
    (hch : ch ∈ [',', '|', ')', ']', '\x7d']) :
    Returns d o b r c t (.char ch :: rest) := by
  obtain ⟨hapart, hround, hends⟩ : ch ∈ Text.separators ∧ ch ≠ '(' ∧
      (CharClass.isBlank ch || Glyph.char ch = .char '%') = false := by
    simp only [List.mem_cons, List.not_mem_nil, or_false] at hch
    rcases hch with rfl | rfl | rfl | rfl | rfl <;> decide
  refine h hopen hc ⟨ch, rest, rfl, hapart⟩ (by simpa using hround) fun he => ?_
  exact absurd he (by simpa [Lexeme.endsSentence, Glyph.code] using hends)

theorem renderAt_listEnd (hnil : t ≠ .nil) (hcons : ∀ x y, t ≠ .cons x y) (rest : Text) :
    t.renderAt .listEnd rest = .char '|' :: t.renderAt .whole (.char ']' :: rest) := by
  cases t with
  | nil => exact absurd rfl hnil
  | cons x y => exact absurd rfl (hcons x y)
  | compound f args =>
    simp only [Term.renderAt]
    split <;> rfl
  | _ => rfl

/-- Behind a bar. -/
theorem ReadsBack.endsList (h : ReadsBack d t) (hnil : t ≠ .nil) (hcons : ∀ x y, t ≠ .cons x y) :
    EndsList d t := by
  intro o ps b r c rest done last hholds hc
  rw [renderAt_listEnd hnil hcons] at hc
  obtain ⟨c₁, hgoes₁, hc₁⟩ := goes_of_yields (yields_solo hc rfl) (hholds.step_separate rfl)
  obtain ⟨r₂, c₂, b₂, u, hgoes₂, hc₂, hg, hholds₂, hu⟩ :=
    h.before (o := (.list (last :: done) true, ps) :: o) (b := b) (.refl d _) hc₁ (by decide)
  obtain ⟨c₃, hgoes₃, hc₃⟩ := goes_of_yields (yields_solo hc₂ rfl) (hholds₂.step_closing rfl)
  exact ⟨c₃, b₂, u, hgoes₁.trans (hgoes₂.trans hgoes₃), hc₃, hg, hu⟩

theorem endsList_nil (d : Dialect) : EndsList d .nil := by
  intro o ps b r c rest done last hholds hc
  obtain ⟨c₁, hgoes, hc₁⟩ := goes_of_yields (yields_solo hc rfl) (hholds.step_closing rfl)
  exact ⟨c₁, b, .nil, hgoes, hc₁, .refl b, fun _ _ => ⟨nofun, rfl⟩⟩

theorem readsBack_nil (d : Dialect) : ReadsBack d .nil := by
  intro o b r c rest hopen hc hr ho hstop
  obtain ⟨c₁, hgoes, hc₁⟩ := goes_of_yields (yields_solo hc rfl)
    ((hopen _ rfl).trans (step_openingSquare rfl))
  obtain ⟨c₂, hgoes', hc₂⟩ := goes_of_yields (yields_solo hc₁ rfl) (step_emptyList rfl)
  exact .of_holding (hgoes.trans hgoes') hc₂ fun _ _ => ⟨nofun, rfl⟩

/-- What the end of a list starts with. -/
theorem renderAt_listEnd_head (t : Term) (rest : Text) :
    ∃ ch u, t.renderAt .listEnd rest = .char ch :: u ∧ ch ∈ [',', '|', ')', ']', '\x7d'] := by
  by_cases hnil : t = .nil
  · subst hnil
    exact ⟨']', rest, rfl, by decide⟩
  · by_cases hcons : ∃ x y, t = .cons x y
    · obtain ⟨x, y, rfl⟩ := hcons
      exact ⟨',', _, rfl, by decide⟩
    · exact ⟨'|', _, renderAt_listEnd hnil (fun x y h => hcons ⟨x, y, h⟩) rest, by decide⟩

theorem readsBack_cons {head tail : Term} (hh : ReadsBack d head) (ht : EndsList d tail) :
    ReadsBack d (.cons head tail) := by
  intro o b r c rest hopen hc hr ho hstop
  obtain ⟨ch, u, hrest, hch⟩ := renderAt_listEnd_head tail rest
  obtain ⟨c₁, hgoes₁, hc₁⟩ := goes_of_yields (yields_solo hc rfl)
    ((hopen _ rfl).trans (step_openingSquare rfl))
  rw [hrest] at hc₁
  obtain ⟨r₂, c₂, b₂, x, hgoes₂, hc₂, hg₂, hholds, hx⟩ := hh.before (opens_list d []) hc₁ hch
  rw [← hrest] at hc₂
  obtain ⟨c₃, b₃, y, hgoes₃, hc₃, hg₃, hy⟩ := ht hholds hc₂
  exact ⟨_, c₃, b₃, _, hgoes₁.trans (hgoes₂.trans hgoes₃), hc₃, hg₂.trans hg₃, .operand _,
    Term.echoes_cons (hx.mono hg₃) hy⟩

theorem endsList_cons {head tail : Term} (hh : ReadsBack d head) (ht : EndsList d tail) :
    EndsList d (.cons head tail) := by
  intro o ps b r c rest done last hholds hc
  obtain ⟨ch, u, hrest, hch⟩ := renderAt_listEnd_head tail rest
  obtain ⟨c₁, hgoes₁, hc₁⟩ := goes_of_yields (yields_solo hc rfl) (hholds.step_separate rfl)
  rw [hrest] at hc₁
  obtain ⟨r₂, c₂, b₂, x, hgoes₂, hc₂, hg₂, hholds₂, hx⟩ :=
    hh.before (o := (.list (last :: done) false, ps) :: o) (b := b) (.refl d _) hc₁ hch
  rw [← hrest] at hc₂
  obtain ⟨c₃, b₃, y, hgoes₃, hc₃, hg₃, hy⟩ := ht hholds₂ hc₂
  refine ⟨c₃, b₃, .cons x y, ?_, hc₃, hg₂.trans hg₃, Term.echoes_cons (hx.mono hg₃) hy⟩
  have hlist : Term.ofList (x :: last :: done).reverse y =
      .ofList (last :: done).reverse (.cons x y) := by
    simp [Term.ofList]
  rw [← hlist]
  exact hgoes₁.trans (hgoes₂.trans hgoes₃)

/-- The arguments of a compound term with the parenthesis behind them. -/
theorem goes_arguments {args : List Term} (hne : args ≠ []) (h : ∀ x ∈ args, ReadsBack d x)
    {f : Atom} {done : List Term} {ps : List Pending}
    (hc : c.Before (Term.renderArguments args (.char ')' :: rest))) :
    ∃ c' b' xs, Goes d (fresh ((.arguments f done, ps) :: o) b) c
        ⟨o, ps, .operator ⟨.compound f (done.reverse ++ xs), 0⟩, b'⟩ c' ∧
      c'.Before rest ∧ b.Grows b' ∧ Term.EchoAll b' xs args := by
  induction args generalizing b c done with
  | nil => exact absurd rfl hne
  | cons x args ih =>
    have hx := h x List.mem_cons_self
    cases args with
    | nil =>
      obtain ⟨r₁, c₁, b₁, u, hgoes₁, hc₁, hg₁, hholds, hu⟩ :=
        hx.before (o := (.arguments f done, ps) :: o) (b := b) (.refl d _) hc (by decide)
      obtain ⟨c₂, hgoes₂, hc₂⟩ := goes_of_yields (yields_solo hc₁ rfl) (hholds.step_closing rfl)
      refine ⟨c₂, b₁, [u], ?_, hc₂, hg₁, .cons hu Term.echoAll_nil⟩
      have hclose : (Enclosure.arguments f done).close u = .compound f (done.reverse ++ [u]) := by
        simp [Enclosure.close]
      rw [← hclose]
      exact hgoes₁.trans hgoes₂
    | cons y ys =>
      have hys := fun z hz => h z (List.mem_cons_of_mem x hz)
      obtain ⟨r₁, c₁, b₁, u, hgoes₁, hc₁, hg₁, hholds, hu⟩ :=
        hx.before (o := (.arguments f done, ps) :: o) (b := b) (.refl d _) hc (by decide)
      obtain ⟨c₂, hgoes₂, hc₂⟩ := goes_of_yields (yields_solo hc₁ rfl) (hholds.step_separate rfl)
      obtain ⟨c₃, b₃, us, hgoes₃, hc₃, hg₃, hus⟩ := ih (by simp) hys hc₂
      refine ⟨c₃, b₃, u :: us, ?_, hc₃, hg₁.trans hg₃, .cons (hu.mono hg₃) hus⟩
      have hlist : done.reverse ++ u :: us = (u :: done).reverse ++ us := by simp
      rw [hlist]
      exact hgoes₁.trans (hgoes₂.trans hgoes₃)

theorem readsBack_compound {f : Atom} {args : List Term} (hflags : d.flags = .standard)
    (hf : f.Faithful) (hne : args ≠ []) (hb : f.name = Atom.braces.name → args.length = 1)
    (h : ∀ x ∈ args, ReadsBack d x) : ReadsBack d (.compound f args) := by
  intro o b r c rest hopen hc hr ho hstop
  by_cases hbraces : f.name = Atom.braces.name
  · -- a term in braces
    obtain ⟨x, rfl⟩ := List.length_eq_one_iff.1 (hb hbraces)
    have htext : (Term.compound f [x]).renderAt .whole rest =
        .char '\x7b' :: x.renderAt .whole (.char '\x7d' :: rest) := by
      simp [Term.renderAt, hbraces, Term.Position.before, Term.Position.after,
        Term.renderArguments]
    rw [htext] at hc
    obtain ⟨c₁, hgoes₁, hc₁⟩ := goes_of_yields (yields_solo hc rfl)
      ((hopen _ rfl).trans (step_openingCurly rfl))
    obtain ⟨r₂, c₂, b₂, u, hgoes₂, hc₂, hg, hholds, hu⟩ :=
      (h x List.mem_cons_self).before (opens_braces d []) hc₁ (by decide)
    obtain ⟨c₃, hgoes₃, hc₃⟩ := goes_of_yields (yields_solo hc₂ rfl) (hholds.step_closing rfl)
    exact ⟨_, c₃, b₂, _, hgoes₁.trans (hgoes₂.trans hgoes₃), hc₃, hg, .operand _,
      Term.echoes_compound hbraces.symm (.cons hu Term.echoAll_nil)⟩
  · have htext : (Term.compound f args).renderAt .whole rest =
        f.text ++ .char '(' :: Term.renderArguments args (.char ')' :: rest) := by
      simp [Term.renderAt, hbraces, Term.Position.before, Term.Position.after]
    rw [htext] at hc
    have hends : Lexeme.endsSentence
        (.char '(' :: Term.renderArguments args (.char ')' :: rest)) = false := by
      simp [Lexeme.endsSentence, Glyph.code, (by decide : CharClass.isBlank '(' = false)]
    obtain ⟨kind, hkind, hy⟩ := yields_atom hflags hf hbraces hc ⟨'(', _, rfl, by decide⟩
      fun he => absurd he (Bool.eq_false_iff.1 hends)
    rw [List.head?_cons, decide_eq_true rfl] at hy
    have hgo : kind.goesOn := by rcases hkind with ⟨rfl, -⟩ | rfl <;> rfl
    obtain ⟨c₁, hgoes₁, hc₁⟩ := goes_of_yields hy
      ((hopen _ hgo).trans (step_functor (hkind.imp_left And.left) rfl))
    obtain ⟨c₂, hgoes₂, hc₂⟩ := goes_of_yields (yields_solo hc₁ rfl) (step_arguments rfl)
    obtain ⟨c₃, b₃, xs, hgoes₃, hc₃, hg, hxs⟩ := goes_arguments hne h hc₂
    exact ⟨_, c₃, b₃, _, hgoes₁.trans (hgoes₂.trans hgoes₃), hc₃, hg, .operand _,
      Term.echoes_compound rfl hxs⟩

/-- Every readable term is read back, by itself and at the end of a list. -/
theorem readsBack_of_readable (hflags : d.flags = .standard) (h : t.Readable d.table) :
    ReadsBack d t ∧ EndsList d t := by
  -- Lists are written without their inner brackets, so the induction carries both positions.
  induction h with
  | atom ha =>
    have hwhole : ReadsBack d (.atom _) := fun o b r c rest hopen hc hr ho hstop =>
      returns_atom hflags ha hopen hc hr ho fun he => hstop he _ rfl
    exact ⟨hwhole, hwhole.endsList nofun nofun⟩
  | @integer n hm =>
    have hwhole : ReadsBack d (.integer n) := by
      intro o b r c rest hopen hc hr ho hstop
      obtain ⟨c', hgoes, hc'⟩ := goes_integer hm hopen hc hr
      rw [Term.ofInt_toInt] at hgoes
      exact .of_holding hgoes hc' fun _ _ => ⟨nofun, rfl⟩
    exact ⟨hwhole, hwhole.endsList nofun nofun⟩
  | @bigInteger n hn hm =>
    have hwhole : ReadsBack d (.bigInteger n) := by
      intro o b r c rest hopen hc hr ho hstop
      obtain ⟨c', hgoes, hc'⟩ := goes_integer hm hopen hc hr
      rw [Term.ofInt_of_not_fits hn] at hgoes
      exact .of_holding hgoes hc' fun _ _ => ⟨nofun, rfl⟩
    exact ⟨hwhole, hwhole.endsList nofun nofun⟩
  | @float x hx hm =>
    have hwhole : ReadsBack d (.float x) := by
      intro o b r c rest hopen hc hr ho hstop
      obtain ⟨c', hgoes, hc'⟩ := goes_float hx hm hopen hc hr
      exact .of_holding hgoes hc' fun _ _ => ⟨nofun, rfl⟩
    exact ⟨hwhole, hwhole.endsList nofun nofun⟩
  | string hv =>
    have hwhole : ReadsBack d (.string _) := fun o b r c rest hopen hc hr ho hstop =>
      returns_string hflags hv hopen hc hr
    exact ⟨hwhole, hwhole.endsList nofun nofun⟩
  | var hv =>
    have hwhole : ReadsBack d (.var _) := fun o b r c rest hopen hc hr ho hstop =>
      returns_var hv hopen hc hr
    exact ⟨hwhole, hwhole.endsList nofun nofun⟩
  | compound hf hne hb hargs ih =>
    have hwhole := readsBack_compound hflags hf hne hb fun x hx => (ih x hx).1
    exact ⟨hwhole, hwhole.endsList nofun nofun⟩
  | nil => exact ⟨readsBack_nil d, endsList_nil d⟩
  | cons hh ht ihh iht =>
    exact ⟨readsBack_cons ihh.1 iht.2, endsList_cons ihh.1 iht.2⟩

end Reading

/-! ## Canonical text is one line -/

namespace Term

theorem Position.after_append (p : Position) (u v : Text) :
    p.after (u ++ v) = p.after u ++ v := by
  cases p <;> rfl

mutual

theorem renderAt_append (p : Position) (t : Term) (u v : Text) :
    t.renderAt p (u ++ v) = t.renderAt p u ++ v := by
  cases t with
  | compound f args =>
    have hclose : ∀ ch, Glyph.char ch :: p.after (u ++ v) = (.char ch :: p.after u) ++ v := by
      simp [p.after_append]
    simp only [renderAt, hclose, renderArguments_append args]
    split <;> simp
  | nil => cases p <;> rfl
  | cons head tail =>
    simp only [renderAt, renderAt_append .listEnd tail u v, renderAt_append .whole head]
    rfl
  | _ => simp [renderAt, p.after_append]

theorem renderArguments_append (ts : List Term) (u v : Text) :
    renderArguments ts (u ++ v) = renderArguments ts u ++ v := by
  cases ts with
  | nil => rfl
  | cons t ts =>
    have hrest : (if ts.isEmpty then u ++ v else .char ',' :: renderArguments ts (u ++ v)) =
        (if ts.isEmpty then u else .char ',' :: renderArguments ts u) ++ v := by
      rw [renderArguments_append ts u v]
      split <;> rfl
    rw [renderArguments, hrest, renderAt_append .whole t, renderArguments]

end

end Term

theorem Text.newline_not_mem_of_not_blank {t : Text}
    (h : ∀ x ∈ t, CharClass.isBlank x.code = false) : .char '\n' ∉ t :=
  fun hmem => absurd (h _ hmem) (by decide)

theorem Text.newline_not_mem_quoted {q : Char} (hq : q = '\'' ∨ q = '"') (t : Text) :
    .char '\n' ∉ t.quoted q := by
  have hquote : q ≠ '\n' := by rcases hq with rfl | rfl <;> decide
  have hchars : ∀ c, .char '\n' ∉ Text.quotedChar q c := by
    intro c
    rcases Escape.quotedChar_cases hq c with ⟨heq, -, -, hne⟩ | ⟨e, heq, hne, -⟩
    · simpa [heq] using hne.symm
    · simp [heq, hne]
  simp [Text.quoted, hquote.symm, hchars]

theorem Atom.newline_not_mem_text (a : Atom) : .char '\n' ∉ a.text := by
  unfold Atom.text
  split
  · next hb =>
    by_cases hbraces : a.name = braces.name
    · rw [hbraces]
      decide
    · rcases isBare_cases hb hbraces with h | h | ⟨g, t, -, -, hall⟩ | ⟨g, t, -, hall, -⟩
      · rw [h]
        decide
      · rw [h]
        decide
      · exact Text.newline_not_mem_of_not_blank fun x hx =>
          CharClass.isBlank_eq_false_of_isAlphanumeric (hall x hx)
      · exact Text.newline_not_mem_of_not_blank fun x hx =>
          CharClass.isBlank_eq_false_of_isGraphic (hall x hx)
  · exact Text.newline_not_mem_quoted (.inl rfl) a.name

theorem Variable.newline_not_mem_text {v : Variable} (hv : v.WellFormed) : .char '\n' ∉ v.text := by
  obtain ⟨g, t, htext, hs, hall, -⟩ := text_cases hv
  refine Text.newline_not_mem_of_not_blank fun x hx => ?_
  rw [htext] at hx
  rcases List.mem_cons.1 hx with rfl | hx
  · exact CharClass.isBlank_eq_false_of_isAlphanumeric
      (CharClass.isAlphanumeric_of_isVariableStart hs)
  · exact CharClass.isBlank_eq_false_of_isAlphanumeric (hall x hx)

theorem Positional.newline_not_mem_integer (n : Int) : .char '\n' ∉ integer n := by
  have hd : .char '\n' ∉ decimal n.natAbs := by
    intro h
    obtain ⟨c, hc, hdec⟩ := isDecimal_of_mem_decimal h
    cases hc
    exact absurd hdec (by decide)
  unfold integer
  split <;> simp [hd]

theorem Binary64.newline_not_mem_render (x : Binary64) :
    .char '\n' ∉ x.render Term.floatNotation := by
  by_cases hx : x.IsFinite
  · obtain ⟨l, htext, -⟩ := exists_literal hx
    rw [htext]
    have hl : .char '\n' ∉ l.text := l.not_mem_text (by decide) (by decide)
    split <;> simp [hl]
  · have hfield : x.exponentField = 2047 := by
      have hle : 2047 ≤ x.exponentField := Nat.le_of_not_lt hx
      have hlt := x.exponentField_lt
      omega
    unfold render
    split
    · decide
    · next hnan =>
      rw [if_pos (by simp_all [isNaN, isInfinite])]
      split <;> decide

namespace Term

variable {table : Table} {t : Term} {rest : Text}

mutual

/-- The canonical text of a term has no newlines, unless the name of a variable has. -/
theorem newline_not_mem_renderAt (p : Position) (t : Term) (hv : ∀ v ∈ t.vars, v.WellFormed)
    {rest : Text} (hr : .char '\n' ∉ rest) : .char '\n' ∉ t.renderAt p rest := by
  have hafter : .char '\n' ∉ p.after rest := by cases p <;> simp [Position.after, hr]
  have hbefore : .char '\n' ∉ p.before := by cases p <;> decide
  cases t with
  | atom a => simp [renderAt, hbefore, hafter, a.newline_not_mem_text]
  | integer | bigInteger => simp [renderAt, hbefore, hafter, Positional.newline_not_mem_integer]
  | float x => simp [renderAt, hbefore, hafter, x.newline_not_mem_render]
  | string s => simp [renderAt, hbefore, hafter, Text.newline_not_mem_quoted (.inr rfl) s]
  | var v =>
    have hv := Variable.newline_not_mem_text (hv v List.mem_cons_self)
    simp [renderAt, hbefore, hafter, hv]
  | compound f args =>
    have hargs (ch : Char) (hch : ch ≠ '\n') :
        .char '\n' ∉ renderArguments args (.char ch :: p.after rest) :=
      newline_not_mem_renderArguments args hv (by simpa [hch.symm] using hafter)
    rw [renderAt]
    split <;> simp [hbefore, hargs, f.newline_not_mem_text]
  | nil => cases p <;> simp [renderAt, hr]
  | cons head tail =>
    obtain ⟨hhead, htail⟩ := List.forall_mem_append.1 hv
    have hbehind := newline_not_mem_renderAt .listEnd tail htail hr
    have hwhole := newline_not_mem_renderAt .whole head hhead hbehind
    cases p <;> simp [renderAt, hwhole]

theorem newline_not_mem_renderArguments (ts : List Term) (hv : ∀ v ∈ varsOfAll ts, v.WellFormed)
    {rest : Text} (hr : .char '\n' ∉ rest) : .char '\n' ∉ renderArguments ts rest := by
  cases ts with
  | nil => exact hr
  | cons t ts =>
    obtain ⟨ht, hts⟩ := List.forall_mem_append.1 hv
    rw [renderArguments]
    refine newline_not_mem_renderAt .whole t ht ?_
    split
    · exact hr
    · simpa using newline_not_mem_renderArguments ts hts hr

end

theorem exists_mem_of_mem_varsOfAll {ts : List Term} {v : Variable} (h : v ∈ varsOfAll ts) :
    ∃ t ∈ ts, v ∈ t.vars := by
  induction ts with
  | nil => cases h
  | cons t ts ih =>
    rcases List.mem_append.1 h with h | h
    · exact ⟨t, List.mem_cons_self, h⟩
    · obtain ⟨u, hu, hv⟩ := ih h
      exact ⟨u, List.mem_cons_of_mem _ hu, hv⟩

theorem Readable.wellFormed {table : Table} {t : Term} (h : t.Readable table) :
    ∀ v ∈ t.vars, v.WellFormed := by
  induction h with
  | var hv => simpa [vars] using hv
  | compound _ _ _ _ ih =>
    intro v hv
    obtain ⟨x, hx, hv⟩ := exists_mem_of_mem_varsOfAll hv
    exact ih x hx v hv
  | cons _ _ ihh iht => exact List.forall_mem_append.2 ⟨ihh, iht⟩
  | atom | integer | bigInteger | float | string | nil => exact nofun

end Term

/-! ## The whole text -/

/-- An operand at the top of a sentence that is no bare atom with a prefix definition. -/
theorem Reading.Holds.eq_holding {d : Dialect} {b b' : Bindings} {u t : Term} {r : Reading}
    (h : Holds d [] b u r) (hu : u.Echoes b' t)
    (halone : ∀ a, t = .atom a → Atom.isBare a.name → d.table.prefixOperator? a.name = none) :
    r = holding [] b u := by
  have hatom : ∀ a, u = .atom a → ∃ a', t = .atom a' ∧ a'.name = a.name := by
    rintro a rfl
    obtain ⟨-, hmap⟩ := hu b' (.refl b')
    cases t <;> simp_all [Term.map, Atom.unmarked, Atom.plain]
  cases h with
  | operand => rfl
  | waiting hp hb | sign hp hb =>
    obtain ⟨a, rfl, hname⟩ := hatom _ rfl
    have hnone := halone a rfl (by rw [hname]; exact hb)
    rw [hname] at hnone
    cases hnone.symm.trans hp.2.2

theorem scanUncommented_of_ne {flags : Flags} {c after : Cursor} {t : Token}
    (hs : scan flags c = .token t after) (hk : t.kind ≠ .comment) :
    scanUncommented flags c = .token t after := by
  rw [scanUncommented]
  split
  · next hs' =>
    cases hs.symm.trans hs'
    simp [hk]
  · next h => exact absurd hs (h t after)

/-- Reading a text of one sentence: its tokens, the one that completes it, and the end. -/
theorem SingleRead.result_of_feed {d : Dialect} {issued : Nat} {text : Text} {ts : List Token}
    {stop eof : Token} {c after after' : Cursor} {r : Reading} {u : Term} {b : Bindings}
    (hs : Scans d.flags (.ofText text) ts c) (hfeed : (Reading.start issued).feed d ts = .more r)
    (hstop : scan d.flags c = .token stop after) (hdone : r.step d stop = .done u b)
    (hk : stop.kind ≠ .comment) (heof : scan d.flags after = .token eof after')
    (hk' : eof.kind = .endOfFile) : (SingleRead.ofText d issued text).result = .ok u := by
  have hrun : Run.at d issued (.ofText text) =
      .conclude r (stop :: (ts.reverse ++ [])).reverse after (.done u b) := by
    rw [Run.at, Reading.run_of_feed_more hs hfeed,
      Reading.run_over hstop hk (by simp [hdone]), hdone]
  have hend : scanUncommented d.flags after = .token eof after' :=
    scanUncommented_of_ne heof (by simp [hk'])
  simp [SingleRead.ofText, hrun, Run.conclude, Sentence.ofTokens, hend, hk']

/-- The canonical text of a readable term, with a full stop after it, is read as a term that is the
same up to marks and numbers. An atom by itself may be no prefix operator, and may not end in a full
stop that would be taken for the end of the sentence. -/
theorem SingleRead.exists_echo {d : Dialect} (hflags : d.flags = .standard) (issued : Nat)
    {t : Term} (ht : t.Readable d.table)
    (halone : ∀ a, t = .atom a → Atom.isBare a.name →
      d.table.prefixOperator? a.name = none ∧ ¬a.name.EndsInStop) :
    ∃ u b, (SingleRead.ofText d issued (t.canonical ++ " .")).result = .ok u ∧ b.Distinct ∧
      u.Echoes b t := by
  have htext : t.canonical ++ (" ." : Text) = t.renderAt .whole " ." :=
    (Term.renderAt_append .whole t [] " .").symm
  have hbefore : (Cursor.ofText (t.canonical ++ " .")).Before (t.renderAt .whole " .") := by
    rw [htext]
    exact Cursor.before_ofText (Term.newline_not_mem_renderAt .whole t ht.wellFormed (by decide))
  obtain ⟨r, c, b, u, ⟨ts, hts, hfeed⟩, hc, hg, hholds, hu⟩ :=
    (Reading.readsBack_of_readable hflags ht).1
      (.refl d (.fresh [] (.startingAfter issued))) hbefore ⟨' ', _, rfl, by decide⟩ (by decide)
      fun _ a ha hb => (halone a ha hb).2
  -- At the top of a sentence a prefix operator without an argument would be an error.
  cases hholds.eq_holding hu fun a ha hb => (halone a ha hb).1
  obtain ⟨stop, after, hstop, hk, hafter⟩ :
      ∃ t after, scan d.flags c = .token t after ∧ t.kind = .stop ∧ after.Before [] := scan_stop hc
  obtain ⟨eof, heof, hk'⟩ :
      ∃ t, scan d.flags after = .token t after ∧ t.kind = .endOfFile := scan_endOfFile hafter
  exact ⟨u, b, result_of_feed hts hfeed hstop (Reading.step_stop hk) (by simp [hk]) heof hk',
    hg.distinct (Bindings.distinct_startingAfter issued), hu⟩

/-- The canonical text of a legible term, with a full stop after it, is read as the term again: up
to the marks of atoms, and with a number of its own for each variable. Two variables that are
written alike would be read as one. An atom by itself may be no prefix operator, and may not end in
a full stop that would be taken for the end of the sentence. -/
theorem SingleRead.ofText_canonical {d : Dialect} (hflags : d.flags = .standard) (issued : Nat)
    {t : Term} (ht : t.Legible d.table)
    (hvars : ∀ v ∈ t.vars, ∀ w ∈ t.vars, v.text = w.text → v = w)
    (halone : ∀ a, t = .atom a → Atom.isBare a.name →
      d.table.prefixOperator? a.name = none ∧ ¬a.name.EndsInStop) :
    ∃ u number, (SingleRead.ofText d issued (t.canonical ++ " .")).result = .ok u ∧
      (∀ v ∈ t.vars, ∀ w ∈ t.vars, number v = number w → v = w) ∧
      u.unmarked = (t.renumbered number).unmarked := by
  obtain ⟨u, b, hresult, hdistinct, hu⟩ := exists_echo hflags issued ht.readable halone
  obtain ⟨hknown, hmap⟩ := hu b (.refl b)
  refine ⟨u, fun v => b.number v.text, hresult, ?_, ?_⟩
  · intro v hv w hw h
    -- Equal numbers belong to equal texts, and no two variables have the same text.
    exact hvars v hv w hw (hdistinct.eq_of_number (hknown v hv) (hknown w hw) h)
  · rw [Term.renumbered, Term.unmarked, Term.unmarked, Term.map_map, hmap]
    rfl

/-- A term with operators for arguments, both bounds of 64 bits, and variables that occur twice. -/
def Term.motley : Term :=
  .compound (.plain "p q")
    [.cons (.atom (.plain "-")) (.cons (.var ⟨"X", 3⟩) (.var ⟨"_", 7⟩)),
      .inBraces (.atom (.plain ":-")), .integer Int64.minValue, .bigInteger 9223372036854775808,
      .string "a\n\"\x07", .atom .braces, .var ⟨"X", 3⟩, .nil]

theorem Term.legible_motley : Term.motley.Legible Dialect.standard.table := by
  refine .compound ⟨"p q", rfl⟩ (fun h => absurd h.1 (by decide)) (by simp) (by decide) ?_
  simp only [List.forall_mem_cons, List.not_mem_nil, false_implies, implies_true, and_true]
  refine ⟨.cons (.atom ⟨"-", rfl⟩ fun h => absurd h.2 (by decide))
      (.cons (.var (.inr (.inr ⟨_, _, rfl, by decide, by decide⟩))) (.var (.inr (.inl rfl)))),
    .compound ⟨_, rfl⟩ (fun h => absurd h.1 (by decide)) (by simp) (by simp) ?_,
    .integer fun _ => by decide, .bigInteger (by decide) (by decide), .string ⟨_, rfl⟩,
    .atom ⟨_, rfl⟩ (fun h => absurd h.1 (by decide)),
    .var (.inr (.inr ⟨_, _, rfl, by decide, by decide⟩)), .nil⟩
  rintro x hx
  rw [List.mem_singleton.1 hx]
  exact .atom ⟨_, rfl⟩ fun h => absurd h.2 (by decide)

theorem SingleRead.ofText_canonical_motley :
    ∃ u number,
      (SingleRead.ofText .standard 0 (Term.motley.canonical ++ " .")).result = .ok u ∧
        (∀ v ∈ Term.motley.vars, ∀ w ∈ Term.motley.vars, number v = number w → v = w) ∧
        u.unmarked = (Term.motley.renumbered number).unmarked :=
  ofText_canonical rfl 0 Term.legible_motley (by decide +kernel) nofun

end PrologText
