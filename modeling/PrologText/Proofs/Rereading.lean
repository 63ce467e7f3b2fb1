import PrologText.Proofs.ReadTerms

/-!
# Reading a term again

The canonical text of a term that was read from some bytes, with a full stop after it, is read
again, and what it is read as has the same canonical text (`SingleRead.exists_reread`). This does
not hold where a name without quotes is not read as this name: if a comment starts inside it, if it
is `{}` with arguments in parentheses, and if the term is an atom that is a prefix operator or ends
in a full stop (`SingleRead.not_reread`).

What is read need not be the term: stray bytes between quotes become characters. So the proof goes
by a term that is written in the same way and can be read back, `Term.mended`.
-/

namespace PrologText

/-! ## Stray bytes -/

namespace Text

variable {t : Text}

/-- The text with its stray bytes replaced by the character that stands for them. -/
def repaired (t : Text) : Text :=
  t.map fun g => .char g.code

theorem isValid_repaired (t : Text) : t.repaired.IsValid :=
  ⟨String.ofList (t.map Glyph.code), by simp [repaired, ofString, Function.comp_def]⟩

/-- Stray bytes are quoted as the character that stands for them. -/
theorem quoted_repaired (q : Char) (t : Text) : t.repaired.quoted q = t.quoted q := by
  simp [quoted, repaired, List.flatMap_map, Glyph.code]

theorem repaired_ofString (s : String) : repaired s = s := by
  simp [repaired, ofString, Glyph.code]

theorem eq_of_repaired_eq {cs : List Char} (hcs : Glyph.replacement ∉ cs)
    (h : t.repaired = cs.map .char) : t = cs.map .char := by
  induction cs generalizing t with
  | nil => simpa [repaired] using h
  | cons c cs ih =>
    obtain ⟨hc, hcs⟩ := List.ne_and_not_mem_of_not_mem_cons hcs
    cases t with
    | nil => cases h
    | cons g t =>
      obtain ⟨hg, ht⟩ := List.cons.inj h
      rw [List.map_cons, ih hcs ht, Glyph.eq_char_of_code hc.symm (Glyph.char.inj hg)]

theorem repaired_eq_iff {s : String} (hs : Glyph.replacement ∉ s.toList) :
    t.repaired = s ↔ t = s :=
  ⟨eq_of_repaired_eq hs, fun h => h ▸ repaired_ofString s⟩

theorem startsWith_repaired {s : String} (hs : Glyph.replacement ∉ s.toList) :
    t.repaired.startsWith s = t.startsWith s := by
  have htake (n : Nat) : t.repaired.take n = repaired (t.take n) := (List.map_take ..).symm
  rw [Bool.eq_iff_iff, startsWith, startsWith, List.isPrefixOf_iff_prefix,
    List.isPrefixOf_iff_prefix, List.prefix_iff_eq_take, List.prefix_iff_eq_take, htake,
    eq_comm, repaired_eq_iff hs, eq_comm]

theorem stray_not_mem_quoted (b : UInt8) (q : Char) (t : Text) : .stray b ∉ t.quoted q := by
  have hchar (c : Char) : .stray b ∉ quotedChar q c := by
    have hhex : .stray b ∉ Positional.text 16 c.toNat := by
      intro h
      obtain ⟨d, -, hd⟩ := Positional.exists_of_mem_text (by decide) h
      cases hd
    unfold quotedChar
    split
    · simp
    · split
      · simp
      · split
        · simp [ofString]
        · split <;> simp [ofString, hhex]
  simp [quoted, hchar]

end Text

namespace Atom

/-- Whether a name can stand without quotes does not depend on which bytes are stray. -/
theorem isBare_repaired (name : Text) : isBare name.repaired = isBare name := by
  have hslash : name.repaired.startsWith "/*" = name.startsWith "/*" :=
    Text.startsWith_repaired (by decide)
  unfold isBare
  simp (disch := decide) only [List.map_cons, List.map_nil, List.mem_cons, Text.repaired_eq_iff]
  cases name with
  | nil => rfl
  | cons g t =>
    have hcons : Text.repaired (g :: t) = .char g.code :: Text.repaired t := rfl
    have hall (p : Char → Bool) : List.all (.char g.code :: Text.repaired t) (fun g => p g.code) =
        List.all (g :: t) fun g => p g.code := by
      simp [Text.repaired, Glyph.code, Function.comp_def]
    have hcode : (Glyph.char g.code).code = g.code := rfl
    rw [hcons] at hslash ⊢
    simp only [hslash, hall CharClass.isAlphanumeric, hall CharClass.isGraphic, hcode,
      List.not_mem_nil]

/-- The atom with the stray bytes of its name replaced, unless it stands without quotes. -/
def mended (a : Atom) : Atom :=
  if isBare a.name then a else { a with name := a.name.repaired }

variable {a : Atom}

theorem mended_of_isBare (h : isBare a.name) : a.mended = a :=
  if_pos h

theorem isBare_mended (a : Atom) : isBare a.mended.name = isBare a.name := by
  unfold mended
  split
  · rfl
  · exact isBare_repaired a.name

theorem text_mended (a : Atom) : a.mended.text = a.text := by
  rw [text, text, isBare_mended]
  split
  · next h => rw [mended_of_isBare h]
  · next h => rw [mended, if_neg h, Text.quoted_repaired]

theorem name_mended_eq_iff {name : Text} (h : isBare name) :
    a.mended.name = name ↔ a.name = name := by
  by_cases ha : isBare a.name
  · rw [mended_of_isBare ha]
  · -- neither name can stand without quotes
    have hmended : ¬isBare a.mended.name := by rwa [isBare_mended]
    exact ⟨fun he => absurd (he ▸ h) hmended, fun he => absurd (he ▸ h) ha⟩

theorem faithful_mended (h : isBare a.name → ¬a.name.HidesComment) : a.mended.Faithful := by
  refine ⟨fun hb => ?_, fun hb => ?_⟩
  · rw [isBare_mended] at hb
    rw [mended_of_isBare hb]
    exact h hb
  · rw [isBare_mended] at hb
    rw [mended, if_neg hb]
    exact Text.isValid_repaired a.name

end Atom

namespace Term

mutual

/-- A term that is written like `t`, with all stray bytes replaced that can be, and with integers of
64 bits wherever they fit. -/
def mended : Term → Term
  | atom a => atom a.mended
  | bigInteger n => ofInt n
  | string s => string s.repaired
  | compound f args => compound f.mended (mendedAll args)
  | cons head tail => cons (mended head) (mended tail)
  | t => t

/-- Mends some terms. -/
def mendedAll : List Term → List Term
  | [] => []
  | t :: ts => mended t :: mendedAll ts

end

theorem mendedAll_eq_map (ts : List Term) : mendedAll ts = ts.map mended := by
  induction ts with
  | nil => rfl
  | cons t ts ih => rw [mendedAll, ih, List.map_cons]

theorem exists_atom_of_mended {t : Term} {a : Atom} (h : t.mended = .atom a) :
    ∃ a', t = .atom a' ∧ a = a'.mended := by
  cases t with
  | atom a' => exact ⟨a', rfl, (Term.atom.inj h).symm⟩
  | bigInteger n =>
    rw [mended, ofInt] at h
    split at h <;> cases h
  | integer | float | string | var | compound | nil | cons => cases h

theorem renderAt_ofInt (p : Position) (n : Int) (rest : Text) :
    (ofInt n).renderAt p rest = (bigInteger n).renderAt p rest := by
  unfold ofInt
  split
  · next h => rw [renderAt, renderAt, Int64.toInt_ofInt_of_le h.1 (lt_of_le_of_lt h.2 (by decide))]
  · rfl

mutual

theorem renderAt_mended (p : Position) (t : Term) (rest : Text) :
    t.mended.renderAt p rest = t.renderAt p rest := by
  cases t with
  | atom a => rw [mended, renderAt, renderAt, Atom.text_mended]
  | bigInteger n => exact renderAt_ofInt p n rest
  | string s => rw [mended, renderAt, renderAt, Text.quoted_repaired]
  | compound f args =>
    have hbraces : f.mended.name = Atom.braces.name ↔ f.name = Atom.braces.name :=
      Atom.name_mended_eq_iff (by decide)
    have hlength : (mendedAll args).length = args.length := by
      rw [mendedAll_eq_map, List.length_map]
    simp only [mended, renderAt, Atom.text_mended, renderArguments_mendedAll args, hbraces, hlength]
  | cons head tail =>
    simp only [mended, renderAt, renderAt_mended .listEnd tail, renderAt_mended .whole head]
  | integer | float | var | nil => rfl

theorem renderArguments_mendedAll (ts : List Term) (rest : Text) :
    renderArguments (mendedAll ts) rest = renderArguments ts rest := by
  cases ts with
  | nil => rfl
  | cons t ts =>
    rw [mendedAll, renderArguments, renderArguments, renderArguments_mendedAll ts,
      renderAt_mended .whole t, mendedAll_eq_map, List.isEmpty_map]

end

/-! ## Names that are not written as they are -/

mutual

/-- The names of a term, each with the number of its arguments. -/
def names : Term → List (Text × Nat)
  | atom a => [(a.name, 0)]
  | compound f args => (f.name, args.length) :: namesOfAll args
  | cons head tail => names head ++ names tail
  | _ => []

/-- The names of some terms. -/
def namesOfAll : List Term → List (Text × Nat)
  | [] => []
  | t :: ts => names t ++ namesOfAll ts

end

theorem mem_namesOfAll {ts : List Term} {t : Term} (h : t ∈ ts) {x : Text × Nat}
    (hx : x ∈ t.names) : x ∈ namesOfAll ts := by
  induction ts with
  | nil => cases h
  | cons u ts ih =>
    rcases List.mem_cons.1 h with rfl | h
    · exact List.mem_append_left _ hx
    · exact List.mem_append_right _ (ih h)

end Term

/-- Whether a name with some arguments is written in such a way that it can be read as this name: no
comment starts inside it, and it is not `{}` with arguments in parentheses. -/
def Atom.IsClear (name : Text) (arity : Nat) : Prop :=
  isBare name → ¬name.HidesComment ∧ (name = braces.name → arity ≤ 1)

instance (name : Text) (arity : Nat) : Decidable (Atom.IsClear name arity) :=
  inferInstanceAs (Decidable (_ → _))

namespace Term

theorem readable_ofInt {table : Table} (hminus : (table.prefixOperator? "-").isSome) (n : Int) :
    (ofInt n).Readable table := by
  unfold ofInt
  split
  · exact .integer fun _ => hminus
  · next h => exact .bigInteger h fun _ => hminus

/-- A proper term with clear names is written like one that can be read back. -/
theorem Proper.readable_mended {table : Table} (hminus : (table.prefixOperator? "-").isSome)
    {t : Term} (h : t.Proper) (hnames : ∀ x ∈ t.names, Atom.IsClear x.1 x.2) :
    t.mended.Readable table := by
  induction h with
  | @atom a _ =>
    have hclear := hnames (a.name, 0) (by simp [names])
    exact .atom (Atom.faithful_mended fun hb => (hclear hb).1)
  | integer => exact .integer fun _ => hminus
  | bigInteger => exact readable_ofInt hminus _
  | float hx => exact .float hx fun _ => hminus
  | string => exact .string (Text.isValid_repaired _)
  | var hv _ => exact .var hv
  | @compound f args _ hne _ ih =>
    have hclear := hnames (f.name, args.length) (by simp [names])
    have hpos : 0 < args.length := List.length_pos_iff.2 hne
    rw [mended, mendedAll_eq_map]
    refine .compound (Atom.faithful_mended fun hb => (hclear hb).1) (by simpa using hne) ?_ ?_
    · rw [Atom.name_mended_eq_iff (by decide), List.length_map]
      intro hbraces
      have hbare : Atom.isBare f.name := by
        rw [hbraces]
        decide
      have hone : args.length ≤ 1 := (hclear hbare).2 hbraces
      omega
    · intro x hx
      obtain ⟨y, hy, rfl⟩ := List.mem_map.1 hx
      exact ih y hy fun z hz => hnames z (List.mem_cons_of_mem _ (mem_namesOfAll hy hz))
  | nil => exact .nil
  | cons _ _ ihh iht =>
    exact .cons (ihh fun x hx => hnames x (List.mem_append_left _ hx))
      (iht fun x hx => hnames x (List.mem_append_right _ hx))

end Term

/-! ## The bytes of canonical text -/

theorem Atom.isJoined_text {a : Atom} (h : a.name.IsJoined) : a.text.IsJoined := by
  unfold text
  split
  · exact h
  · exact Text.isJoined_of_not_mem fun b => Text.stray_not_mem_quoted b _ _

theorem Positional.stray_not_mem_decimal (b : UInt8) (n : Nat) : .stray b ∉ decimal n := by
  intro h
  obtain ⟨c, hc, -⟩ := isDecimal_of_mem_decimal h
  cases hc

theorem Positional.isJoined_integer (n : Int) : (integer n).IsJoined := by
  refine Text.isJoined_of_not_mem fun b => ?_
  unfold integer
  split <;> simp [stray_not_mem_decimal]

theorem Variable.isJoined_text {v : Variable} (h : v.name.IsJoined) : v.text.IsJoined := by
  unfold text
  split
  · refine Text.isJoined_of_not_mem fun b => ?_
    simp [Text.ofString, Positional.stray_not_mem_decimal]
  · exact h

theorem Binary64.isJoined_render {x : Binary64} (h : x.IsFinite) :
    (x.render Term.floatNotation).IsJoined := by
  obtain ⟨l, htext, -⟩ := exists_literal h
  have hliteral (b : UInt8) : .stray b ∉ l.text := by
    intro hb
    rcases l.mem_text hb with ⟨c, hc, -⟩ | hmem
    · cases hc
    · simp at hmem
  refine Text.isJoined_of_not_mem fun b => ?_
  rw [htext]
  split <;> simp [hliteral]

namespace Term

theorem Position.isJoined_before (p : Position) {t : Text} (h : t.IsJoined) :
    (p.before ++ t).IsJoined := by
  cases p with
  | whole => exact h
  | listEnd => exact Text.isJoined_char_cons.2 h

theorem Position.isJoined_after (p : Position) {t : Text} (h : t.IsJoined) :
    (p.after t).IsJoined := by
  cases p with
  | whole => exact h
  | listEnd => exact Text.isJoined_char_cons.2 h

/-- What stands around a term that is no list keeps its stray bytes from others. -/
theorem Position.isJoined_around (p : Position) {t rest : Text} {c : Char} (ht : t.IsJoined)
    (hrest : rest.IsJoined) : (p.before ++ t ++ p.after (.char c :: rest)).IsJoined := by
  rw [List.append_assoc]
  refine p.isJoined_before ?_
  cases p with
  | whole => exact ht.append_char_cons hrest
  | listEnd => exact ht.append_char_cons (Text.isJoined_char_cons.2 hrest)

theorem isJoined_renderArguments {args : List Term} {c : Char} {rest : Text}
    (h : ∀ x ∈ args, ∀ (c : Char) (rest : Text), rest.IsJoined →
      (x.renderAt .whole (.char c :: rest)).IsJoined)
    (hrest : rest.IsJoined) : (renderArguments args (.char c :: rest)).IsJoined := by
  induction args with
  | nil => exact Text.isJoined_char_cons.2 hrest
  | cons x args ih =>
    obtain ⟨hx, hargs⟩ := List.forall_mem_cons.1 h
    rw [renderArguments]
    split
    · exact hx c rest hrest
    · exact hx ',' _ (ih hargs)

/-- No stray bytes of different names come to stand side by side in canonical text. -/
theorem Proper.isJoined_renderAt {t : Term} (h : t.Proper) (p : Position) (c : Char) {rest : Text}
    (hrest : rest.IsJoined) : (t.renderAt p (.char c :: rest)).IsJoined := by
  induction h generalizing p c rest with
  | atom ha => exact p.isJoined_around (Atom.isJoined_text ha) hrest
  | integer => exact p.isJoined_around (Positional.isJoined_integer _) hrest
  | bigInteger => exact p.isJoined_around (Positional.isJoined_integer _) hrest
  | float hx => exact p.isJoined_around (Binary64.isJoined_render hx) hrest
  | string =>
    exact p.isJoined_around
      (Text.isJoined_of_not_mem fun b => Text.stray_not_mem_quoted b _ _) hrest
  | var _ hn => exact p.isJoined_around (Variable.isJoined_text hn) hrest
  | @compound f args hf _ _ ih =>
    have hafter : (p.after (.char c :: rest)).IsJoined :=
      p.isJoined_after (Text.isJoined_char_cons.2 hrest)
    have hargs {close : Char} :
        (renderArguments args (.char close :: p.after (.char c :: rest))).IsJoined :=
      isJoined_renderArguments (fun x hx c _ hr => ih x hx .whole c hr) hafter
    rw [renderAt]
    split
    · exact p.isJoined_before (Text.isJoined_char_cons.2 hargs)
    · rw [List.append_assoc]
      exact p.isJoined_before ((Atom.isJoined_text hf).append_char_cons hargs)
  | nil =>
    have hjoined : Text.IsJoined (.char ']' :: .char c :: rest) :=
      Text.isJoined_char_cons.2 (Text.isJoined_char_cons.2 hrest)
    cases p with
    | whole => exact Text.isJoined_char_cons.2 hjoined
    | listEnd => exact hjoined
  | @cons head tail _ _ ihh iht =>
    obtain ⟨ch, u, htail, -⟩ := Reading.renderAt_listEnd_head tail (.char c :: rest)
    have hjoined := iht .listEnd c hrest
    rw [htail] at hjoined
    have hhead := ihh .whole ch (Text.isJoined_char_cons.1 hjoined)
    cases p <;> simpa only [renderAt, htail, Text.isJoined_char_cons] using hhead

end Term

/-! ## Terms that are the same up to marks and numbers -/

namespace Term

/-- Marks are not written, nor are the numbers of variables with a name. -/
theorem canonical_map {f : Variable → Variable} (t : Term)
    (hf : ∀ v ∈ t.vars, (f v).text = v.text) : (t.map Atom.unmarked f).canonical = t.canonical := by
  have hname (x : Atom) : x.unmarked.name = (id x).name := rfl
  have hcanonical : (t.map Atom.unmarked f).canonical = (t.map id id).canonical :=
    renderAt_map_congr .whole t hname hf []
  rw [hcanonical, map_id]

/-- Terms that are the same up to marks and numbers are written alike. -/
theorem Echoes.canonical_eq {b : Bindings} {u t : Term} (h : u.Echoes b t)
    (hvars : ∀ v ∈ t.vars, v.WellFormed) : u.canonical = t.canonical := by
  obtain ⟨-, hmap⟩ := h b (.refl b)
  have hnamed : ∀ v ∈ t.vars, (⟨v.text, b.number v.text⟩ : Variable).text = v.text := by
    intro v hv
    obtain ⟨g, u, htext, -, -, hne⟩ := Variable.text_cases (hvars v hv)
    exact if_neg (not_or.2 ⟨by simp [htext], hne⟩)
  calc u.canonical
      = (u.map Atom.unmarked id).canonical := (canonical_map u fun _ _ => rfl).symm
    _ = (t.map Atom.unmarked fun v => ⟨v.text, b.number v.text⟩).canonical := by rw [hmap]
    _ = t.canonical := canonical_map t hnamed

end Term

/-! ## The whole text -/

namespace SingleRead

/-- The canonical text of a term that was read from some bytes, with a full stop after it, is read
again, and what it is read as has the same canonical text. The names of the term have to be clear,
and an atom by itself may be no prefix operator and may not end in a full stop that would be taken
for the end of the sentence. -/
theorem exists_reread {source : List UInt8} {issued : Nat} {t : Term}
    (hread : (ofText .standard issued (.ofBytes source)).result = .ok t)
    (hnames : ∀ x ∈ t.names, Atom.IsClear x.1 x.2)
    (halone : ∀ a, t = .atom a → Atom.isBare a.name →
      Dialect.standard.table.prefixOperator? a.name = none ∧ ¬a.name.EndsInStop) (issued' : Nat) :
    ∃ u, (ofText .standard issued' (.ofBytes (t.canonical ++ " .").bytes)).result = .ok u ∧
      u.canonical = t.canonical := by
  have hproper : t.Proper := proper_of_result rfl (Text.isJoined_ofBytes source) hread
  have hreadable : t.mended.Readable Dialect.standard.table :=
    hproper.readable_mended (by decide +kernel) hnames
  have hsame : t.mended.canonical = t.canonical := Term.renderAt_mended .whole t []
  have hjoined : (t.canonical ++ (" ." : Text)).IsJoined := by
    rw [Term.canonical, ← Term.renderAt_append]
    exact hproper.isJoined_renderAt .whole ' ' (Text.isJoined_ofString ".")
  have halone' : ∀ a, t.mended = .atom a → Atom.isBare a.name →
      Dialect.standard.table.prefixOperator? a.name = none ∧ ¬a.name.EndsInStop := by
    intro a ha hb
    obtain ⟨a, rfl, rfl⟩ := Term.exists_atom_of_mended ha
    rw [Atom.isBare_mended] at hb
    rw [Atom.mended_of_isBare hb]
    exact halone a rfl hb
  obtain ⟨u, b, hresult, -, hu⟩ := exists_echo rfl issued' hreadable halone'
  refine ⟨u, ?_, ?_⟩
  · rw [show Text.ofBytes (t.canonical ++ " .").bytes = t.canonical ++ " ." from hjoined, ← hsame]
    exact hresult
  · rw [hu.canonical_eq hreadable.wellFormed, hsame]

theorem eq_ok_of_toOption {r : Except ReadError Term} {t : Term} (h : r.toOption = some t) :
    r = .ok t := by
  cases r with
  | ok u => rw [Option.some.inj h]
  | error e => cases h

/-- A clause with numbers at the bounds of their ranges, quoted texts, operators for operands and a
stray byte. -/
def motleyClause : List UInt8 :=
  Text.bytes "p(X, -1.5e300, [Y|_], \x7ba:-b\x7d) :- \\+ q('a b', \"s\\n\", 0'c, \x60k\x60, -, "
    ++ 0xFF :: Text.bytes "), X is 9223372036854775808 - -0.0."

theorem exists_reread_motleyClause :
    ∃ t u, (ofText .standard 0 (.ofBytes motleyClause)).result = .ok t ∧
      (∀ x ∈ t.names, Atom.IsClear x.1 x.2) ∧
      (ofText .standard 0 (.ofBytes (t.canonical ++ " .").bytes)).result = .ok u ∧
      u.canonical = t.canonical := by
  have h : ((ofText .standard 0 (.ofBytes motleyClause)).result.toOption.any fun t =>
      decide ((∀ x ∈ t.names, Atom.IsClear x.1 x.2) ∧ 1 < t.names.length)) = true := by
    decide +kernel
  obtain ⟨t, ht, hchecked⟩ := (Option.any_eq_true _ _).1 h
  obtain ⟨hnames, hlength⟩ := of_decide_eq_true hchecked
  have hread := eq_ok_of_toOption ht
  have halone : ∀ a, t ≠ .atom a := by
    rintro a rfl
    exact absurd hlength (by simp [Term.names])
  obtain ⟨u, hu, hsame⟩ := exists_reread hread hnames (fun a ha => absurd ha (halone a)) 0
  exact ⟨t, u, hread, hnames, hu, hsame⟩

/-- A text is lost if it is read as a term whose canonical text is not read again. -/
def IsLost (source : Text) : Prop :=
  ∃ t : Term, (ofText .standard 0 (.ofBytes source.bytes)).result = .ok t ∧
    ∀ u, (ofText .standard 0 (.ofBytes (t.canonical ++ " .").bytes)).result ≠ .ok u

instance (source : Text) : Decidable (IsLost source) :=
  match hread : (ofText .standard 0 (.ofBytes source.bytes)).result with
  | .error e => isFalse fun ⟨_, ht, _⟩ => nomatch hread.symm.trans ht
  | .ok t =>
    match hagain : (ofText .standard 0 (.ofBytes (t.canonical ++ " .").bytes)).result with
    | .error e => isTrue ⟨t, hread, fun _ hu => nomatch hagain.symm.trans hu⟩
    | .ok u => isFalse fun ⟨t', ht, hnot⟩ => by
      cases hread.symm.trans ht
      exact hnot u hagain

/-- A prefix operator by itself, a name that ends in a full stop, a name with the opening of a
comment inside it and the functor `{}` with two arguments are read between quotes, but they are
written without. -/
theorem not_reread :
    IsLost "'-'." ∧ IsLost "'=.'." ∧ IsLost "'+/*'." ∧ IsLost "'\x7b\x7d'(a,b)." := by
  decide +kernel

end SingleRead

end PrologText
