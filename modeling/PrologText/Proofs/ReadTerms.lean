import PrologText.Proofs.Bytes
import PrologText.Proofs.Completion
import PrologText.Proofs.RoundTrip
import PrologText.Proofs.Soundness
import PrologText.Proofs.Spans

/-!
# The terms that are read

What holds of every token of a text, and of every term that is read from it with the standard flags:
variables have the names of variables, floating point numbers are finite, compound terms have
arguments, and names hold no stray bytes that form a character (`SingleRead.proper_of_result`).
-/

namespace PrologText

/-! ## Tokens -/

/-- What the text of a token is like, as far as the term that it is read as depends on it. -/
structure Token.Proper (t : Token) : Prop where
  joined : t.text.IsJoined
  isVariable : t.kind = .variable → (⟨t.text, 0⟩ : Variable).WellFormed
  isFloat : t.kind = .float → ∃ c u, t.text = .char c :: u ∧ CharClass.isDecimal c

namespace Lexeme

theorem ofText_variable {c : Char} {t : Text} {lead n : Nat}
    (h : ofText c t = .plain .variable lead n) :
    lead = 0 ∧ n = run CharClass.isAlphanumeric t ∧ CharClass.isVariableStart c := by
  unfold ofText number solo? at h
  simp only at h
  split_ifs at h <;> grind

theorem ofText_float {c : Char} {t : Text} {lead n : Nat} (h : ofText c t = .plain .float lead n) :
    lead = 0 ∧ 0 < n ∧ CharClass.isDecimal c := by
  unfold ofText number solo? at h
  simp only at h
  split_ifs at h <;> grind

theorem take_run (p : Char → Bool) (t : Text) : t.take (run p t) = t.takeWhile fun g => p g.code :=
  List.prefix_iff_eq_take.1 (List.takeWhile_prefix _) |>.symm

end Lexeme

namespace CharClass

theorem exists_eq_char_of_isDecimal {g : Glyph} (h : isDecimal g.code) :
    ∃ c, g = .char c ∧ isDecimal c := by
  cases g with
  | char c => exact ⟨c, rfl, h⟩
  | stray b => cases h

end CharClass

namespace Scan

/-- The token that scanning comes to, if any, is proper. -/
def Proper : Scan → Prop
  | token t _ => t.Proper
  | _ => True

variable {layout : Bool} {start after : Cursor}

theorem name_proper {kind : TokenKind} {text : Text} (hk : kind = .atom ∨ kind = .quotedAtom)
    (h : text.IsJoined) : (name kind text layout start after).Proper := by
  unfold name
  split
  · trivial
  · rcases hk with rfl | rfl <;> exact ⟨h, nofun, nofun⟩

theorem dot_proper : (dot layout start after).Proper := by
  have h : Text.IsJoined "." := Text.isJoined_ofString _
  unfold dot
  split
  · trivial
  · split <;> exact ⟨h, nofun, nofun⟩

theorem unended_proper {cause : SyntaxCause} {stopped : Cursor} :
    (unended cause start stopped).Proper := by
  unfold unended
  split <;> trivial

theorem quoted_proper {f : QuotedForm} {inside : Cursor} :
    (quoted f layout start inside).Proper := by
  unfold quoted
  split
  · exact unended_proper
  · trivial
  · next text _ _ =>
    have h : text.rejoin.IsJoined := Text.isJoined_ofBytes _
    simp only
    split
    · next hk => exact name_proper (.inr hk) h
    · refine ⟨h, ?_, ?_⟩ <;> rcases quotedKind_cases f with hk | hk | hk | hk <;> simp [hk]

theorem lexeme_proper {flags : Flags} {g : Glyph} {t : Text} (hr : start.rest = g :: t)
    (h : start.rest.IsJoined) : (lexeme flags layout g.code start).Proper := by
  have htake (n : Nat) : Text.IsJoined (start.rest.take n) :=
    h.of_isInfix (List.take_prefix n _).isInfix
  unfold lexeme
  split
  · next kind lead n heq =>
    refine ⟨(htake n).of_isInfix (List.drop_suffix _ _).isInfix, ?_, ?_⟩
    · rintro rfl
      obtain ⟨rfl, rfl, hstart⟩ := Lexeme.ofText_variable heq
      have hg := CharClass.isAlphanumeric_of_isVariableStart hstart
      refine .inr (.inr ⟨g, t.takeWhile fun x => CharClass.isAlphanumeric x.code, ?_, hstart, ?_⟩)
      · simp [Lexeme.take_run, hr, hg]
      · exact fun x hx => List.all_eq_true.1 List.all_takeWhile x hx
    · rintro rfl
      obtain ⟨rfl, hn, hdecimal⟩ := Lexeme.ofText_float heq
      obtain ⟨c, rfl, hc⟩ := CharClass.exists_eq_char_of_isDecimal hdecimal
      obtain ⟨n, rfl⟩ := Nat.exists_eq_succ_of_ne_zero hn.ne'
      exact ⟨c, t.take n, by rw [hr]; rfl, hc⟩
  · exact name_proper (.inl rfl) (htake _)
  · exact dot_proper
  · exact quoted_proper
  · exact quoted_proper
  · trivial

end Scan

theorem scanFrom_proper (flags : Flags) (layout : Bool) {c : Cursor} (h : c.remaining.IsJoined) :
    (scanFrom flags layout c).Proper := by
  have hfill {c : Cursor} (h : c.remaining.IsJoined) : c.fill.remaining.IsJoined :=
    h.of_isInfix c.leads_fill.suffix.isInfix
  have hcomment {c after : Cursor} {g : Glyph} {t : Text} (hd : c.fill.rest = g :: t)
      (ho : Lexeme.opensComment (g :: t) = true)
      (ha : afterComment? (c.fill.advance 2) c.fill.later = some after) : c.fill.Leads after :=
    (Cursor.leads_advance (hd ▸ Lexeme.two_le_of_opensComment ho)).trans
      (leads_afterComment? rfl ha)
  fun_induction scanFrom flags layout c with
  | case1 => trivial
  | case2 => exact ⟨Text.isJoined_nil, by simp, by simp⟩
  | case3 _ c _ _ _ hd _ _ _ _ ih =>
    exact ih (h.of_isInfix (Cursor.leads_fill_advance hd (Nat.zero_le _)).suffix.isInfix)
  | case4 =>
    have hjoined := (hfill h).of_append_left.of_isInfix (Text.trimLineEnd_isPrefix _).isInfix
    exact ⟨hjoined, by simp, by simp⟩
  | case5 _ c _ _ _ _ _ _ _ _ _ ih =>
    exact ih ((hfill h).of_isInfix (Cursor.leads_toLineEnd _).suffix.isInfix)
  | case6 => exact Scan.unended_proper
  | case7 _ c _ _ _ hd _ _ _ _ ho after ha =>
    have hjoined := hfill h
    rw [(hcomment hd ho ha).remaining_eq] at hjoined
    exact ⟨hjoined.of_append_left, by simp, by simp⟩
  | case8 _ c _ _ _ hd _ _ _ _ ho after ha _ _ ih =>
    exact ih ((hfill h).of_isInfix (hcomment hd ho ha).suffix.isInfix)
  | case9 _ c _ _ _ hd => exact Scan.lexeme_proper hd (hfill h).of_append_left

theorem Scans.proper {flags : Flags} {c c' : Cursor} {ts : List Token} (h : Scans flags c ts c')
    (hc : c.remaining.IsJoined) : ∀ t ∈ ts, t.Proper := by
  induction h with
  | nil => exact nofun
  | @cons c t after ts last ht _ ih =>
    have hproper := scanFrom_proper flags false hc
    rw [show scanFrom flags false c = .token t after from ht] at hproper
    exact List.forall_mem_cons.2
      ⟨hproper, ih (hc.of_isInfix (leads_of_scan_token ht).suffix.isInfix)⟩

/-! ## Numbers -/

namespace Binary64

theorem isFinite_ofFields (negative : Bool) {field fraction : Nat}
    (h : field * 2 ^ 52 + fraction < 2047 * 2 ^ 52) :
    (ofFields negative field fraction).IsFinite := by
  obtain ⟨sum, hsum⟩ : ∃ sum, sum = field * 2 ^ 52 + fraction := ⟨_, rfl⟩
  have hcarried : ofFields negative field fraction =
      ofFields negative (sum / 2 ^ 52) (sum % 2 ^ 52) := by
    simp only [ofFields, Nat.pow_eq, Nat.add_assoc]
    rw [← hsum, Nat.div_add_mod']
  rw [hcarried, IsFinite, exponentField_ofFields negative (by omega) (by omega)]
  omega

theorem isFinite_of_ofRatio? {negative : Bool} {num den : Nat} {x : Binary64}
    (h : ofRatio? negative num den = some x) : x.IsFinite := by
  unfold ofRatio? at h
  split at h
  · cases h
    exact isFinite_ofFields negative (by decide)
  · obtain ⟨hlt, hx⟩ := Option.ite_none_left_eq_some.1 h
    rw [← Option.some.inj hx]
    exact isFinite_ofFields negative (Nat.not_le.1 hlt)

theorem isFinite_of_round? {negative : Bool} {s : Scientific} {x : Binary64}
    (h : s.round? negative = some x) : x.IsFinite := by
  unfold Scientific.round? at h
  split at h
  · cases h
    exact isFinite_ofFields negative (by decide)
  · exact isFinite_of_ofRatio? h

theorem IsFinite.negate {x : Binary64} (h : x.IsFinite) : x.negate.IsFinite := by
  have hfraction := x.fraction_lt
  have hfield : x.exponentField < 2047 := h
  exact isFinite_ofFields _ (by omega)

theorem isFinite_of_parse {c : Char} {t : Text} {x : Binary64} (hc : CharClass.isDecimal c)
    (h : parse (.char c :: t) = .ok x) : x.IsFinite := by
  rw [parse_of_isDecimal hc] at h
  split at h
  · cases h
  · split at h
    · cases h
    · next hround =>
      cases h
      exact isFinite_of_round? hround

end Binary64

/-! ## Terms -/

/-- Terms as they are read with the standard flags. -/
inductive Term.Proper : Term → Prop where
  | atom {a : Atom} (ha : a.name.IsJoined) : Proper (.atom a)
  | integer {n : Int64} : Proper (.integer n)
  | bigInteger {n : Int} : Proper (.bigInteger n)
  | float {x : Binary64} (hx : x.IsFinite) : Proper (.float x)
  | string {s : Text} : Proper (.string s)
  | var {v : Variable} (hv : v.WellFormed) (hn : v.name.IsJoined) : Proper (.var v)
  | compound {f : Atom} {args : List Term} (hf : f.name.IsJoined) (hne : args ≠ [])
    (hargs : ∀ x ∈ args, Proper x) : Proper (.compound f args)
  | nil : Proper .nil
  | cons {head tail : Term} (hh : Proper head) (ht : Proper tail) : Proper (.cons head tail)

namespace Term

theorem proper_ofInt (n : Int) : (ofInt n).Proper := by
  unfold ofInt
  split
  · exact .integer
  · exact .bigInteger

theorem proper_ofList {xs : List Term} {tail : Term} (hxs : ∀ x ∈ xs, x.Proper)
    (ht : tail.Proper) : (ofList xs tail).Proper := by
  induction xs with
  | nil => exact ht
  | cons x xs ih =>
    obtain ⟨hx, hxs⟩ := List.forall_mem_cons.1 hxs
    exact .cons hx (ih hxs)

theorem Proper.negate {n : Term} (h : n.Proper) : (n.negate?.getD n).Proper := by
  cases h with
  | @integer v =>
    by_cases hmin : v = Int64.minValue
    · simpa [negate?, hmin] using .bigInteger
    · simpa [negate?, hmin] using .integer
  | bigInteger => exact proper_ofInt _
  | float hx => exact .float hx.negate
  | atom ha => exact .atom ha
  | string => exact .string
  | var hv hn => exact .var hv hn
  | compound hf hne hargs => exact .compound hf hne hargs
  | nil => exact .nil
  | cons hh ht => exact .cons hh ht

theorem Proper.signing {n : Term} {sign : Token} (h : n.Proper) : (sign.signing n).Proper := by
  unfold Token.signing
  split
  · exact h.negate
  · exact h

end Term

namespace Token

variable {t : Token}

theorem Proper.number {n : Term} (ht : t.Proper) (h : t.number? = some (.ok n)) : n.Proper := by
  unfold Token.number? at h
  split at h
  · rw [Option.some.injEq, Term.ofDigits] at h
    split at h
    · cases h
    · cases h
      split
      · exact Term.proper_ofInt _
      · exact .bigInteger
  · next hk =>
    obtain ⟨c, u, htext, hc⟩ := ht.isFloat hk
    have hne : c ≠ '_' := by
      rintro rfl
      exact absurd hc (by decide)
    have hfirst : NumberLiteral.withoutUnderscores t.text =
        .char c :: NumberLiteral.withoutUnderscores u := by
      rw [htext]
      exact List.filter_cons_of_pos (by simpa using hne)
    rw [Option.some.injEq, Term.ofFloatText, hfirst] at h
    split at h
    · cases h
    · next hparse =>
      cases h
      exact .float (Binary64.isFinite_of_parse hc hparse)
  · cases h
    exact .integer
  · cases h

end Token

/-- The variable of a name has this name. -/
theorem Bindings.name_named (b : Bindings) (name : Text) : (b.named name).1.name = name :=
  name_of_var? (b.var?_named name)

theorem ItemsWith.ne_nil {able d s b ts xs} (h : ItemsWith able d s b ts xs) : xs ≠ [] := by
  cases h <;> simp

mutual

theorem DerivesWith.proper {able d s b ts x p} (hflags : d.flags = .standard) :
    DerivesWith able d s b ts x p → (∀ t ∈ ts, t.Proper) → x.Proper
  | .number h, hts => (hts _ (by simp)).number h
  | .signed _ _ h, hts => ((hts _ (by simp)).number h).signing
  | .named h, hts => by
    obtain ⟨hjoined, hv, -⟩ := hts _ (List.mem_singleton_self _)
    exact .var (by simpa only [Variable.WellFormed, b.name_named] using hv h)
      (by rwa [b.name_named])
  | .anonymous _, _ => .var (.inr (.inl rfl)) (Text.isJoined_ofString "_")
  | .doubleQuoted _, _ => by
    rw [hflags]
    exact .string
  | .backQuoted _, _ => by
    rw [hflags]
    refine Term.proper_ofList (fun x hx => ?_) .nil
    obtain ⟨g, -, rfl⟩ := List.mem_map.1 hx
    exact .integer
  | .atom _, hts => .atom (hts _ (by simp)).joined
  | .group _ h _, hts => h.proper hflags fun t ht => hts t (by simp [ht])
  | .noBraces _ _, _ => .atom (Text.isJoined_ofString _)
  | .braces _ h _, hts => by
    have hx := h.proper hflags fun t ht => hts t (by simp [ht])
    exact .compound (Text.isJoined_ofString _) (by simp) (by simpa using hx)
  | .compound _ _ h _, hts =>
    .compound (hts _ (by simp)).joined h.ne_nil (h.proper hflags fun t ht => hts t (by simp [ht]))
  | .noElements _ _, _ => .nil
  | .list _ h _, hts => Term.proper_ofList (h.proper hflags fun t ht => hts t (by simp [ht])) .nil
  | .partialList _ h _ hx _, hts =>
    Term.proper_ofList (h.proper hflags fun t ht => hts t (by simp [ht]))
      (hx.proper hflags fun t ht => hts t (by simp [ht]))
  | .prefixOp _ hx _, hts => by
    have hx := hx.proper hflags fun t ht => hts t (by simp [ht])
    exact .compound (hts _ (by simp)).joined (by simp) (by simpa using hx)
  | .infixOp hx _ _ _ hy _ _, hts => by
    have hx := hx.proper hflags fun t ht => hts t (by simp [ht])
    have hy := hy.proper hflags fun t ht => hts t (by simp [ht])
    exact .compound (hts _ (by simp)).joined (by simp) (by simpa using ⟨hx, hy⟩)
  | .postfixOp hx _ _ _ _, hts => by
    have hx := hx.proper hflags fun t ht => hts t (by simp [ht])
    exact .compound (hts _ (by simp)).joined (by simp) (by simpa using hx)

theorem ItemsWith.proper {able d s b ts xs} (hflags : d.flags = .standard) :
    ItemsWith able d s b ts xs → (∀ t ∈ ts, t.Proper) → ∀ x ∈ xs, x.Proper
  | .one h, hts => by simpa using h.proper hflags hts
  | .snoc h _ hx, hts => by
    have hfront := h.proper hflags fun t ht => hts t (by simp [ht])
    have hlast := hx.proper hflags fun t ht => hts t (by simp [ht])
    exact List.forall_mem_append.2 ⟨hfront, by simpa using hlast⟩

end

namespace SingleRead

variable {d : Dialect} {issued : Nat} {text : Text} {t : Term}

theorem exists_sentence_of_result (h : (ofText d issued text).result = .ok t) :
    ∃ s, (Run.at d issued (.ofText text)).outcome = .sentence s ∧ s.term = t := by
  simp only [ofText] at h
  split at h
  · cases h
  · cases h
  · next s houtcome =>
    refine ⟨s, houtcome, ?_⟩
    split at h
    · cases h
    · cases h
    · simp only at h
      split at h
      · exact Except.ok.inj h
      · cases h

/-- The tokens of a text that is read as a term: the last one ends the sentence, and the term has a
derivation from the others. -/
theorem derives_of_result (h : (ofText d issued text).result = .ok t) :
    ∃ body last after p, Scans d.flags (.ofText text) (body ++ [last]) after ∧ d.flags.Ends last ∧
      Derives d .whole (.startingAfter issued) (uncommented body) t p := by
  obtain ⟨s, houtcome, rfl⟩ := exists_sentence_of_result h
  obtain ⟨body, last, p, hscans, hlast, hderives⟩ :=
    Reading.run_derives (Reading.covers_start d issued) houtcome
  exact ⟨body, last, _, p, hscans, hlast, hderives⟩

/-- A text whose stray bytes stay apart is read as a proper term. -/
theorem proper_of_result (hflags : d.flags = .standard) (htext : text.IsJoined)
    (h : (ofText d issued text).result = .ok t) : t.Proper := by
  obtain ⟨body, last, after, p, hscans, -, hderives⟩ := derives_of_result h
  rw [← Cursor.remaining_ofText text] at htext
  refine hderives.proper hflags fun t ht => hscans.proper htext t (List.mem_append_left _ ?_)
  exact (List.mem_filter.1 ht).1

end SingleRead

end PrologText
