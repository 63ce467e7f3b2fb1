import Mathlib.Data.Nat.Digits.Defs
import PrologText.Proofs.RoundTrip
import PrologText.Proofs.Spans

/-!
# Integers are read exactly

An integer is written in one of four bases, with underscores between its digits if one likes, and
directly behind a sign if the sign is a prefix operator. Main statement: where an operand is
expected, such a literal is read as its positional value, which is a term of 64 bits exactly if it
fits (`IntegerLiteral.read_exactly`). No other token is an integer, so that none of them stands for
no number.
-/

namespace PrologText

/-! ## Literals -/

/-- The bases that integers are written in. -/
inductive IntegerBase where
  | binary
  | octal
  | decimal
  | hexadecimal
deriving DecidableEq

namespace IntegerBase

def base : IntegerBase → Nat
  | binary => 2
  | octal => 8
  | decimal => 10
  | hexadecimal => 16

/-- What stands before the digits. -/
def lead : IntegerBase → Text
  | binary => "0b"
  | octal => "0o"
  | decimal => []
  | hexadecimal => "0x"

/-- The characters that are digits. -/
def isDigit : IntegerBase → Char → Bool
  | binary => CharClass.isBinary
  | octal => CharClass.isOctal
  | decimal => CharClass.isDecimal
  | hexadecimal => CharClass.isHexadecimal

theorem isHexadecimal_of_isDigit {b : IntegerBase} {c : Char} (h : b.isDigit c) :
    CharClass.isHexadecimal c := by
  cases b with
  | binary => exact CharClass.isHexadecimal_of_isBinary h
  | octal => exact CharClass.isHexadecimal_of_isOctal h
  | decimal => simp [CharClass.isHexadecimal, show CharClass.isDecimal c = true from h]
  | hexadecimal => exact h

theorem lead_cases (b : IntegerBase) :
    b = .decimal ∨
      ∃ x, b.lead = [.char '0', .char x] ∧ Lexeme.base? x = some (b.base, b.isDigit) := by
  cases b with
  | binary => exact .inr ⟨'b', rfl, rfl⟩
  | octal => exact .inr ⟨'o', rfl, rfl⟩
  | decimal => exact .inl rfl
  | hexadecimal => exact .inr ⟨'x', rfl, rfl⟩

theorem exists_of_base? {x : Char} {n : Nat} {p : Char → Bool} (h : Lexeme.base? x = some (n, p)) :
    ∃ b : IntegerBase, n = b.base ∧ p = b.isDigit := by
  unfold Lexeme.base? at h
  split at h <;> cases h
  · exact ⟨.hexadecimal, rfl, rfl⟩
  · exact ⟨.octal, rfl, rfl⟩
  · exact ⟨.binary, rfl, rfl⟩

end IntegerBase

/-- A digit as it is written. -/
structure WrittenDigit (b : IntegerBase) where
  value : Fin b.base
  /-- Whether it is a capital letter, if it is a letter. -/
  capital : Bool

namespace WrittenDigit

variable {b : IntegerBase}

def char (d : WrittenDigit b) : Char :=
  if d.capital then (Positional.digitChar d.value).toUpper else Positional.digitChar d.value

theorem isDigit_char (d : WrittenDigit b) : b.isDigit d.char := by
  obtain ⟨value, capital⟩ := d
  cases b <;> revert value capital <;> decide

theorem digitValue?_char (d : WrittenDigit b) :
    Positional.digitValue? b.base d.char = some d.value.val := by
  obtain ⟨value, capital⟩ := d
  cases b <;> revert value capital <;> decide

/-- All digits are written ones. -/
theorem exists_char_eq {c : Char} (h : b.isDigit c) : ∃ d : WrittenDigit b, d.char = c := by
  have all : ∀ n < 0x80, b.isDigit (Char.ofNat n) →
      ∃ value capital, (⟨value, capital⟩ : WrittenDigit b).char = Char.ofNat n := by
    cases b <;> decide +kernel
  obtain ⟨value, capital, hchar⟩ :=
    all c.toNat (CharClass.toNat_lt_of_isHexadecimal (IntegerBase.isHexadecimal_of_isDigit h))
      (by rwa [Char.ofNat_toNat])
  exact ⟨⟨value, capital⟩, by rw [hchar, Char.ofNat_toNat]⟩

/-- A digit and others behind it, each of which may have an underscore before it. -/
def grouped (first : WrittenDigit b) : List (Bool × WrittenDigit b) → Text
  | [] => [.char first.char]
  | (false, d) :: ds => .char first.char :: grouped d ds
  | (true, d) :: ds => .char first.char :: .char '_' :: grouped d ds

theorem char_ne (d : WrittenDigit b) {c : Char} (hc : b.isDigit c = false) : d.char ≠ c := by
  rintro rfl
  simp [d.isDigit_char] at hc

theorem char_ne_underscore (d : WrittenDigit b) : d.char ≠ '_' :=
  d.char_ne (by cases b <;> decide)

theorem exists_grouped_eq (d : WrittenDigit b) (ds : List (Bool × WrittenDigit b)) :
    ∃ t, d.grouped ds = .char d.char :: t := by
  match ds with
  | [] => exact ⟨[], rfl⟩
  | (false, e) :: es => exact ⟨e.grouped es, rfl⟩
  | (true, e) :: es => exact ⟨.char '_' :: e.grouped es, rfl⟩

theorem mem_grouped {g : Glyph} (d : WrittenDigit b) (ds : List (Bool × WrittenDigit b))
    (h : g ∈ d.grouped ds) : g = .char '_' ∨ ∃ e : WrittenDigit b, g = .char e.char := by
  induction ds generalizing d with
  | nil => exact .inr ⟨d, List.mem_singleton.1 h⟩
  | cons e es ih =>
    obtain ⟨parted, e⟩ := e
    cases parted with
    | false =>
      rcases List.mem_cons.1 h with rfl | h
      · exact .inr ⟨d, rfl⟩
      · exact ih e h
    | true =>
      rcases List.mem_cons.1 h with rfl | h
      · exact .inr ⟨d, rfl⟩
      · rcases List.mem_cons.1 h with rfl | h
        · exact .inl rfl
        · exact ih e h

/-- The digits without the underscores. -/
theorem withoutUnderscores_grouped (d : WrittenDigit b) (ds : List (Bool × WrittenDigit b)) :
    NumberLiteral.withoutUnderscores (d.grouped ds) =
      (d :: ds.map Prod.snd).map fun e => .char e.char := by
  have hkept (e : WrittenDigit b) (t : Text) :
      NumberLiteral.withoutUnderscores (.char e.char :: t) =
        .char e.char :: NumberLiteral.withoutUnderscores t := by
    simp [NumberLiteral.withoutUnderscores, e.char_ne_underscore]
  have hdropped (t : Text) : NumberLiteral.withoutUnderscores (.char '_' :: t) =
      NumberLiteral.withoutUnderscores t := rfl
  induction ds generalizing d with
  | nil => rw [grouped, hkept]; rfl
  | cons e es ih =>
    obtain ⟨parted, e⟩ := e
    cases parted with
    | false => rw [grouped, hkept, ih e]; rfl
    | true => rw [grouped, hkept, hdropped, ih e]; rfl

/-- The digits that are counted at the start of a text are all of those that are written there. -/
theorem digitGroupsFrom_grouped (d : WrittenDigit b) (ds : List (Bool × WrittenDigit b))
    {rest : Text} (hr : rest.Apart) (n : Nat) :
    Lexeme.digitGroupsFrom b.isDigit n (d.grouped ds ++ rest) = n + (d.grouped ds).length := by
  induction ds generalizing d n with
  | nil =>
    have hdigits : Text.separators.all (!b.isDigit ·) = true := by cases b <;> decide
    obtain ⟨c, u, rfl, hc⟩ := hr
    have hnot : b.isDigit c = false := by simpa using List.all_eq_true.1 hdigits c hc
    have hne : (Glyph.char c :: u).head? ≠ some (.char '_') := by
      rintro ⟨⟩
      exact absurd hc (by decide)
    rw [grouped, List.singleton_append, Lexeme.digitGroupsFrom_cons d.isDigit_char hne,
      Lexeme.digitGroupsFrom_of_not hnot]
    rfl
  | cons e es ih =>
    obtain ⟨parted, e⟩ := e
    obtain ⟨t, ht⟩ := e.exists_grouped_eq es
    cases parted with
    | false =>
      have hne : (e.grouped es ++ rest).head? ≠ some (.char '_') := by
        simpa [ht] using e.char_ne_underscore
      rw [grouped, List.cons_append, Lexeme.digitGroupsFrom_cons d.isDigit_char hne, ih,
        List.length_cons]
      omega
    | true =>
      have hdigit : b.isDigit (Glyph.char d.char).code = true := d.isDigit_char
      have hnext : ((e.grouped es ++ rest).head?.map fun g => b.isDigit g.code) = some true := by
        rw [ht]
        exact congrArg some e.isDigit_char
      simp only [grouped, List.cons_append, Lexeme.digitGroupsFrom, hdigit, hnext, if_true, ih,
        List.length_cons]
      omega

theorem exists_eq_char_of_isDigit {g : Glyph} (h : b.isDigit g.code) :
    ∃ d : WrittenDigit b, g = .char d.char := by
  cases g with
  | char c =>
    obtain ⟨d, hd⟩ := exists_char_eq h
    exact ⟨d, congrArg _ hd.symm⟩
  | stray byte =>
    have hnot : b.isDigit Glyph.replacement = false := by cases b <;> decide
    exact absurd h (by simp [Glyph.code, hnot])

/-- What is counted as digits is written with digits. -/
theorem exists_grouped_of_digitGroupsFrom (n : Nat) (t : Text)
    (h : (t.head?.map fun g => b.isDigit g.code) = some true) :
    ∃ (d : WrittenDigit b) (ds : List (Bool × WrittenDigit b)) (rest : Text),
      t = d.grouped ds ++ rest ∧
        Lexeme.digitGroupsFrom b.isDigit n t = n + (d.grouped ds).length := by
  fun_induction Lexeme.digitGroupsFrom b.isDigit n t with
  | case1 => cases h
  | case2 n g t hg hnext ih =>
    -- an underscore with a digit behind it
    obtain ⟨d, rfl⟩ := exists_eq_char_of_isDigit hg
    obtain ⟨e, es, rest, rfl, hcount⟩ := ih hnext
    refine ⟨d, (true, e) :: es, rest, rfl, ?_⟩
    rw [hcount, grouped, List.length_cons, List.length_cons]
    omega
  | case3 n g t hg hnext =>
    obtain ⟨d, rfl⟩ := exists_eq_char_of_isDigit hg
    exact ⟨d, [], .char '_' :: t, rfl, rfl⟩
  | case4 n g t hg => simp [hg] at h
  | case5 n g t hne hg ih =>
    obtain ⟨d, rfl⟩ := exists_eq_char_of_isDigit hg
    by_cases hnext : (t.head?.map fun g => b.isDigit g.code) = some true
    · obtain ⟨e, es, rest, rfl, hcount⟩ := ih hnext
      refine ⟨d, (false, e) :: es, rest, rfl, ?_⟩
      rw [hcount, grouped, List.length_cons]
      omega
    · refine ⟨d, [], t, rfl, ?_⟩
      cases t with
      | nil => rfl
      | cons g' t => rw [Lexeme.digitGroupsFrom_of_not (by simpa using hnext)]; rfl
  | case6 n g t hne hg => simp [hg] at h

end WrittenDigit

/-- An integer as it is written, without a sign. -/
structure IntegerLiteral where
  base : IntegerBase
  first : WrittenDigit base
  /-- The other digits, and whether an underscore stands before them. -/
  others : List (Bool × WrittenDigit base)

namespace IntegerLiteral

variable (l : IntegerLiteral)

def digitsText : Text :=
  l.first.grouped l.others

def text : Text :=
  l.base.lead ++ l.digitsText

/-- The number that the digits stand for, the last one being worth the least. -/
def value : Nat :=
  Nat.ofDigits l.base.base (((l.first :: l.others.map Prod.snd).map fun d => d.value.val).reverse)

end IntegerLiteral

theorem Positional.value_eq_ofDigits (base : Nat) (ds : List Nat) :
    value base ds = Nat.ofDigits base ds.reverse := by
  rw [Nat.ofDigits_eq_foldr, List.foldr_reverse, value]
  congr
  funext v d
  simp only [Nat.cast_id]
  ring

namespace Term

/-- Whether a term is the integer `n` in the form that goes with its size. -/
def IsInteger (n : Int) : Term → Prop
  | integer v => v.toInt = n
  | bigInteger m => m = n ∧ ¬(-2 ^ 63 ≤ n ∧ n ≤ 2 ^ 63 - 1)
  | _ => False

theorem isInteger_ofInt (n : Int) : (ofInt n).IsInteger n := by
  unfold ofInt
  split
  · next h => exact Int64.toInt_ofInt_of_le h.1 (lt_of_le_of_lt h.2 (by decide))
  · next h => exact ⟨rfl, h⟩

theorem isInteger_iff {n : Int} {t : Term} : t.IsInteger n ↔ t = ofInt n := by
  refine ⟨fun h => ?_, fun h => h ▸ isInteger_ofInt n⟩
  cases t with
  | integer v => rw [← show v.toInt = n from h, ofInt_toInt]
  | bigInteger m =>
    obtain ⟨rfl, hbig⟩ := h
    exact (ofInt_of_not_fits hbig).symm
  | atom | float | string | var | compound | nil | cons => cases h

end Term

namespace IntegerLiteral

variable (l : IntegerLiteral)

theorem natural?_digitsText :
    NumberLiteral.natural? l.base.base (NumberLiteral.withoutUnderscores l.digitsText) =
      some l.value := by
  have hmapM (ds : List (WrittenDigit l.base)) :
      List.mapM (fun g => Positional.digitValue? l.base.base g.code)
        (ds.map fun d => Glyph.char d.char) = some (ds.map fun d => d.value.val) := by
    induction ds with
    | nil => rfl
    | cons d ds ih =>
      have hd : Positional.digitValue? l.base.base (Glyph.char d.char).code = some d.value.val :=
        d.digitValue?_char
      simp [List.map_cons, List.mapM_cons, ih, hd]
  rw [digitsText, WrittenDigit.withoutUnderscores_grouped, NumberLiteral.natural?, hmapM,
    Option.map_some, Positional.value_eq_ofDigits]
  rfl

/-- The digits stand for their value. -/
theorem ofDigits_digitsText : Term.ofDigits l.base.base l.digitsText = .ok (.ofInt l.value) := by
  have hinteger :
      NumberLiteral.integer? l.base.base (NumberLiteral.withoutUnderscores l.digitsText) =
        some (l.value : Int) := by
    have hnatural := l.natural?_digitsText
    obtain ⟨t, ht⟩ : ∃ t, NumberLiteral.withoutUnderscores l.digitsText =
        .char l.first.char :: t := ⟨_, l.first.withoutUnderscores_grouped l.others⟩
    rw [ht] at hnatural ⊢
    have hplus : l.first.char ≠ '+' := l.first.char_ne (by cases l.base <;> decide)
    have hminus : l.first.char ≠ '-' := l.first.char_ne (by cases l.base <;> decide)
    unfold NumberLiteral.integer?
    split
    · next heq => exact absurd (Glyph.char.inj (List.cons.inj heq).1) hplus
    · next heq => exact absurd (Glyph.char.inj (List.cons.inj heq).1) hminus
    · rw [hnatural]
      rfl
  have hbase : l.base.base ≤ 36 := by cases l.base <;> decide
  simp only [Term.ofDigits, hinteger, if_pos hbase]

/-! ## Tokens -/

variable {rest : Text}

theorem digitGroups_digitsText (hr : rest.Apart) :
    Lexeme.digitGroups l.base.isDigit (l.digitsText ++ rest) = l.digitsText.length := by
  rw [Lexeme.digitGroups, digitsText, WrittenDigit.digitGroupsFrom_grouped _ _ hr, Nat.zero_add]

/-- Behind the first digit stands another, an underscore or what follows the digits. -/
theorem head?_ne_behind_first {c : Char} {t : Text}
    (ht : l.digitsText ++ rest = .char l.first.char :: t) (hr : rest.Apart)
    (hc : l.base.isDigit c = false) (hc' : c ≠ '_' ∧ c ∉ Text.separators) :
    t.head? ≠ some (.char c) := by
  obtain ⟨base, first, others⟩ := l
  match others with
  | [] =>
    obtain rfl := (List.cons.inj ht).2
    exact hr.head_ne hc'.2
  | (false, d) :: ds =>
    obtain ⟨u, hu⟩ := d.exists_grouped_eq ds
    obtain rfl := (List.cons.inj ht).2
    simpa [hu] using d.char_ne hc
  | (true, d) :: ds =>
    obtain rfl := (List.cons.inj ht).2
    simpa using hc'.1.symm

theorem digitsText_ne_nil : l.digitsText ≠ [] := by
  obtain ⟨t, ht⟩ := l.first.exists_grouped_eq l.others
  rw [digitsText, ht]
  exact List.cons_ne_nil _ _

/-- With its base in front, a literal is no decimal number. -/
theorem number_of_base? {x : Char} (hr : rest.Apart) (hlead : l.base.lead = [.char '0', .char x])
    (hx : Lexeme.base? x = some (l.base.base, l.base.isDigit)) :
    Lexeme.number (l.text ++ rest) =
      .plain (.integer l.base.base) l.base.lead.length l.text.length := by
  have hpos : l.digitsText.length ≠ 0 := fun h => l.digitsText_ne_nil (List.length_eq_zero_iff.1 h)
  have htext : l.text ++ rest = .char '0' :: .char x :: (l.digitsText ++ rest) := by
    rw [text, hlead]
    rfl
  have hbased : Lexeme.basedInteger? (.char '0' :: .char x :: (l.digitsText ++ rest)) =
      some (l.base.base, l.digitsText.length) := by
    simp only [Lexeme.basedInteger?, hx, l.digitGroups_digitsText hr, hpos, if_false]
  have hquote : x ≠ '\'' := by
    rintro rfl
    cases hx
  rw [htext, Lexeme.number, hbased]
  · simp only [text, hlead, List.length_append]
    rfl
  · rintro u ⟨⟩
    exact hquote rfl

theorem number_decimalText (hr : rest.Apart) (hbase : l.base = .decimal) :
    Lexeme.number (l.digitsText ++ rest) = .plain (.integer 10) 0 l.digitsText.length := by
  have hgroups : Lexeme.digitGroups CharClass.isDecimal (l.digitsText ++ rest) =
      l.digitsText.length := by
    have h := l.digitGroups_digitsText hr
    rwa [hbase] at h
  obtain ⟨u, hu⟩ := l.first.exists_grouped_eq l.others
  have ht : l.digitsText ++ rest = .char l.first.char :: (u ++ rest) := by
    rw [digitsText, hu]
    rfl
  have hnext {c : Char} (hc : CharClass.isDecimal c = false) (hc' : c ≠ '_' ∧ c ∉ Text.separators) :
      (u ++ rest).head? ≠ some (.char c) :=
    l.head?_ne_behind_first ht hr (by rwa [hbase]) hc'
  have hbased : Lexeme.basedInteger? (l.digitsText ++ rest) = none := by
    rw [ht]
    unfold Lexeme.basedInteger?
    split
    · next x t heq =>
      have hx : Lexeme.base? x = none := by
        have hhead : (u ++ rest).head? = some (.char x) := by rw [(List.cons.inj heq).2]; rfl
        unfold Lexeme.base?
        split <;> first | rfl | exact absurd hhead (hnext (by decide) (by decide))
      simp [hx]
    · rfl
  have hfloat : Lexeme.floatLength (l.digitsText ++ rest) = 0 := by
    rw [Lexeme.floatLength, hgroups]
    simp only [List.drop_left]
    split
    · exact absurd rfl (hr.head_ne (c := '.') (by decide))
    · rfl
  unfold Lexeme.number
  split
  · next t heq =>
    rw [ht] at heq
    exact absurd (by rw [(List.cons.inj heq).2]; rfl) (hnext (c := '\'') (by decide) (by decide))
  · simp only [hbased, hfloat, hgroups]

theorem number_text (hr : rest.Apart) :
    Lexeme.number (l.text ++ rest) =
      .plain (.integer l.base.base) l.base.lead.length l.text.length := by
  rcases l.base.lead_cases with hbase | ⟨x, hlead, hx⟩
  · have htext : l.text = l.digitsText := by rw [text, hbase]; rfl
    rw [htext, l.number_decimalText hr hbase, hbase]
    rfl
  · exact l.number_of_base? hr hlead hx

theorem exists_text_eq : ∃ ch t, l.text = .char ch :: t ∧ CharClass.isDecimal ch := by
  obtain ⟨base, first, others⟩ := l
  rcases base.lead_cases with rfl | ⟨x, hlead, -⟩
  · obtain ⟨t, ht⟩ := first.exists_grouped_eq others
    exact ⟨first.char, t, ht, first.isDigit_char⟩
  · exact ⟨'0', .char x :: first.grouped others, by rw [text, hlead]; rfl, by decide⟩

theorem newline_not_mem_text : .char '\n' ∉ l.text := by
  intro h
  rcases List.mem_append.1 h with h | h
  · revert h
    cases l.base <;> decide
  · rcases l.first.mem_grouped l.others h with h | ⟨d, h⟩
    · cases h
    · exact d.char_ne (by cases l.base <;> decide) (Glyph.char.inj h).symm

/-- A literal is one token. -/
theorem scanFrom_text {flags : Flags} {c : Cursor} (layout : Bool) (h : c.rest = l.text ++ rest)
    (hr : rest.Apart) :
    scanFrom flags layout c =
      .token ⟨.integer l.base.base, l.digitsText, layout, false, c.place⟩
        (c.advance l.text.length) := by
  obtain ⟨ch, t, ht, hch⟩ := l.exists_text_eq
  have hrest : c.rest = .char ch :: (t ++ rest) := by rw [h, ht]; rfl
  have hnumber := l.number_text hr
  rw [ht, List.cons_append] at hnumber
  have hspelt : (c.rest.take l.text.length).drop l.base.lead.length = l.digitsText := by
    rw [h, List.take_left, text, List.drop_left]
  rw [scanFrom_number layout hrest hch hnumber, ← ht, hspelt]

/-- Where a number is an integer, it is a literal. -/
theorem exists_of_number {t : Text} {n lead length : Nat}
    (hdigit : (t.head?.map fun g => CharClass.isDecimal g.code) = some true)
    (h : Lexeme.number t = .plain (.integer n) lead length) :
    ∃ l : IntegerLiteral, n = l.base.base ∧ (t.take length).drop lead = l.digitsText := by
  unfold Lexeme.number at h
  split at h
  · cases h
  · split at h
    · next base digits hbased =>
      cases h
      unfold Lexeme.basedInteger? at hbased
      split at hbased
      · next x u _ =>
        split at hbased
        · cases hbased
        · next base isDigit hx =>
          obtain ⟨b, rfl, rfl⟩ := IntegerBase.exists_of_base? hx
          simp only at hbased
          split at hbased
          · cases hbased
          · next hpos =>
            cases hbased
            -- at least one digit is counted, so there is one
            have hfirst : (u.head?.map fun g => b.isDigit g.code) = some true := by
              cases u with
              | nil => exact absurd rfl hpos
              | cons g u =>
                refine congrArg some (Bool.of_not_eq_false fun hnot => hpos ?_)
                exact Lexeme.digitGroupsFrom_of_not hnot 0 u
            obtain ⟨d, ds, rest, rfl, hcount⟩ :=
              WrittenDigit.exists_grouped_of_digitGroupsFrom 0 u hfirst
            refine ⟨⟨b, d, ds⟩, rfl, ?_⟩
            rw [Lexeme.digitGroups, hcount, Nat.zero_add, Nat.add_comm 2]
            exact List.take_left
      · cases hbased
    · split at h
      · cases h
        obtain ⟨d, ds, rest, rfl, hcount⟩ :=
          WrittenDigit.exists_grouped_of_digitGroupsFrom (b := .decimal) 0 t hdigit
        refine ⟨⟨.decimal, d, ds⟩, rfl, ?_⟩
        have hgroups : Lexeme.digitGroups CharClass.isDecimal (d.grouped ds ++ rest) =
            (d.grouped ds).length := by
          rw [← Nat.zero_add (List.length _), ← hcount]
          rfl
        rw [hgroups, List.take_left]
        rfl
      · cases h

end IntegerLiteral

theorem Lexeme.ofText_integer {c : Char} {t : Text} {n lead length : Nat}
    (h : ofText c t = .plain (.integer n) lead length) :
    CharClass.isDecimal c ∧ number t = .plain (.integer n) lead length := by
  unfold ofText solo? at h
  simp only at h
  split_ifs at h <;> grind

/-- The kinds of tokens that are no part of one line as it stands: the end of the file, comments,
names and quoted text. -/
def TokenKind.isComposed : TokenKind → Bool
  | .endOfFile | .comment | .atom | .stop | .quotedAtom | .doubleQuoted | .backQuoted
  | .charCode => true
  | _ => false

theorem Scan.isComposed_of_name {kind : TokenKind} {text : Text} {layout : Bool}
    {start behind after : Cursor} {t : Token} (hk : kind.isComposed)
    (h : name kind text layout start behind = .token t after) : t.kind.isComposed := by
  unfold name at h
  split at h <;> cases h
  exact hk

theorem Scan.isComposed_of_quoted {f : QuotedForm} {layout : Bool} {start inside after : Cursor}
    {t : Token} (h : quoted f layout start inside = .token t after) : t.kind.isComposed := by
  have hk : (quotedKind f).isComposed := by
    rcases quotedKind_cases f with hk | hk | hk | hk <;> rw [hk] <;> rfl
  unfold quoted unended at h
  split at h
  · split at h <;> cases h
  · cases h
  · simp only at h
    split at h
    · exact isComposed_of_name hk h
    · cases h
      exact hk

/-- Tokens of all other kinds are what a line goes on with, but for what leads them. -/
theorem exists_plain_of_scanFrom {flags : Flags} {layout : Bool} {c after : Cursor} {t : Token}
    (h : scanFrom flags layout c = .token t after) (hk : t.kind.isComposed = false) :
    ∃ g u lead length, Lexeme.ofText g.code (g :: u) = .plain t.kind lead length ∧
      t.text = ((g :: u).take length).drop lead := by
  have absurd_of (h : t.kind.isComposed) : False := by simp [h] at hk
  fun_induction scanFrom flags layout c with
  | case1 => cases h
  | case2 | case4 | case7 =>
    obtain ⟨rfl, -⟩ := Scan.token.inj h
    cases hk
  | case3 _ _ _ _ _ _ _ _ _ _ ih => exact ih h
  | case5 _ _ _ _ _ _ _ _ _ _ _ ih => exact ih h
  | case6 =>
    unfold Scan.unended at h
    split at h <;> cases h
  | case8 _ _ _ _ _ _ _ _ _ _ _ _ _ _ _ ih => exact ih h
  | case9 layout c d g u hr =>
    replace hr : d.rest = g :: u := hr
    unfold Scan.lexeme at h
    split at h
    · next kind lead length hlexeme =>
      cases h
      rw [hr] at hlexeme
      exact ⟨g, u, lead, length, hlexeme, by rw [hr]⟩
    · exact (absurd_of (Scan.isComposed_of_name rfl h)).elim
    · unfold Scan.dot at h
      split at h
      · cases h
      · split at h <;> cases h <;> cases hk
    · exact (absurd_of (Scan.isComposed_of_quoted h)).elim
    · exact (absurd_of (Scan.isComposed_of_quoted h)).elim
    · cases h

/-- Tokens of integers are the digits of literals. -/
theorem exists_literal_of_scanFrom {flags : Flags} {layout : Bool} {c after : Cursor} {t : Token}
    {n : Nat} (h : scanFrom flags layout c = .token t after) (hk : t.kind = .integer n) :
    ∃ l : IntegerLiteral, n = l.base.base ∧ t.text = l.digitsText := by
  obtain ⟨g, u, lead, length, hlexeme, htext⟩ := exists_plain_of_scanFrom h (by rw [hk]; rfl)
  rw [hk] at hlexeme
  obtain ⟨hdigit, hnumber⟩ := Lexeme.ofText_integer hlexeme
  have hfirst : ((g :: u).head?.map fun g => CharClass.isDecimal g.code) = some true :=
    congrArg some hdigit
  obtain ⟨l, hbase, hdigits⟩ := IntegerLiteral.exists_of_number hfirst hnumber
  exact ⟨l, hbase, htext.trans hdigits⟩

/-! ## Signs -/

/-- A sign directly before a number. -/
inductive Sign where
  | plus
  | minus
deriving DecidableEq

namespace Sign

def char : Sign → Char
  | plus => '+'
  | minus => '-'

/-- The text of a sign that may be missing. -/
def text : Option Sign → Text
  | none => []
  | some s => [.char s.char]

/-- The number with a sign that may be missing. -/
def signed (n : Int) : Option Sign → Int
  | some minus => -n
  | _ => n

/-- Whether the sign, if there is one, is a prefix operator. -/
def IsDefined (table : Table) (sign : Option Sign) : Prop :=
  ∀ s, sign = some s → (table.prefixOperator? [.char s.char]).isSome

end Sign

/-! ## Operands -/

namespace Reading

variable {d : Dialect} {layout : Bool} {r q : Reading} {t : Token}

/-- A reading that expects an operand, or comes to expect one with the next token: `q` is what it
is then. The token is known by whether layout stands before it. -/
inductive AtOperand (d : Dialect) (layout : Bool) : Reading → Reading → Prop where
  | operand {r : Reading} (h : r.expects = .operand) : AtOperand d layout r r
  | list {r : Reading} (h : r.expects = .listStart) :
    AtOperand d layout r (r.enter (.list [] false))
  | braces {r : Reading} (h : r.expects = .bracesStart) : AtOperand d layout r (r.enter .braces)
  /-- Behind a sign that no number follows directly. -/
  | sign {r q : Reading} {op : Operator} {sign : Token} (h : r.expects = .signed op sign)
    (hq : r.takePrefix d op sign = .ok q) (he : q.expects = .operand) (hl : layout = true) :
    AtOperand d layout r q

theorem AtOperand.step_eq (h : AtOperand d layout r q) (hk : t.kind.goesOn)
    (hl : t.layoutBefore = layout) : r.step d t = q.takeOperand d t := by
  have hopening (e : Enclosure) : (r.enter e).take d t = (r.enter e).takeOperand d t := by
    simp only [take, endsWith_of_goesOn hk, enter, Bool.false_eq_true, if_false]
  cases h with
  | operand h => exact step_of_operand h hk
  | list h =>
    have hclose : t.kind ≠ .closing .square := by
      intro hclose
      simp [hclose, TokenKind.goesOn] at hk
    simp only [step, settle, h, if_neg hclose, hopening]
  | braces h =>
    have hclose : t.kind ≠ .closing .curly := by
      intro hclose
      simp [hclose, TokenKind.goesOn] at hk
    simp only [step, settle, h, if_neg hclose, hopening]
  | sign h hq he hlayout =>
    simp only [step, settle, h, hl, hlayout, if_true, hq, take, endsWith_of_goesOn hk, he,
      Bool.false_eq_true, if_false]

/-- A number is taken as an operand. -/
theorem AtOperand.step_number {n : Term} (h : AtOperand d layout r q) (hl : t.layoutBefore = layout)
    (hn : t.number? = some (.ok n)) : r.step d t = .more (q.withOperand n) := by
  rw [h.step_eq (Token.goesOn_of_number? hn) hl]
  rcases Token.kind_of_number? hn with ⟨base, hk⟩ | hk | hk <;> simp only [takeOperand, hk, hn]

/-- A sign that is a prefix operator waits for what follows it. -/
theorem AtOperand.step_sign {s : Sign} {op : Operator} (h : AtOperand d layout r q)
    (hl : t.layoutBefore = layout) (hk : t.kind = .atom) (hf : t.functional = false)
    (ht : t.text = [.char s.char]) (hop : d.table.prefixOperator? t.text = some op) :
    r.step d t = .more { q with expects := .signed op t } := by
  have hsign : t.text = "-" ∨ t.text = "+" := by
    rw [ht]
    cases s with
    | plus => exact .inr rfl
    | minus => exact .inl rfl
  rw [h.step_eq (by rw [hk]; rfl) hl]
  simp only [takeOperand, hk, takeName, hf, Bool.false_eq_true, if_false, if_true, hop,
    if_pos hsign]
  rfl

/-- A number directly behind a sign belongs to it. -/
theorem step_behind_sign {s : Sign} {op : Operator} {sign : Token} {n : Int}
    (hs : sign.text = [.char s.char]) (hl : t.layoutBefore = false)
    (hn : t.number? = some (.ok (.ofInt n))) :
    ({ q with expects := .signed op sign } : Reading).step d t =
      .more (q.withOperand (.ofInt (Sign.signed n (some s)))) := by
  simp only [step, settle, hl, hn, hs, Bool.false_eq_true, if_false]
  cases s with
  | plus => rfl
  | minus =>
    have hminus : [.char Sign.minus.char] = ("-" : Text) := rfl
    rw [if_pos hminus, Term.negate?_ofInt]
    rfl

/-- A literal with its sign is taken as an operand. -/
theorem AtOperand.goes {sign : Option Sign} {l : IntegerLiteral} {gap rest : Text} {c : Cursor}
    (h : AtOperand d (!gap.isEmpty) r q) (hsign : Sign.IsDefined d.table sign)
    (hgap : ∀ g ∈ gap, CharClass.isBlank g.code)
    (hc : c.rest = gap ++ (Sign.text sign ++ l.text ++ rest)) (hr : rest.Apart) :
    Goes d r c (q.withOperand (.ofInt (Sign.signed l.value sign)))
      (c.advance (gap ++ Sign.text sign ++ l.text).length) := by
  have hnumber (layout : Bool) (place : Place) :
      (⟨.integer l.base.base, l.digitsText, layout, false, place⟩ : Token).number? =
        some (.ok (.ofInt l.value)) := congrArg some l.ofDigits_digitsText
  have hskip : scan d.flags c = scanFrom d.flags (!gap.isEmpty) (c.advance gap.length) :=
    scanFrom_blanks d.flags false hc hgap
  have hrest : (c.advance gap.length).rest = Sign.text sign ++ l.text ++ rest := by
    simp [Cursor.advance, hc]
  cases sign with
  | none =>
    have hscan := hskip.trans (l.scanFrom_text (!gap.isEmpty) hrest hr)
    have hlength : (gap ++ Sign.text none ++ l.text).length = gap.length + l.text.length := by
      simp [Sign.text]
    rw [hlength, ← Cursor.advance_advance]
    exact .step hscan (h.step_number rfl (hnumber _ _))
  | some s =>
    obtain ⟨op, hop⟩ := Option.isSome_iff_exists.1 (hsign s rfl)
    obtain ⟨ch, t, ht, hch⟩ := l.exists_text_eq
    have hs : s.char = '+' ∨ s.char = '-' := by
      cases s with
      | plus => exact .inl rfl
      | minus => exact .inr rfl
    have hscan := hskip.trans (scanFrom_sign (!gap.isEmpty) hs (by rw [hrest, ht]; rfl) hch)
    have hbehind : ((c.advance gap.length).advance 1).rest = l.text ++ rest := by
      show (c.advance gap.length).rest.drop 1 = l.text ++ rest
      rw [hrest]
      rfl
    have hscan' : scan d.flags ((c.advance gap.length).advance 1) = _ :=
      l.scanFrom_text false hbehind hr
    have hlength : (gap ++ Sign.text (some s) ++ l.text).length =
        gap.length + 1 + l.text.length := by
      simp only [Sign.text, List.length_append]
      rfl
    rw [hlength, ← Cursor.advance_advance, ← Cursor.advance_advance]
    exact (Goes.step hscan (h.step_sign rfl rfl rfl rfl hop)).trans
      (.step hscan' (step_behind_sign rfl rfl (hnumber _ _)))

end Reading

/-! ## Main statement -/

/-- Integers are read exactly. Where an operand is expected, a literal with its sign is read as its
positional value, and so it is as a sentence by itself. Every token of an integer is made of the
digits of a literal and stands for their value. Changing the sign of an integer keeps the form that
goes with its size, and changing it twice changes nothing. -/
theorem IntegerLiteral.read_exactly :
    (∀ (d : Dialect) (sign : Option Sign) (l : IntegerLiteral) (gap more : Text) (r q : Reading)
      (c : Cursor), Sign.IsDefined d.table sign → (∀ g ∈ gap, CharClass.isBlank g.code) →
      Reading.AtOperand d (!gap.isEmpty) r q →
      c.rest = gap ++ (Sign.text sign ++ l.text ++ (" ." ++ more)) →
      ∃ t, Reading.Goes d r c (q.withOperand t)
          (c.advance (gap ++ Sign.text sign ++ l.text).length) ∧
        t.IsInteger (Sign.signed l.value sign)) ∧
    (∀ (d : Dialect) (sign : Option Sign) (l : IntegerLiteral) (issued : Nat),
      Sign.IsDefined d.table sign →
      ∃ t, (SingleRead.ofText d issued (Sign.text sign ++ l.text ++ " .")).result = .ok t ∧
        t.IsInteger (Sign.signed l.value sign)) ∧
    (∀ (flags : Flags) (c after : Cursor) (t : Token) (n : Nat),
      scan flags c = .token t after → t.kind = .integer n →
      ∃ (l : IntegerLiteral) (x : Term), n = l.base.base ∧ t.text = l.digitsText ∧
        t.number? = some (.ok x) ∧ x.IsInteger l.value) ∧
    ∀ (n : Int) (x : Term), x.IsInteger n →
      ∃ y, x.negate? = some y ∧ y.IsInteger (-n) ∧ y.negate? = some x := by
  refine ⟨?_, ?_, ?_, ?_⟩
  · intro d sign l gap more r q c hsign hgap hat hc
    have hr : Text.Apart (" ." ++ more) := ⟨' ', .char '.' :: more, rfl, by decide⟩
    exact ⟨_, hat.goes hsign hgap hc hr, Term.isInteger_ofInt _⟩
  · intro d sign l issued hsign
    have hnewline : .char '\n' ∉ Sign.text sign ++ l.text ++ (" ." : Text) := by
      have hsign : .char '\n' ∉ Sign.text sign := by
        rcases sign with _ | _ | _ <;> decide
      simp [hsign, l.newline_not_mem_text]
      decide
    have hbefore := Cursor.before_ofText hnewline
    have hat : Reading.AtOperand d (!([] : Text).isEmpty) (.start issued) (.start issued) :=
      .operand rfl
    obtain ⟨ts, hts, hfeed⟩ := hat.goes hsign (by simp) hbefore.rest ⟨' ', _, rfl, by decide⟩
    obtain ⟨stop, after, hstop, hk, hafter⟩ :
        ∃ t after, scan d.flags _ = .token t after ∧ t.kind = .stop ∧ after.Before [] :=
      scan_stop hbefore.advance
    obtain ⟨eof, heof, hk'⟩ :
        ∃ t, scan d.flags after = .token t after ∧ t.kind = .endOfFile := scan_endOfFile hafter
    exact ⟨_, SingleRead.result_of_feed hts hfeed hstop (Reading.step_stop hk) (by simp [hk]) heof
      hk', Term.isInteger_ofInt _⟩
  · intro flags c after t n hscan hk
    obtain ⟨l, rfl, htext⟩ := exists_literal_of_scanFrom hscan hk
    refine ⟨l, .ofInt l.value, rfl, htext, ?_, Term.isInteger_ofInt _⟩
    simp only [Token.number?, hk, htext, l.ofDigits_digitsText]
  · intro n x hx
    obtain rfl := Term.isInteger_iff.1 hx
    refine ⟨.ofInt (-n), Term.negate?_ofInt n, Term.isInteger_ofInt _, ?_⟩
    rw [Term.negate?_ofInt, Int.neg_neg]

/-- The lowest integer of 64 bits without its sign, in groups of four digits. -/
def IntegerLiteral.lowest : IntegerLiteral where
  base := .hexadecimal
  first := ⟨(8 : Fin 16), false⟩
  others := (List.range 15).map fun i => (i % 4 = 3, ⟨(0 : Fin 16), false⟩)

theorem IntegerLiteral.read_lowest :
    Sign.text (some .minus) ++ lowest.text ++ (" ." : Text) = "-0x8000_0000_0000_0000 ." ∧
      ∃ t, (SingleRead.ofText .standard 0 "-0x8000_0000_0000_0000 .").result = .ok t ∧
        t.IsInteger (-2 ^ 63) := by
  have htext : Sign.text (some .minus) ++ lowest.text ++ (" ." : Text) =
      "-0x8000_0000_0000_0000 ." := by
    decide +kernel
  have hdefined : Sign.IsDefined Dialect.standard.table (some .minus) := by
    intro s hs
    cases hs
    decide +kernel
  have hread := read_exactly.2.1 .standard (some .minus) lowest 0 hdefined
  rw [htext] at hread
  exact ⟨htext, hread⟩

end PrologText
