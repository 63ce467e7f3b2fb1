import PrologText.Proofs.ByteSlices
import PrologText.Proofs.Spans

/-!
# Lexemes among bytes

Which token a line goes on with can be told from its bytes, at the cost of look-ups that go wrong
where there is no such byte (`Bytes.lexeme?`). Main statement: for the bytes of a text none of them
does, and the answer is that for the text, lengths being counted in bytes (`Bytes.lexeme?_bytes`).
-/

namespace PrologText

/-! ## Digit groups as runs -/

namespace Lexeme

variable {p : Char → Bool} {ds t : Text} {d : Glyph}

/-- Digits with no further group behind them. -/
theorem digitGroupsFrom_last (hd : ∀ g ∈ ds, p g.code) (hp : p '_' = false)
    (ht : ∀ g, t.head? = some g → p g.code = false)
    (hgroup : ∀ d u, t = .char '_' :: d :: u → p d.code = false) (n : Nat) :
    digitGroupsFrom p n (ds ++ t) = n + ds.length := by
  induction ds generalizing n with
  | nil => exact digitGroupsFrom_of_head ht n
  | cons g ds ih =>
    obtain ⟨hg, hds⟩ := List.forall_mem_cons.1 hd
    by_cases hhead : (ds ++ t).head? = some (.char '_')
    · -- The underscore is not one of the digits.
      obtain rfl : ds = [] := by
        cases ds with
        | nil => rfl
        | cons g' ds =>
          obtain rfl := Option.some.inj hhead
          simp [hp, Glyph.code] at hds
      obtain ⟨u, rfl⟩ := List.head?_eq_some_iff.1 hhead
      have hnext : (u.head?.map fun d => p d.code) ≠ some true := by
        cases u with
        | nil => simp
        | cons d u => simp [hgroup d u rfl]
      simp [digitGroupsFrom, hg, hnext]
    · rw [List.cons_append, digitGroupsFrom_cons hg hhead, ih hds, List.length_cons]
      omega

/-- Digits with a further group behind them. -/
theorem digitGroupsFrom_next (hd : ∀ g ∈ ds, p g.code) (hne : ds ≠ []) (hp : p '_' = false)
    (hnext : p d.code) (n : Nat) :
    digitGroupsFrom p n (ds ++ .char '_' :: d :: t) =
      digitGroupsFrom p (n + ds.length + 1) (d :: t) := by
  induction ds generalizing n with
  | nil => contradiction
  | cons g ds ih =>
    obtain ⟨hg, hds⟩ := List.forall_mem_cons.1 hd
    cases ds with
    | nil => simp [digitGroupsFrom, hg, hnext]
    | cons g' ds =>
      have hhead : (g' :: ds ++ .char '_' :: d :: t).head? ≠ some (.char '_') := by
        rintro heq
        obtain rfl := Option.some.inj heq
        simp [hp, Glyph.code] at hds
      rw [List.cons_append, digitGroupsFrom_cons hg hhead, ih hds (List.cons_ne_nil _ _)]
      congr 1
      simp only [List.length_cons]
      omega

theorem exists_run (p : Char → Bool) (t : Text) :
    ∃ ds u, t = ds ++ u ∧ (t.takeWhile fun g => p g.code) = ds ∧ (∀ g ∈ ds, p g.code) ∧
      ∀ g, u.head? = some g → p g.code = false := by
  refine ⟨_, _, List.takeWhile_append_dropWhile.symm, rfl,
    fun g => List.all_eq_true.1 List.all_takeWhile g, fun g hg => ?_⟩
  have hnot := List.head?_dropWhile_not (fun g : Glyph => p g.code) t
  rw [hg] at hnot
  simpa using hnot

/-- Digits of some base. -/
def IsDigits (p : Char → Bool) : Prop :=
  ∀ c, p c → CharClass.isHexadecimal c

theorem isDigits_isDecimal : IsDigits CharClass.isDecimal :=
  fun _ h => by simp [CharClass.isHexadecimal, h]

theorem isDigits_isHexadecimal : IsDigits CharClass.isHexadecimal :=
  fun _ => id

theorem isDigits_isOctal : IsDigits CharClass.isOctal :=
  fun _ => CharClass.isHexadecimal_of_isOctal

theorem isDigits_isBinary : IsDigits CharClass.isBinary :=
  fun _ => CharClass.isHexadecimal_of_isBinary

theorem IsDigits.underscore (h : IsDigits p) : p '_' = false := by
  rw [Bool.eq_false_iff]
  intro hp
  exact absurd (h _ hp) (by decide)

theorem IsDigits.toNat_lt (h : IsDigits p) {c : Char} (hc : p c) : c.toNat < 0x80 :=
  CharClass.toNat_lt_of_isHexadecimal (h c hc)

theorem IsDigits.isAscii (h : IsDigits p) {g : Glyph} (hg : p g.code) : g.IsAscii :=
  ⟨g.code, ((Text.code_eq_ascii_iff (h.toNat_lt hg)).1 rfl), h.toNat_lt hg⟩

theorem IsDigits.width_run (h : IsDigits p) (t : Text) : t.width (run p t) = run p t := by
  refine Text.width_ascii (run_le p t) fun g hg => h.isAscii ?_
  rw [run, ← List.prefix_iff_eq_take.1 (List.takeWhile_prefix _)] at hg
  exact List.all_eq_true.1 List.all_takeWhile g hg

theorem IsDigits.run_bytes (h : IsDigits p) (ht : t.IsJoined) :
    Bytes.run p (Text.bytes t) = run p t := by
  rw [Bytes.run_bytes p ht, h.width_run]

theorem IsDigits.exists_digitGroupsFrom (h : IsDigits p) (n : Nat) (t : Text) :
    ∃ k ≤ t.length, digitGroupsFrom p n t = n + k ∧ ∀ g ∈ t.take k, g.IsAscii := by
  have hunderscore : (Glyph.char '_').IsAscii := ⟨'_', rfl, by decide⟩
  fun_induction digitGroupsFrom p n t with
  | case1 n => exact ⟨0, Nat.le_refl _, rfl, by simp⟩
  | case2 n g t hg hnext ih =>
    obtain ⟨k, hk, heq, hascii⟩ := ih
    exact ⟨k + 2, by simpa using hk, by omega, by simpa [h.isAscii hg, hunderscore] using hascii⟩
  | case3 n g t hg hnext => exact ⟨1, by simp, rfl, by simp [h.isAscii hg]⟩
  | case4 n g t hg => exact ⟨0, Nat.zero_le _, rfl, by simp⟩
  | case5 n g t _ hg ih =>
    obtain ⟨k, hk, heq, hascii⟩ := ih
    exact ⟨k + 1, by simpa using hk, by omega, by simpa [h.isAscii hg] using hascii⟩
  | case6 n g t _ hg => exact ⟨0, Nat.zero_le _, rfl, by simp⟩

theorem IsDigits.width_digitGroups (h : IsDigits p) (t : Text) :
    t.width (digitGroups p t) = digitGroups p t := by
  obtain ⟨k, hk, heq, hascii⟩ := h.exists_digitGroupsFrom 0 t
  rw [digitGroups, heq, Nat.zero_add]
  exact Text.width_ascii hk hascii

end Lexeme

namespace Bytes

variable {t : Text} {g : Glyph} {c : Char}

/-! ## Words and symbols -/

/-- The number of bytes of a word whose first character satisfies `starts`. -/
def word (starts : Char → Bool) (s : List UInt8) : Nat :=
  if (rune s).2 = 0 ∨ starts (rune s).1 = false then 0 else run CharClass.isAlphanumeric s

/-- The number of bytes up to the end of the symbol characters; the first `i` bytes have been passed
over, and `behind` is what follows them. -/
def graphicFrom? (s : List UInt8) (i : Nat) : (behind : Text) → Option Nat
  | [] => some s.length
  | g :: behind =>
    if CharClass.isGraphic g.code then do
      let rest ← from? s i
      if startsWith rest ['/', '*'] then some i
      else graphicFrom? s (i + g.bytes.length) behind
    else some i

/-- The number of bytes of the symbol characters at the start, up to a block comment. -/
def graphic? (s : List UInt8) : Option Nat :=
  graphicFrom? s 0 (Text.ofBytes s)

def endsSentence (s : List UInt8) : Bool :=
  (rune s).2 = 0 || CharClass.isBlank (rune s).1 || (rune s).1 = '%'

/-- Whether the last of the first `n` bytes is a full stop that belongs to no atom. -/
def stopAfter? (s : List UInt8) (n : Nat) : Option Bool :=
  if 1 < n then do
    let last ← s[n - 1]?
    if last = asciiByte '.' then
      let before ← s[n - 2]?
      if before = asciiByte '.' then some false
      else
        let rest ← from? s n
        some (endsSentence rest)
    else some false
  else some false

theorem word_bytes (starts : Char → Bool) (h : Text.IsJoined (g :: t)) :
    word starts (Text.bytes (g :: t)) =
      if starts g.code then Text.width (g :: t) (Lexeme.run CharClass.isAlphanumeric (g :: t))
      else 0 := by
  have hg : g.bytes.length ≠ 0 := mt List.length_eq_zero_iff.1 g.bytes_ne_nil
  rw [word, rune_bytes h, run_bytes _ h]
  cases starts g.code <;> simp [hg]

theorem endsSentence_bytes (h : t.IsJoined) :
    endsSentence (Text.bytes t) = Lexeme.endsSentence t := by
  cases t with
  | nil => rw [show Text.bytes [] = [] from rfl, endsSentence, rune_nil]; rfl
  | cons g t =>
    have hg : g.bytes.length ≠ 0 := mt List.length_eq_zero_iff.1 g.bytes_ne_nil
    rw [endsSentence, rune_bytes h]
    simp [hg, Lexeme.endsSentence, Text.code_eq_ascii_iff (c := '%') (by decide)]

theorem startsWith_comment (h : t.IsJoined) :
    startsWith (Text.bytes t) ['/', '*'] = Lexeme.opensComment t := by
  rw [startsWith_bytes (by decide) h, Bool.eq_iff_iff, Lexeme.opensComment_iff,
    List.isPrefixOf_iff_prefix]
  rfl

theorem graphicFrom?_bytes (a : List UInt8) (n : Nat) (h : t.IsJoined) :
    ∃ k, graphicFrom? (a ++ Text.bytes t) a.length t = some (a.length + t.width k) ∧
      Lexeme.graphicRunFrom n t = n + k := by
  induction t generalizing a n with
  | nil => exact ⟨0, by simp [graphicFrom?, Text.bytes], rfl⟩
  | cons g t ih =>
    have hfrom := from?_append_length a (Text.bytes (g :: t)) 0
    rw [from?_of_le (Nat.zero_le _), List.drop_zero, Nat.add_zero] at hfrom
    rw [graphicFrom?, Lexeme.graphicRunFrom, hfrom, Option.bind_eq_bind, Option.bind_some,
      startsWith_comment h]
    by_cases hg : CharClass.isGraphic g.code
    · cases Lexeme.opensComment (g :: t) with
      | true => exact ⟨0, by simp [hg], by simp⟩
      | false =>
        obtain ⟨k, hk, hrun⟩ := ih (a ++ g.bytes) (n + 1) h.tail
        rw [List.append_assoc, ← Text.bytes_cons, List.length_append] at hk
        refine ⟨k + 1, ?_, ?_⟩
        · rw [if_pos hg, if_neg Bool.false_ne_true, hk, Text.width_cons_succ, Nat.add_assoc]
        · simp only [hg, hrun, Bool.not_false, Bool.and_self, if_true]
          omega
    · exact ⟨0, by simp [hg], by simp [hg]⟩

theorem graphic?_bytes (h : t.IsJoined) :
    graphic? (Text.bytes t) = some (t.width (Lexeme.graphicRun t)) := by
  obtain ⟨k, hk, hrun⟩ := graphicFrom?_bytes [] 0 h
  rw [graphic?, show Text.ofBytes (Text.bytes t) = t from h, Lexeme.graphicRun, hrun, Nat.zero_add]
  simpa using hk

theorem stopAfter?_bytes {n : Nat} (h : t.IsJoined) (hn : n ≤ t.length) :
    stopAfter? (Text.bytes t) (t.width n) = some (Lexeme.stopAfter t n) := by
  have hpoint : '.'.toNat < 0x80 := by decide
  obtain _ | n := n
  · simp [stopAfter?, Lexeme.stopAfter]
  obtain ⟨last, hlast, hlastIs⟩ := getElem?_width_pred h hn
  have hle := Text.le_width hn
  by_cases hstop : t[n]? = some (.char '.')
  · -- The full stop has one byte, so the byte before it is the last one of the glyph before it.
    obtain rfl : last = asciiByte '.' := (hlastIs '.' hpoint).2 hstop
    have hwidth := Text.width_succ_of_ascii hpoint hstop
    obtain _ | n := n
    · simp [stopAfter?, Lexeme.stopAfter, hwidth]
    obtain ⟨before, hbefore, hbeforeIs⟩ := getElem?_width_pred h (Nat.lt_of_succ_lt hn)
    have hindex : t.width (n + 1 + 1) - 2 = t.width (n + 1) - 1 := by omega
    have hdot : t[n]? = some (.char '.') ↔ before = asciiByte '.' := (hbeforeIs '.' hpoint).symm
    rw [stopAfter?, if_pos (by omega), hlast, hindex, hbefore, from?_width]
    by_cases hb : before = asciiByte '.' <;>
      simp [Lexeme.stopAfter, hstop, hdot, hb, endsSentence_bytes (h.drop _)]
  · have hne : last ≠ asciiByte '.' := fun heq => hstop ((hlastIs '.' hpoint).1 heq)
    have hfalse : Lexeme.stopAfter t (n + 1) = false := by simp [Lexeme.stopAfter, hstop]
    rw [hfalse, stopAfter?]
    simp [hlast, hne]

/-! ## Numbers -/

/-- Whether an underscore and a digit stand behind the first `n` bytes. -/
def groupFollows? (isDigit : Char → Bool) (s : List UInt8) (n : Nat) : Option Bool :=
  if n + 1 < s.length then do
    let mark ← s[n]?
    if mark = asciiByte '_' then
      let next ← s[n + 1]?
      some (isDigit (byteChar next))
    else some false
  else some false

/-- The number of bytes up to the end of the digit groups, `n` of which have been passed over. -/
def digitsFrom? (isDigit : Char → Bool) (s : List UInt8) (n : Nat) : Option Nat :=
  if n < s.length then do
    let rest ← from? s n
    let group := run isDigit rest
    if group = 0 then some n
    else if ← groupFollows? isDigit s (n + group) then digitsFrom? isDigit s (n + group + 1)
    else some (n + group)
  else some n
termination_by s.length - n

/-- The number of bytes in digit groups at the start. -/
def digits? (isDigit : Char → Bool) (s : List UInt8) : Option Nat :=
  digitsFrom? isDigit s 0

/-- The number of bytes up to the end of a sign behind the first `n`, or `n` if there is none. -/
def afterSign? (s : List UInt8) (n : Nat) : Option Nat :=
  if n < s.length then do
    let sign ← s[n]?
    some (if sign = asciiByte '+' ∨ sign = asciiByte '-' then n + 1 else n)
  else some n

/-- The number of bytes up to the end of an exponent behind the first `n`, or `n` if there is
none. -/
def afterExponent? (s : List UInt8) (n : Nat) : Option Nat :=
  if n < s.length then do
    let letter ← s[n]?
    if letter = asciiByte 'e' ∨ letter = asciiByte 'E' then
      let start ← afterSign? s (n + 1)
      let rest ← from? s start
      let digits := run CharClass.isDecimal rest
      some (if 0 < digits then start + digits else n)
    else some n
  else some n

/-- The number of bytes of a floating point number at the start, zero if there is none. -/
def float? (s : List UInt8) : Option Nat := do
  let whole ← digits? CharClass.isDecimal s
  if whole = 0 ∨ s.length ≤ whole + 1 then some 0
  else do
    let point ← s[whole]?
    if point = asciiByte '.' then
      let rest ← from? s (whole + 1)
      let fraction ← digits? CharClass.isDecimal rest
      if fraction = 0 then some 0 else afterExponent? s (whole + 1 + fraction)
    else some 0

/-- The letters after a zero, the bases they stand for and the digits of these. -/
def bases : List (Char × Nat × (Char → Bool)) :=
  [('x', 16, CharClass.isHexadecimal), ('o', 8, CharClass.isOctal), ('b', 2, CharClass.isBinary)]

/-- An integer with one of some bases in front, and the number of its digits. -/
def basedInteger? (s : List UInt8) : List (Char × Nat × (Char → Bool)) → Option (Option (Nat × Nat))
  | [] => some none
  | (letter, base, isDigit) :: bases =>
    if startsWith s ['0', letter] then do
      let rest ← from? s 2
      let digits ← digits? isDigit rest
      if 0 < digits then some (some (base, digits)) else basedInteger? s bases
    else basedInteger? s bases

/-- A number, if there is one at the start. -/
def number? (s : List UInt8) : Option (Option Lexeme) :=
  if startsWith s ['0', '\''] then some (some .charCode)
  else do
    match ← basedInteger? s bases with
    | some (base, digits) => some (some (.plain (.integer base) 2 (2 + digits)))
    | none =>
      let length ← float? s
      if 0 < length then some (some (.plain .float 0 length))
      else
        let digits ← digits? CharClass.isDecimal s
        some (if 0 < digits then some (.plain (.integer 10) 0 digits) else none)

/-- A class of ASCII characters can be told from the first byte. -/
theorem exists_byteChar {p : Char → Bool} (hp : Lexeme.IsDigits p) (h : Text.IsJoined (g :: t)) :
    ∃ b, (Text.bytes (g :: t))[0]? = some b ∧ p (byteChar b) = p g.code := by
  rw [Text.bytes_cons]
  rcases h.head_cases with ⟨c, rfl, hc, hbytes⟩ | ⟨hcode, hbytes⟩
  · exact ⟨asciiByte c, by simp [hbytes], by rw [byteChar_asciiByte hc]; rfl⟩
  · obtain ⟨b, bs, hb⟩ := List.exists_cons_of_ne_nil g.bytes_ne_nil
    have hhigh := hbytes b (by simp [hb])
    have hnot {c : Char} (hc : 0x80 ≤ c.toNat) : p c = false := by
      rw [Bool.eq_false_iff]
      intro hpc
      exact absurd (hp.toNat_lt hpc) (Nat.not_lt.2 hc)
    exact ⟨b, by simp [hb], by rw [hnot hcode, hnot (by rwa [toNat_byteChar])]⟩

theorem groupFollows?_bytes {p : Char → Bool} (hp : Lexeme.IsDigits p) (a : List UInt8)
    (h : t.IsJoined) : ∃ b, groupFollows? p (a ++ Text.bytes t) a.length = some b ∧
      (b = true ↔ ∃ d u, t = .char '_' :: d :: u ∧ p d.code) := by
  have hhead : (a ++ Text.bytes t)[a.length]? = (Text.bytes t)[0]? :=
    getElem?_append_length a (Text.bytes t) 0
  have hnext : (a ++ Text.bytes t)[a.length + 1]? = (Text.bytes t)[1]? :=
    getElem?_append_length a (Text.bytes t) 1
  have hmark := getElem?_width_iff h (c := '_') (by decide) 0
  rw [Text.width_zero] at hmark
  simp only [groupFollows?, hhead, hnext, List.length_append, Nat.add_lt_add_iff_left]
  by_cases hu : t[0]? = some (.char '_')
  · obtain ⟨u, rfl⟩ := List.head?_eq_some_iff.1 (List.head?_eq_getElem? ▸ hu)
    have hbytes : Text.bytes (.char '_' :: u) = asciiByte '_' :: Text.bytes u := rfl
    rw [hbytes, List.getElem?_cons_zero, List.getElem?_cons_succ, List.length_cons]
    cases u with
    | nil => exact ⟨false, rfl, by simp⟩
    | cons d u =>
      obtain ⟨b, hb, hpb⟩ := exists_byteChar hp h.tail
      have hlt : 0 < (Text.bytes (d :: u)).length := (List.getElem?_eq_some_iff.1 hb).1
      refine ⟨p d.code, ?_, by simp⟩
      rw [if_pos (Nat.succ_lt_succ hlt), hb]
      simp [hpb]
  · refine ⟨false, ?_, ?_⟩
    · split
      · next hlt =>
        obtain ⟨b, hb⟩ : ∃ b, (Text.bytes t)[0]? = some b :=
          ⟨_, List.getElem?_eq_getElem (by omega)⟩
        have hne : b ≠ asciiByte '_' := fun heq => hu (hmark.1 (heq ▸ hb))
        simp [hb, hne]
      · rfl
    · simp only [Bool.false_eq_true, false_iff]
      rintro ⟨d, u, rfl, -⟩
      exact hu rfl

theorem digitsFrom?_bytes {p : Char → Bool} (hp : Lexeme.IsDigits p) (a : List UInt8)
    (h : t.IsJoined) :
    digitsFrom? p (a ++ Text.bytes t) a.length = some (Lexeme.digitGroupsFrom p a.length t) := by
  induction hk : t.length using Nat.strongRecOn generalizing a t with
  | ind k ih =>
    have hfrom := from?_append_length a (Text.bytes t) 0
    rw [from?_of_le (Nat.zero_le _), List.drop_zero, Nat.add_zero] at hfrom
    rw [digitsFrom?, hfrom, Option.bind_eq_bind, Option.bind_some, hp.run_bytes h]
    obtain ⟨ds, u, rfl, htake, hds, hu⟩ := Lexeme.exists_run p t
    have hrun : Lexeme.run p (ds ++ u) = ds.length := congrArg List.length htake
    have hlength := Text.length_bytes_of_ascii fun g hg => hp.isAscii (hds g hg)
    obtain ⟨b, hb, hgroup⟩ := groupFollows?_bytes hp (a ++ Text.bytes ds) h.of_append_right
    rw [List.append_assoc, ← Text.bytes_append, List.length_append, hlength] at hb
    simp only [hrun, hb, Option.bind_eq_bind, Option.bind_some]
    by_cases hnil : ds = []
    · subst hnil
      simp [Lexeme.digitGroupsFrom_of_head hu]
    have hpos : 0 < ds.length := List.length_pos_iff.2 hnil
    have hlt : a.length < (a ++ Text.bytes (ds ++ u)).length := by
      rw [Text.bytes_append, List.length_append, List.length_append]
      omega
    rw [if_pos hlt, if_neg (Nat.ne_of_gt hpos)]
    cases b with
    | true =>
      obtain ⟨d, v, rfl, hd⟩ := hgroup.1 rfl
      have hbytes : Text.bytes (.char '_' :: d :: v) = [asciiByte '_'] ++ Text.bytes (d :: v) := rfl
      have hnext := ih (d :: v).length (by simp [← hk]; omega)
        (a ++ Text.bytes ds ++ [asciiByte '_']) h.of_append_right.tail rfl
      simp only [List.append_assoc, List.length_append, hlength, ← hbytes, ← Text.bytes_append,
        List.length_singleton] at hnext
      rw [if_pos rfl, Nat.add_assoc, hnext,
        Lexeme.digitGroupsFrom_next hds hnil hp.underscore hd, Nat.add_assoc]
    | false =>
      have hlast (d : Glyph) (v : Text) (hv : u = .char '_' :: d :: v) : p d.code = false := by
        rw [Bool.eq_false_iff]
        exact fun hd => Bool.false_ne_true (hgroup.2 ⟨d, v, hv, hd⟩)
      rw [if_neg Bool.false_ne_true, Lexeme.digitGroupsFrom_last hds hp.underscore hu hlast]

theorem digits?_bytes {p : Char → Bool} (hp : Lexeme.IsDigits p) (h : t.IsJoined) :
    digits? p (Text.bytes t) = some (Lexeme.digitGroups p t) :=
  digitsFrom?_bytes hp [] h

/-- The first byte behind `a` is that of an ASCII character exactly if this comes first. -/
theorem exists_head (a : List UInt8) (h : Text.IsJoined (g :: t)) :
    a.length < (a ++ Text.bytes (g :: t)).length ∧
      ∃ b, (a ++ Text.bytes (g :: t))[a.length]? = some b ∧
        ∀ c : Char, c.toNat < 0x80 → (b = asciiByte c ↔ g = .char c) := by
  obtain ⟨b, bs, hb⟩ := List.exists_cons_of_ne_nil g.bytes_ne_nil
  refine ⟨by simp [hb], b, by simp [hb], fun c => ?_⟩
  exact h.eq_asciiByte_iff (hb ▸ List.mem_cons_self)

/-- The number of signs at the start, one at the most. -/
def signs (t : Text) : Nat :=
  if t.head? = some (.char '+') ∨ t.head? = some (.char '-') then 1 else 0

theorem width_signs (t : Text) : t.width (signs t) = signs t := by
  unfold signs
  split
  · next h =>
    rw [List.head?_eq_getElem?] at h
    rcases h with h | h
    · exact Text.width_succ_of_ascii (by decide) h
    · exact Text.width_succ_of_ascii (by decide) h
  · rfl

/-- The length of an exponent behind its letter. -/
theorem exponentLength_letter (he : c = 'e' ∨ c = 'E') (t : Text) :
    Lexeme.exponentLength (.char c :: t) =
      if Lexeme.run CharClass.isDecimal (t.drop (signs t)) = 0 then 0
      else 1 + signs t + Lexeme.run CharClass.isDecimal (t.drop (signs t)) := by
  rw [Lexeme.exponentLength_cons, if_pos he]
  rfl

theorem exponentLength_of_ne (hg : ¬(g = .char 'e' ∨ g = .char 'E')) (t : Text) :
    Lexeme.exponentLength (g :: t) = 0 := by
  cases g with
  | stray => rfl
  | char c => rw [Lexeme.exponentLength_cons, if_neg (by simpa using hg)]

theorem exists_letter (hg : g = .char 'e' ∨ g = .char 'E') :
    ∃ c, g = .char c ∧ c.toNat < 0x80 ∧ (c = 'e' ∨ c = 'E') := by
  rcases hg with rfl | rfl
  · exact ⟨'e', rfl, by decide, .inl rfl⟩
  · exact ⟨'E', rfl, by decide, .inr rfl⟩

theorem afterSign?_bytes (a : List UInt8) (h : t.IsJoined) :
    afterSign? (a ++ Text.bytes t) a.length = some (a.length + signs t) := by
  cases t with
  | nil => simp [afterSign?, Text.bytes, signs]
  | cons g t =>
    obtain ⟨hlt, b, hb, hchar⟩ := exists_head a h
    rw [afterSign?, if_pos hlt, hb]
    simp only [signs, hchar '+' (by decide), hchar '-' (by decide), List.head?_cons,
      Option.some.injEq, Option.bind_eq_bind, Option.bind_some]
    split <;> rfl

theorem afterExponent?_bytes (a : List UInt8) (h : t.IsJoined) :
    afterExponent? (a ++ Text.bytes t) a.length =
      some (a.length + Lexeme.exponentLength t) := by
  cases t with
  | nil => simp [afterExponent?, Text.bytes, Lexeme.exponentLength]
  | cons g t =>
    obtain ⟨hlt, b, hb, hchar⟩ := exists_head a h
    rw [afterExponent?, if_pos hlt, hb]
    simp only [hchar 'e' (by decide), hchar 'E' (by decide), Option.bind_eq_bind, Option.bind_some]
    by_cases hg : g = .char 'e' ∨ g = .char 'E'
    · obtain ⟨c, rfl, hc, he⟩ := exists_letter hg
      have hbytes : a ++ Text.bytes (.char c :: t) = a ++ [asciiByte c] ++ Text.bytes t := by
        rw [Text.bytes_cons, Glyph.bytes, Utf8.encode_ascii hc, List.append_assoc]
      have hsign := afterSign?_bytes (a ++ [asciiByte c]) h.tail
      have hfrom := from?_append_length (a ++ [asciiByte c]) (Text.bytes t) (signs t)
      have hrest := from?_width t (signs t)
      rw [width_signs] at hrest
      rw [← hbytes, hrest] at hfrom
      rw [← hbytes] at hsign
      rw [List.length_append, List.length_singleton] at hsign hfrom
      rw [if_pos hg, hsign, Option.bind_some, hfrom, Option.bind_some,
        Lexeme.isDigits_isDecimal.run_bytes (h.tail.drop _), exponentLength_letter he]
      split <;> split <;> simp only [Option.some.injEq] <;> omega
    · rw [if_neg hg, exponentLength_of_ne hg]
      rfl

/-- The exponent behind digits. -/
theorem afterExponent?_digits (a : List UInt8) {n : Nat} (hn : t.width n = n) (h : t.IsJoined) :
    afterExponent? (a ++ Text.bytes t) (a.length + n) =
      some (a.length + n + Lexeme.exponentLength (t.drop n)) := by
  have hexponent := afterExponent?_bytes (a ++ Text.bytes (t.take n)) (h.drop n)
  have hlength : (a ++ Text.bytes (t.take n)).length = a.length + n := by
    rw [List.length_append]
    exact congrArg _ hn
  rwa [List.append_assoc, Text.bytes_take_append_drop, hlength] at hexponent

theorem float?_bytes (h : t.IsJoined) :
    float? (Text.bytes t) = some (Lexeme.floatLength t) := by
  have hwidth := Lexeme.isDigits_isDecimal.width_digitGroups t
  rw [float?, digits?_bytes Lexeme.isDigits_isDecimal h, Option.bind_eq_bind, Option.bind_some]
  simp only [Lexeme.floatLength]
  generalize Lexeme.digitGroups CharClass.isDecimal t = whole at hwidth ⊢
  have hsplit := (Text.bytes_take_append_drop t whole).symm
  have hwhole : (Text.bytes (t.take whole)).length = whole := hwidth
  have hjoined := h.drop whole
  generalize t.drop whole = u at hsplit hjoined ⊢
  generalize Text.bytes (t.take whole) = a at hsplit hwhole
  rw [hsplit]
  subst hwhole
  cases u with
  | nil => simp [Text.bytes]
  | cons g u =>
    obtain ⟨hlt, b, hb, hchar⟩ := exists_head a hjoined
    by_cases hg : g = .char '.'
    · subst hg
      have hbytes : a ++ Text.bytes (.char '.' :: u) = a ++ [asciiByte '.'] ++ Text.bytes u := by
        rw [List.append_assoc]
        rfl
      obtain rfl : b = asciiByte '.' := (hchar '.' (by decide)).2 rfl
      have hfrom := from?_append_length (a ++ [asciiByte '.']) (Text.bytes u) 0
      rw [← hbytes, from?_of_le (Nat.zero_le _), List.drop_zero, Nat.add_zero, List.length_append,
        List.length_singleton] at hfrom
      have hdigits := digits?_bytes Lexeme.isDigits_isDecimal hjoined.tail
      have hfraction := Lexeme.isDigits_isDecimal.width_digitGroups u
      simp only [hb, hfrom, hdigits, Option.bind_eq_bind, Option.bind_some, if_true]
      generalize Lexeme.digitGroups CharClass.isDecimal u = fraction at hfraction ⊢
      have hexponent := afterExponent?_digits (a ++ [asciiByte '.']) hfraction hjoined.tail
      rw [← hbytes, List.length_append, List.length_singleton] at hexponent
      have hle : fraction ≤ (Text.bytes u).length := hfraction ▸ Text.width_le u fraction
      have hs : (a ++ Text.bytes (.char '.' :: u)).length =
          a.length + 1 + (Text.bytes u).length := by
        rw [hbytes, List.length_append, List.length_append, List.length_singleton]
      rw [hs, hexponent]
      split
      · rw [if_pos (by omega)]
      · split
        · rw [if_pos (by omega)]
        · rw [if_neg (by omega)]
    · have hne : b ≠ asciiByte '.' := mt (hchar '.' (by decide)).1 hg
      simp only [hb, Option.bind_eq_bind, Option.bind_some, if_neg hne, ite_self]
      split
      · next heq => exact absurd (List.cons.inj heq).1 hg
      · rfl

theorem width_exponentLength (t : Text) :
    t.width (Lexeme.exponentLength t) = Lexeme.exponentLength t := by
  cases t with
  | nil => rfl
  | cons g t =>
    by_cases hg : g = .char 'e' ∨ g = .char 'E'
    · obtain ⟨c, rfl, hc, he⟩ := exists_letter hg
      have hletter : Text.width (.char c :: t) 1 = 1 := Text.width_succ_of_ascii hc rfl
      rw [exponentLength_letter he]
      split
      · rfl
      · rw [Nat.add_assoc, Text.width_add, hletter, List.drop_succ_cons, List.drop_zero,
          Text.width_add, width_signs, Lexeme.isDigits_isDecimal.width_run]
    · rw [exponentLength_of_ne hg]
      rfl

theorem width_floatLength (t : Text) : t.width (Lexeme.floatLength t) = Lexeme.floatLength t := by
  have hwhole := Lexeme.isDigits_isDecimal.width_digitGroups t
  simp only [Lexeme.floatLength]
  split
  · next rest hrest =>
    have hpoint : Text.width (.char '.' :: rest) 1 = 1 := rfl
    have hfraction := Lexeme.isDigits_isDecimal.width_digitGroups rest
    split
    · rfl
    · rw [Nat.add_assoc, Nat.add_assoc, Text.width_add, hwhole, hrest, Text.width_add, hpoint,
        List.drop_succ_cons, List.drop_zero, Text.width_add, hfraction, width_exponentLength]
  · rfl

theorem width_zero_letter (hc : c.toNat < 0x80) (t : Text) :
    Text.width (.char '0' :: .char c :: t) 2 = 2 := by
  rw [Text.width_succ_of_ascii hc rfl]
  rfl

theorem basedInteger?_bytes (h : t.IsJoined) :
    basedInteger? (Text.bytes t) bases = some (Lexeme.basedInteger? t) := by
  have hstarts (c : Char) (hc : c.toNat < 0x80) :
      startsWith (Text.bytes t) ['0', c] = [Glyph.char '0', .char c].isPrefixOf t :=
    startsWith_bytes (by simp [hc]) h
  simp only [basedInteger?, bases, hstarts 'x' (by decide), hstarts 'o' (by decide),
    hstarts 'b' (by decide)]
  by_cases hzero : ∃ x u, t = .char '0' :: .char x :: u
  · obtain ⟨x, u, rfl⟩ := hzero
    have hletter (c : Char) :
        [Glyph.char '0', .char c].isPrefixOf (.char '0' :: .char x :: u) = decide (c = x) := by
      rw [Bool.eq_iff_iff, List.isPrefixOf_iff_prefix]
      simp
    have hfrom (hx : x.toNat < 0x80) :
        from? (Text.bytes (.char '0' :: .char x :: u)) 2 = some (Text.bytes u) := by
      have hrest := from?_width (.char '0' :: .char x :: u) 2
      rwa [width_zero_letter hx] at hrest
    generalize Text.bytes (.char '0' :: .char x :: u) = s at hfrom
    have hdigits {p : Char → Bool} (hp : Lexeme.IsDigits p) := digits?_bytes hp h.tail.tail
    simp only [hletter, Lexeme.basedInteger?]
    by_cases hx : x = 'x'
    · subst hx
      simp [hfrom (by decide), hdigits Lexeme.isDigits_isHexadecimal, Lexeme.base?,
        Nat.pos_iff_ne_zero, apply_ite some]
    by_cases ho : x = 'o'
    · subst ho
      simp [hfrom (by decide), hdigits Lexeme.isDigits_isOctal, Lexeme.base?,
        Nat.pos_iff_ne_zero, apply_ite some]
    by_cases hb : x = 'b'
    · subst hb
      simp [hfrom (by decide), hdigits Lexeme.isDigits_isBinary, Lexeme.base?,
        Nat.pos_iff_ne_zero, apply_ite some]
    · simp [Ne.symm hx, Ne.symm ho, Ne.symm hb, Lexeme.base?]
  · have hnot (c : Char) : [Glyph.char '0', .char c].isPrefixOf t = false := by
      rw [Bool.eq_false_iff, Ne, List.isPrefixOf_iff_prefix]
      rintro ⟨u, rfl⟩
      exact hzero ⟨c, u, rfl⟩
    simp only [hnot, Bool.false_eq_true, if_false]
    unfold Lexeme.basedInteger?
    split
    · exact absurd ⟨_, _, rfl⟩ hzero
    · rfl

theorem number?_bytes (h : Text.IsJoined (g :: t)) :
    number? (Text.bytes (g :: t)) =
      some (if CharClass.isDecimal g.code then some (Lexeme.number (g :: t)) else none) := by
  have hstarts : startsWith (Text.bytes (g :: t)) ['0', '\''] = true ↔
      ∃ u, g :: t = .char '0' :: .char '\'' :: u := by
    rw [startsWith_bytes (by decide) h, List.isPrefixOf_iff_prefix]
    exact exists_congr fun u => eq_comm
  rw [number?, basedInteger?_bytes h, float?_bytes h, digits?_bytes Lexeme.isDigits_isDecimal h]
  simp only [Option.bind_eq_bind, Option.bind_some]
  by_cases hcode : ∃ u, g :: t = .char '0' :: .char '\'' :: u
  · rw [if_pos (hstarts.2 hcode)]
    obtain ⟨u, hu⟩ := hcode
    cases hu
    rfl
  · rw [if_neg (mt hstarts.1 hcode)]
    cases hg : CharClass.isDecimal g.code with
    | true =>
      have hpos : 0 < Lexeme.digitGroups CharClass.isDecimal (g :: t) := Lexeme.digitGroups_pos hg
      rw [Lexeme.number_of_ne fun u hu => hcode ⟨u, hu⟩]
      cases Lexeme.basedInteger? (g :: t) with
      | some r => rfl
      | none =>
        cases Lexeme.floatLength (g :: t) with
        | zero => simp [hpos]
        | succ n => simp
    | false =>
      have hzero : Lexeme.digitGroups CharClass.isDecimal (g :: t) = 0 :=
        Lexeme.digitGroupsFrom_of_not hg 0 t
      have hfloat : Lexeme.floatLength (g :: t) = 0 := by
        simp only [Lexeme.floatLength, hzero, true_or, if_true]
        split <;> rfl
      have hbased : Lexeme.basedInteger? (g :: t) = none := by
        unfold Lexeme.basedInteger?
        split
        · next heq =>
          cases heq
          cases hg
        · rfl
      simp [hbased, hfloat, hzero]

/-! ## Lexemes -/

/-- The token of the first `n` bytes, all of symbol characters. -/
def symbols? (s : List UInt8) (n : Nat) : Option Lexeme := do
  let name ← slice? s 0 n
  if name = [asciiByte '.'] then some .dot
  else
    let stop ← stopAfter? s n
    some (.name (if stop then n - 1 else n))

/-- The token at the start of some bytes if it is a variable, a bracket or quoted text. -/
def mark (s : List UInt8) : Lexeme :=
  let c := (rune s).1
  let n := word CharClass.isVariableStart s
  if 0 < n then .plain (if n = 1 ∧ c = '_' then .anonymousVariable else .variable) 0 n
  else if c ∈ ['\'', '"', '\x60'] then .quotedText c
  else
    match Lexeme.solo? c with
    | some kind => .plain kind 0 1
    | none => .unknown c

/-- The token at the start of some bytes; lengths are in bytes. -/
def lexeme? (s : List UInt8) : Option Lexeme :=
  if 0 < word CharClass.isNameStart s then some (.name (word CharClass.isNameStart s))
  else do
    let n ← graphic? s
    if 0 < n then symbols? s n
    else if (rune s).1 = '!' ∨ (rune s).1 = ';' then some (.name 1)
    else
      let number ← number? s
      some (number.getD (mark s))

/-- A lexeme at the start of `t` with lengths in bytes. -/
def inBytes (t : Text) : Lexeme → Lexeme
  | .plain kind lead length => .plain kind (t.width lead) (t.width length)
  | .name length => .name (t.width length)
  | l => l

theorem isDigits_of_base? {x : Char} {base : Nat} {p : Char → Bool}
    (h : Lexeme.base? x = some (base, p)) : x.toNat < 0x80 ∧ Lexeme.IsDigits p := by
  unfold Lexeme.base? at h
  split at h <;> cases h
  · exact ⟨by decide, Lexeme.isDigits_isHexadecimal⟩
  · exact ⟨by decide, Lexeme.isDigits_isOctal⟩
  · exact ⟨by decide, Lexeme.isDigits_isBinary⟩

theorem inBytes_number (t : Text) : inBytes t (Lexeme.number t) = Lexeme.number t := by
  by_cases hcode : ∃ u, t = .char '0' :: .char '\'' :: u
  · obtain ⟨u, rfl⟩ := hcode
    rfl
  rw [Lexeme.number_of_ne fun u hu => hcode ⟨u, hu⟩]
  split
  · next base digits hbased =>
    obtain ⟨x, isDigit, u, rfl, hbase, rfl⟩ := Lexeme.basedInteger?_cases hbased
    obtain ⟨hx, hdigits⟩ := isDigits_of_base? hbase
    simp only [inBytes, Text.width_add _ 2, width_zero_letter hx, List.drop_succ_cons,
      List.drop_zero, hdigits.width_digitGroups]
  · split
    · simp only [inBytes, Text.width_zero, Lexeme.isDigits_isDecimal.width_digitGroups]
    · simp only [inBytes, Text.width_zero, width_floatLength]

theorem bytes_eq_stop_iff (h : t.IsJoined) :
    Text.bytes t = [asciiByte '.'] ↔ t = [.char '.'] := by
  constructor
  · intro hbytes
    exact h.eq_of_bytes_eq (Text.isJoined_char_cons.2 Text.isJoined_nil) hbytes
  · rintro rfl
    rfl

theorem symbols?_bytes {n : Nat} (h : Text.IsJoined (g :: t)) (hn : n ≤ (g :: t).length)
    (hpos : 0 < n) :
    symbols? (Text.bytes (g :: t)) (Text.width (g :: t) n) = some (inBytes (g :: t)
      (if n = 1 ∧ g.code = '.' then .dot
      else .name (if Lexeme.stopAfter (g :: t) n then n - 1 else n))) := by
  have hdot : (g :: t).take n = [.char '.'] ↔ n = 1 ∧ g.code = '.' := by
    obtain ⟨n, rfl⟩ := Nat.exists_eq_succ_of_ne_zero (Nat.ne_of_gt hpos)
    have hnil : t.take n = [] ↔ n = 0 := by
      cases t with
      | nil => simpa using hn
      | cons g' t => simp
    rw [Text.code_eq_ascii_iff (by decide), List.take_succ_cons, List.cons_eq_cons, hnil]
    simp [and_comm]
  rw [symbols?, slice?_zero_width, stopAfter?_bytes h hn, Option.bind_eq_bind, Option.bind_some]
  simp only [bytes_eq_stop_iff (h.take n), hdot, Option.bind_eq_bind, Option.bind_some]
  split
  · rfl
  · cases hstop : Lexeme.stopAfter (g :: t) n with
    | false => rfl
    | true =>
      obtain ⟨n, rfl⟩ := Nat.exists_eq_succ_of_ne_zero (Nat.ne_of_gt hpos)
      have hlast : (g :: t)[n]? = some (.char '.') := by
        simp only [Lexeme.stopAfter, Bool.and_eq_true, decide_eq_true_eq] at hstop
        exact hstop.1.1.2
      simp [inBytes, Text.width_succ_of_ascii (by decide) hlast]

theorem width_one_of_code (hc : g.code.toNat < 0x80) : Text.width (g :: t) 1 = 1 :=
  Text.width_succ_of_ascii hc (congrArg some ((Text.code_eq_ascii_iff hc).1 rfl))

theorem toNat_lt_of_solo? {kind : TokenKind} (h : Lexeme.solo? c = some kind) :
    c.toNat < 0x80 := by
  unfold Lexeme.solo? at h
  split at h <;> first | decide | cases h

theorem mark_bytes (h : Text.IsJoined (g :: t)) (hname : CharClass.isNameStart g.code = false)
    (hgraphic : CharClass.isGraphic g.code = false) (hcut : ¬(g.code = '!' ∨ g.code = ';'))
    (hdecimal : CharClass.isDecimal g.code = false) :
    mark (Text.bytes (g :: t)) = inBytes (g :: t) (.ofText g.code (g :: t)) := by
  rw [Lexeme.ofText]
  simp only [mark, rune_bytes h, word_bytes _ h, hname, hgraphic, hdecimal, hcut,
    Bool.false_eq_true, if_false]
  by_cases hv : CharClass.isVariableStart g.code
  · have hpos := Lexeme.run_pos (t := t) (CharClass.isAlphanumeric_of_isVariableStart hv)
    have hle := Text.le_width (Lexeme.run_le CharClass.isAlphanumeric (g :: t))
    have hsingle : Text.width (g :: t) (Lexeme.run CharClass.isAlphanumeric (g :: t)) = 1 ∧
        g.code = '_' ↔ Lexeme.run CharClass.isAlphanumeric (g :: t) = 1 ∧ g.code = '_' := by
      refine and_congr_left fun hcode => ⟨fun heq => by omega, fun heq => ?_⟩
      rw [heq]
      exact width_one_of_code (hcode ▸ by decide)
    simp only [hv, if_true, hsingle, if_pos (Nat.lt_of_lt_of_le hpos hle)]
    rfl
  · rw [if_neg hv, if_neg hv, if_neg (Nat.lt_irrefl 0)]
    split
    · rfl
    · cases hsolo : Lexeme.solo? g.code with
      | some kind => simp [inBytes, width_one_of_code (toNat_lt_of_solo? hsolo)]
      | none => rfl

theorem lexeme?_bytes (h : Text.IsJoined (g :: t)) (hopens : Lexeme.opensComment (g :: t) = false) :
    lexeme? (Text.bytes (g :: t)) = some (inBytes (g :: t) (.ofText g.code (g :: t))) := by
  have hg : 0 < g.bytes.length := List.length_pos_iff.2 g.bytes_ne_nil
  rw [lexeme?, word_bytes _ h, graphic?_bytes h, number?_bytes h, rune_bytes h]
  simp only [Option.bind_eq_bind, Option.bind_some]
  by_cases hname : CharClass.isNameStart g.code
  · have hpos := Lexeme.run_pos (t := t) (CharClass.isAlphanumeric_of_isNameStart hname)
    have hle := Text.le_width (Lexeme.run_le CharClass.isAlphanumeric (g :: t))
    rw [if_pos hname, if_pos (by omega), Lexeme.ofText, if_pos hname]
    rfl
  rw [if_neg hname, if_neg (Nat.lt_irrefl 0)]
  by_cases hgraphic : CharClass.isGraphic g.code
  · have hpos := Lexeme.graphicRun_pos hgraphic hopens
    have hle := Text.le_width (Lexeme.graphicRun_le (g :: t))
    rw [if_pos (by omega), symbols?_bytes h (Lexeme.graphicRun_le _) hpos,
      Lexeme.ofText_graphic hgraphic]
  have hzero : Lexeme.graphicRun (g :: t) = 0 := by
    simp [Lexeme.graphicRun, Lexeme.graphicRunFrom, hgraphic]
  rw [hzero, Text.width_zero, if_neg (Nat.lt_irrefl 0)]
  by_cases hcut : g.code = '!' ∨ g.code = ';'
  · have hwidth : Text.width (g :: t) 1 = 1 := by
      rcases hcut with hcut | hcut <;> exact width_one_of_code (hcut ▸ by decide)
    rw [if_pos hcut, Lexeme.ofText, if_neg hname, if_neg hgraphic, if_pos hcut, inBytes, hwidth]
  rw [if_neg hcut]
  by_cases hdecimal : CharClass.isDecimal g.code
  · rw [if_pos hdecimal, Lexeme.ofText, if_neg hname, if_neg hgraphic, if_neg hcut,
      if_pos hdecimal, inBytes_number]
    rfl
  · rw [if_neg hdecimal, Option.getD_none, mark_bytes h (by simpa using hname)
      (by simpa using hgraphic) hcut (by simpa using hdecimal)]

end Bytes

end PrologText
