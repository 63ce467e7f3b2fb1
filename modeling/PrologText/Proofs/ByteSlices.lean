import PrologText.Proofs.Bytes

/-!
# Looking into the bytes of a line

A line can be kept as its bytes, with all counts in bytes. A look-up then goes wrong where there are
not that many of them, and `Bytes.slice?` says so. `Text.width` tells how many bytes some glyphs
have. Main statements: between glyphs, slices of the bytes are the bytes of slices
(`Bytes.slice?_width`), and an ASCII character is found by its byte, in front of a point
(`Bytes.getElem?_width_pred`) and behind it (`Text.IsJoined.head?_bytes`).
-/

namespace PrologText

/-! ## ASCII -/

/-- The byte of an ASCII character. -/
def asciiByte (c : Char) : UInt8 :=
  .ofNat c.toNat

theorem toNat_asciiByte {c : Char} (h : c.toNat < 0x80) : (asciiByte c).toNat = c.toNat := by
  rw [asciiByte, UInt8.toNat_ofNat']
  omega

theorem asciiByte_inj {c d : Char} (hc : c.toNat < 0x80) (hd : d.toNat < 0x80) :
    asciiByte c = asciiByte d ↔ c = d := by
  rw [← UInt8.toNat_inj, toNat_asciiByte hc, toNat_asciiByte hd, Char.toNat_inj]

/-- The character of a byte, by its number. -/
def byteChar (b : UInt8) : Char :=
  .ofNat b.toNat

theorem toNat_byteChar (b : UInt8) : (byteChar b).toNat = b.toNat := by
  have hlt := b.toNat_lt
  have hv : b.toNat.isValidChar := .inl (by omega)
  rw [byteChar, Char.ofNat, dif_pos hv]
  rfl

theorem byteChar_asciiByte {c : Char} (h : c.toNat < 0x80) : byteChar (asciiByte c) = c := by
  rw [← Char.toNat_inj, toNat_byteChar, toNat_asciiByte h]

theorem Utf8.encode_ascii {c : Char} (h : c.toNat < 0x80) : encode c = [asciiByte c] := by
  simp [encode, h, asciiByte]

theorem Utf8.high_of_mem_encode {c : Char} (h : 0x80 ≤ c.toNat) {b : UInt8} (hb : b ∈ encode c) :
    0x80 ≤ b.toNat := by
  have hlt : c.toNat < 0x110000 := by
    rcases c.valid with h | ⟨-, h⟩
    · exact Nat.lt_trans h (by decide)
    · exact h
  simp only [encode] at hb
  split_ifs at hb <;> simp only [List.mem_cons, List.not_mem_nil, or_false] at hb <;>
    rcases hb with rfl | rfl | rfl | rfl <;> rw [UInt8.toNat_ofNat'] <;> omega

theorem Utf8.decode?_ascii {b : UInt8} (h : b.toNat < 0x80) (bytes : List UInt8) :
    ∃ c, decode? (b :: bytes) = some (c, bytes) := by
  have hv : b.toNat.isValidChar := .inl (by omega)
  refine ⟨Char.ofNat b.toNat, ?_⟩
  simp [decode?, lead, continuation, h, hv]

def Glyph.IsAscii (g : Glyph) : Prop :=
  ∃ c : Char, g = .char c ∧ c.toNat < 0x80

namespace Text

variable {t u : Text} {g : Glyph} {c : Char}

/-- The first glyph of a text: an ASCII character, which is one byte, or a glyph that has nothing in
common with them. -/
theorem IsJoined.head_cases (h : IsJoined (g :: t)) :
    (∃ c, g = .char c ∧ c.toNat < 0x80 ∧ g.bytes = [asciiByte c]) ∨
      0x80 ≤ g.code.toNat ∧ ∀ b ∈ g.bytes, 0x80 ≤ b.toNat := by
  cases g with
  | char c =>
    by_cases hc : c.toNat < 0x80
    · exact .inl ⟨c, rfl, hc, Utf8.encode_ascii hc⟩
    · exact .inr ⟨Nat.le_of_not_lt hc, fun b => Utf8.high_of_mem_encode (Nat.le_of_not_lt hc)⟩
  | stray b =>
    have hcode : 0x80 ≤ Glyph.replacement.toNat := by decide
    refine .inr ⟨hcode, fun b' hb' => ?_⟩
    obtain rfl := List.mem_singleton.1 hb'
    obtain ⟨hnone, -⟩ := isJoined_stray_cons.1 h
    refine Nat.le_of_not_lt fun hlt => ?_
    obtain ⟨c, hc⟩ := Utf8.decode?_ascii hlt t.bytes
    cases hnone.symm.trans hc

theorem IsJoined.tail (h : IsJoined (g :: t)) : IsJoined t :=
  h.of_append_right (t := [g])

theorem IsJoined.take (h : t.IsJoined) (n : Nat) : IsJoined (t.take n) :=
  h.of_isInfix (List.take_prefix n t).isInfix

theorem IsJoined.drop (h : t.IsJoined) (n : Nat) : IsJoined (t.drop n) :=
  h.of_isInfix (List.drop_suffix n t).isInfix

/-- A glyph is an ASCII character exactly if its code is this character. -/
theorem code_eq_ascii_iff (hc : c.toNat < 0x80) : g.code = c ↔ g = .char c := by
  cases g with
  | char c' => simp [Glyph.code]
  | stray b =>
    refine iff_of_false ?_ Glyph.noConfusion
    have hcode : ¬Glyph.replacement.toNat < 0x80 := by decide
    rintro rfl
    exact hcode hc

/-- A byte of a glyph is that of an ASCII character exactly if the glyph is this character. -/
theorem IsJoined.eq_asciiByte_iff (h : IsJoined (g :: t)) {b : UInt8} (hb : b ∈ g.bytes)
    (hc : c.toNat < 0x80) : b = asciiByte c ↔ g = .char c := by
  rcases h.head_cases with ⟨d, rfl, hd, hbytes⟩ | ⟨hcode, hbytes⟩
  · obtain rfl : b = asciiByte d := by simpa [hbytes] using hb
    rw [asciiByte_inj hd hc, Glyph.char.injEq]
  · have hhigh := hbytes b hb
    refine iff_of_false ?_ ?_
    · rintro rfl
      rw [toNat_asciiByte hc] at hhigh
      omega
    · rintro rfl
      exact absurd hc (Nat.not_lt.2 hcode)

/-- An ASCII character is in front exactly if its byte is. -/
theorem IsJoined.head?_bytes (h : t.IsJoined) (hc : c.toNat < 0x80) :
    t.bytes.head? = some (asciiByte c) ↔ t.head? = some (.char c) := by
  cases t with
  | nil => simp [bytes]
  | cons g t =>
    obtain ⟨b, bs, hb⟩ := List.exists_cons_of_ne_nil g.bytes_ne_nil
    rw [bytes_cons, hb, List.cons_append, List.head?_cons, List.head?_cons, Option.some.injEq,
      Option.some.injEq, h.eq_asciiByte_iff (hb ▸ List.mem_cons_self) hc]

/-! ## Widths -/

/-- The number of bytes of the first `n` glyphs. -/
def width (t : Text) (n : Nat) : Nat :=
  (bytes (t.take n)).length

theorem bytes_take_append_drop (t : Text) (n : Nat) :
    bytes (t.take n) ++ bytes (t.drop n) = bytes t := by
  rw [← bytes_append, List.take_append_drop]

theorem bytes_take_width (t : Text) (n : Nat) : (bytes t).take (t.width n) = bytes (t.take n) := by
  rw [← bytes_take_append_drop t n]
  exact List.take_left

theorem bytes_drop_width (t : Text) (n : Nat) : (bytes t).drop (t.width n) = bytes (t.drop n) := by
  conv => lhs; rw [← bytes_take_append_drop t n]
  exact List.drop_left

theorem width_le (t : Text) (n : Nat) : t.width n ≤ (bytes t).length := by
  rw [← bytes_take_append_drop t n, List.length_append]
  exact Nat.le_add_right _ _

@[simp] theorem width_zero (t : Text) : t.width 0 = 0 := rfl

theorem width_length (t : Text) : t.width t.length = (bytes t).length := by
  rw [width, List.take_length]

theorem width_add (t : Text) (m n : Nat) : t.width (m + n) = t.width m + width (t.drop m) n := by
  rw [width, List.take_add, bytes_append, List.length_append]
  rfl

theorem width_mono (t : Text) {m n : Nat} (h : m ≤ n) : t.width m ≤ t.width n := by
  rw [← Nat.add_sub_cancel' h, width_add]
  exact Nat.le_add_right _ _

theorem width_cons_succ (g : Glyph) (t : Text) (n : Nat) :
    width (g :: t) (n + 1) = g.bytes.length + width t n := by
  rw [width, List.take_succ_cons, bytes_cons, List.length_append]
  rfl

theorem le_width {n : Nat} (h : n ≤ t.length) : n ≤ t.width n := by
  induction n generalizing t with
  | zero => exact Nat.zero_le _
  | succ n ih =>
    cases t with
    | nil => cases h
    | cons g t =>
      have hg := List.length_pos_iff.2 g.bytes_ne_nil
      have hle := ih (Nat.le_of_succ_le_succ h)
      rw [width_cons_succ]
      omega

theorem width_succ_of_ascii {n : Nat} (hc : c.toNat < 0x80) (h : t[n]? = some (.char c)) :
    t.width (n + 1) = t.width n + 1 := by
  rw [← List.head?_drop] at h
  obtain ⟨u, hu⟩ := List.head?_eq_some_iff.1 h
  rw [width_add, hu, width_cons_succ, Glyph.bytes, Utf8.encode_ascii hc]
  rfl

/-- ASCII characters have one byte each. -/
theorem width_ascii {n : Nat} (hn : n ≤ t.length)
    (h : ∀ g ∈ t.take n, g.IsAscii) : t.width n = n := by
  induction n generalizing t with
  | zero => rfl
  | succ n ih =>
    cases t with
    | nil => cases hn
    | cons g t =>
      rw [List.take_succ_cons] at h
      obtain ⟨⟨c, rfl, hc⟩, ht⟩ := List.forall_mem_cons.1 h
      rw [width_cons_succ, ih (Nat.le_of_succ_le_succ hn) ht, Glyph.bytes, Utf8.encode_ascii hc]
      exact Nat.add_comm ..

theorem width_append_of_ascii (h : ∀ g ∈ t, g.IsAscii) : width (t ++ u) t.length = t.length :=
  width_ascii (by simp) (by rwa [List.take_left])

theorem length_bytes_of_ascii (h : ∀ g ∈ t, g.IsAscii) : (bytes t).length = t.length := by
  have hwidth := width_ascii (Nat.le_refl t.length) (by rwa [List.take_length])
  rwa [width_length] at hwidth

end Text

/-! ## Look-ups -/

namespace Bytes

open Text (width)

variable {t : Text} {g : Glyph} {c : Char}

/-- The bytes from `i` up to `j`, if there are that many. -/
def slice? (s : List UInt8) (i j : Nat) : Option (List UInt8) :=
  if i ≤ j ∧ j ≤ s.length then some ((s.take j).drop i) else none

/-- The bytes from `i` on, if there are that many. -/
def from? (s : List UInt8) (i : Nat) : Option (List UInt8) :=
  slice? s i s.length

/-- The first character and the number of its bytes, which is zero if there is none. -/
def rune (s : List UInt8) : Char × Nat :=
  match Text.ofBytes s with
  | [] => (Glyph.replacement, 0)
  | g :: _ => (g.code, g.bytes.length)

/-- The number of bytes of the characters at the start that satisfy `p`. -/
def run (p : Char → Bool) (s : List UInt8) : Nat :=
  (Text.bytes ((Text.ofBytes s).takeWhile fun g => p g.code)).length

def startsWith (s : List UInt8) (start : List Char) : Bool :=
  (Text.bytes (start.map .char)).isPrefixOf s

theorem slice?_width {m n : Nat} (h : m ≤ n) :
    slice? (Text.bytes t) (t.width m) (t.width n) = some (Text.bytes ((t.take n).drop m)) := by
  rw [slice?, if_pos ⟨t.width_mono h, t.width_le n⟩, Text.bytes_take_width]
  have hwidth : t.width m = width (t.take n) m := by
    rw [width, width, List.take_take, Nat.min_eq_left h]
  rw [hwidth, Text.bytes_drop_width]

theorem slice?_zero_width (t : Text) (n : Nat) :
    slice? (Text.bytes t) 0 (t.width n) = some (Text.bytes (t.take n)) :=
  slice?_width (Nat.zero_le n)

theorem from?_width (t : Text) (n : Nat) :
    from? (Text.bytes t) (t.width n) = some (Text.bytes (t.drop n)) := by
  rw [from?, slice?, if_pos ⟨t.width_le n, Nat.le_refl _⟩, List.take_length, Text.bytes_drop_width]

theorem rune_nil : rune [] = (Glyph.replacement, 0) := by
  rw [rune, Text.ofBytes_nil]

theorem rune_bytes (h : Text.IsJoined (g :: t)) :
    rune (Text.bytes (g :: t)) = (g.code, g.bytes.length) := by
  rw [rune, show Text.ofBytes (Text.bytes (g :: t)) = g :: t from h]

theorem run_bytes (p : Char → Bool) (h : t.IsJoined) :
    run p (Text.bytes t) = t.width (Lexeme.run p t) := by
  rw [run, show Text.ofBytes t.bytes = t from h, width, Lexeme.run]
  rw [← List.prefix_iff_eq_take.1 (List.takeWhile_prefix _)]

/-- Behind some glyphs, an ASCII character is found by its byte. -/
theorem getElem?_width_iff (h : t.IsJoined) (hc : c.toNat < 0x80) (n : Nat) :
    (Text.bytes t)[t.width n]? = some (asciiByte c) ↔ t[n]? = some (.char c) := by
  rw [← List.head?_drop, Text.bytes_drop_width, (h.drop n).head?_bytes hc, List.head?_drop]

/-- So is the last of some glyphs. -/
theorem getElem?_width_pred (h : t.IsJoined) {n : Nat} (hn : n < t.length) :
    ∃ b, (Text.bytes t)[t.width (n + 1) - 1]? = some b ∧
      ∀ c : Char, c.toNat < 0x80 → (b = asciiByte c ↔ t[n]? = some (.char c)) := by
  have hlast : (Text.bytes t)[t.width (n + 1) - 1]? = (Text.bytes (t.take (n + 1))).getLast? := by
    have hpos := Text.le_width (t := t) (n := n + 1) hn
    rw [List.getLast?_eq_getElem?, ← Text.bytes_take_width,
      List.getElem?_take_of_lt (by rw [List.length_take]; omega), List.length_take,
      Nat.min_eq_left (t.width_le _)]
  have hjoined := h.drop n
  rw [List.drop_eq_getElem_cons hn] at hjoined
  rw [List.getElem?_eq_getElem hn, hlast, List.take_add_one, List.getElem?_eq_getElem hn]
  generalize t[n] = g at hjoined
  have hne := g.bytes_ne_nil
  have hglyph : Text.bytes (t.take n ++ (some g).toList) = Text.bytes (t.take n) ++ g.bytes := by
    rw [Text.bytes_append]
    exact congrArg _ (List.append_nil g.bytes)
  refine ⟨g.bytes.getLast hne, ?_, fun c hc => ?_⟩
  · rw [hglyph, List.getLast?_append, List.getLast?_eq_some_getLast hne]
    rfl
  · rw [Option.some.injEq, hjoined.eq_asciiByte_iff (List.getLast_mem hne) hc]

theorem bytes_map_char {cs : List Char} (hcs : cs.all fun c => c.toNat < 0x80) :
    Text.bytes (cs.map .char) = cs.map asciiByte := by
  induction cs with
  | nil => rfl
  | cons c cs ih =>
    simp only [List.all_cons, Bool.and_eq_true, decide_eq_true_eq] at hcs
    rw [List.map_cons, Text.bytes_cons, ih hcs.2, Glyph.bytes, Utf8.encode_ascii hcs.1]
    rfl

/-- A text starts with ASCII characters exactly if its bytes start with theirs. -/
theorem startsWith_bytes {cs : List Char} (hcs : cs.all fun c => c.toNat < 0x80)
    (h : t.IsJoined) : startsWith (Text.bytes t) cs = (cs.map Glyph.char).isPrefixOf t := by
  rw [startsWith, bytes_map_char hcs]
  induction cs generalizing t with
  | nil => simp
  | cons c cs ih =>
    simp only [List.all_cons, Bool.and_eq_true, decide_eq_true_eq] at hcs
    have hhead := h.head?_bytes hcs.1
    cases t with
    | nil => rfl
    | cons g t =>
      rw [List.map_cons, List.map_cons]
      by_cases hg : g = .char c
      · subst hg
        rw [Text.bytes_cons, Glyph.bytes, Utf8.encode_ascii hcs.1]
        simpa using ih hcs.2 h.tail
      · obtain ⟨b, bytes, hb⟩ := List.exists_cons_of_ne_nil
          (List.append_ne_nil_of_left_ne_nil g.bytes_ne_nil (Text.bytes t))
        rw [← Text.bytes_cons] at hb
        rw [hb] at hhead ⊢
        have hne : asciiByte c ≠ b := fun heq => hg (by simpa [heq] using hhead)
        rw [List.isPrefixOf_cons_cons, List.isPrefixOf_cons_cons, beq_false_of_ne hne,
          beq_false_of_ne (Ne.symm hg)]
        rfl

/-! ## Behind other bytes -/

theorem from?_of_le {s : List UInt8} {i : Nat} (h : i ≤ s.length) :
    from? s i = some (s.drop i) := by
  rw [from?, slice?, if_pos ⟨h, Nat.le_refl _⟩, List.take_length]

theorem from?_of_lt {s : List UInt8} {i : Nat} (h : s.length < i) : from? s i = none := by
  rw [from?, slice?, if_neg (by omega)]

theorem getElem?_append_length (a s : List UInt8) (k : Nat) :
    (a ++ s)[a.length + k]? = s[k]? := by
  rw [List.getElem?_append_right (Nat.le_add_right _ _), Nat.add_sub_cancel_left]

theorem from?_append_length (a s : List UInt8) (k : Nat) :
    from? (a ++ s) (a.length + k) = from? s k := by
  have hlength : (a ++ s).length = a.length + s.length := List.length_append
  rcases Nat.lt_or_ge s.length k with h | h
  · rw [from?_of_lt h, from?_of_lt (by omega)]
  · rw [from?_of_le h, from?_of_le (by omega), List.drop_append, Nat.add_sub_cancel_left,
      List.drop_eq_nil_of_le (Nat.le_add_right _ _), List.nil_append]

end Bytes

end PrologText
