import Mathlib.Tactic.SplitIfs
import PrologText.Proofs.Concatenation

/-!
# Texts and their bytes

Splitting bytes into glyphs loses none of them (`Text.bytes_ofBytes`). The other way round stray
bytes that have come to stand side by side can form a character; `Text.IsJoined` says of a text that
they do not. This holds of what is read and of every part of it, and of two such texts with a
character between them.
-/

namespace PrologText

/-! ## Characters and their bytes -/

namespace Utf8

variable {b : UInt8} {c : Char} {count value n : Nat} {bytes rest : List UInt8}

theorem continuation_zero (h : continuation 0 value bytes = some (n, rest)) :
    value = n ∧ bytes = rest := by
  simpa [continuation] using h

theorem exists_of_continuation_succ (h : continuation (count + 1) value bytes = some (n, rest)) :
    ∃ b bytes', bytes = b :: bytes' ∧ Follows b ∧
      continuation count (value * 64 + (b.toNat - 0x80)) bytes' = some (n, rest) := by
  cases bytes with
  | nil => cases h
  | cons b bytes' =>
    rw [continuation] at h
    split at h
    · next hb => exact ⟨b, bytes', rfl, hb, h⟩
    · cases h

theorem eq_ofNat (h : b.toNat = n) : b = .ofNat n := by
  rw [← h, UInt8.ofNat_toNat]

/-- What the first byte of a character announces. -/
theorem lead_cases {least : Nat} (h : lead b = some (count, value, least)) :
    count = 0 ∧ b.toNat = value ∧ value < 0x80 ∨
      count = 1 ∧ b.toNat = 0xC0 + value ∧ value < 0x20 ∧ least = 0x80 ∨
      count = 2 ∧ b.toNat = 0xE0 + value ∧ value < 0x10 ∧ least = 0x800 ∨
      count = 3 ∧ b.toNat = 0xF0 + value ∧ value < 0x08 ∧ least = 0x10000 := by
  simp only [lead] at h
  split_ifs at h <;> simp only [Option.some.injEq, Prod.mk.injEq] at h <;> omega

/-- A character that is read from bytes is written with these bytes. -/
theorem eq_encode_of_decode? (h : decode? bytes = some (c, rest)) : bytes = encode c ++ rest := by
  cases bytes with
  | nil => cases h
  | cons b bytes =>
    obtain ⟨count, value, least, n, hlead, hnext, hle, hv, rfl⟩ := exists_lead_of_decode? h
    have hn : (Char.ofNat n).toNat = n := by
      rw [Char.ofNat, dif_pos hv]
      rfl
    simp only [encode, hn]
    -- one case for each number of bytes that can follow the first one
    rcases lead_cases hlead with ⟨rfl, hb, hlt⟩ | ⟨rfl, hb, hlt, hleast⟩ | ⟨rfl, hb, hlt, hleast⟩ |
      ⟨rfl, hb, hlt, hleast⟩
    · obtain ⟨rfl, rfl⟩ := continuation_zero hnext
      rw [if_pos hlt, ← eq_ofNat hb]
      rfl
    · obtain ⟨b1, bytes, rfl, ⟨h1, h1'⟩, hnext⟩ := exists_of_continuation_succ hnext
      obtain ⟨hvalue, rfl⟩ := continuation_zero hnext
      rw [if_neg (by omega), if_pos (by omega), ← eq_ofNat (b := b) (by omega),
        ← eq_ofNat (b := b1) (by omega)]
      rfl
    · obtain ⟨b1, bytes, rfl, ⟨h1, h1'⟩, hnext⟩ := exists_of_continuation_succ hnext
      obtain ⟨b2, bytes, rfl, ⟨h2, h2'⟩, hnext⟩ := exists_of_continuation_succ hnext
      obtain ⟨hvalue, rfl⟩ := continuation_zero hnext
      rw [if_neg (by omega), if_neg (by omega), if_pos (by omega), ← eq_ofNat (b := b) (by omega),
        ← eq_ofNat (b := b1) (by omega), ← eq_ofNat (b := b2) (by omega)]
      rfl
    · obtain ⟨b1, bytes, rfl, ⟨h1, h1'⟩, hnext⟩ := exists_of_continuation_succ hnext
      obtain ⟨b2, bytes, rfl, ⟨h2, h2'⟩, hnext⟩ := exists_of_continuation_succ hnext
      obtain ⟨b3, bytes, rfl, ⟨h3, h3'⟩, hnext⟩ := exists_of_continuation_succ hnext
      obtain ⟨hvalue, rfl⟩ := continuation_zero hnext
      rw [if_neg (by omega), if_neg (by omega), if_neg (by omega), ← eq_ofNat (b := b) (by omega),
        ← eq_ofNat (b := b1) (by omega), ← eq_ofNat (b := b2) (by omega),
        ← eq_ofNat (b := b3) (by omega)]
      rfl

/-- No character starts with a byte that stands behind a first one. -/
theorem exists_encode_eq (c : Char) : ∃ b bytes, encode c = b :: bytes ∧ ¬Follows b := by
  have hdecode := decode?_encode c []
  cases hc : encode c with
  | nil =>
    rw [hc] at hdecode
    cases hdecode
  | cons b bytes =>
    refine ⟨b, bytes, rfl, fun hb => ?_⟩
    rw [hc, List.cons_append, decode?_of_follows hb] at hdecode
    cases hdecode

theorem continuation_of_append_cons {x : UInt8} {more : List UInt8} (hx : ¬Follows x)
    (h : continuation count value (bytes ++ x :: more) = some (n, rest)) :
    ∃ rest', continuation count value bytes = some (n, rest') := by
  induction bytes generalizing count value with
  | nil =>
    cases count with
    | zero => exact ⟨[], by rw [(continuation_zero h).1]; rfl⟩
    | succ count =>
      obtain ⟨b, bytes', heq, hb, -⟩ := exists_of_continuation_succ h
      cases heq
      exact absurd hb hx
  | cons b bytes ih =>
    cases count with
    | zero => exact ⟨b :: bytes, by rw [(continuation_zero h).1]; rfl⟩
    | succ count =>
      obtain ⟨b', bytes', heq, hb, hnext⟩ := exists_of_continuation_succ h
      cases heq
      obtain ⟨rest', hrest⟩ := ih hnext
      exact ⟨rest', (if_pos hb).trans hrest⟩

theorem decode?_append_cons_eq_none {x : UInt8} (hx : ¬Follows x)
    (h : decode? (b :: bytes) = none) (more : List UInt8) :
    decode? (b :: (bytes ++ x :: more)) = none := by
  refine Option.eq_none_iff_forall_ne_some.2 fun ⟨c, rest⟩ hsome => ?_
  obtain ⟨count, value, least, n, hlead, hnext, hle, hv, -⟩ := exists_lead_of_decode? hsome
  obtain ⟨rest', hbytes⟩ := continuation_of_append_cons hx hnext
  rw [decode?_of_lead hlead hbytes hle hv] at h
  cases h

end Utf8

theorem Glyph.bytes_ne_nil (g : Glyph) : g.bytes ≠ [] := by
  cases g with
  | char c =>
    obtain ⟨b, bytes, hc, -⟩ := Utf8.exists_encode_eq c
    rw [Glyph.bytes, hc]
    exact List.cons_ne_nil b bytes
  | stray b => exact List.cons_ne_nil b []

/-! ## Texts whose stray bytes stay apart -/

namespace Text

variable {t u : Text}

@[simp] theorem bytes_cons (g : Glyph) (t : Text) : bytes (g :: t) = g.bytes ++ bytes t := rfl

@[simp] theorem bytes_append (t u : Text) : bytes (t ++ u) = bytes t ++ bytes u :=
  List.flatMap_append

theorem bytes_ofBytes (bytes : List UInt8) : (ofBytes bytes).bytes = bytes := by
  induction hn : bytes.length using Nat.strongRecOn generalizing bytes with
  | _ n ih =>
    subst hn
    cases hd : Utf8.decode? bytes with
    | some x =>
      obtain ⟨c, rest⟩ := x
      rw [ofBytes_of_decode? hd, bytes_cons, ih _ (Utf8.decode?_length_lt hd) _ rfl]
      exact (Utf8.eq_encode_of_decode? hd).symm
    | none =>
      cases bytes with
      | nil => rw [ofBytes_nil]; rfl
      | cons b bytes =>
        rw [ofBytes_of_decode?_eq_none hd, bytes_cons, ih _ (Nat.lt_succ_self _) _ rfl]
        rfl

/-- Whether no stray bytes of a text form a character together. -/
def IsJoined (t : Text) : Prop :=
  t.rejoin = t

theorem isJoined_ofBytes (bytes : List UInt8) : (ofBytes bytes).IsJoined := by
  rw [IsJoined, rejoin, bytes_ofBytes]

theorem IsJoined.eq_of_bytes_eq (ht : t.IsJoined) (hu : u.IsJoined) (h : t.bytes = u.bytes) :
    t = u := by
  rw [← ht, ← hu, rejoin, rejoin, h]

theorem isJoined_nil : IsJoined [] :=
  ofBytes_nil

theorem isJoined_ofString (s : String) : IsJoined s :=
  rejoin_map_char s.toList

theorem isJoined_char_cons {c : Char} : IsJoined (.char c :: t) ↔ t.IsJoined := by
  have h : rejoin (.char c :: t) = .char c :: t.rejoin :=
    ofBytes_of_decode? (Utf8.decode?_encode c t.bytes)
  rw [IsJoined, h, List.cons_inj_right, IsJoined]

theorem isJoined_stray_cons {b : UInt8} :
    IsJoined (.stray b :: t) ↔ Utf8.decode? (b :: t.bytes) = none ∧ t.IsJoined := by
  have hbytes : rejoin (.stray b :: t) = ofBytes (b :: t.bytes) := rfl
  rw [IsJoined, hbytes]
  cases hd : Utf8.decode? (b :: t.bytes) with
  | some x =>
    rw [ofBytes_of_decode? hd]
    simp
  | none =>
    rw [ofBytes_of_decode?_eq_none hd, List.cons_inj_right]
    exact (and_iff_right rfl).symm

/-- A text without stray bytes. -/
theorem isJoined_of_not_mem (h : ∀ b, .stray b ∉ t) : t.IsJoined := by
  induction t with
  | nil => exact isJoined_nil
  | cons g t ih =>
    cases g with
    | char c => exact isJoined_char_cons.2 (ih fun b hb => h b (List.mem_cons_of_mem _ hb))
    | stray b => exact absurd List.mem_cons_self (h b)

theorem IsJoined.of_append_left (h : IsJoined (t ++ u)) : t.IsJoined := by
  induction t with
  | nil => exact isJoined_nil
  | cons g t ih =>
    cases g with
    | char c => exact isJoined_char_cons.2 (ih (isJoined_char_cons.1 h))
    | stray b =>
      rw [List.cons_append] at h
      obtain ⟨hnone, hjoined⟩ := isJoined_stray_cons.1 h
      refine isJoined_stray_cons.2 ⟨Option.eq_none_iff_forall_ne_some.2 fun ⟨c, rest⟩ hsome => ?_,
        ih hjoined⟩
      have happend := Utf8.decode?_append hsome u.bytes
      rw [List.cons_append, ← bytes_append, hnone] at happend
      cases happend

theorem IsJoined.of_append_right (h : IsJoined (t ++ u)) : u.IsJoined := by
  induction t with
  | nil => exact h
  | cons g t ih =>
    cases g with
    | char c => exact ih (isJoined_char_cons.1 h)
    | stray b => exact ih (isJoined_stray_cons.1 h).2

theorem IsJoined.of_isInfix (h : u.IsJoined) (ht : t <:+: u) : t.IsJoined := by
  obtain ⟨v, w, rfl⟩ := ht
  exact h.of_append_left.of_append_right

/-- A character keeps the stray bytes before it from those behind it. -/
theorem IsJoined.append_char_cons {c : Char} (ht : t.IsJoined) (hu : u.IsJoined) :
    IsJoined (t ++ .char c :: u) := by
  induction t with
  | nil => exact isJoined_char_cons.2 hu
  | cons g t ih =>
    cases g with
    | char c => exact isJoined_char_cons.2 (ih (isJoined_char_cons.1 ht))
    | stray b =>
      obtain ⟨hnone, hjoined⟩ := isJoined_stray_cons.1 ht
      rw [List.cons_append]
      refine isJoined_stray_cons.2 ⟨?_, ih hjoined⟩
      obtain ⟨x, more, hx, hfollows⟩ := Utf8.exists_encode_eq c
      rw [bytes_append, bytes_cons, Glyph.bytes, hx, List.cons_append]
      exact Utf8.decode?_append_cons_eq_none hfollows hnone _

theorem trimLineEnd_isPrefix (t : Text) : t.trimLineEnd <+: t := by
  simpa [trimLineEnd, dropEndWhile] using
    List.reverse_prefix.2 (t.reverse.dropWhile_suffix isLineEnd)

theorem trimLineEnd_concat (t : Text) (g : Glyph) :
    trimLineEnd (t ++ [g]) =
      if g = .char '\r' ∨ g = .char '\n' then t.trimLineEnd else t ++ [g] := by
  rw [trimLineEnd, dropEndWhile, List.reverse_concat, List.dropWhile_cons]
  simp only [isLineEnd, Bool.or_eq_true, decide_eq_true_eq]
  split
  · rfl
  · rw [List.reverse_cons, List.reverse_reverse]

end Text

end PrologText
