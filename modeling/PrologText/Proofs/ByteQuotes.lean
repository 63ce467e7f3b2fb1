import PrologText.Proofs.ByteLexemes

/-!
# Quoted text and comments among bytes

Escape sequences, the pieces of quoted text and the ends of comments, found in the bytes of a line.
Main statements: no look-up goes wrong, escape sequences are those of the text
(`Bytes.escape?_bytes`), and a piece of quoted text takes `scanQuoted` as far as it goes
(`Bytes.quoted?_bytes`).
-/

namespace PrologText

namespace Bytes

variable {t : Text} {g : Glyph} {c : Char}

/-! ## Escape sequences -/

/-- Whether digits between two places are there and a backslash follows them. -/
def closesEscape? (s : List UInt8) (digits stop : Nat) : Option Bool :=
  if stop = digits ∨ s.length ≤ stop then some false
  else do
    let b ← s[stop]?
    some (b = asciiByte '\\')

/-- A character given by its number; `digits` is where the digits start. -/
def numericEscape? (s : List UInt8) (digits base : Nat) (isDigit : Char → Bool) :
    Option Escape := do
  let rest ← from? s digits
  let stop := digits + run isDigit rest
  if ← closesEscape? s digits stop then
    let number ← slice? s digits stop
    let n := Positional.value base
      (number.filterMap fun b => Positional.digitValue? base (byteChar b))
    if n.isValidChar then some (.character (Char.ofNat n) stop)
    else
      let sequence ← slice? s 0 (stop + 1)
      some (.faulty (.invalidEscape (.ofBytes sequence)))
  else
    let sequence ← slice? s 0 stop
    some (.faulty (.malformedEscape (.ofBytes sequence)))

/-- The escape sequence at the start of some bytes. -/
def escape? (s : List UInt8) : Option Escape :=
  if s.length < 2 then some (.faulty .danglingEscape)
  else do
    let b ← s[1]?
    if b = asciiByte '\n' then some (.lineBreak 1)
    else
      let rest ← from? s 1
      if startsWith rest ['\r', '\n'] then some (.lineBreak 2)
      else if byteChar b ∈ ['\\', '\'', '"', '\x60'] then some (.character (byteChar b) 1)
      else
        match Escape.control? (byteChar b) with
        | some control => some (.character control 1)
        | none =>
          if b = asciiByte 'x' then numericEscape? s 2 16 CharClass.isHexadecimal
          else if CharClass.isOctal (byteChar b) then numericEscape? s 1 8 CharClass.isOctal
          else some (.faulty (.undefinedEscape (byteChar b)))

theorem filterMap_byteChar {α : Type} (f : Char → Option α) (h : ∀ g ∈ t, g.IsAscii) :
    (Text.bytes t).filterMap (fun b => f (byteChar b)) = t.filterMap fun g => f g.code := by
  induction t with
  | nil => rfl
  | cons g t ih =>
    obtain ⟨⟨c, rfl, hc⟩, ht⟩ := List.forall_mem_cons.1 h
    rw [Text.bytes_cons, Glyph.bytes, Utf8.encode_ascii hc, List.singleton_append,
      List.filterMap_cons, List.filterMap_cons, byteChar_asciiByte hc, ih ht]
    rfl

theorem ofBytes_bytes (h : t.IsJoined) : Text.ofBytes (Text.bytes t) = t :=
  h

variable {a ds u : Text}

theorem closesEscape?_bytes (ha : ∀ g ∈ a, g.IsAscii) (hd : ∀ g ∈ ds, g.IsAscii)
    (h : u.IsJoined) :
    closesEscape? (Text.bytes (a ++ ds ++ u)) a.length (a ++ ds).length =
      some (decide (ds ≠ [] ∧ u.head? = some (.char '\\'))) := by
  have hlength := Text.length_bytes_of_ascii (List.forall_mem_append.2 ⟨ha, hd⟩)
  rw [Text.bytes_append, ← hlength]
  cases u with
  | nil => simp [closesEscape?, Text.bytes]
  | cons g u =>
    obtain ⟨hlt, b, hb, hchar⟩ := exists_head (Text.bytes (a ++ ds)) h
    have hstop : (Text.bytes (a ++ ds)).length = a.length ↔ ds = [] := by
      rw [hlength, List.length_append, Nat.add_eq_left, List.length_eq_zero_iff]
    rw [closesEscape?, hb]
    simp only [hstop, Nat.not_le.2 hlt, or_false, hchar '\\' (by decide), List.head?_cons,
      Option.some.injEq, Option.bind_eq_bind, Option.bind_some]
    split <;> simp_all

/-- Digits behind a backslash and other ASCII characters. -/
theorem numericEscape?_bytes (base : Nat) {p : Char → Bool} (hp : Lexeme.IsDigits p)
    (lead : Text) (hlead : ∀ g ∈ lead, g.IsAscii)
    (h : Text.IsJoined (.char '\\' :: lead ++ t)) :
    numericEscape? (Text.bytes (.char '\\' :: lead ++ t)) (.char '\\' :: lead).length base p =
      some (Escape.numeric base p lead t) := by
  have hslash : (Glyph.char '\\').IsAscii := ⟨'\\', rfl, by decide⟩
  have ha : ∀ g ∈ .char '\\' :: lead, g.IsAscii := List.forall_mem_cons.2 ⟨hslash, hlead⟩
  obtain ⟨ds, u, rfl, htake, hds, -⟩ := Lexeme.exists_run p t
  have hd (g : Glyph) (hg : g ∈ ds) : g.IsAscii := hp.isAscii (hds g hg)
  have hrun : Lexeme.run p (ds ++ u) = ds.length := congrArg List.length htake
  have hlength : (Glyph.char '\\' :: lead).length = lead.length + 1 := rfl
  simp only [Escape.numeric, htake]
  generalize Glyph.char '\\' :: lead = a at h ha hlength ⊢
  have hclosed := closesEscape?_bytes ha hd h.of_append_right.of_append_right
  have had := List.forall_mem_append.2 ⟨ha, hd⟩
  have hwidth : Text.width (a ++ ds ++ u) a.length = a.length := by
    rw [List.append_assoc]
    exact Text.width_append_of_ascii ha
  have hstop : Text.width (a ++ ds ++ u) (a ++ ds).length = (a ++ ds).length :=
    Text.width_append_of_ascii had
  have hfrom := from?_width (a ++ ds ++ u) a.length
  have hnumber := slice?_width (t := a ++ ds ++ u) (m := a.length) (n := (a ++ ds).length) (by simp)
  have hsequence := slice?_zero_width (a ++ ds ++ u) (a ++ ds).length
  rw [hwidth, List.append_assoc, List.drop_left, ← List.append_assoc] at hfrom
  rw [hwidth, hstop, List.take_left, List.drop_left] at hnumber
  rw [hstop, List.take_left] at hsequence
  rw [← List.append_assoc]
  simp only [numericEscape?, hfrom, Option.bind_eq_bind, Option.bind_some,
    hp.run_bytes h.of_append_right, hrun, ← List.length_append, hclosed, hnumber, hsequence,
    filterMap_byteChar _ hd, List.drop_left]
  by_cases hends : ds ≠ [] ∧ u.head? = some (.char '\\')
  · obtain ⟨u, rfl⟩ := List.head?_eq_some_iff.1 hends.2
    have hlast : (a ++ ds ++ .char '\\' :: u)[(a ++ ds).length]? = some (.char '\\') := by simp
    have hwhole := slice?_zero_width (a ++ ds ++ .char '\\' :: u) ((a ++ ds).length + 1)
    rw [Text.width_succ_of_ascii (by decide) hlast, hstop, List.take_length_add_append] at hwhole
    rw [← List.append_assoc] at h
    have hjoined := h.take ((a ++ ds).length + 1)
    rw [List.take_length_add_append] at hjoined
    have hopen : ¬(ds.isEmpty ∨ (Glyph.char '\\' :: u).head? ≠ some (.char '\\')) := by
      simp [hends.1]
    have hcount : (lead ++ ds).length + 1 = (a ++ ds).length := by
      rw [List.length_append, List.length_append, hlength]
      omega
    simp only [decide_eq_true hends, if_true, if_neg hopen, hwhole, Option.bind_some,
      ofBytes_bytes hjoined, hcount]
    split <;> rfl
  · have hopen : ds.isEmpty ∨ u.head? ≠ some (.char '\\') := by
      simpa [Decidable.or_iff_not_imp_left] using hends
    rw [← List.append_assoc] at h
    simp only [decide_eq_false hends, Bool.false_eq_true, if_false, if_pos hopen,
      ofBytes_bytes h.of_append_left]

/-- Characters beyond ASCII have no part in an escape sequence. -/
theorem high_escape (hc : 0x80 ≤ c.toNat) :
    c ∉ ['\\', '\'', '"', '\x60'] ∧ Escape.control? c = none ∧ CharClass.isOctal c = false := by
  refine ⟨?_, ?_, ?_⟩
  · intro hmem
    simp only [List.mem_cons, List.not_mem_nil, or_false] at hmem
    rcases hmem with rfl | rfl | rfl | rfl <;> exact absurd hc (by decide)
  · unfold Escape.control?
    split <;> first | rfl | exact absurd hc (by decide)
  · rw [Bool.eq_false_iff]
    intro hoctal
    exact absurd (Lexeme.isDigits_isOctal.toNat_lt hoctal) (Nat.not_lt.2 hc)

/-- What the byte behind a backslash makes of it. -/
theorem escape?_cons_cons (b : UInt8) (bs : List UInt8) :
    escape? (asciiByte '\\' :: b :: bs) =
      if b = asciiByte '\n' then some (.lineBreak 1)
      else if startsWith (b :: bs) ['\r', '\n'] then some (.lineBreak 2)
      else if byteChar b ∈ ['\\', '\'', '"', '\x60'] then some (.character (byteChar b) 1)
      else
        match Escape.control? (byteChar b) with
        | some control => some (.character control 1)
        | none =>
          if b = asciiByte 'x' then
            numericEscape? (asciiByte '\\' :: b :: bs) 2 16 CharClass.isHexadecimal
          else if CharClass.isOctal (byteChar b) then
            numericEscape? (asciiByte '\\' :: b :: bs) 1 8 CharClass.isOctal
          else some (.faulty (.undefinedEscape (byteChar b))) := by
  have hfrom : from? (asciiByte '\\' :: b :: bs) 1 = some (b :: bs) := from?_of_le (by simp)
  rw [escape?, if_neg (by simp), hfrom]
  rfl

theorem startsWith_lineBreak (h : t.IsJoined) :
    startsWith (Text.bytes t) ['\r', '\n'] = true ↔ ∃ u, t = .char '\r' :: .char '\n' :: u := by
  rw [startsWith_bytes (by decide) h, List.isPrefixOf_iff_prefix]
  exact exists_congr fun u => eq_comm

theorem escape?_ascii (hc : c.toNat < 0x80) (h : Text.IsJoined (.char c :: t)) :
    escape? (Text.bytes (.char '\\' :: .char c :: t)) = some (Escape.ofText (.char c :: t)) := by
  have hjoined : Text.IsJoined (.char '\\' :: .char c :: t) := Text.isJoined_char_cons.2 h
  have hstarts := startsWith_lineBreak h
  have hg : (Glyph.char c).bytes = [asciiByte c] := Utf8.encode_ascii hc
  have hbytes : Text.bytes (.char c :: t) = asciiByte c :: Text.bytes t := by
    rw [Text.bytes_cons, hg]
    rfl
  have hall : Text.bytes (.char '\\' :: .char c :: t) =
      asciiByte '\\' :: asciiByte c :: Text.bytes t := congrArg (List.cons _) hbytes
  have hoctal := numericEscape?_bytes 8 Lexeme.isDigits_isOctal [] (by simp) hjoined
  rw [hall, escape?_cons_cons]
  simp only [asciiByte_inj hc (d := '\n') (by decide), asciiByte_inj hc (d := 'x') (by decide),
    ← hbytes, byteChar_asciiByte hc]
  by_cases hn : c = '\n'
  · subst hn
    rfl
  by_cases hr : ∃ u, Glyph.char c :: t = .char '\r' :: .char '\n' :: u
  · rw [if_neg hn, if_pos (hstarts.2 hr)]
    obtain ⟨u, hu⟩ := hr
    cases hu
    rfl
  rw [if_neg hn, if_neg (mt hstarts.1 hr)]
  by_cases hx : c = 'x'
  · subst hx
    exact numericEscape?_bytes 16 Lexeme.isDigits_isHexadecimal [.char 'x']
      (by simpa using ⟨'x', rfl, by decide⟩) hjoined
  rw [Escape.ofText_cons_of_ne (by simpa using hx) (by simpa using hn) fun u hu => hr ⟨u, hu⟩]
  have hfirst : Char.ofNat ((Glyph.char c).bytes.headD 0).toNat = c := by
    rw [hg]
    exact byteChar_asciiByte hc
  rw [hfirst, if_neg hx, show (Glyph.char c).code = c from rfl]
  by_cases hquotes : c ∈ ['\\', '\'', '"', '\x60']
  · rw [if_pos hquotes, if_pos hquotes]
  rw [if_neg hquotes, if_neg hquotes]
  cases Escape.control? c with
  | some control => rfl
  | none =>
    cases CharClass.isOctal c with
    | true => exact hoctal
    | false => rfl

theorem escape?_high (hcode : 0x80 ≤ g.code.toNat) (hg : ∀ b ∈ g.bytes, 0x80 ≤ b.toNat)
    (h : Text.IsJoined (g :: t)) :
    escape? (Text.bytes (.char '\\' :: g :: t)) = some (Escape.ofText (g :: t)) := by
  obtain ⟨b, bs, hb⟩ := List.exists_cons_of_ne_nil g.bytes_ne_nil
  have hhigh : 0x80 ≤ (byteChar b).toNat := by
    rw [toNat_byteChar]
    exact hg b (by simp [hb])
  have hbytes : Text.bytes (g :: t) = b :: (bs ++ Text.bytes t) := by
    rw [Text.bytes_cons, hb]
    rfl
  have hall : Text.bytes (.char '\\' :: g :: t) =
      asciiByte '\\' :: b :: (bs ++ Text.bytes t) := congrArg (List.cons _) hbytes
  have hne {c : Char} (hc : c.toNat < 0x80) : b ≠ asciiByte c ∧ g ≠ .char c := by
    refine ⟨?_, ?_⟩
    · rintro rfl
      rw [byteChar_asciiByte hc] at hhigh
      omega
    · rintro rfl
      exact absurd hc (Nat.not_lt.2 hcode)
  have hr (u : Text) : g :: t ≠ .char '\r' :: .char '\n' :: u :=
    fun hu => (hne (by decide)).2 (List.cons.inj hu).1
  obtain ⟨hquotes, hcontrol, hoctal⟩ := high_escape hcode
  obtain ⟨hquotes', hcontrol', hoctal'⟩ := high_escape hhigh
  rw [hall, escape?_cons_cons, ← hbytes, if_neg (hne (by decide)).1,
    if_neg (mt (startsWith_lineBreak h).1 fun ⟨u, hu⟩ => hr u hu), if_neg hquotes', hcontrol',
    Escape.ofText_cons_of_ne (hne (by decide)).2 (hne (by decide)).2 hr, if_neg hquotes,
    hcontrol, hb]
  dsimp only
  rw [if_neg (hne (by decide)).1, hoctal, hoctal']
  rfl

theorem escape?_bytes (h : t.IsJoined) :
    escape? (Text.bytes (.char '\\' :: t)) = some (Escape.ofText t) := by
  cases t with
  | nil => rfl
  | cons g t =>
    rcases h.head_cases with ⟨c, rfl, hc, -⟩ | ⟨hcode, hg⟩
    · exact escape?_ascii hc h
    · exact escape?_high hcode hg h

/-- Escape sequences are ASCII. -/
def IsNarrow (t : Text) : Escape → Prop
  | .lineBreak n | .character _ n => t.width n = n
  | .faulty _ => True

theorem isNarrow_numeric (base : Nat) {p : Char → Bool} (hp : Lexeme.IsDigits p) (lead : Text)
    (hlead : ∀ g ∈ lead, g.IsAscii) (t : Text) :
    IsNarrow (lead ++ t) (Escape.numeric base p lead t) := by
  obtain ⟨ds, u, rfl, htake, hds, -⟩ := Lexeme.exists_run p t
  have hascii := List.forall_mem_append.2 ⟨hlead, fun g hg => hp.isAscii (hds g hg)⟩
  simp only [Escape.numeric, htake, List.drop_left, ← List.append_assoc]
  split
  · trivial
  · next hends =>
    split
    · have hhead : u.head? = some (.char '\\') := by
        simpa using (not_or.1 hends).2
      obtain ⟨u, rfl⟩ := List.head?_eq_some_iff.1 hhead
      have hlast : (lead ++ ds ++ .char '\\' :: u)[(lead ++ ds).length]? = some (.char '\\') := by
        simp
      rw [← List.length_append]
      show Text.width _ _ = _
      rw [Text.width_succ_of_ascii (by decide) hlast, Text.width_append_of_ascii hascii]
    · trivial

theorem isNarrow_ofText (t : Text) : IsNarrow t (Escape.ofText t) := by
  have hone {g : Glyph} {t : Text} (hg : g.code.toNat < 0x80) : Text.width (g :: t) 1 = 1 :=
    width_one_of_code hg
  unfold Escape.ofText
  split
  · trivial
  · rfl
  · rfl
  · exact isNarrow_numeric 16 Lexeme.isDigits_isHexadecimal [.char 'x']
      (by simpa using ⟨'x', rfl, by decide⟩) _
  · next g t _ _ _ =>
    rcases Nat.lt_or_ge g.code.toNat 0x80 with hascii | hhigh
    · dsimp only
      split
      · exact hone hascii
      · split
        · exact hone hascii
        · split
          · exact isNarrow_numeric 8 Lexeme.isDigits_isOctal [] (by simp) _
          · trivial
    · obtain ⟨hquotes, hcontrol, hoctal⟩ := high_escape hhigh
      simp [hquotes, hcontrol, hoctal, IsNarrow]

/-! ## Quoted text -/

/-- What the bytes of a line make of quoted text; lengths are in bytes. -/
inductive QuotedPiece where
  | faulty (cause : SyntaxCause)
  /-- The text is complete behind `n` bytes. -/
  | closed (text : List UInt8) (n : Nat)
  /-- The next `n` bytes stand for `text`. -/
  | more (text : List UInt8) (n : Nat)

/-- A character of quoted text, with which a single one is complete. -/
def accepted (f : QuotedForm) (text : List UInt8) (n : Nat) : QuotedPiece :=
  if f.single then .closed text n else .more text n

/-- Whether a character of quoted text stands for itself. -/
def isPlain (f : QuotedForm) (c : Char) : Bool :=
  c ≠ f.quote && !(f.escapes && c = '\\')

/-- The next piece of quoted text. -/
def quoted? (f : QuotedForm) (s : List UInt8) : Option QuotedPiece :=
  let c := (rune s).1
  let size := (rune s).2
  if c = f.quote then do
    let behind ← from? s size
    if startsWith behind [f.quote] then some (accepted f (Utf8.encode f.quote) (2 * size))
    else some (.closed (if f.single then Utf8.encode f.quote else []) size)
  else if c = '\\' ∧ f.escapes then do
    match ← escape? s with
    | .faulty cause => some (.faulty cause)
    | .lineBreak n => some (.more [] (n + 1))
    | .character ch n => some (accepted f (Utf8.encode ch) (n + 1))
  else if f.single then some (.closed (Utf8.encode c) size)
  else do
    let text ← slice? s 0 (run (isPlain f) s)
    some (.more text (run (isPlain f) s))

/-- A piece takes `scanQuoted` on from a cursor before `t`, and adds its text. -/
def QuotedPiece.Agrees (f : QuotedForm) (t : Text) : QuotedPiece → Prop
  | faulty cause => ∀ (seen : Text) (c : Cursor), c.fill.rest = t →
    scanQuoted f seen c = .faulty cause c.fill
  | closed text n => ∃ k ≤ t.length, n = t.width k ∧ ∀ (seen : Text) (c : Cursor),
    c.fill.rest = t → ∃ whole, scanQuoted f seen c = .closed whole (c.fill.advance k) ∧
      Text.bytes whole = Text.bytes seen.reverse ++ text
  | more text n => ∃ k ≤ t.length, 0 < k ∧ n = t.width k ∧ ∀ (seen : Text) (c : Cursor),
    c.fill.rest = t → ∃ seen', scanQuoted f seen c = scanQuoted f seen' (c.fill.advance k) ∧
      Text.bytes seen'.reverse = Text.bytes seen.reverse ++ text

variable {f : QuotedForm}

theorem agrees_of_closed {k : Nat} (hk : k ≤ t.length)
    (h : ∀ seen, f.step seen t = .closed (seen.reverse ++ u) k) :
    (QuotedPiece.closed (Text.bytes u) (t.width k)).Agrees f t := by
  refine ⟨k, hk, rfl, fun seen c hr => ⟨seen.reverse ++ u, ?_, Text.bytes_append _ _⟩⟩
  rw [scanQuoted_eq, hr, h]

theorem agrees_of_more {k : Nat} (hk : k ≤ t.length) (hpos : 0 < k)
    (h : ∀ seen, f.step seen t = .more (u.reverse ++ seen) k) :
    (QuotedPiece.more (Text.bytes u) (t.width k)).Agrees f t := by
  refine ⟨k, hk, hpos, rfl, fun seen c hr => ⟨u.reverse ++ seen, ?_, ?_⟩⟩
  · rw [scanQuoted_eq, hr, h]
  · rw [List.reverse_append, List.reverse_reverse, Text.bytes_append]

theorem isPlain_iff (hq : f.quote.toNat < 0x80) :
    isPlain f g.code ↔ g ≠ .char f.quote ∧ ¬(g = .char '\\' ∧ f.escapes) := by
  have hslash : g.code = '\\' ↔ g = .char '\\' := Text.code_eq_ascii_iff (by decide)
  rw [isPlain, Bool.and_eq_true, decide_eq_true_eq, Ne, Text.code_eq_ascii_iff hq]
  cases f.escapes <;> simp [hslash]

theorem step_of_isPlain (hs : f.single = false) (hq : f.quote.toNat < 0x80)
    (hg : isPlain f g.code) (seen : Text) : f.step seen (g :: t) = .more (g :: seen) 1 := by
  obtain ⟨hquote, hescape⟩ := (isPlain_iff hq).1 hg
  rw [QuotedForm.step, if_neg hquote, if_neg hescape, if_neg (by simp [hs])]

/-- A run of characters that stand for themselves. -/
theorem scanQuoted_plain (hs : f.single = false) (hq : f.quote.toNat < 0x80) {seen : Text}
    {c : Cursor} (hplain : ∀ g ∈ u, isPlain f g.code) (hne : u ≠ []) (hr : c.fill.rest = u ++ t) :
    scanQuoted f seen c = scanQuoted f (u.reverse ++ seen) (c.fill.advance u.length) := by
  induction u generalizing c seen with
  | nil => contradiction
  | cons g u ih =>
    obtain ⟨hg, hplain⟩ := List.forall_mem_cons.1 hplain
    have hrest : (c.fill.advance 1).rest = u ++ t := by simp [Cursor.advance, hr]
    rw [scanQuoted_eq, hr, List.cons_append, step_of_isPlain hs hq hg]
    dsimp only
    cases u with
    | nil => rfl
    | cons g' u =>
      have hfill : (c.fill.advance 1).fill = c.fill.advance 1 := Cursor.fill_of_rest hrest
      rw [ih hplain (List.cons_ne_nil _ _) (by rw [hfill, hrest]), hfill, Cursor.advance_advance,
        Nat.add_comm]
      simp

theorem accepted_agrees {k : Nat} (hk : k ≤ t.length) (hpos : 0 < k)
    (h : ∀ seen, f.step seen t =
      if f.single then .closed (seen.reverse ++ [g]) k else .more (g :: seen) k) :
    (accepted f g.bytes (t.width k)).Agrees f t := by
  have hbytes : g.bytes = Text.bytes [g] := (List.append_nil _).symm
  rw [accepted, hbytes]
  cases hs : f.single with
  | true => exact agrees_of_closed hk fun seen => by rw [h, hs]; rfl
  | false => exact agrees_of_more hk hpos fun seen => by rw [h, hs]; rfl

/-- The quote in quoted text: one of two that stand for one, or the end. -/
theorem quoted?_quote (hq : f.quote.toNat < 0x80) (h : Text.IsJoined (.char f.quote :: t)) :
    ∃ piece, quoted? f (Text.bytes (.char f.quote :: t)) = some piece ∧
      piece.Agrees f (.char f.quote :: t) := by
  have hone : Text.width (.char f.quote :: t) 1 = 1 := width_one_of_code hq
  have hsize : (Glyph.char f.quote).bytes.length = 1 := by
    rw [Glyph.bytes, Utf8.encode_ascii hq]
    rfl
  have hfrom := from?_width (.char f.quote :: t) 1
  have hstarts : startsWith (Text.bytes t) [f.quote] = true ↔ t.head? = some (.char f.quote) := by
    rw [startsWith_bytes (by simpa using hq) h.tail, List.isPrefixOf_iff_prefix,
      List.head?_eq_some_iff]
    exact exists_congr fun u => eq_comm
  rw [hone, List.drop_succ_cons, List.drop_zero] at hfrom
  simp only [quoted?, rune_bytes h, hsize, Glyph.code, if_true, hfrom, Option.bind_eq_bind,
    Option.bind_some]
  by_cases htwo : t.head? = some (.char f.quote)
  · obtain ⟨u, rfl⟩ := List.head?_eq_some_iff.1 htwo
    have hwidth : Text.width (.char f.quote :: .char f.quote :: u) 2 = 2 := by
      rw [Text.width_succ_of_ascii hq rfl, hone]
    refine ⟨_, if_pos (hstarts.2 rfl), ?_⟩
    rw [Nat.mul_one, ← hwidth]
    refine accepted_agrees (k := 2) (g := .char f.quote) (by simp) Nat.two_pos fun seen => ?_
    simp [QuotedForm.step]
  · refine ⟨_, if_neg (mt hstarts.1 htwo), ?_⟩
    have hbytes : (if f.single then Utf8.encode f.quote else []) =
        Text.bytes (if f.single then [.char f.quote] else []) := by
      split <;> simp [Text.bytes, Glyph.bytes]
    rw [hbytes, ← hone]
    refine agrees_of_closed (Nat.succ_le_succ (Nat.zero_le _)) fun seen => ?_
    rw [QuotedForm.step, if_pos rfl, if_neg htwo]
    split <;> simp

/-- An escape sequence in quoted text. -/
theorem quoted?_escape (hq : f.quote ≠ '\\') (he : f.escapes = true) (h : t.IsJoined) :
    ∃ piece, quoted? f (Text.bytes (.char '\\' :: t)) = some piece ∧
      piece.Agrees f (.char '\\' :: t) := by
  have hjoined : Text.IsJoined (.char '\\' :: t) := Text.isJoined_char_cons.2 h
  have hne : Glyph.char '\\' ≠ .char f.quote := by simpa using Ne.symm hq
  have hnarrow := isNarrow_ofText t
  have hfits := Escape.ofText_fits t
  have hwidth (n : Nat) (hn : t.width n = n) : Text.width (.char '\\' :: t) (n + 1) = n + 1 := by
    rw [Text.width_cons_succ, hn, Nat.add_comm]
    rfl
  simp only [quoted?, rune_bytes hjoined, Glyph.code, if_neg (Ne.symm hq), he, and_self, if_true,
    escape?_bytes h, Option.bind_eq_bind, Option.bind_some]
  cases hescape : Escape.ofText t with
  | faulty cause =>
    refine ⟨_, rfl, fun seen c hr => ?_⟩
    simp only [scanQuoted_eq, hr, QuotedForm.step, if_neg hne, he, and_self, if_true, hescape]
  | lineBreak n =>
    rw [hescape] at hnarrow hfits
    refine ⟨_, rfl, ?_⟩
    rw [← hwidth n hnarrow]
    exact agrees_of_more (u := []) (Nat.succ_le_succ hfits) (Nat.succ_pos n) fun seen => by
      simp only [QuotedForm.step, if_neg hne, he, and_self, if_true, hescape, List.reverse_nil,
        List.nil_append]
  | character ch n =>
    rw [hescape] at hnarrow hfits
    refine ⟨_, rfl, ?_⟩
    rw [← hwidth n hnarrow]
    refine accepted_agrees (g := .char ch) (Nat.succ_le_succ hfits) (Nat.succ_pos n) fun seen => ?_
    simp [QuotedForm.step, hne, he, hescape]

theorem quoted?_bytes (hq : f.quote.toNat < 0x80) (hslash : f.quote ≠ '\\')
    (h : Text.IsJoined (g :: t)) :
    ∃ piece, quoted? f (Text.bytes (g :: t)) = some piece ∧ piece.Agrees f (g :: t) := by
  have hsize : Text.width (g :: t) 1 = g.bytes.length := by simp [Text.width_cons_succ]
  by_cases hquote : g = .char f.quote
  · subst hquote
    exact quoted?_quote hq h
  by_cases hescape : g = .char '\\' ∧ f.escapes
  · obtain ⟨rfl, he⟩ := hescape
    exact quoted?_escape hslash he h.tail
  simp only [quoted?, rune_bytes h, Text.code_eq_ascii_iff hq,
    Text.code_eq_ascii_iff (c := '\\') (by decide), if_neg hquote, if_neg hescape]
  cases hs : f.single with
  | true =>
    refine ⟨_, rfl, ?_⟩
    have hbytes : Utf8.encode g.code = Text.bytes [.char g.code] := (List.append_nil _).symm
    rw [hbytes, ← hsize]
    refine agrees_of_closed (Nat.succ_le_succ (Nat.zero_le _)) fun seen => ?_
    rw [QuotedForm.step, if_neg hquote, if_neg hescape, if_pos hs, List.reverse_cons]
  | false =>
    obtain ⟨u, v, hsplit, htake, hplain, -⟩ := Lexeme.exists_run (isPlain f) (g :: t)
    have hrun : Lexeme.run (isPlain f) (g :: t) = u.length := congrArg List.length htake
    have hg : isPlain f g.code := (isPlain_iff hq).2 ⟨hquote, hescape⟩
    have hpos : 0 < u.length := hrun ▸ Lexeme.run_pos hg
    rw [run_bytes _ h, hrun, slice?_zero_width]
    refine ⟨_, rfl, u.length, ?_, hpos, rfl, fun seen c hr => ?_⟩
    · rw [hsplit, List.length_append]
      exact Nat.le_add_right _ _
    · refine ⟨_, scanQuoted_plain hs hq hplain (List.length_pos_iff.1 hpos) (hr.trans hsplit), ?_⟩
      rw [List.reverse_append, List.reverse_reverse, Text.bytes_append, hsplit, List.take_left]

/-! ## Comments -/

/-- `n` more than the number of bytes up to and including the end of a block comment. -/
def commentEndFrom (n : Nat) : List UInt8 → Option Nat
  | [] => none
  | b :: s => if startsWith (b :: s) ['*', '/'] then some (n + 2) else commentEndFrom (n + 1) s

theorem startsWith_high {b : UInt8} (hb : 0x80 ≤ b.toNat) (s : List UInt8) :
    startsWith (b :: s) ['*', '/'] = false := by
  have hne : asciiByte '*' ≠ b := by
    rintro rfl
    exact absurd hb (by decide)
  show (asciiByte '*' == b && _) = false
  rw [beq_false_of_ne hne, Bool.false_and]

theorem commentEndFrom_high {bs : List UInt8} (hbs : ∀ b ∈ bs, 0x80 ≤ b.toNat) (n : Nat)
    (s : List UInt8) : commentEndFrom n (bs ++ s) = commentEndFrom (n + bs.length) s := by
  induction bs generalizing n with
  | nil => rfl
  | cons b bs ih =>
    obtain ⟨hb, hbs⟩ := List.forall_mem_cons.1 hbs
    rw [List.cons_append, commentEndFrom, startsWith_high hb, if_neg Bool.false_ne_true, ih hbs,
      List.length_cons]
    congr 1
    omega

theorem commentLengthFrom_cons_of_ne {n : Nat} (h : ∀ u, g :: t ≠ .char '*' :: .char '/' :: u) :
    commentLengthFrom n (g :: t) = commentLengthFrom (n + 1) t := by
  rw [commentLengthFrom.eq_def]
  split
  · next heq => cases heq
  · next heq => exact absurd heq (h _)
  · next heq =>
    cases heq
    rfl

/-- A comment ends in the bytes of a text where it ends in the text. -/
theorem commentEndFrom_bytes (h : t.IsJoined) (m n : Nat) :
    commentLengthFrom m t = none ∧ commentEndFrom n (Text.bytes t) = none ∨
      ∃ k ≤ t.length, commentLengthFrom m t = some (m + k) ∧
        commentEndFrom n (Text.bytes t) = some (n + t.width k) := by
  induction t generalizing m n with
  | nil => exact .inl ⟨rfl, rfl⟩
  | cons g t ih =>
    by_cases hends : ∃ u, g :: t = .char '*' :: .char '/' :: u
    · obtain ⟨u, hu⟩ := hends
      cases hu
      exact .inr ⟨2, by simp, rfl, rfl⟩
    have hstarts : startsWith (Text.bytes (g :: t)) ['*', '/'] = false := by
      rw [startsWith_bytes (by decide) h, Bool.eq_false_iff, Ne, List.isPrefixOf_iff_prefix]
      exact fun ⟨u, hu⟩ => hends ⟨u, hu.symm⟩
    -- The end is not here, so all bytes of this glyph are passed over.
    have hnext : commentEndFrom n (Text.bytes (g :: t)) =
        commentEndFrom (n + g.bytes.length) (Text.bytes t) := by
      rcases h.head_cases with ⟨c, rfl, hc, hg⟩ | ⟨-, hg⟩
      · rw [Text.bytes_cons, hg] at hstarts ⊢
        rw [List.singleton_append] at hstarts ⊢
        rw [commentEndFrom, hstarts, if_neg Bool.false_ne_true, List.length_singleton]
      · exact commentEndFrom_high hg n (Text.bytes t)
    rw [commentLengthFrom_cons_of_ne fun u hu => hends ⟨u, hu⟩, hnext]
    rcases ih h.tail (m + 1) (n + g.bytes.length) with hnone | ⟨k, hk, hlength, hend⟩
    · exact .inl hnone
    · refine .inr ⟨k + 1, Nat.succ_le_succ hk, ?_, ?_⟩
      · rw [hlength, Nat.add_right_comm, Nat.add_assoc]
      · rw [hend, Text.width_cons_succ, Nat.add_assoc]

/-- The bytes of a line without the carriage returns and newlines at its end. -/
def trimLineEnd (s : List UInt8) : List UInt8 :=
  (s.reverse.dropWhile fun b => b = asciiByte '\r' || b = asciiByte '\n').reverse

theorem trimLineEnd_concat (s : List UInt8) (b : UInt8) :
    trimLineEnd (s ++ [b]) =
      if b = asciiByte '\r' ∨ b = asciiByte '\n' then trimLineEnd s else s ++ [b] := by
  rw [trimLineEnd, List.reverse_concat, List.dropWhile_cons]
  simp only [Bool.or_eq_true, decide_eq_true_eq]
  split
  · rfl
  · rw [List.reverse_cons, List.reverse_reverse]

theorem trimLineEnd_bytes (h : t.IsJoined) :
    trimLineEnd (Text.bytes t) = Text.bytes t.trimLineEnd := by
  induction hk : t.length generalizing t with
  | zero =>
    rw [List.length_eq_zero_iff] at hk
    subst hk
    rfl
  | succ k ih =>
    obtain ⟨u, g, rfl⟩ : ∃ u g, t = u ++ [g] :=
      ⟨_, _, (List.dropLast_concat_getLast (List.ne_nil_of_length_eq_add_one hk)).symm⟩
    have hne := g.bytes_ne_nil
    have hlast := List.getLast_mem hne
    have hends := or_congr (h.of_append_right.eq_asciiByte_iff hlast (c := '\r') (by decide))
      (h.of_append_right.eq_asciiByte_iff hlast (c := '\n') (by decide))
    have hbytes : Text.bytes (u ++ [g]) =
        Text.bytes u ++ g.bytes.dropLast ++ [g.bytes.getLast hne] := by
      rw [List.append_assoc, List.dropLast_concat_getLast, Text.bytes_append]
      exact congrArg _ (List.append_nil g.bytes)
    rw [Text.trimLineEnd_concat, hbytes, trimLineEnd_concat, ← hbytes]
    simp only [hends]
    split
    · next hg =>
      have hnil : g.bytes.dropLast = [] := by rcases hg with rfl | rfl <;> rfl
      rw [hnil, List.append_nil]
      exact ih h.of_append_left (by simpa using hk)
    · rfl

end Bytes

end PrologText
