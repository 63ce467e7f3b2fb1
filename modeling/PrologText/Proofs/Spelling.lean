import PrologText.Proofs.Literals
import PrologText.Proofs.Lookahead

/-!
# Tokens are read as they are spelt

What scanning yields at a cursor before a bare name, a number, a variable, quoted text or a bracket,
provided that what follows cannot be part of the token (`Text.Apart`). Everything here is about the
last line of a text.
-/

namespace PrologText

/-! ## Cursors in the last line -/

/-- A cursor with the text `t`, and nothing after it, before it. -/
structure Cursor.Before (c : Cursor) (t : Text) : Prop where
  rest : c.rest = t
  later : c.later = []
  ending : c.ending = .endOfInput

namespace Cursor.Before

variable {c : Cursor} {g : Glyph} {t u : Text}

theorem advance (h : c.Before (t ++ u)) : (c.advance t.length).Before u :=
  ⟨by simp [Cursor.advance, h.rest], h.later, h.ending⟩

theorem advance_one (h : c.Before (g :: u)) : (c.advance 1).Before u :=
  advance (t := [g]) h

theorem toLineEnd (h : c.Before t) : c.toLineEnd.Before [] := by
  rw [Cursor.toLineEnd, h.rest]
  exact advance (by rwa [List.append_nil])

theorem fill (h : c.Before t) : c.fill = c := by
  unfold Cursor.fill
  split
  · rw [h.later]
    rfl
  · rfl

theorem peek (h : c.Before t) : c.peek = .ok t.head? := by
  rw [Cursor.peek, h.fill, h.rest, h.ending]
  cases t <;> rfl

end Cursor.Before

/-- A text without newlines is one line. -/
theorem Text.splitLines_of_no_newline {t : Text} (h : .char '\n' ∉ t) (line : Text) :
    splitLines [] line t = if line.reverse ++ t = [] then [] else [line.reverse ++ t] := by
  induction t generalizing line with
  | nil => simp [splitLines]
  | cons g t ih =>
    have hg : g ≠ .char '\n' := fun hg => h (by simp [hg])
    rw [splitLines, if_neg hg, ih fun ht => h (List.mem_cons_of_mem g ht)]
    simp

theorem Cursor.before_ofText {t : Text} (h : .char '\n' ∉ t) : (Cursor.ofText t).Before t := by
  rw [Cursor.ofText, Text.lines, Text.splitLines_of_no_newline h]
  by_cases ht : t = []
  · subst ht
    exact ⟨rfl, rfl, rfl⟩
  · rw [if_neg (by simpa using ht)]
    exact ⟨rfl, rfl, rfl⟩

/-! ## One token -/

/-- Scanning at the cursor yields a token, without layout before it, and comes before `rest`. -/
def Cursor.Yields (flags : Flags) (c : Cursor) (kind : TokenKind) (text : Text) (functional : Bool)
    (rest : Text) : Prop :=
  ∃ after, scan flags c = .token ⟨kind, text, false, functional, c.place⟩ after ∧ after.Before rest

/-- Characters that no name, number, variable or quoted text goes on with. -/
def Text.separators : List Char :=
  ['(', ',', '|', ')', ']', '\x7d', ' ']

/-- Whether a text starts with a separator. -/
def Text.Apart (t : Text) : Prop :=
  ∃ c u, t = .char c :: u ∧ c ∈ Text.separators

namespace Text.Apart

variable {t : Text} {g : Glyph}

/-- Whatever fails at all separators fails at the start of the text. -/
theorem head_eq_false (h : t.Apart) {p : Char → Bool} (hp : separators.all (!p ·))
    (hg : t.head? = some g) : p g.code = false := by
  obtain ⟨c, u, rfl, hc⟩ := h
  cases hg
  simpa [Glyph.code] using List.all_eq_true.1 hp c hc

theorem head_ne (h : t.Apart) {c : Char} (hc : c ∉ separators) :
    t.head? ≠ some (.char c) := by
  obtain ⟨c', u, rfl, hc'⟩ := h
  rintro ⟨⟩
  exact hc hc'

end Text.Apart

variable {flags : Flags} {c : Cursor} {g : Glyph} {t rest : Text}

theorem Cursor.fill_of_rest (h : c.rest = g :: t) : c.fill = c := by
  simp [Cursor.fill, h]

theorem Cursor.peek_of_rest (h : c.rest = g :: t) : c.peek = .ok (some g) := by
  simp only [Cursor.peek, Cursor.fill_of_rest h, h]

theorem Cursor.rest_advance {n : Nat} (h : c.rest = t ++ rest) (hn : n = t.length) :
    (c.advance n).rest = rest := by
  simp [Cursor.advance, h, hn]

theorem scanFrom_eq_lexeme_of_rest {layout : Bool} (h : c.rest = g :: t)
    (hb : CharClass.isBlank g.code = false) (hp : g ≠ .char '%')
    (ho : Lexeme.opensComment (g :: t) = false) :
    scanFrom flags layout c = .lexeme flags layout g.code c := by
  rw [scanFrom_eq_lexeme (by rw [Cursor.fill_of_rest h, h]) hb hp ho, Cursor.fill_of_rest h]

theorem Cursor.Before.scanFrom_eq_lexeme {layout : Bool} (h : c.Before (g :: t))
    (hb : CharClass.isBlank g.code = false) (hp : g ≠ .char '%')
    (ho : Lexeme.opensComment (g :: t) = false) :
    scanFrom flags layout c = .lexeme flags layout g.code c :=
  scanFrom_eq_lexeme_of_rest h.rest hb hp ho

theorem yields_plain {kind : TokenKind} (h : c.Before (g :: t ++ rest))
    (hb : CharClass.isBlank g.code = false) (hp : g ≠ .char '%')
    (ho : Lexeme.opensComment (g :: t ++ rest) = false)
    (hl : Lexeme.ofText g.code (g :: t ++ rest) = .plain kind 0 (g :: t).length) :
    c.Yields flags kind (g :: t) false rest := by
  refine ⟨c.advance (g :: t).length, ?_, h.advance⟩
  rw [scan, h.scanFrom_eq_lexeme hb hp ho, Scan.lexeme, h.rest, hl]
  simp

theorem scanFrom_name {layout : Bool} (h : c.rest = g :: t ++ rest)
    (hb : CharClass.isBlank g.code = false) (hp : g ≠ .char '%')
    (ho : Lexeme.opensComment (g :: t ++ rest) = false)
    (hl : Lexeme.ofText g.code (g :: t ++ rest) = .name (g :: t).length) :
    scanFrom flags layout c = .name .atom (g :: t) layout c (c.advance (g :: t).length) := by
  rw [scanFrom_eq_lexeme_of_rest h hb hp ho]
  simp only [Scan.lexeme, h, hl, List.take_left]

theorem yields_name (h : c.Before (g :: t ++ rest)) (hb : CharClass.isBlank g.code = false)
    (hp : g ≠ .char '%') (ho : Lexeme.opensComment (g :: t ++ rest) = false)
    (hl : Lexeme.ofText g.code (g :: t ++ rest) = .name (g :: t).length) :
    c.Yields flags .atom (g :: t) (rest.head? = some (.char '(')) rest := by
  refine ⟨c.advance (g :: t).length, ?_, h.advance⟩
  rw [scan, scanFrom_name h.rest hb hp ho hl, Scan.name, h.advance.peek]

theorem yields_solo {ch : Char} {kind : TokenKind} (h : c.Before (.char ch :: rest))
    (hk : Lexeme.solo? ch = some kind) : c.Yields flags kind [.char ch] false rest := by
  refine ⟨c.advance 1, ?_, h.advance_one⟩
  rw [scan, scanFrom_solo (by rw [h.fill, h.rest]) hk, h.fill]

/-! ## Names without quotes -/

namespace Lexeme

variable {p : Char → Bool} {name rest : Text}

theorem run_append (hn : ∀ g ∈ name, p g.code) (hr : ∀ g, rest.head? = some g → p g.code = false) :
    run p (name ++ rest) = name.length := by
  rw [run, List.takeWhile_append_of_pos hn]
  cases rest with
  | nil => simp
  | cons g u => simp [hr g rfl]

theorem opensComment_cons_cons (g g' : Glyph) (t : Text) :
    opensComment (g :: g' :: t) = decide (g = .char '/' ∧ g' = .char '*') := by
  unfold opensComment
  split
  · next h =>
    cases h
    rfl
  · next h =>
    rw [eq_comm, decide_eq_false_iff_not]
    rintro ⟨rfl, rfl⟩
    exact h _ rfl

theorem opensComment_iff {t : Text} : opensComment t ↔ ("/*" : Text) <+: t := by
  have htext : ("/*" : Text) = [.char '/', .char '*'] := rfl
  rw [htext]
  match t with
  | [] => simp [opensComment]
  | [g] => simp [opensComment]
  | g :: g' :: t =>
    simp only [opensComment_cons_cons, decide_eq_true_eq, List.cons_prefix_cons, List.nil_prefix,
      and_true]
    exact and_congr eq_comm eq_comm

theorem opensComment_of_ne {g : Glyph} (h : g ≠ .char '/') (t : Text) :
    opensComment (g :: t) = false := by
  cases t with
  | nil => simp [opensComment]
  | cons g' t => simp [opensComment_cons_cons, h]

/-- What keeps tokens apart makes no comment of a slash before it. -/
theorem opensComment_append (hn : name ≠ []) (hr : rest.Apart) :
    opensComment (name ++ rest) = opensComment name := by
  have hstar := hr.head_ne (c := '*') (by decide)
  match name, rest with
  | [g], [] => rfl
  | [g], r :: rest =>
    have hr : r ≠ .char '*' := fun h => hstar (by simp [h])
    simp [opensComment, hr]
  | g :: g' :: t, rest => simp [opensComment_cons_cons]

/-- Symbol characters that open no comment are one name. -/
theorem graphicRunFrom_append (hn : ∀ g ∈ name, CharClass.isGraphic g.code)
    (hc : ∀ s, s <:+ name → opensComment s = false) (hr : rest.Apart) (n : Nat) :
    graphicRunFrom n (name ++ rest) = n + name.length := by
  induction name generalizing n with
  | nil =>
    obtain ⟨c, u, rfl, hmem⟩ := hr
    have : CharClass.isGraphic c = false :=
      Text.Apart.head_eq_false ⟨c, u, rfl, hmem⟩ (by decide) rfl
    simp [graphicRunFrom, Glyph.code, this]
  | cons g t ih =>
    have hg := hn g List.mem_cons_self
    have ho : opensComment (g :: (t ++ rest)) = false := by
      rw [← List.cons_append, opensComment_append (by simp) hr]
      exact hc _ (List.suffix_refl _)
    rw [List.cons_append, graphicRunFrom, hg, ho]
    have := ih (fun x hx => hn x (List.mem_cons_of_mem g hx))
      (fun s hs => hc s (hs.trans (List.suffix_cons g t))) (n + 1)
    simp [this]
    omega

end Lexeme

namespace Text

/-- Whether a name of symbol characters has the opening of a comment behind its first character. -/
def HidesComment (name : Text) : Prop :=
  (∀ g ∈ name, CharClass.isGraphic g.code) ∧ ("/*" : Text) <:+: name.tail

instance (name : Text) : Decidable name.HidesComment :=
  inferInstanceAs (Decidable (_ ∧ _))

/-- Whether a text ends with a full stop after something that is no full stop. -/
def EndsInStop (t : Text) : Prop :=
  t.dropLast ≠ [] ∧ t.getLast? = some (.char '.') ∧ t.dropLast.getLast? ≠ some (.char '.')

end Text

/-- No part of a bare name of symbol characters opens a comment. -/
theorem Lexeme.opensComment_of_suffix {name : Text} (hg : ∀ g ∈ name, CharClass.isGraphic g.code)
    (hs : name.startsWith "/*" = false) (hc : ¬name.HidesComment) (s : Text) (hsuf : s <:+ name) :
    opensComment s = false := by
  rw [Bool.eq_false_iff, ne_eq, opensComment_iff]
  intro hpre
  cases name with
  | nil =>
    rw [List.suffix_nil.1 hsuf] at hpre
    exact absurd hpre (by decide)
  | cons g t =>
    rcases List.suffix_cons_iff.1 hsuf with rfl | hsuf
    · rw [Text.startsWith, List.isPrefixOf_iff_prefix.2 hpre] at hs
      cases hs
    · exact hc ⟨hg, hpre.isInfix.trans hsuf.isInfix⟩

theorem Lexeme.stopAfter_append {name rest : Text}
    (h : endsSentence rest → ¬name.EndsInStop) : stopAfter (name ++ rest) name.length = false := by
  rw [Bool.eq_false_iff]
  intro hs
  simp only [stopAfter, List.drop_left, Bool.and_eq_true, decide_eq_true_eq] at hs
  obtain ⟨⟨⟨hlen, hlast⟩, hbefore⟩, hends⟩ := hs
  rw [List.getElem?_append_left (by omega)] at hlast hbefore
  refine h hends ⟨?_, ?_, ?_⟩
  · rw [← List.length_pos_iff, List.length_dropLast]
    omega
  · rwa [List.getLast?_eq_getElem?]
  · rw [List.getLast?_eq_getElem?, List.length_dropLast, List.getElem?_dropLast]
    rwa [if_pos (by omega)]

/-- A name that can stand without quotes, apart from the braces. -/
theorem Atom.isBare_cases {name : Text} (h : isBare name) (hb : name ≠ braces.name) :
    name = "!" ∨ name = ";" ∨
      (∃ g t, name = g :: t ∧ CharClass.isLower g.code ∧
        ∀ x ∈ name, CharClass.isAlphanumeric x.code) ∨
      (∃ g t, name = g :: t ∧ (∀ x ∈ name, CharClass.isGraphic x.code) ∧
        name.startsWith "/*" = false ∧ name ≠ ".") := by
  unfold isBare at h
  split at h
  · next hmem =>
    simp only [List.map_cons, List.map_nil, List.mem_cons, List.not_mem_nil, or_false] at hmem
    rcases hmem with h | h | h
    · exact absurd h hb
    · exact .inl h
    · exact .inr (.inl h)
  · split at h
    · cases h
    · next hother =>
      cases name with
      | nil => cases h
      | cons g t =>
        simp only at h
        split at h
        · next hl => exact .inr (.inr (.inl ⟨g, t, rfl, hl, by simpa using h⟩))
        · split at h
          · refine .inr (.inr (.inr ⟨g, t, rfl, ?_⟩))
            simp only [Bool.and_eq_true, List.all_eq_true, Bool.not_eq_true'] at h
            refine ⟨h.1, h.2, fun hd => hother ?_⟩
            rw [hd]
            decide
          · cases h

/-- The lexeme of a name that can stand without quotes. -/
theorem Lexeme.ofText_bare {name : Text} (hb : Atom.isBare name) (hbraces : name ≠ Atom.braces.name)
    (hc : ¬name.HidesComment) (hr : rest.Apart)
    (hstop : endsSentence rest → ¬name.EndsInStop) :
    ∃ g t, name = g :: t ∧ CharClass.isBlank g.code = false ∧ g ≠ .char '%' ∧
      opensComment (g :: t ++ rest) = false ∧
      ofText g.code (g :: t ++ rest) = .name name.length := by
  -- Names without quotes: two of one character each, letters and digits, symbol characters.
  rcases Atom.isBare_cases hb hbraces with
    rfl | rfl | ⟨g, t, rfl, hl, hall⟩ | ⟨g, t, rfl, hall, hs, hdot⟩
  · exact ⟨_, [], rfl, by decide, by decide, opensComment_append (by simp) hr, rfl⟩
  · exact ⟨_, [], rfl, by decide, by decide, opensComment_append (by simp) hr, rfl⟩
  · have hg := hall g List.mem_cons_self
    refine ⟨g, t, rfl, CharClass.isBlank_eq_false_of_isAlphanumeric hg, ?_, ?_, ?_⟩
    · rintro rfl
      exact absurd hg (by decide)
    · refine opensComment_of_ne ?_ _
      rintro rfl
      exact absurd hg (by decide)
    · rw [ofText, if_pos (CharClass.isNameStart_of_isLower hl),
        run_append hall fun x => hr.head_eq_false (by decide)]
  · have hg := hall g List.mem_cons_self
    have hcomment := opensComment_of_suffix hall hs hc
    have hrun : graphicRun (g :: t ++ rest) = (g :: t).length := by
      rw [graphicRun, graphicRunFrom_append hall hcomment hr, Nat.zero_add]
    refine ⟨g, t, rfl, CharClass.isBlank_eq_false_of_isGraphic hg, ?_, ?_, ?_⟩
    · rintro rfl
      exact absurd hg (by decide)
    · rw [opensComment_append (by simp) hr]
      exact hcomment _ (List.suffix_refl _)
    · -- a single full stop would be quoted
      have hone : ¬((g :: t).length = 1 ∧ g.code = '.') := by
        rintro ⟨hlen, hcode⟩
        cases t with
        | nil => exact hdot (by rw [Glyph.eq_char_of_code (by decide) hcode]; rfl)
        | cons => simp at hlen
      have hlast : stopAfter (g :: t ++ rest) (g :: t).length = false := stopAfter_append hstop
      rw [ofText, CharClass.isNameStart_eq_false_of_isGraphic hg, hg, hrun]
      simp only [Bool.false_eq_true, if_false, if_true, if_neg hone, hlast]

theorem yields_bare {name : Text} (h : c.Before (name ++ rest)) (hb : Atom.isBare name)
    (hbraces : name ≠ Atom.braces.name) (hc : ¬name.HidesComment) (hr : rest.Apart)
    (hstop : Lexeme.endsSentence rest → ¬name.EndsInStop) :
    c.Yields flags .atom name (rest.head? = some (.char '(')) rest := by
  obtain ⟨g, t, rfl, hblank, hp, ho, hl⟩ := Lexeme.ofText_bare hb hbraces hc hr hstop
  exact yields_name h hblank hp ho hl

/-! ## Variables -/

theorem yields_variable (h : c.Before (g :: t ++ rest)) (hs : CharClass.isVariableStart g.code)
    (hall : ∀ x ∈ t, CharClass.isAlphanumeric x.code) (hne : g :: t ≠ [.char '_'])
    (hr : rest.Apart) : c.Yields flags .variable (g :: t) false rest := by
  have hg := CharClass.isAlphanumeric_of_isVariableStart hs
  have hclass : CharClass.isNameStart g.code = false ∧ CharClass.isGraphic g.code = false ∧
      CharClass.isDecimal g.code = false :=
    ⟨CharClass.isNameStart_eq_false_of_isVariableStart hs,
      CharClass.isGraphic_eq_false_of_isAlphanumeric hg,
      CharClass.isDecimal_eq_false_of_isVariableStart hs⟩
  have hother : ∀ ch ∈ ['!', ';', '%', '/'], g.code ≠ ch := by
    rintro ch hch rfl
    have all : ['!', ';', '%', '/'].all (!CharClass.isAlphanumeric ·) := by decide
    simpa [hg] using List.all_eq_true.1 all _ hch
  have hrun : Lexeme.run CharClass.isAlphanumeric (g :: t ++ rest) = (g :: t).length :=
    Lexeme.run_append (by simpa using ⟨hg, hall⟩) fun x => hr.head_eq_false (by decide)
  have hkind : ¬((g :: t).length = 1 ∧ g.code = '_') := by
    rintro ⟨hlen, hcode⟩
    cases t with
    | nil => exact hne (by rw [Glyph.eq_char_of_code (by decide) hcode])
    | cons => simp at hlen
  refine yields_plain h (CharClass.isBlank_eq_false_of_isAlphanumeric hg) ?_ ?_ ?_
  · rintro rfl
    exact hother '%' (by simp) rfl
  · refine Lexeme.opensComment_of_ne ?_ _
    rintro rfl
    exact hother '/' (by simp) rfl
  · have h1 := hother '!' (by simp)
    have h2 := hother ';' (by simp)
    simp only [Lexeme.ofText, hclass, h1, h2, hs, hrun, if_neg hkind]
    simp

/-! ## Numbers -/

/-- Characters that no digits and no underscore between digits go on with. -/
def Text.digitEnds : List Char :=
  '.' :: 'e' :: Text.separators

/-- Whether a text starts with a character that digits end before. -/
def Text.EndsDigits (t : Text) : Prop :=
  ∃ c u, t = .char c :: u ∧ c ∈ Text.digitEnds

namespace Text.EndsDigits

variable {t : Text} {g : Glyph}

theorem head_eq_false (h : t.EndsDigits) {p : Char → Bool} (hp : digitEnds.all (!p ·))
    (hg : t.head? = some g) : p g.code = false := by
  obtain ⟨c, u, rfl, hc⟩ := h
  cases hg
  simpa [Glyph.code] using List.all_eq_true.1 hp c hc

theorem head_ne (h : t.EndsDigits) {c : Char} (hc : c ∉ digitEnds) :
    t.head? ≠ some (.char c) := by
  obtain ⟨c', u, rfl, hc'⟩ := h
  rintro ⟨⟩
  exact hc hc'

end Text.EndsDigits

theorem Text.Apart.endsDigits {t : Text} (h : t.Apart) : t.EndsDigits := by
  obtain ⟨c, u, rfl, hc⟩ := h
  exact ⟨c, u, rfl, by simp [digitEnds, hc]⟩

namespace Lexeme

variable {ds rest : Text}

theorem digitGroupsFrom_cons {p : Char → Bool} {g : Glyph} {t : Text} (h : p g.code)
    (ht : t.head? ≠ some (.char '_')) (n : Nat) :
    digitGroupsFrom p n (g :: t) = digitGroupsFrom p (n + 1) t := by
  rw [digitGroupsFrom.eq_def]
  split
  · next heq => cases heq
  · next heq =>
    cases heq
    exact absurd rfl ht
  · next heq =>
    cases heq
    simp [h]

theorem head?_ne_of_decimal (hd : ∀ g ∈ ds, ∃ c, g = .char c ∧ CharClass.isDecimal c) {ch : Char}
    (hr : rest.head? ≠ some (.char ch)) (hch : CharClass.isDecimal ch = false) :
    (ds ++ rest).head? ≠ some (.char ch) := by
  cases ds with
  | nil => exact hr
  | cons g ds =>
    rintro ⟨⟩
    obtain ⟨c, hc, hdec⟩ := hd _ List.mem_cons_self
    cases hc
    simp [hch] at hdec

/-- Digits before what is no digit and no underscore form one group. -/
theorem digitGroupsFrom_append (hd : ∀ g ∈ ds, ∃ c, g = .char c ∧ CharClass.isDecimal c)
    (hr : rest.EndsDigits) (n : Nat) :
    digitGroupsFrom CharClass.isDecimal n (ds ++ rest) = n + ds.length := by
  induction ds generalizing n with
  | nil =>
    obtain ⟨c, u, rfl, hc⟩ := hr
    exact digitGroupsFrom_of_not (Text.EndsDigits.head_eq_false ⟨c, u, rfl, hc⟩ (by decide) rfl) n u
  | cons g ds ih =>
    obtain ⟨c, rfl, hc⟩ := hd g List.mem_cons_self
    have hd' := fun x hx => hd x (List.mem_cons_of_mem _ hx)
    have hhead : (ds ++ rest).head? ≠ some (.char '_') :=
      head?_ne_of_decimal hd' (hr.head_ne (by decide)) (by decide)
    rw [List.cons_append, digitGroupsFrom_cons hc hhead, ih hd', List.length_cons]
    omega

/-- Digits are a decimal integer, or a floating point number that starts with them: neither a base
nor a quote follows a first zero. -/
theorem number_digits {g : Glyph} (hd : ∀ x ∈ g :: ds, ∃ c, x = .char c ∧ CharClass.isDecimal c)
    (hr : rest.EndsDigits) :
    number (g :: ds ++ rest) =
      if floatLength (g :: ds ++ rest) = 0 then .plain (.integer 10) 0 (g :: ds).length
      else .plain .float 0 (floatLength (g :: ds ++ rest)) := by
  have hds := fun x hx => hd x (List.mem_cons_of_mem g hx)
  have hgroups : digitGroups CharClass.isDecimal (g :: ds ++ rest) = (g :: ds).length := by
    rw [digitGroups, digitGroupsFrom_append hd hr, Nat.zero_add]
  have hbased : basedInteger? (g :: ds ++ rest) = none := by
    unfold basedInteger?
    split
    · next x t heq =>
      rw [List.cons_append] at heq
      injection heq with _ heq
      -- What comes behind the first digit is a digit or ends them, and so no letter for a base.
      have hne : ∀ ch, CharClass.isDecimal ch = false → ch ∉ Text.digitEnds → x ≠ ch := by
        rintro _ hdec hends rfl
        exact head?_ne_of_decimal hds (hr.head_ne hends) hdec (by rw [heq]; rfl)
      have hx : base? x = none := by
        unfold base?
        split <;> first | rfl | exact absurd rfl (hne _ (by decide) (by decide))
      simp [hx]
    · rfl
  unfold number
  split
  · next t heq =>
    rw [List.cons_append] at heq
    injection heq with _ heq
    have hquote : (ds ++ rest).head? ≠ some (.char '\'') :=
      head?_ne_of_decimal hds (hr.head_ne (by decide)) (by decide)
    exact absurd (by rw [heq]; rfl) hquote
  · simp only [hbased, hgroups]
    cases floatLength (g :: ds ++ rest) <;> rfl

/-- Decimal digits before what keeps tokens apart are an integer: no full stop follows them. -/
theorem number_decimal {g : Glyph} (hd : ∀ x ∈ g :: ds, ∃ c, x = .char c ∧ CharClass.isDecimal c)
    (hr : rest.Apart) :
    number (g :: ds ++ rest) = .plain (.integer 10) 0 (g :: ds).length := by
  have hgroups : digitGroups CharClass.isDecimal (g :: ds ++ rest) = (g :: ds).length := by
    rw [digitGroups, digitGroupsFrom_append hd hr.endsDigits, Nat.zero_add]
  have hfloat : floatLength (g :: ds ++ rest) = 0 := by
    rw [floatLength, hgroups]
    simp only [List.drop_left]
    split
    · exact absurd rfl (hr.head_ne (c := '.') (by decide))
    · rfl
  rw [number_digits hd hr.endsDigits, if_pos hfloat]

end Lexeme

/-- A decimal digit starts a number. -/
theorem scanFrom_number {ch : Char} {kind : TokenKind} {lead length : Nat} (layout : Bool)
    (h : c.rest = .char ch :: t) (hch : CharClass.isDecimal ch)
    (hl : Lexeme.number (.char ch :: t) = .plain kind lead length) :
    scanFrom flags layout c =
      .token ⟨kind, (c.rest.take length).drop lead, layout, false, c.place⟩ (c.advance length) := by
  have halnum := CharClass.isAlphanumeric_of_isDecimal hch
  have hother : ∀ x ∈ ['!', ';', '%', '/'], ch ≠ x := by
    rintro x hx rfl
    have all : ['!', ';', '%', '/'].all (!CharClass.isDecimal ·) := by decide
    simpa [hch] using List.all_eq_true.1 all _ hx
  have hlexeme : Lexeme.ofText ch (.char ch :: t) = .plain kind lead length := by
    have h1 := hother '!' (by simp)
    have h2 := hother ';' (by simp)
    rw [← hl]
    simp [Lexeme.ofText, CharClass.isNameStart_eq_false_of_isDecimal hch,
      CharClass.isGraphic_eq_false_of_isAlphanumeric halnum, h1, h2, hch]
  rw [scanFrom_eq_lexeme_of_rest h (CharClass.isBlank_eq_false_of_isAlphanumeric halnum)
    (by simpa using hother '%' (by simp))
    (Lexeme.opensComment_of_ne (by simpa using hother '/' (by simp)) _)]
  simp only [Scan.lexeme, Glyph.code, h, hlexeme]

theorem yields_number {ch : Char} {kind : TokenKind} (h : c.Before (.char ch :: t ++ rest))
    (hch : CharClass.isDecimal ch)
    (hl : Lexeme.number (.char ch :: t ++ rest) = .plain kind 0 (Glyph.char ch :: t).length) :
    c.Yields flags kind (.char ch :: t) false rest := by
  refine ⟨c.advance (Glyph.char ch :: t).length, ?_, h.advance⟩
  rw [scan, scanFrom_number false h.rest hch hl, h.rest]
  simp

/-- Decimal text starts with a digit. -/
theorem Positional.exists_decimal_eq (n : Nat) :
    ∃ ch ds, decimal n = .char ch :: ds ∧ CharClass.isDecimal ch ∧
      ∀ g ∈ Glyph.char ch :: ds, ∃ c, g = .char c ∧ CharClass.isDecimal c := by
  have hd : ∀ g ∈ decimal n, ∃ c, g = .char c ∧ CharClass.isDecimal c :=
    fun g => isDecimal_of_mem_decimal
  generalize hds : decimal n = ds at hd
  cases ds with
  | nil => exact absurd hds text_ne_nil
  | cons g ds =>
    obtain ⟨ch, rfl, hch⟩ := hd g List.mem_cons_self
    exact ⟨ch, ds, rfl, hch, hd⟩

theorem yields_decimal {n : Nat} (h : c.Before (Positional.decimal n ++ rest)) (hr : rest.Apart) :
    c.Yields flags (.integer 10) (Positional.decimal n) false rest := by
  obtain ⟨ch, ds, hds, hch, hd⟩ := Positional.exists_decimal_eq n
  rw [hds] at h ⊢
  exact yields_number h hch (Lexeme.number_decimal hd hr)

/-- A sign before a digit is a name by itself. -/
theorem scanFrom_sign {sign ch : Char} (layout : Bool) (hs : sign = '+' ∨ sign = '-')
    (h : c.rest = .char sign :: .char ch :: t) (hch : CharClass.isDecimal ch) :
    scanFrom flags layout c =
      .token ⟨.atom, [.char sign], layout, false, c.place⟩ (c.advance 1) := by
  have hgraphic : CharClass.isGraphic ch = false :=
    CharClass.isGraphic_eq_false_of_isAlphanumeric (CharClass.isAlphanumeric_of_isDecimal hch)
  have hrun : Lexeme.graphicRun (.char sign :: .char ch :: t) = 1 := by
    rcases hs with rfl | rfl <;>
      simp [Lexeme.graphicRun, Lexeme.graphicRunFrom, Lexeme.opensComment_of_ne, Glyph.code,
        hgraphic, show CharClass.isGraphic '+' = true by decide,
        show CharClass.isGraphic '-' = true by decide]
  have hl : Lexeme.ofText sign (.char sign :: .char ch :: t) = .name 1 := by
    rw [Lexeme.ofText, hrun]
    rcases hs with rfl | rfl <;> rfl
  have hopen : ch ≠ '(' := by
    rintro rfl
    exact absurd hch (by decide)
  have hpeek : (c.advance 1).peek = .ok (some (.char ch)) :=
    Cursor.peek_of_rest (Cursor.rest_advance (t := [.char sign]) h rfl)
  rw [scanFrom_eq_lexeme_of_rest h (by rcases hs with rfl | rfl <;> decide)
    (by rcases hs with rfl | rfl <;> decide)
    (Lexeme.opensComment_of_ne (by rcases hs with rfl | rfl <;> decide) _)]
  simp [Scan.lexeme, Glyph.code, h, hl, Scan.name, hpeek, hopen]

theorem yields_minus {ch : Char} (h : c.Before (.char '-' :: .char ch :: rest))
    (hch : CharClass.isDecimal ch) : c.Yields flags .atom "-" false (.char ch :: rest) :=
  ⟨c.advance 1, scanFrom_sign false (.inr rfl) h.rest hch, h.advance_one⟩

/-! ## Quoted text -/

/-- A form of quoted text with escape sequences. -/
def QuotedForm.escaped (q : Char) : QuotedForm :=
  ⟨q, false, true⟩

theorem scanQuoted_quotedChar {q : Char} (hq : q = '\'' ∨ q = '"') {ch : Char} {u : Text}
    (h : c.rest = Text.quotedChar q ch ++ u) (seen : Text) :
    scanQuoted (.escaped q) seen c =
      scanQuoted (.escaped q) (.char ch :: seen) (c.advance (Text.quotedChar q ch).length) := by
  have hslash : q ≠ '\\' := by rcases hq with rfl | rfl <;> decide
  rcases Escape.quotedChar_cases hq ch with ⟨heq, hne, hne', -⟩ | ⟨e, heq, -, he⟩
  · rw [heq] at h ⊢
    rw [scanQuoted_eq, Cursor.fill_of_rest h, h]
    simp [QuotedForm.step, QuotedForm.escaped, hne, hne']
  · rw [heq] at h ⊢
    rw [scanQuoted_eq, Cursor.fill_of_rest h, h]
    simp [QuotedForm.step, QuotedForm.escaped, hslash.symm, he]

theorem scanQuoted_closed {q : Char} (hq : q = '\'' ∨ q = '"') {cs : List Char}
    (h : c.rest = cs.flatMap (Text.quotedChar q) ++ .char q :: rest)
    (hr : rest.head? ≠ some (.char q)) (seen : Text) :
    scanQuoted (.escaped q) seen c = .closed (seen.reverse ++ cs.map .char)
      (c.advance ((cs.flatMap (Text.quotedChar q)).length + 1)) := by
  induction cs generalizing c seen with
  | nil =>
    rw [scanQuoted_eq, Cursor.fill_of_rest h, h]
    simp [QuotedForm.step, QuotedForm.escaped, hr]
  | cons ch cs ih =>
    rw [List.flatMap_cons, List.append_assoc] at h
    rw [scanQuoted_quotedChar hq h seen, ih (Cursor.rest_advance h rfl), Cursor.advance_advance]
    simp [Nat.add_assoc]

theorem quoted_map_char (q : Char) (cs : List Char) :
    Text.quoted q (cs.map .char) ++ rest =
      .char q :: (cs.flatMap (Text.quotedChar q) ++ .char q :: rest) := by
  simp [Text.quoted, List.flatMap_map, Glyph.code]

/-- Quoted text is one token. -/
theorem scanFrom_quoted {q : Char} {layout : Bool} (hq : q = '\'' ∨ q = '"') {cs : List Char}
    (h : c.rest = Text.quoted q (cs.map .char) ++ rest) (hf : flags.charEscapes)
    (hr : rest.head? ≠ some (.char q)) :
    scanFrom flags layout c =
      if q = '\'' then
        .name .quotedAtom (cs.map .char) layout c (c.advance (Text.quoted q (cs.map .char)).length)
      else
        .token ⟨.doubleQuoted, cs.map .char, layout, false, c.place⟩
          (c.advance (Text.quoted q (cs.map .char)).length) := by
  have hlength : (Text.quoted q (cs.map .char)).length =
      1 + ((cs.flatMap (Text.quotedChar q)).length + 1) := by
    have hquoted := congrArg List.length (@quoted_map_char [] q cs)
    simp only [List.append_nil, List.length_cons, List.length_append, List.length_nil] at hquoted
    omega
  rw [quoted_map_char] at h
  have hclosed := scanQuoted_closed hq (Cursor.rest_advance (t := [.char q]) h rfl) hr []
  rw [Cursor.advance_advance, List.length_singleton, ← hlength] at hclosed
  have hquoted : scanFrom flags layout c =
      .quoted ⟨q, false, flags.charEscapes⟩ layout c (c.advance 1) := by
    rcases hq with rfl | rfl <;>
      exact scanFrom_eq_lexeme_of_rest h (by decide) (by decide)
        (Lexeme.opensComment_of_ne (by decide) _)
  rw [hquoted, hf, ← QuotedForm.escaped, Scan.quoted, hclosed]
  rcases hq with rfl | rfl <;>
    simp [QuotedForm.escaped, Scan.quotedKind, Text.rejoin_map_char]

theorem yields_quotedAtom {cs : List Char} (h : c.Before (Text.quoted '\'' (cs.map .char) ++ rest))
    (hf : flags.charEscapes) (hr : rest.Apart) :
    c.Yields flags .quotedAtom (cs.map .char) (rest.head? = some (.char '(')) rest := by
  refine ⟨_, ?_, h.advance⟩
  rw [scan, scanFrom_quoted (.inl rfl) h.rest hf (hr.head_ne (by decide)), if_pos rfl, Scan.name,
    h.advance.peek]

theorem yields_doubleQuoted {cs : List Char} (h : c.Before (Text.quoted '"' (cs.map .char) ++ rest))
    (hf : flags.charEscapes) (hr : rest.Apart) :
    c.Yields flags .doubleQuoted (cs.map .char) false rest := by
  refine ⟨_, ?_, h.advance⟩
  rw [scan, scanFrom_quoted (.inr rfl) h.rest hf (hr.head_ne (by decide)), if_neg (by decide)]

/-! ## The end -/

/-- A full stop before white space, a comment or nothing ends a sentence. -/
theorem scanFrom_stop {layout : Bool} (h : c.Before (.char '.' :: t))
    (ht : Lexeme.endsSentence t = true) :
    scanFrom flags layout c = .token ⟨.stop, ".", layout, false, c.place⟩ (c.advance 1) := by
  have hrun : Lexeme.graphicRun (.char '.' :: t) = 1 := Lexeme.graphicRunFrom_of_stop ht 0
  have hl : Lexeme.ofText '.' (.char '.' :: t) = .dot := by
    rw [Lexeme.ofText_graphic (by decide), hrun]
    rfl
  have hends : Lexeme.endsSentence t.head?.toList = true := by
    cases t with
    | nil => rfl
    | cons => exact ht
  rw [h.scanFrom_eq_lexeme (by decide) (by decide) (Lexeme.opensComment_of_ne (by decide) _)]
  simp only [Scan.lexeme, Glyph.code, h.rest, hl, Scan.dot, h.advance_one.peek, hends, if_true]

/-- A full stop after a space ends a sentence at the end of the text. -/
theorem scanFrom_spacedStop (flags : Flags) (layout : Bool) (h : c.Before " .") :
    ∃ place after, scanFrom flags layout c = .token ⟨.stop, ".", true, false, place⟩ after ∧
      after.Before [] := by
  have hspace : c.rest = [.char ' ', .char '.'] := h.rest
  have h' : (c.advance 1).Before [.char '.'] := h.advance_one
  have hscan : scanFrom flags layout c = scanFrom flags true (c.advance 1) := by
    rw [scanFrom_eq, h.fill, hspace]
    exact if_pos (by decide)
  exact ⟨_, _, hscan.trans (scanFrom_stop h' rfl), h'.advance_one⟩

theorem scan_stop (h : c.Before " .") :
    ∃ t after, scan flags c = .token t after ∧ t.kind = .stop ∧ after.Before [] := by
  obtain ⟨place, after, hscan, hafter⟩ := scanFrom_spacedStop flags false h
  exact ⟨_, _, hscan, rfl, hafter⟩

theorem scanFrom_endOfFile {layout : Bool} (h : c.Before []) :
    scanFrom flags layout c = .token ⟨.endOfFile, [], layout, false, c.place⟩ c := by
  rw [scanFrom_eq, h.fill, h.rest, h.ending]

theorem scan_endOfFile (h : c.Before []) :
    ∃ t, scan flags c = .token t c ∧ t.kind = .endOfFile :=
  ⟨_, scanFrom_endOfFile h, rfl⟩

end PrologText
