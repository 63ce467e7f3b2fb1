import PrologText.Proofs.Bytes
import PrologText.Proofs.Lookahead
import PrologText.Proofs.Spans

/-!
# What quoted text stands for

Quoted text is a sequence of items between two quotes (`QuotedItem`). An item has a source and a
value, and reading takes the text item by item, over any number of lines. Main statement: the token
that is read has the values of the items as its text and ends behind the closing quote
(`scanFrom_quotedText`).
-/

namespace PrologText

/-- The quotes that a text can stand between. -/
inductive Quote where
  | single
  | double
  | back
deriving DecidableEq

namespace Quote

def char : Quote → Char
  | single => '\''
  | double => '"'
  | back => '\x60'

/-- The kind of token that a text between such quotes is. -/
def kind : Quote → TokenKind
  | single => .quotedAtom
  | double => .doubleQuoted
  | back => .backQuoted

/-- How a text between such quotes is read. -/
def form (q : Quote) (escapes : Bool) : QuotedForm :=
  ⟨q.char, false, escapes⟩

theorem char_ne_backslash (q : Quote) : q.char ≠ '\\' := by
  cases q <;> decide

theorem quotedKind_form (q : Quote) (escapes : Bool) :
    Scan.quotedKind (q.form escapes) = q.kind := by
  cases q <;> rfl

end Quote

/-- The two notations for the number of a character. -/
inductive Radix where
  | octal
  | hexadecimal
deriving DecidableEq

namespace Radix

def base : Radix → Nat
  | octal => 8
  | hexadecimal => 16

/-- What stands in front of the digits. -/
def lead : Radix → Text
  | octal => []
  | hexadecimal => [.char 'x']

def isDigit : Radix → Char → Bool
  | octal => CharClass.isOctal
  | hexadecimal => CharClass.isHexadecimal

/-- The number that some digits stand for. -/
def number (r : Radix) (digits : List Char) : Nat :=
  Positional.value r.base (digits.filterMap (Positional.digitValue? r.base))

end Radix

/-- A part of quoted text that has a meaning by itself. -/
inductive QuotedItem where
  /-- A glyph that stands for itself. -/
  | plain (g : Glyph)
  /-- The quote, written twice. -/
  | doubled
  /-- A backslash or a quote, behind a backslash. -/
  | escaped (c : Char)
  /-- A control character, given by its letter. -/
  | control (letter c : Char)
  /-- A character, given by its number. -/
  | numeric (r : Radix) (digits : List Char)
  /-- A newline behind a backslash, with or without a carriage return in front of it. -/
  | lineBreak (carriageReturn : Bool)

namespace QuotedItem

/-- The letters of control characters. -/
def controls : List (Char × Char) :=
  [('a', '\x07'), ('b', '\x08'), ('t', '\x09'), ('n', '\x0A'), ('v', '\x0B'), ('f', '\x0C'),
    ('r', '\x0D')]

/-- Whether an item can stand between certain quotes. -/
def Valid (q : Quote) (escapes : Bool) : QuotedItem → Prop
  | plain g => g ≠ .char q.char ∧ (escapes = true → g ≠ .char '\\')
  | doubled => True
  | escaped c => escapes = true ∧ c ∈ ['\\', '\'', '"', '\x60']
  | control letter c => escapes = true ∧ (letter, c) ∈ controls
  | numeric r digits =>
    escapes = true ∧ digits ≠ [] ∧ digits.all r.isDigit ∧ (r.number digits).isValidChar
  | lineBreak _ => escapes = true

instance (q : Quote) (escapes : Bool) : (i : QuotedItem) → Decidable (i.Valid q escapes)
  | plain _ | escaped _ | control _ _ | numeric _ _ => inferInstanceAs (Decidable (_ ∧ _))
  | doubled => .isTrue trivial
  | lineBreak _ => inferInstanceAs (Decidable (escapes = true))

/-- How an item is written. -/
def source (q : Quote) : QuotedItem → Text
  | plain g => [g]
  | doubled => [.char q.char, .char q.char]
  | escaped c => [.char '\\', .char c]
  | control letter _ => [.char '\\', .char letter]
  | numeric r digits => .char '\\' :: r.lead ++ digits.map .char ++ [.char '\\']
  | lineBreak false => [.char '\\', .char '\n']
  | lineBreak true => [.char '\\', .char '\r', .char '\n']

/-- What an item stands for. -/
def value (q : Quote) : QuotedItem → Text
  | plain g => [g]
  | doubled => [.char q.char]
  | escaped c | control _ c => [.char c]
  | numeric r digits => [.char (Char.ofNat (r.number digits))]
  | lineBreak _ => []

/-- How some items are written one behind the other. -/
def sources (q : Quote) (items : List QuotedItem) : Text :=
  items.flatMap (source q)

/-- What some items stand for together. -/
def values (q : Quote) (items : List QuotedItem) : Text :=
  items.flatMap (value q)

end QuotedItem

/-! ## One item -/

namespace Escape

theorem numeric_digits {r : Radix} {digits : List Char} (hne : digits ≠ [])
    (hd : digits.all r.isDigit) (hv : (r.number digits).isValidChar) (rest : Text) :
    numeric r.base r.isDigit r.lead (digits.map Glyph.char ++ Glyph.char '\\' :: rest) =
      .character (Char.ofNat (r.number digits)) (r.lead.length + digits.length + 1) := by
  have hstop : r.isDigit '\\' = false := by cases r <;> decide
  have htake : (digits.map Glyph.char ++ Glyph.char '\\' :: rest).takeWhile
      (fun g => r.isDigit g.code) = digits.map Glyph.char := by
    rw [List.takeWhile_append_of_pos (by simpa [Glyph.code] using hd), List.takeWhile_cons]
    simp [Glyph.code, hstop]
  have hnumber : Positional.value r.base ((digits.map Glyph.char).filterMap fun g =>
      Positional.digitValue? r.base g.code) = r.number digits := by
    rw [List.filterMap_map]
    rfl
  simp only [numeric, htake, hnumber]
  simp [hne, hv]

theorem ofText_numeric {r : Radix} {digits : List Char} (hne : digits ≠ [])
    (hd : digits.all r.isDigit) (hv : (r.number digits).isValidChar) (rest : Text) :
    ofText (r.lead ++ digits.map Glyph.char ++ Glyph.char '\\' :: rest) =
      .character (Char.ofNat (r.number digits)) (r.lead.length + digits.length + 1) := by
  rw [← numeric_digits hne hd hv rest]
  cases r with
  | hexadecimal => rfl
  | octal =>
    obtain ⟨d, digits, rfl⟩ := List.exists_cons_of_ne_nil hne
    -- An octal digit starts no escape sequence of another kind.
    have hoctal : CharClass.isOctal d = true := List.all_eq_true.1 hd d List.mem_cons_self
    have hne {c : Char} (hc : CharClass.isOctal c = false) : d ≠ c := by
      rintro rfl
      simp [hoctal] at hc
    have hself : d ∉ ['\\', '\'', '"', '\x60'] := by
      simp only [List.mem_cons, List.not_mem_nil, or_false, not_or]
      exact ⟨hne (by decide), hne (by decide), hne (by decide), hne (by decide)⟩
    have hcontrol : control? d = none := by
      unfold control?
      split <;> first | rfl | exact absurd rfl (hne (by decide))
    have hreturn (u : Text) : Glyph.char d :: (digits.map Glyph.char ++ .char '\\' :: rest) ≠
        .char '\r' :: .char '\n' :: u := fun h =>
      hne (by decide) (Glyph.char.inj (List.cons.inj h).1)
    simp only [Radix.lead, List.nil_append, List.map_cons, List.cons_append]
    rw [ofText_cons_of_ne (by simpa using hne (by decide)) (by simpa using hne (by decide)) hreturn]
    simp only [Glyph.code, hself, hcontrol, hoctal, if_true, if_false]
    rfl

theorem ofText_control {letter c : Char} (h : (letter, c) ∈ QuotedItem.controls) (rest : Text) :
    ofText (.char letter :: rest) = .character c 1 := by
  simp only [QuotedItem.controls, List.mem_cons, Prod.mk.injEq, List.not_mem_nil, or_false] at h
  rcases h with ⟨rfl, rfl⟩ | ⟨rfl, rfl⟩ | ⟨rfl, rfl⟩ | ⟨rfl, rfl⟩ | ⟨rfl, rfl⟩ | ⟨rfl, rfl⟩ |
    ⟨rfl, rfl⟩ <;> rfl

theorem ofText_escaped {c : Char} (h : c ∈ ['\\', '\'', '"', '\x60']) (rest : Text) :
    ofText (.char c :: rest) = .character c 1 := by
  simp only [List.mem_cons, List.not_mem_nil, or_false] at h
  rcases h with rfl | rfl | rfl | rfl <;> rfl

end Escape

namespace QuotedForm

variable {f : QuotedForm} {t : Text}

theorem step_character {c : Char} {n : Nat} (he : f.escapes = true) (hf : f.single = false)
    (hq : f.quote ≠ '\\') (h : Escape.ofText t = .character c n) (seen : Text) :
    f.step seen (.char '\\' :: t) = .more (.char c :: seen) (n + 1) := by
  simp [step, he, hf, hq.symm, h]

/-- A line break is passed over, in text of any length. -/
theorem step_lineBreak (he : f.escapes = true) (hq : f.quote ≠ '\\') (q : Quote)
    (carriageReturn : Bool) (seen rest : Text) :
    f.step seen ((QuotedItem.lineBreak carriageReturn).source q ++ rest) =
      .more seen ((QuotedItem.lineBreak carriageReturn).source q).length := by
  cases carriageReturn <;> simp [step, QuotedItem.source, he, hq.symm, Escape.ofText]

end QuotedForm

namespace QuotedItem

variable {q : Quote} {escapes : Bool}

/-- Quoted text is read item by item. -/
theorem step_source {i : QuotedItem} (hi : i.Valid q escapes) (seen rest : Text) :
    (q.form escapes).step seen (i.source q ++ rest) =
      .more ((i.value q).reverse ++ seen) (i.source q).length := by
  have hq : (q.form escapes).quote ≠ '\\' := q.char_ne_backslash
  cases i with
  | plain g =>
    obtain ⟨hquote, hplain⟩ := hi
    have hescape : ¬(g = .char '\\' ∧ escapes = true) := fun h => hplain h.2 h.1
    simp [source, value, QuotedForm.step, Quote.form, hquote, hescape]
  | doubled => simp [source, value, QuotedForm.step, Quote.form]
  | escaped c => exact QuotedForm.step_character hi.1 rfl hq (Escape.ofText_escaped hi.2 rest) seen
  | control letter c =>
    exact QuotedForm.step_character hi.1 rfl hq (Escape.ofText_control hi.2 rest) seen
  | numeric r digits =>
    obtain ⟨he, hne, hd, hv⟩ := hi
    have h := QuotedForm.step_character he rfl hq (Escape.ofText_numeric hne hd hv rest) seen
    simpa [source, value, Nat.add_assoc] using h
  | lineBreak carriageReturn =>
    exact QuotedForm.step_lineBreak (f := q.form escapes) hi hq q carriageReturn seen rest

/-- An item ends at the latest with the line that it starts in. -/
theorem source_in_line {i : QuotedItem} (hi : i.Valid q escapes) :
    ∃ u g, i.source q = u ++ [g] ∧ .char '\n' ∉ u := by
  cases i with
  | plain g => exact ⟨[], g, rfl, by simp⟩
  | doubled => exact ⟨[.char q.char], _, rfl, by cases q <;> decide⟩
  | escaped | control => exact ⟨[.char '\\'], _, rfl, by decide⟩
  | numeric r digits =>
    refine ⟨.char '\\' :: r.lead ++ digits.map Glyph.char, .char '\\', rfl, ?_⟩
    have hlead : .char '\n' ∉ r.lead := by cases r <;> decide
    have hdigits : '\n' ∉ digits := by
      intro hmem
      have hdigit := List.all_eq_true.1 hi.2.2.1 _ hmem
      cases r <;> revert hdigit <;> decide
    simp [hlead, hdigits]
  | lineBreak carriageReturn =>
    cases carriageReturn with
    | false => exact ⟨[.char '\\'], _, rfl, by decide⟩
    | true => exact ⟨[.char '\\', .char '\r'], _, rfl, by decide⟩

end QuotedItem

/-! ## Items one behind the other -/

namespace QuotedItem

variable {q : Quote} {escapes : Bool}

theorem sources_cons (q : Quote) (i : QuotedItem) (items : List QuotedItem) :
    sources q (i :: items) = i.source q ++ sources q items :=
  List.flatMap_cons

theorem values_cons (q : Quote) (i : QuotedItem) (items : List QuotedItem) :
    values q (i :: items) = i.value q ++ values q items :=
  List.flatMap_cons

/-- One item of quoted text is taken, whatever the form of the text makes of it. -/
theorem exists_scanQuoted_item {f : QuotedForm} {i : QuotedItem} {c : Cursor} {v : Text}
    (hc : c.Lined) (hi : i.Valid q escapes) (h : c.remaining = i.source q ++ v)
    {seen seen' : Text}
    (hstep : ∀ rest, f.step seen (i.source q ++ rest) = .more seen' (i.source q).length) :
    ∃ d, c.Leads d ∧ d.remaining = v ∧ scanQuoted f seen c = scanQuoted f seen' d := by
  obtain ⟨u, g, hsource, hu⟩ := source_in_line hi
  rw [hsource, List.append_assoc] at h
  obtain ⟨w, hw, -, hleads, hv⟩ := hc.exists_fill_rest hu h
  have hrest : c.fill.rest = i.source q ++ w := by
    rw [hw, hsource, List.append_assoc]
    rfl
  have hlength : (i.source q).length = u.length + 1 := by simp [hsource]
  refine ⟨c.fill.advance (u.length + 1), hleads, hv, ?_⟩
  rw [scanQuoted_eq, hrest, hstep w, hlength]

/-- Reading takes any number of items, in any number of lines. -/
theorem exists_scanQuoted_items {items : List QuotedItem} {c : Cursor} {v : Text} (hc : c.Lined)
    (hi : ∀ i ∈ items, i.Valid q escapes) (h : c.remaining = sources q items ++ v) (seen : Text) :
    ∃ d, c.Leads d ∧ d.remaining = v ∧ scanQuoted (q.form escapes) seen c =
      scanQuoted (q.form escapes) ((values q items).reverse ++ seen) d := by
  induction items generalizing c seen with
  | nil => exact ⟨c, .refl c, h, rfl⟩
  | cons i items ih =>
    rw [List.forall_mem_cons] at hi
    rw [sources_cons, List.append_assoc] at h
    obtain ⟨d, hcd, hd, hscan⟩ := exists_scanQuoted_item hc hi.1 h (step_source hi.1 seen)
    obtain ⟨e, hde, he, hscan'⟩ := ih (hcd.lined hc) hi.2 hd ((i.value q).reverse ++ seen)
    refine ⟨e, hcd.trans hde, he, ?_⟩
    rw [hscan, hscan', values_cons, List.reverse_append, List.append_assoc]

/-- Reading ends behind a quote that is not doubled. -/
theorem exists_scanQuoted_closed {c : Cursor} {behind : Text} (hc : c.Lined)
    (h : c.remaining = .char q.char :: behind) (hb : behind.head? ≠ some (.char q.char))
    (seen : Text) :
    ∃ after, c.Leads after ∧ after.remaining = behind ∧
      scanQuoted (q.form escapes) seen c = .closed seen.reverse after := by
  obtain ⟨w, hw, ⟨v, hv⟩, hleads, hbehind⟩ := hc.exists_fill_rest (u := []) (by simp) h
  have hhead : w.head? ≠ some (.char q.char) := by
    intro hq
    rw [← hv, List.head?_append, hq] at hb
    exact hb rfl
  refine ⟨c.fill.advance 1, hleads, hbehind, ?_⟩
  rw [scanQuoted_eq, hw]
  simp [QuotedForm.step, Quote.form, hhead]

end QuotedItem

/-! ## The token of quoted text -/

theorem Cursor.peek_of_endOfInput {c : Cursor} (h : c.ending = .endOfInput) :
    c.peek = .ok c.remaining.head? := by
  have hfill : c.fill.ending = .endOfInput := c.leads_fill.ending.trans h
  rw [← head?_fill_rest]
  cases hr : c.fill.rest with
  | nil => simp [peek, hr, hfill]
  | cons g t => simp [peek, hr]

/-- Where a quote stands, quoted text is read. -/
theorem scanFrom_quote {flags : Flags} {layout : Bool} {c : Cursor} {q : Quote} {t : Text}
    (h : c.fill.rest = .char q.char :: t) :
    scanFrom flags layout c =
      .quoted (q.form flags.charEscapes) layout c.fill (c.fill.advance 1) := by
  have hblank : CharClass.isBlank q.char = false := by cases q <;> decide
  have hpercent : Glyph.char q.char ≠ .char '%' := by cases q <;> decide
  have hslash : Glyph.char q.char ≠ .char '/' := by cases q <;> decide
  have hlexeme : Lexeme.ofText q.char c.fill.rest = .quotedText q.char := by
    rw [h]
    cases q <;> rfl
  rw [scanFrom_eq_lexeme h hblank hpercent (Lexeme.opensComment_of_ne hslash t), Scan.lexeme]
  simp only [Glyph.code, hlexeme]
  rfl

theorem Scan.quoted_of_closed {q : Quote} {escapes layout : Bool} {start inside after : Cursor}
    {text : Text} (he : after.ending = .endOfInput)
    (h : scanQuoted (q.form escapes) [] inside = .closed text after) :
    quoted (q.form escapes) layout start inside =
      .token ⟨q.kind, text.rejoin, layout,
        q = .single && after.remaining.head? = some (.char '('), start.place⟩ after := by
  rw [quoted, h]
  simp only [Quote.quotedKind_form]
  cases q with
  | single => simp [Quote.kind, name, Cursor.peek_of_endOfInput he]
  | double | back => rfl

theorem exists_scanFrom_items {c : Cursor} {q : Quote} {items : List QuotedItem} {behind : Text}
    (flags : Flags) (layout : Bool) (hc : c.Lined) (he : c.ending = .endOfInput)
    (hi : ∀ i ∈ items, i.Valid q flags.charEscapes)
    (h : c.remaining = .char q.char :: QuotedItem.sources q items ++ .char q.char :: behind)
    (hb : behind.head? ≠ some (.char q.char)) :
    ∃ after, c.Leads after ∧ after.remaining = behind ∧ scanFrom flags layout c =
      .token ⟨q.kind, (QuotedItem.values q items).rejoin, layout,
        q = .single && behind.head? = some (.char '('), c.fill.place⟩ after := by
  obtain ⟨w, hw, -, hopen, hinside⟩ := hc.exists_fill_rest (u := []) (by simp) h
  obtain ⟨d, hd, hquote, hscan⟩ :=
    QuotedItem.exists_scanQuoted_items (hopen.lined hc) hi hinside []
  obtain ⟨after, hafter, hbehind, hclosed⟩ :=
    QuotedItem.exists_scanQuoted_closed ((hopen.trans hd).lined hc) hquote hb
      (QuotedItem.values q items).reverse
  have hleads := hopen.trans (hd.trans hafter)
  have htext : scanQuoted (q.form flags.charEscapes) [] (c.fill.advance 1) =
      .closed (QuotedItem.values q items) after := by
    rw [List.reverse_reverse] at hclosed
    rw [List.append_nil] at hscan
    exact hscan.trans hclosed
  refine ⟨after, hleads, hbehind, ?_⟩
  rw [scanFrom_quote hw, Scan.quoted_of_closed (hleads.ending.trans he) htext, hbehind]

/-- The token of quoted text has the bytes that its items stand for and ends behind the closing
quote. -/
theorem scanFrom_quotedText {text behind : Text} {c : Cursor} {q : Quote}
    {items : List QuotedItem} (flags : Flags) (layout : Bool) (hc : (Cursor.ofText text).Leads c)
    (hi : ∀ i ∈ items, i.Valid q flags.charEscapes)
    (h : c.remaining = .char q.char :: QuotedItem.sources q items ++ .char q.char :: behind)
    (hb : behind.head? ≠ some (.char q.char)) :
    ∃ after, c.Leads after ∧ after.remaining = behind ∧ scanFrom flags layout c =
      .token ⟨q.kind, .ofBytes (items.flatMap fun i => (i.value q).bytes), layout,
        q = .single && behind.head? = some (.char '('), c.fill.place⟩ after := by
  have hbytes : items.flatMap (fun i => (i.value q).bytes) = (QuotedItem.values q items).bytes := by
    simp [QuotedItem.values, Text.bytes, List.flatMap_assoc]
  rw [hbytes]
  exact exists_scanFrom_items flags layout (hc.lined (Cursor.lined_ofText text))
    (hc.ending.trans (Cursor.ending_ofText text)) hi h hb

/-- Items of all kinds, in four lines. -/
def motleyItems : List QuotedItem :=
  [.plain (.char 'a'), .doubled, .escaped '\'', .control 'n' '\x0A', .plain (.stray 0xE2),
    .lineBreak false, .plain (.stray 0x89), .lineBreak true, .plain (.stray 0xA0),
    .numeric .hexadecimal ['2', '6', '0', '0'], .numeric .octal ['1', '0', '1'],
    .plain (.char '\n'), .plain (.char '"')]

/-- The cursor before such items in a text. -/
def beforeMotleyItems : Cursor :=
  (Cursor.ofText
    ([.char 'f', .char '('] ++
      .char '\'' :: QuotedItem.sources .single motleyItems ++ .char '\'' ::
        [.char '(', .char ')', .char ')'])).advance 2

theorem scanFrom_motleyItems :
    (∀ i ∈ motleyItems, i.Valid .single Flags.standard.charEscapes) ∧
      ∃ after, after.remaining = [.char '(', .char ')', .char ')'] ∧
        scanFrom .standard false beforeMotleyItems =
          .token ⟨.quotedAtom, Text.ofString "a''\n≠☀A\n\"", false, true,
            beforeMotleyItems.fill.place⟩ after := by
  have hi : ∀ i ∈ motleyItems, i.Valid .single Flags.standard.charEscapes := by decide
  obtain ⟨after, -, hafter, hscan⟩ := scanFrom_quotedText (q := .single) .standard false
    (Cursor.leads_advance (by decide)) hi
    (show beforeMotleyItems.remaining = _ ++ _ :: [.char '(', .char ')', .char ')'] by decide)
    (by decide)
  have hbytes : (motleyItems.flatMap fun i => (i.value .single).bytes) =
      (Text.ofString "a''\n≠☀A\n\"").bytes := by decide +kernel
  have htext : Text.ofBytes (Text.ofString "a''\n≠☀A\n\"").bytes = _ := Text.isJoined_ofString _
  refine ⟨hi, after, hafter, hscan.trans ?_⟩
  rw [hbytes, htext]
  rfl

end PrologText
