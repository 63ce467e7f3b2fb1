import PrologText.Proofs.Course
import PrologText.Proofs.Layout

/-!
# Spans of tokens

A stream of tokens that comes to the end of the file loses nothing of its text. Main statement: the
text is made up of the spans of its tokens and of the gaps between them, the gaps hold layout only,
and what a token says of the text around it and of its own spelling is true (`tokensFrom_spans`).
-/

namespace PrologText

/-! ## What a token says of its text -/

namespace Token

/-- How the text of a token is spelled in its span. Of quoted text only the value is kept. -/
def Spells (t : Token) (span : Text) : Prop :=
  match t.kind with
  | .integer 10 => t.text = span
  | .integer base =>
    ∃ x isDigit, span = .char '0' :: .char x :: t.text ∧ Lexeme.base? x = some (base, isDigit)
  | .comment => t.text = span.trimLineEnd
  | .quotedAtom | .charCode | .doubleQuoted | .backQuoted => True
  | _ => t.text = span

/-- What a token says is true of its span and of the text behind it. -/
structure Fits (t : Token) (span behind : Text) : Prop where
  span_eq_nil : span = [] ↔ t.kind = .endOfFile
  functional :
    t.functional ↔ (t.kind = .atom ∨ t.kind = .quotedAtom) ∧ behind.head? = some (.char '(')
  spells : t.Spells span
  last : t.kind = .endOfFile → behind = []

theorem spells_of_text_eq {t : Token} {span : Text}
    (hk : t.kind = .integer 10 ∨ ∀ base, t.kind ≠ .integer base) (hc : t.kind ≠ .comment)
    (h : t.text = span) : t.Spells span := by
  unfold Spells
  split
  case h_2 base hten hbase =>
    exact absurd hbase (hk.resolve_left (fun h => hten (by simpa [hbase] using h)) _)
  case h_3 hcomment => exact absurd hcomment hc
  all_goals first | exact h | trivial

theorem spells_of_base {t : Token} {base : Nat} {x : Char} {isDigit : Char → Bool}
    (hk : t.kind = .integer base) (hx : Lexeme.base? x = some (base, isDigit)) :
    t.Spells (.char '0' :: .char x :: t.text) := by
  unfold Spells
  split
  case h_1 hten =>
    -- No letter stands for the base ten.
    rw [hk] at hten
    cases hten
    unfold Lexeme.base? at hx
    split at hx <;> cases hx
  case h_2 hbase =>
    cases hk.symm.trans hbase
    exact ⟨x, isDigit, rfl, hx⟩
  all_goals simp_all

end Token

namespace Lexeme

theorem basedInteger?_cases {t : Text} {base digits : Nat}
    (h : basedInteger? t = some (base, digits)) :
    ∃ x isDigit u, t = .char '0' :: .char x :: u ∧ base? x = some (base, isDigit) ∧
      digits = digitGroups isDigit u := by
  unfold basedInteger? at h
  split at h
  · next x u =>
    cases hx : base? x with
    | none => simp [hx] at h
    | some b =>
      obtain ⟨b, isDigit⟩ := b
      simp only [hx] at h
      split at h
      · cases h
      · cases h
        exact ⟨x, isDigit, u, rfl, hx, rfl⟩
  · cases h

/-- The tokens that are read as they stand, and integers with their base in front. -/
theorem ofText_plain {c : Char} {t : Text} {kind : TokenKind} {lead n : Nat}
    (h : ofText c t = .plain kind lead n) :
    kind ≠ .endOfFile ∧ kind ≠ .atom ∧ kind ≠ .quotedAtom ∧ kind ≠ .comment ∧
      (lead = 0 ∧ (kind = .integer 10 ∨ ∀ base, kind ≠ .integer base) ∨
        lead = 2 ∧ ∃ base x isDigit u, kind = .integer base ∧ t = .char '0' :: .char x :: u ∧
          base? x = some (base, isDigit)) := by
  unfold ofText at h
  split at h
  · cases h
  · split at h
    · simp only at h
      split at h <;> cases h
    · split at h
      · cases h
      · split at h
        · unfold number at h
          split at h
          · cases h
          · split at h
            · next hbased =>
              cases h
              obtain ⟨x, isDigit, u, ht, hx, -⟩ := basedInteger?_cases hbased
              exact ⟨nofun, nofun, nofun, nofun, .inr ⟨rfl, _, x, isDigit, u, rfl, ht, hx⟩⟩
            · split at h <;> cases h <;> exact ⟨nofun, nofun, nofun, nofun, .inl ⟨rfl, by simp⟩⟩
        · split at h
          · simp only at h
            split at h <;> cases h <;> exact ⟨nofun, nofun, nofun, nofun, .inl ⟨rfl, by simp⟩⟩
          · split at h
            · cases h
            · split at h
              · next hsolo =>
                cases h
                unfold solo? at hsolo
                split at hsolo <;> cases hsolo <;>
                  exact ⟨nofun, nofun, nofun, nofun, .inl ⟨rfl, by simp⟩⟩
              · cases h

theorem eq_dot_of_ofText {c : Char} {t : Text} (h : ofText c t = .dot) : c = '.' := by
  unfold ofText at h
  split at h
  · cases h
  · split at h
    · simp only at h
      split at h
      · next hdot => exact hdot.2
      · cases h
    · split at h
      · cases h
      · split at h
        · unfold number at h
          split at h
          · cases h
          · split at h
            · cases h
            · split at h <;> cases h
        · split at h
          · cases h
          · split at h
            · cases h
            · split at h <;> cases h

end Lexeme

/-! ## Scanning cuts the text -/

namespace Scan

/-- A token with `start` as its start is cut off there and says the truth of its text. -/
def CutsAt (layout : Bool) (start : Cursor) : Scan → Prop
  | token t after =>
    start.Leads after ∧ t.layoutBefore = layout ∧ t.place = start.place ∧
      t.Fits (start.upTo after) after.remaining
  | _ => True

variable {layout : Bool} {start after inside : Cursor} {kind : TokenKind} {text : Text}

theorem name_cutsAt (hk : kind = .atom ∧ text = start.upTo after ∨ kind = .quotedAtom)
    (hleads : start.Leads after) (hne : start.upTo after ≠ []) :
    (name kind text layout start after).CutsAt layout start := by
  unfold name
  split
  · trivial
  · next next hpeek =>
    have hnext := Cursor.head?_of_peek hpeek
    refine ⟨hleads, rfl, rfl, ?_, ?_, ?_, ?_⟩
    · rcases hk with ⟨rfl, -⟩ | rfl <;> simp [hne]
    · rcases hk with ⟨rfl, -⟩ | rfl <;> simp [hnext]
    · rcases hk with ⟨rfl, ht⟩ | rfl
      · exact ht
      · trivial
    · rcases hk with ⟨rfl, -⟩ | rfl <;> exact nofun

theorem dot_cutsAt (hleads : start.Leads after) (h : start.upTo after = ".") :
    (dot layout start after).CutsAt layout start := by
  have hne : start.upTo after ≠ [] := by
    rw [h]
    decide
  unfold dot
  split
  · trivial
  · next next hpeek =>
    have hnext := Cursor.head?_of_peek hpeek
    split
    · exact ⟨hleads, rfl, rfl, by simp [hne], by simp, h.symm, nofun⟩
    · exact ⟨hleads, rfl, rfl, by simp [hne], by simp [hnext], h.symm, nofun⟩

theorem quotedKind_cases (f : QuotedForm) :
    quotedKind f = .charCode ∨ quotedKind f = .doubleQuoted ∨ quotedKind f = .backQuoted ∨
      quotedKind f = .quotedAtom := by
  unfold quotedKind
  split
  · exact .inl rfl
  · split
    · exact .inr (.inl rfl)
    · split
      · exact .inr (.inr (.inl rfl))
      · exact .inr (.inr (.inr rfl))

theorem quoted_cutsAt {f : QuotedForm} (hleads : start.Leads inside)
    (hne : start.upTo inside ≠ []) : (quoted f layout start inside).CutsAt layout start := by
  have hahead := scanQuoted_ahead f [] inside
  unfold quoted
  split
  · unfold unended
    split <;> trivial
  · trivial
  · next after hclosed =>
    rw [hclosed] at hahead
    have hafter : start.Leads after := hleads.trans hahead
    have hspan : start.upTo after ≠ [] := by
      rw [hleads.upTo_trans hahead]
      exact List.append_ne_nil_of_left_ne_nil hne _
    simp only
    split
    · next hk => exact name_cutsAt (.inr hk) hafter hspan
    · next hk =>
      refine ⟨hafter, rfl, rfl, ?_⟩
      rcases quotedKind_cases f with h | h | h | h
      · exact ⟨by simp [hspan, h], by simp [h], by simp [Token.Spells, h], by simp [h]⟩
      · exact ⟨by simp [hspan, h], by simp [h], by simp [Token.Spells, h], by simp [h]⟩
      · exact ⟨by simp [hspan, h], by simp [h], by simp [Token.Spells, h], by simp [h]⟩
      · exact absurd h hk

theorem lexeme_cutsAt {flags : Flags} {g : Glyph} {t : Text} (hr : start.rest = g :: t)
    (ho : Lexeme.opensComment (g :: t) = false) :
    (lexeme flags layout g.code start).CutsAt layout start := by
  have hfits := (Lexeme.ofText_fits g.code (hr ▸ List.cons_ne_nil g t)).length_le
  have hpos := Lexeme.ofText_length_pos ho
  rw [← hr] at hpos
  have hspan {n : Nat} (hn : 0 < n) : start.upTo (start.advance n) ≠ [] := by
    rw [Cursor.upTo_advance, hr]
    cases n with
    | zero => omega
    | succ n => simp
  have hleads {n : Nat} (hn : n ≤ start.rest.length) : start.Leads (start.advance n) :=
    Cursor.leads_advance hn
  unfold lexeme
  cases hl : Lexeme.ofText g.code start.rest with
  | plain kind lead n =>
    rw [hl] at hpos hfits
    obtain ⟨hend, hatom, hquoted, hcomment, hcases⟩ := Lexeme.ofText_plain hl
    have hne : start.upTo (start.advance n) ≠ [] := hspan hpos
    refine ⟨hleads hfits, rfl, rfl, by simp [hne, hend], by simp [hatom, hquoted], ?_,
      fun hk => absurd hk hend⟩
    rw [Cursor.upTo_advance]
    rcases hcases with ⟨rfl, hk⟩ | ⟨rfl, base, x, isDigit, u, hk, hu, hx⟩
    · exact Token.spells_of_text_eq hk hcomment rfl
    · have htake : start.rest.take n = .char '0' :: .char x :: (start.rest.take n).drop 2 := by
        have := (Lexeme.ofText_fits g.code (hr ▸ List.cons_ne_nil g t : start.rest ≠ []))
        rw [hl] at this
        obtain ⟨m, rfl⟩ := Nat.exists_eq_add_of_le' this.1
        rw [hu]
        rfl
      conv => arg 2; rw [htake]
      exact Token.spells_of_base hk hx
  | name n =>
    rw [hl] at hpos hfits
    exact name_cutsAt (.inl ⟨rfl, (Cursor.upTo_advance _ _).symm⟩) (hleads hfits) (hspan hpos)
  | dot =>
    rw [hl] at hfits
    refine dot_cutsAt (hleads hfits) ?_
    rw [Cursor.upTo_advance, hr, Glyph.eq_char_of_code (by decide) (Lexeme.eq_dot_of_ofText hl)]
    rfl
  | quotedText q =>
    rw [hl] at hfits
    exact quoted_cutsAt (hleads hfits) (hspan Nat.one_pos)
  | charCode =>
    rw [hl] at hfits
    exact quoted_cutsAt (hleads hfits) (hspan Nat.two_pos)
  | unknown c => trivial

/-- A token is cut off behind layout and says the truth of its text. -/
def Cuts (flags : Flags) (layout : Bool) (c : Cursor) (s : Scan) : Prop :=
  ∃ start, c.Leads start ∧ (c.upTo start).IsLayout flags.keepComments start.remaining ∧
    s.CutsAt (layout || !(c.upTo start).isEmpty) start

end Scan

theorem Text.trimLineEnd_of_commentEnd (t : Text) :
    (t ++ commentEnd).trimLineEnd = t ++ commentEnd := by
  simp [trimLineEnd, dropEndWhile, commentEnd, isLineEnd]

theorem Cursor.AtToken.cutsAt {flags : Flags} {start : Cursor}
    (h : start.AtToken flags.keepComments) (hc : start.Lined) (layout : Bool) :
    (scanFrom flags layout start).CutsAt layout start := by
  rw [h.scanFrom_eq hc, Scan.found]
  split
  · next hr =>
    have hnil : start.remaining = [] := remaining_of_fill_nil (by rw [h.fill, hr])
    split
    · trivial
    · exact ⟨.refl _, rfl, rfl, by simp [upTo_self], by simp, (upTo_self _).symm, fun _ => hnil⟩
  · next g t hr =>
    split
    · refine ⟨start.leads_toLineEnd, rfl, rfl, ?_, by simp, ?_, by simp⟩
      · simp [upTo_toLineEnd, hr]
      · rw [upTo_toLineEnd]
        rfl
    · split
      · next ho =>
        split
        · unfold Scan.unended
          split <;> trivial
        · next after ha =>
          obtain ⟨hleads, body, hspan, -⟩ := hc.upTo_block hr ho ha
          have hne : start.upTo after ≠ [] := by simp [hspan]
          refine ⟨hleads, rfl, rfl, by simp [hne], by simp, ?_, by simp⟩
          rw [hspan]
          exact (Text.trimLineEnd_of_commentEnd _).symm
      · next ho => exact Scan.lexeme_cutsAt hr (by simpa using ho)

theorem scanFrom_cuts (flags : Flags) (layout : Bool) (c : Cursor) (hc : c.Lined) :
    (scanFrom flags layout c).Cuts flags layout c := by
  obtain ⟨start, hstart⟩ := exists_passesTo flags layout c hc
  refine ⟨start, hstart.leads, hstart.gap, ?_⟩
  rw [hstart.scan]
  exact hstart.atToken.cutsAt (hstart.leads.lined hc) _

/-! ## Streams -/

/-- A token with the text in front of it and its own. -/
structure Piece where
  token : Token
  gap : Text
  span : Text

/-- Scanning at `c` cuts a piece off the text and comes to `after`. The token has its place at the
start of the span, is not empty, has nothing but layout in the gap, tells whether there is any and
whether it is a name with a parenthesis right behind its span, and has the text of its span. -/
structure Piece.Cut (flags : Flags) (c after : Cursor) (p : Piece) : Prop where
  scan : scan flags c = .token p.token after
  start : ∃ start, c.Leads start ∧ start.Leads after ∧ p.token.place = start.place ∧
    p.gap = c.upTo start ∧ p.span = start.upTo after
  span_ne_nil : p.span ≠ []
  gap : p.gap.IsLayout flags.keepComments (p.span ++ after.remaining)
  layoutBefore : p.token.layoutBefore = !p.gap.isEmpty
  functional : p.token.functional ↔
    (p.token.kind = .atom ∨ p.token.kind = .quotedAtom) ∧
      after.remaining.head? = some (.char '(')
  spells : p.token.Spells p.span

/-- Pieces that are cut off one after the other from a cursor on, and the text `last` behind them,
which is layout up to the end of the file. -/
inductive Tiles (flags : Flags) : Cursor → List Piece → Text → Prop where
  | nil {c t after} (h : scan flags c = .token t after) (hk : t.kind = .endOfFile)
      (hlast : c.remaining.IsLayout flags.keepComments [])
      (hl : t.layoutBefore = !c.remaining.isEmpty) : Tiles flags c [] c.remaining
  | cons {c after p ps last} (hp : p.Cut flags c after) (hps : Tiles flags after ps last) :
      Tiles flags c (p :: ps) last

theorem Tiles.remaining_eq {flags : Flags} {c : Cursor} {ps : List Piece} {last : Text}
    (h : Tiles flags c ps last) : c.remaining = ps.flatMap (fun p => p.gap ++ p.span) ++ last := by
  induction h with
  | nil => rfl
  | cons hp _ ih =>
    obtain ⟨start, hstart, hafter, -, hgap, hspan⟩ := hp.start
    rw [hstart.remaining_eq, hafter.remaining_eq, ih, ← hgap, ← hspan]
    simp

theorem exists_cut {flags : Flags} {c after : Cursor} {t : Token} (hc : c.Lined)
    (h : scan flags c = .token t after) (hk : t.kind ≠ .endOfFile) :
    ∃ gap span, Piece.Cut flags c after ⟨t, gap, span⟩ := by
  obtain ⟨start, hstart, hgap, hcuts⟩ := scanFrom_cuts flags false c hc
  rw [show scanFrom flags false c = _ from h] at hcuts
  obtain ⟨hafter, hlayout, hplace, hfits⟩ := hcuts
  have hgap : (c.upTo start).IsLayout flags.keepComments (start.upTo after ++ after.remaining) := by
    rwa [← hafter.remaining_eq]
  exact ⟨c.upTo start, start.upTo after, h, ⟨start, hstart, hafter, hplace, rfl, rfl⟩,
    fun hnil => hk (hfits.span_eq_nil.1 hnil), hgap, hlayout, hfits.functional, hfits.spells⟩

theorem tiles_endOfFile {flags : Flags} {c after : Cursor} {t : Token} (hc : c.Lined)
    (h : scan flags c = .token t after) (hk : t.kind = .endOfFile) :
    Tiles flags c [] c.remaining := by
  obtain ⟨start, hstart, hgap, hcuts⟩ := scanFrom_cuts flags false c hc
  rw [show scanFrom flags false c = _ from h] at hcuts
  obtain ⟨hafter, hlayout, -, hfits⟩ := hcuts
  have hnil : start.remaining = [] := by
    rw [hafter.remaining_eq, hfits.span_eq_nil.2 hk, hfits.last hk]
    rfl
  have hall : c.remaining = c.upTo start := by rw [hstart.remaining_eq, hnil, List.append_nil]
  exact .nil h hk (by rwa [hall, ← hnil]) (by rw [hall]; exact hlayout)

theorem exists_tiles {flags : Flags} {seen ts : List Token} {c : Cursor} (hc : c.Lined)
    (h : tokensFrom flags seen c = (ts, .endOfFile)) :
    ∃ ps last, ts = seen.reverse ++ ps.map (·.token) ∧ Tiles flags c ps last := by
  fun_induction tokensFrom flags seen c with
  | case1 | case2 => cases h
  | case3 seen c t after hs hk =>
    cases h
    exact ⟨[], _, by simp, tiles_endOfFile hc hs hk⟩
  | case4 seen c t after hs hk _ ih =>
    obtain ⟨ps, last, hts, htiles⟩ := ih ((leads_of_scan_token hs).lined hc) h
    obtain ⟨gap, span, hcut⟩ := exists_cut hc hs hk
    exact ⟨⟨t, gap, span⟩ :: ps, last, by simpa using hts, .cons hcut htiles⟩

/-- A text that can be scanned to its end is made up of the spans of its tokens and of layout. -/
theorem tokensFrom_spans {flags : Flags} {text : Text} {ts : List Token}
    (h : tokensFrom flags [] (.ofText text) = (ts, .endOfFile)) :
    ∃ ps last, ts = ps.map (·.token) ∧ Tiles flags (.ofText text) ps last ∧
      text = ps.flatMap (fun p => p.gap ++ p.span) ++ last := by
  obtain ⟨ps, last, hts, htiles⟩ := exists_tiles (Cursor.lined_ofText text) h
  refine ⟨ps, last, hts, htiles, ?_⟩
  rw [← htiles.remaining_eq, Cursor.remaining_ofText]

/-- Whether a stream comes to the end of the file. -/
def StreamEnd.isEndOfFile : StreamEnd → Bool
  | endOfFile => true
  | _ => false

theorem tokensFrom_eq_of_isEndOfFile {flags : Flags} {c : Cursor}
    (h : (tokensFrom flags [] c).2.isEndOfFile) :
    tokensFrom flags [] c = ((tokensFrom flags [] c).1, .endOfFile) := by
  revert h
  rcases tokensFrom flags [] c with ⟨ts, ending⟩
  cases ending with
  | endOfFile => exact fun _ => rfl
  | fault | failure => exact nofun

/-- A stream that ends at the end of the file stands before the token for it. -/
theorem exists_scans_endOfFile (flags : Flags) (seen : List Token) (c : Cursor)
    (h : (tokensFrom flags seen c).2.isEndOfFile) :
    ∃ ts eof after, (tokensFrom flags seen c).1 = seen.reverse ++ ts ∧ eof.kind = .endOfFile ∧
      Scans flags c (ts ++ [eof]) after := by
  fun_induction tokensFrom flags seen c with
  | case1 | case2 => cases h
  | case3 seen c t after hs he => exact ⟨[], t, after, by simp, he, .cons hs .nil⟩
  | case4 seen c t after hs _ _ ih =>
    obtain ⟨ts, eof, last, hts, heof, hscans⟩ := ih h
    exact ⟨t :: ts, eof, last, by simpa using hts, heof, .cons hs hscans⟩

/-- A text with tokens of many kinds, comments and white space. -/
def motleyText : Text :=
  "'a b'(0x1F,X,/* one\n * two */2.5e3)=.. [_|\"s\"]. % three\n%"

theorem tokensFrom_motleyText :
    (tokensFrom .standard [] (.ofText motleyText)).2.isEndOfFile ∧
      ∃ ps last, (tokensFrom .standard [] (.ofText motleyText)).1 = ps.map (·.token) ∧
        Tiles .standard (.ofText motleyText) ps last ∧
        motleyText = ps.flatMap (fun p => p.gap ++ p.span) ++ last := by
  have h : (tokensFrom .standard [] (.ofText motleyText)).2.isEndOfFile := by decide +kernel
  exact ⟨h, tokensFrom_spans (tokensFrom_eq_of_isEndOfFile h)⟩

end PrologText
