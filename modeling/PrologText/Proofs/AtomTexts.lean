import PrologText.Proofs.RoundTrip
import PrologText.Token.Stream

/-!
# Texts of atoms

Whether an atom gets quotes is decided from its name alone, and where a name ends is decided while
scanning. Main statement: inside brackets, the text of an atom is scanned as one token with the name
of the atom, whatever the name is, unless it stands without quotes and a comment opens inside it.
Then no token has this name (`Atom.scan_text_before_delimiter`).
-/

namespace PrologText

/-- The characters that an operand inside brackets ends before. -/
def Text.delimiters : List Char :=
  [')', ',', ']', '\x7d', '|']

theorem Text.apart_of_delimiter {ch : Char} (h : ch ∈ delimiters) (more : Text) :
    Text.Apart (.char ch :: more) := by
  have hall : delimiters.all (separators.contains ·) = true := by decide
  exact ⟨ch, more, rfl, List.contains_iff_mem.1 (List.all_eq_true.1 hall ch h)⟩

theorem Scan.name_of_delimiter {kind : TokenKind} {text more : Text} {layout : Bool}
    {start after : Cursor} {ch : Char} (h : ch ∈ Text.delimiters)
    (hafter : after.rest = .char ch :: more) :
    name kind text layout start after =
      .token ⟨kind, text, layout, false, start.place⟩ after := by
  have hopen : ch ≠ '(' := by
    rintro rfl
    exact absurd h (by decide)
  rw [name, Cursor.peek_of_rest hafter]
  simp [hopen]

/-! ## Names without quotes -/

/-- Symbol characters are taken up to a comment at most. -/
theorem Lexeme.graphicRunFrom_le_of_opensComment {u v : Text} (hv : opensComment v) (n : Nat) :
    graphicRunFrom n (u ++ v) ≤ n + u.length := by
  induction u generalizing n with
  | nil =>
    cases v with
    | nil => exact Nat.le_refl n
    | cons g v => simp [graphicRunFrom, hv]
  | cons g u ih =>
    rw [List.cons_append, graphicRunFrom]
    split
    · have hle := ih (n + 1)
      rw [List.length_cons]
      omega
    · exact Nat.le_add_right n _

/-- A name with a comment inside it is not taken whole. -/
theorem Lexeme.ofText_of_hidesComment {name : Text} (hb : Atom.isBare name)
    (hc : name.HidesComment) (rest : Text) :
    ∃ g t, name = g :: t ∧ CharClass.isBlank g.code = false ∧ g ≠ .char '%' ∧
      opensComment (g :: t ++ rest) = false ∧ 1 < name.length ∧
      (ofText g.code (g :: t ++ rest) = .dot ∨
        ∃ n < name.length, ofText g.code (g :: t ++ rest) = .name n) := by
  obtain ⟨hall, u, v, hinfix⟩ := hc
  -- of the names that can stand without quotes only those of symbol characters are left
  have hsymbols : ∃ g t, name = g :: t ∧ name.startsWith "/*" = false := by
    have hbraces : name ≠ Atom.braces.name := by
      rintro rfl
      exact absurd hall (by decide)
    rcases Atom.isBare_cases hb hbraces with
      rfl | rfl | ⟨g, t, rfl, -, halnum⟩ | ⟨g, t, rfl, -, hstarts, -⟩
    · exact absurd hall (by decide)
    · exact absurd hall (by decide)
    · have hgraphic := CharClass.isGraphic_eq_false_of_isAlphanumeric (halnum g List.mem_cons_self)
      simp [hall g List.mem_cons_self] at hgraphic
    · exact ⟨g, t, rfl, hstarts⟩
  obtain ⟨g, t, rfl, hstarts⟩ := hsymbols
  rw [List.tail_cons] at hinfix
  have hg := hall g List.mem_cons_self
  have hlength : (g :: t).length = u.length + 2 + v.length + 1 := by
    rw [← hinfix]
    simp [Text.ofString]
    omega
  refine ⟨g, t, rfl, CharClass.isBlank_eq_false_of_isGraphic hg, ?_, ?_, by omega, ?_⟩
  · rintro rfl
    exact absurd hg (by decide)
  · -- two characters at least stand before the rest
    rw [Bool.eq_false_iff]
    intro hopens
    have hpre : ("/*" : Text) <+: g :: t :=
      List.prefix_of_prefix_length_le (opensComment_iff.1 hopens) (List.prefix_append _ _)
        (show 2 ≤ (g :: t).length by omega)
    rw [Text.startsWith, List.isPrefixOf_iff_prefix.2 hpre] at hstarts
    cases hstarts
  · have hsplit : g :: t ++ rest = (g :: u) ++ (("/*" : Text) ++ v ++ rest) := by
      rw [← hinfix]
      simp
    have hrun : graphicRun (g :: t ++ rest) ≤ (g :: u).length := by
      have hopens : opensComment (("/*" : Text) ++ v ++ rest) = true := rfl
      have hle := graphicRunFrom_le_of_opensComment (u := g :: u) hopens 0
      rwa [← hsplit, Nat.zero_add] at hle
    rw [List.length_cons] at hrun
    rw [ofText, CharClass.isNameStart_eq_false_of_isGraphic hg, hg]
    simp only [Bool.false_eq_true, if_false, if_true]
    split
    · exact .inl rfl
    · refine .inr ⟨_, ?_, rfl⟩
      split <;> omega

namespace Atom

variable {flags : Flags} {a : Atom} {ch : Char} {more : Text} {c : Cursor}

theorem scan_bare (hb : isBare a.name) (hbraces : a.name ≠ braces.name)
    (hhidden : ¬a.name.HidesComment) (hch : ch ∈ Text.delimiters)
    (hc : c.rest = a.name ++ .char ch :: more) :
    scan flags c = .token ⟨.atom, a.name, false, false, c.place⟩ (c.advance a.name.length) := by
  have hends : ¬Lexeme.endsSentence (.char ch :: more) := by
    have hall : (Text.delimiters.all fun x => !CharClass.isBlank x && x != '%') = true := by decide
    have hch := List.all_eq_true.1 hall ch hch
    simp only [Bool.and_eq_true, Bool.not_eq_true', bne_iff_ne] at hch
    simp [Lexeme.endsSentence, Glyph.code, hch]
  obtain ⟨g, t, hname, hblank, hpercent, hopens, hlexeme⟩ :=
    Lexeme.ofText_bare hb hbraces hhidden (Text.apart_of_delimiter hch more)
      fun h => absurd h hends
  have hafter : (c.advance a.name.length).rest = .char ch :: more := Cursor.rest_advance hc rfl
  rw [hname] at hc hlexeme hafter ⊢
  rw [scan, scanFrom_name hc hblank hpercent hopens hlexeme, Scan.name_of_delimiter hch hafter]

theorem scan_quoted (hflags : flags.charEscapes = true) (hvalid : a.name.IsValid)
    (hch : ch ∈ Text.delimiters) (hc : c.rest = a.name.quoted '\'' ++ .char ch :: more) :
    scan flags c =
      .token ⟨.quotedAtom, a.name, false, false, c.place⟩
        (c.advance (a.name.quoted '\'').length) := by
  obtain ⟨s, hs⟩ := hvalid
  have hquote : (Glyph.char ch :: more).head? ≠ some (.char '\'') :=
    (Text.apart_of_delimiter hch more).head_ne (by decide)
  have hafter := Cursor.rest_advance hc rfl
  rw [show a.name = s.toList.map .char from hs] at hc hafter ⊢
  rw [scan, scanFrom_quoted (.inl rfl) hc hflags hquote, if_pos rfl,
    Scan.name_of_delimiter hch hafter]

/-- Where a comment opens inside a name without quotes, the token is shorter than the name. -/
theorem shorter_of_hidesComment {t : Token} {after : Cursor} (hb : isBare a.name)
    (hhidden : a.name.HidesComment) (hc : c.rest = a.name ++ more)
    (hscan : scan flags c = .token t after) :
    (t.kind = .atom ∨ t.kind = .stop) ∧ t.text.length < a.name.length := by
  obtain ⟨g, u, hname, hblank, hpercent, hopens, hlong, hlexeme⟩ :=
    Lexeme.ofText_of_hidesComment hb hhidden more
  rw [hname] at hc
  rw [scan, scanFrom_eq_lexeme_of_rest hc hblank hpercent hopens] at hscan
  rcases hlexeme with hdot | ⟨n, hn, hlexeme⟩
  · simp only [Scan.lexeme, hc, hdot, Scan.dot] at hscan
    split at hscan
    · cases hscan
    · split at hscan
      · cases hscan
        exact ⟨.inr rfl, hlong⟩
      · cases hscan
        exact ⟨.inl rfl, hlong⟩
  · simp only [Scan.lexeme, hc, hlexeme, Scan.name] at hscan
    split at hscan
    · cases hscan
    · cases hscan
      exact ⟨.inl rfl, Nat.lt_of_le_of_lt (List.length_take_le ..) hn⟩

/-- An atom before a delimiter. If its name stands between quotes, or without them and no comment
opens inside it, then its text is scanned as one token with this name, up to the delimiter.
Otherwise no token has the name. -/
theorem scan_text_before_delimiter (hflags : flags.charEscapes = true) (hvalid : a.name.IsValid)
    (hbraces : a.name ≠ braces.name) (hch : ch ∈ Text.delimiters)
    (hc : c.rest = a.text ++ .char ch :: more) :
    (¬(isBare a.name ∧ a.name.HidesComment) →
      scan flags c =
        .token ⟨if isBare a.name then .atom else .quotedAtom, a.name, false, false, c.place⟩
          (c.advance a.text.length)) ∧
    (isBare a.name ∧ a.name.HidesComment →
      ∀ t after, scan flags c = .token t after → t.text ≠ a.name) := by
  unfold text at hc ⊢
  by_cases hb : isBare a.name
  · rw [if_pos hb] at hc
    simp only [hb, if_true, true_and]
    refine ⟨fun hhidden => scan_bare hb hbraces hhidden hch hc, ?_⟩
    intro hhidden t after hscan htext
    obtain ⟨-, hshorter⟩ := shorter_of_hidesComment hb hhidden hc hscan
    rw [htext] at hshorter
    exact Nat.lt_irrefl _ hshorter
  · rw [if_neg hb] at hc
    simp only [hb, Bool.false_eq_true, if_false, false_and, not_false_eq_true, true_implies,
      false_implies, and_true]
    exact scan_quoted hflags hvalid hch hc

/-- An atom that needs quotes and all kinds of escape sequences. -/
def itsLine : Atom :=
  .plain "it's\n\\\x07\x01"

/-- An atom of symbol characters that ends in full stops. -/
def univ : Atom :=
  .plain "=.."

/-- A line that goes on with an atom, a comma and an argument. -/
def beforeItsLine : Cursor :=
  .ofText "'it\\'s\\n\\\\\\a\\x1\\', X)"

/-- A line that goes on with an atom and the end of a list. -/
def beforeUniv : Cursor :=
  .ofText "=..]"

theorem scan_before_itsLine_and_univ :
    scan .standard beforeItsLine =
        .token ⟨.quotedAtom, itsLine.name, false, false, beforeItsLine.place⟩
          (beforeItsLine.advance itsLine.text.length) ∧
      scan .standard beforeUniv =
        .token ⟨.atom, univ.name, false, false, beforeUniv.place⟩
          (beforeUniv.advance univ.text.length) := by
  have hline : beforeItsLine.rest = itsLine.text ++ .char ',' :: (" X)" : Text) := by
    decide +kernel
  have huniv : beforeUniv.rest = univ.text ++ .char ']' :: [] := by
    decide +kernel
  exact ⟨(scan_text_before_delimiter rfl ⟨_, rfl⟩ (by decide) (by decide) hline).1
      (by decide +kernel),
    (scan_text_before_delimiter rfl ⟨_, rfl⟩ (by decide) (by decide) huniv).1
      (by decide +kernel)⟩

/-- A comment opens inside of the name `=/*`, but it is written without quotes, so that its text
before a parenthesis is scanned as another atom and an open comment. -/
theorem tokens_hiddenComment :
    ((tokensFrom .standard [] (.ofText ((plain "=/*").text ++ ")"))).1.map fun t =>
      (t.kind, t.text)) = [(.atom, ("=" : Text))] := by
  decide +kernel

end Atom

end PrologText
