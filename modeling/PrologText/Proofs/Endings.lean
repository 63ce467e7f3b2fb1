import PrologText.Proofs.Layout
import PrologText.Proofs.Lookahead
import PrologText.Proofs.Positions
import PrologText.Proofs.Spans

/-!
# Two ways to end a sentence

A full stop can stand behind a space, or right behind the last token if it ends the line. Main
statement: the tokens of a text are the same before both (`scanFrom_agrees`), if no quote and no two
full stops stand at its end. A text with one full stop at its end is a sentence before the other
full stop comes.
-/

namespace PrologText

/-- A text of one line that can be ended in both ways: it has no quote and no two full stops at its
end. -/
structure Text.Endable (v : Text) : Prop where
  oneLine : .char '\n' ∉ v
  noQuote : ¬[.char '\''] <:+ v
  noStops : ¬(".." : Text) <:+ v

theorem Text.Endable.of_suffix {u v : Text} (h : v.Endable) (hu : u <:+ v) : u.Endable where
  oneLine hmem := h.oneLine (hu.subset hmem)
  noQuote hq := h.noQuote (hq.trans hu)
  noStops hd := h.noStops (hd.trans hu)

/-- Two cursors before the text `v`: behind it one has a full stop after a space, the other one a
full stop that ends the line. -/
structure Cursor.EndAlike (v : Text) (c e : Cursor) : Prop where
  spaced : c.Before (v ++ " .")
  closed : e.Before (v ++ ".\n")

theorem Text.break_space : Break " ." :=
  .blank (g := .char ' ') (by decide) [.char '.']

theorem Text.break_stop : Break ".\n" :=
  .stop (show Lexeme.endsSentence [.char '\n'] = true by decide)

namespace Cursor.EndAlike

variable {v : Text} {c e : Cursor}

theorem advance (h : EndAlike v c e) {n : Nat} (hn : n ≤ v.length) :
    EndAlike (v.drop n) (c.advance n) (e.advance n) := by
  have hlen : (v.take n).length = n := List.length_take_of_le hn
  have hc : c.Before (v.take n ++ (v.drop n ++ " .")) := by
    rw [← List.append_assoc, List.take_append_drop]
    exact h.spaced
  have he : e.Before (v.take n ++ (v.drop n ++ ".\n")) := by
    rw [← List.append_assoc, List.take_append_drop]
    exact h.closed
  exact ⟨by simpa only [hlen] using hc.advance, by simpa only [hlen] using he.advance⟩

theorem take_eq (h : EndAlike v c e) {n : Nat} (hn : n ≤ v.length) :
    c.rest.take n = v.take n ∧ e.rest.take n = v.take n := by
  rw [h.spaced.rest, h.closed.rest]
  exact ⟨List.take_append_of_le_length hn, List.take_append_of_le_length hn⟩

end Cursor.EndAlike

/-- How a scan before a full stop that ends the line agrees with the token `t`, which was scanned
before the same text with a full stop after a space behind it. -/
inductive Scan.Agrees (t : Token) (after : Cursor) : Scan → Prop where
  /-- It is the same token, at another place perhaps. -/
  | same {v t' after'} (hv : v.Endable) (ht : t.unplaced = t'.unplaced)
    (h : Cursor.EndAlike v after after') : Agrees t after (.token t' after')
  /-- Both are the full stop behind the text. -/
  | stop {t' after'} (hk : t.kind = .stop) (ht : t.bare = t'.bare) (h' : after'.Before "\n") :
    Agrees t after (.token t' after')
  | endOfFile {t' after'} (hk : t.kind = .endOfFile) (ht : t.unplaced = t'.unplaced)
    (h' : after'.Before []) : Agrees t after (.token t' after')
  /-- The text itself has a full stop at its end. -/
  | early {s} (hk : t.kind = .stop) (h : after.Before " .") : Agrees t after s
  /-- The text has a full stop at its end behind a name. -/
  | nameEarly {s} (hk : t.kind = .atom) (h : after.Before ". .") : Agrees t after s

namespace Scan.Agrees

variable {t : Token} {after : Cursor} {s : Scan}

/-- A token that neither ends a sentence nor the text. -/
theorem exists_same (h : Agrees t after s) (hstop : t.kind ≠ .stop)
    (heof : t.kind ≠ .endOfFile) :
    after.Before ". ." ∨ ∃ v t' after', v.Endable ∧ s = .token t' after' ∧
      t.unplaced = t'.unplaced ∧ Cursor.EndAlike v after after' := by
  cases h with
  | same hv ht h => exact .inr ⟨_, _, _, hv, rfl, ht, h⟩
  | stop hk | early hk => exact absurd hk hstop
  | endOfFile hk => exact absurd hk heof
  | nameEarly _ h => exact .inl h

theorem exists_endOfFile (h : Agrees t after s) (hk : t.kind = .endOfFile) :
    ∃ t' after', s = .token t' after' ∧ t'.kind = .endOfFile := by
  cases h with
  | same _ ht | endOfFile _ ht =>
    exact ⟨_, _, rfl, (Token.kind_eq_of_bare (Token.bare_eq_of_unplaced ht)).symm.trans hk⟩
  | stop hk' | early hk' | nameEarly hk' => simp [hk] at hk'

end Scan.Agrees

/-! ## Quoted text -/

section

variable {f : QuotedForm} {v m : Text}

/-- Before a break quoted text goes on as it does in the text by itself, or has a backslash at the
end. -/
theorem QuotedForm.step_break (hq : CharClass.isBlank f.quote = false) (hstop : f.quote ≠ '.')
    (hm : m.Break) (hn : m.head? ≠ some (.char '\n')) (hv : v ≠ [])
    (hslash : v = [.char '\\'] → f.escapes = false) (seen : Text) :
    f.step seen (v ++ m) = f.step seen v := by
  obtain ⟨g, t, rfl⟩ := List.exists_cons_of_ne_nil hv
  simp only [List.cons_append, step]
  by_cases hg : g = .char f.quote
  · subst hg
    have hhead : (t ++ m).head? = some (.char f.quote) ↔ t.head? = some (.char f.quote) := by
      cases t with
      | nil => simpa using hm.head_ne hq hstop
      | cons => rfl
    simp only [if_true, hhead]
  · by_cases hesc : g = .char '\\' ∧ f.escapes
    · have ht : t ≠ [] := by
        rintro rfl
        simp [hslash (by rw [hesc.1])] at hesc
      rw [if_neg hg, if_neg hg, if_pos hesc, if_pos hesc, Escape.ofText_break hm hn ht]
    · simp only [hg, hesc, if_false]

theorem Escape.newline_mem_of_lineBreak {t : Text} {n : Nat} (h : ofText t = .lineBreak n) :
    .char '\n' ∈ t := by
  have hnumeric (base : Nat) (isDigit : Char → Bool) (lead t : Text) :
      numeric base isDigit lead t ≠ .lineBreak n := by
    unfold numeric
    simp only
    split
    · simp
    · split <;> simp
  unfold ofText at h
  split at h
  · cases h
  · simp
  · simp
  · exact absurd h (hnumeric _ _ _ _)
  · simp only at h
    split at h
    · cases h
    · split at h
      · cases h
      · split at h
        · exact absurd h (hnumeric _ _ _ _)
        · cases h

/-- A single character is complete with the first step. -/
theorem QuotedForm.step_single (hf : f.single = true) (hv : .char '\n' ∉ v) (seen seen' : Text)
    (n : Nat) : f.step seen v ≠ .more seen' n := by
  cases v with
  | nil => simp [step]
  | cons g t =>
    simp only [step, hf, if_true]
    split
    · split <;> simp
    · split
      · cases he : Escape.ofText t with
        | lineBreak n =>
          exact absurd (List.mem_cons_of_mem g (Escape.newline_mem_of_lineBreak he)) hv
        | _ => simp
      · simp

/-- Text in quotes that is not closed does not end before a full stop after a space. -/
theorem scanQuoted_spaced {c : Cursor} (hf : f.quote ∈ ['\'', '"', '\x60']) (hs : f.single = false)
    (h : c.Before " .") (seen : Text) : ∃ stopped, scanQuoted f seen c = .unclosed stopped := by
  have hplain {g : Glyph} (hg : g = .char ' ' ∨ g = .char '.') (u seen : Text) :
      f.step seen (g :: u) = .more (g :: seen) 1 := by
    have hquote : g ≠ .char f.quote := by
      intro hgq
      simp only [List.mem_cons, List.not_mem_nil, or_false] at hf
      rcases hf with hf | hf | hf <;> rcases hg with rfl | rfl <;> simp [hf] at hgq
    have hslash : ¬(g = .char '\\' ∧ f.escapes) := by
      rintro ⟨rfl, -⟩
      simp at hg
    simp [QuotedForm.step, hquote, hslash, hs]
  have h' : (c.advance 1).Before [.char '.'] := h.advance_one
  have h'' : ((c.advance 1).advance 1).Before [] := h'.advance_one
  refine ⟨(c.advance 1).advance 1, ?_⟩
  have hrest : c.rest = [.char ' ', .char '.'] := h.rest
  rw [scanQuoted_eq, h.fill, hrest, hplain (.inl rfl)]
  simp only
  rw [scanQuoted_eq, h'.fill, h'.rest, hplain (.inr rfl)]
  simp only
  rw [scanQuoted_eq, h''.fill, h''.rest]
  rfl

theorem scanQuoted_alike {c e after : Cursor} {seen text : Text}
    (hf : f.quote ∈ ['\'', '"', '\x60']) (hv : .char '\n' ∉ v)
    (hsingle : f.single = true → v ≠ []) (h : Cursor.EndAlike v c e)
    (hs : scanQuoted f seen c = .closed text after) :
    ∃ v' after', v' <:+ v ∧ scanQuoted f seen e = .closed text after' ∧
      Cursor.EndAlike v' after after' := by
  obtain ⟨hq, hstop, hslash⟩ : CharClass.isBlank f.quote = false ∧ f.quote ≠ '.' ∧
      f.quote ≠ '\\' := by
    simp only [List.mem_cons, List.not_mem_nil, or_false] at hf
    rcases hf with hf | hf | hf <;> rw [hf] <;> decide
  induction hn : v.length using Nat.strongRecOn generalizing v c e seen with
  | _ k ih =>
    subst hn
    by_cases hnil : v = []
    · subst hnil
      have hmany : f.single = false := by simpa using hsingle
      obtain ⟨stopped, hopen⟩ := scanQuoted_spaced hf hmany h.spaced seen
      rw [hopen] at hs
      cases hs
    by_cases hend : v = [.char '\\'] ∧ f.escapes = true
    · -- A space behind a backslash is no escape sequence.
      obtain ⟨rfl, hescapes⟩ := hend
      have hrest : c.rest = [.char '\\', .char ' ', .char '.'] := h.spaced.rest
      have hescape : Escape.ofText [.char ' ', .char '.'] = .faulty (.undefinedEscape ' ') := rfl
      rw [scanQuoted_eq, h.spaced.fill, hrest] at hs
      simp [QuotedForm.step, hslash.symm, hescapes, hescape] at hs
    have hend' (hv : v = [.char '\\']) : f.escapes = false := by simpa [hv] using hend
    have hfits := f.step_fits seen v
    rw [scanQuoted_eq, h.spaced.fill, h.spaced.rest,
      QuotedForm.step_break hq hstop Text.break_space (by decide) hnil hend'] at hs
    rw [scanQuoted_eq f seen e, h.closed.fill, h.closed.rest,
      QuotedForm.step_break hq hstop Text.break_stop (by decide) hnil hend']
    cases hstep : f.step seen v with
    | unclosed =>
      rw [hstep] at hs
      cases hs
    | faulty =>
      rw [hstep] at hs
      cases hs
    | closed text' n =>
      rw [hstep] at hs hfits
      cases hs
      exact ⟨v.drop n, _, List.drop_suffix n v, rfl, h.advance hfits.2⟩
    | more seen' n =>
      rw [hstep] at hs hfits
      have hlt : (v.drop n).length < v.length := by
        rw [List.length_drop]
        have := List.length_pos_iff.2 hnil
        have := hfits.1
        omega
      have hmany : f.single = true → v.drop n ≠ [] :=
        fun hf => absurd hstep (QuotedForm.step_single hf hv seen seen' n)
      obtain ⟨v', after', hv', hs', h'⟩ := ih _ hlt
        (fun hmem => hv (List.mem_of_mem_drop hmem)) hmany (h.advance hfits.2) hs rfl
      exact ⟨v', after', hv'.trans (List.drop_suffix n v), hs', h'⟩

end

/-! ## Tokens -/

namespace Scan

variable {v : Text} {c e after after' inside inside' x : Cursor} {t : Token} {layout : Bool}

theorem name_agrees {kind : TokenKind} {text : Text} (hv : v.Endable)
    (h : Cursor.EndAlike v after after') (hs : name kind text layout c after = .token t x) :
    Agrees t x (name kind text layout e after') := by
  have hhead : ((v ++ (" ." : Text)).head? = some (.char '(')) =
      ((v ++ (".\n" : Text)).head? = some (.char '(')) := by
    cases v with
    | nil => simp [Text.ofString]
    | cons => rfl
  simp only [name, h.spaced.peek, h.closed.peek] at hs ⊢
  obtain ⟨rfl, rfl⟩ := Scan.token.inj hs
  exact .same hv (by simp only [Token.unplaced, hhead]) h

theorem dot_agrees (hne : v ≠ []) (hv : v.Endable) (h : Cursor.EndAlike v after after')
    (hs : dot layout c after = .token t x) : Agrees t x (dot layout e after') := by
  obtain ⟨g, w, rfl⟩ := List.exists_cons_of_ne_nil hne
  simp only [dot, h.spaced.peek, h.closed.peek, List.cons_append, List.head?_cons] at hs ⊢
  split at hs
  · next hends =>
    obtain ⟨rfl, rfl⟩ := Scan.token.inj hs
    rw [if_pos hends]
    exact .same hv rfl h
  · next hends =>
    obtain ⟨rfl, rfl⟩ := Scan.token.inj hs
    rw [if_neg hends]
    exact .same hv rfl h

theorem quoted_agrees {f : QuotedForm} (hf : f.quote ∈ ['\'', '"', '\x60']) (hv : v.Endable)
    (hsingle : f.single = true → v ≠ []) (h : Cursor.EndAlike v inside inside')
    (hs : quoted f layout c inside = .token t x) :
    Agrees t x (quoted f layout e inside') := by
  unfold quoted at hs
  cases hq : scanQuoted f [] inside with
  | unclosed stopped =>
    simp only [hq, unended] at hs
    split at hs <;> cases hs
  | faulty cause stopped =>
    rw [hq] at hs
    cases hs
  | closed text after =>
    obtain ⟨v', after', hv', hq', h'⟩ := scanQuoted_alike hf hv.oneLine hsingle h hq
    simp only [hq, quoted, hq'] at hs ⊢
    split at hs
    · next hkind =>
      rw [if_pos hkind]
      exact name_agrees (hv.of_suffix hv') h' hs
    · next hkind =>
      obtain ⟨rfl, rfl⟩ := Scan.token.inj hs
      rw [if_neg hkind]
      exact .same (hv.of_suffix hv') rfl h'

end Scan

theorem Lexeme.exists_of_charCode {c : Char} {t : Text} (h : ofText c t = .charCode) :
    ∃ u, t = .char '0' :: .char '\'' :: u := by
  have hnumber (h : number t = .charCode) : ∃ u, t = .char '0' :: .char '\'' :: u := by
    unfold number at h
    split at h
    · exact ⟨_, rfl⟩
    · split at h
      · cases h
      · split at h <;> cases h
  simp only [ofText] at h
  split at h
  · cases h
  · split at h
    · split at h <;> cases h
    · split at h
      · cases h
      · split at h
        · exact hnumber h
        · split at h
          · cases h
          · split at h
            · cases h
            · split at h <;> cases h

namespace Scan

variable {v w : Text} {g : Glyph} {c e after : Cursor} {t : Token} {flags : Flags} {layout : Bool}

theorem lexeme_agrees (hv : Text.Endable (g :: w))
    (hd : Lexeme.graphicRun (g :: w) = (g :: w).length → (g :: w).getLast? ≠ some (.char '.'))
    (h : Cursor.EndAlike (g :: w) c e) (hs : lexeme flags layout g.code c = .token t after) :
    Agrees t after (lexeme flags layout g.code e) := by
  have hc : Lexeme.ofText g.code c.rest = Lexeme.ofText g.code (g :: w) := by
    rw [h.spaced.rest]
    exact Lexeme.ofText_blank g.code Text.break_space (by decide)
  have he : Lexeme.ofText g.code e.rest = Lexeme.ofText g.code (g :: w) := by
    rw [h.closed.rest]
    exact Lexeme.ofText_stop (u := [.char '\n']) (by decide) hd
  have hfits := Lexeme.ofText_fits g.code (List.cons_ne_nil g w)
  have hrest (n : Nat) : Text.Endable ((g :: w).drop n) := hv.of_suffix (List.drop_suffix n _)
  simp only [lexeme, hc, he] at hs ⊢
  cases hl : Lexeme.ofText g.code (g :: w) with
  | plain kind lead n =>
    rw [hl] at hs hfits
    obtain ⟨rfl, rfl⟩ := Scan.token.inj hs
    obtain ⟨htake, htake'⟩ := h.take_eq hfits.2
    exact .same (hrest n) (by simp only [Token.unplaced, htake, htake']) (h.advance hfits.2)
  | name n =>
    rw [hl] at hs hfits
    have hn : n ≤ (g :: w).length := hfits
    obtain ⟨htake, htake'⟩ := h.take_eq hn
    simp only [htake, htake'] at hs ⊢
    exact name_agrees (hrest n) (h.advance hn) hs
  | dot =>
    rw [hl] at hs hfits
    have hw : w ≠ [] := by
      -- A full stop at the end is a run of symbol characters.
      rintro rfl
      have hg := Glyph.eq_char_of_code (by decide) (Lexeme.eq_dot_of_ofText hl)
      subst hg
      exact hd rfl rfl
    exact dot_agrees hw (hrest 1) (h.advance hfits) hs
  | quotedText q =>
    rw [hl] at hs hfits
    exact quoted_agrees (Lexeme.mem_of_quotedText hl) (hrest 1) (by simp) (h.advance hfits) hs
  | charCode =>
    rw [hl] at hs hfits
    obtain ⟨u, hu⟩ := Lexeme.exists_of_charCode hl
    have hne : (g :: w).drop 2 ≠ [] := by
      rw [hu]
      rintro rfl
      exact hv.noQuote (by rw [hu]; exact ⟨[.char '0'], rfl⟩)
    exact quoted_agrees (by simp) (hrest 2) (fun _ => hne) (h.advance hfits) hs
  | unknown ch =>
    rw [hl] at hs
    cases hs

/-- A text with a single full stop at its end, behind nothing but symbol characters. -/
theorem lexeme_early (hrun : Lexeme.graphicRun (g :: w) = (g :: w).length)
    (hlast : (g :: w).getLast? = some (.char '.')) (hd : ¬(".." : Text) <:+ g :: w)
    (h : c.Before (g :: w ++ " .")) (hs : lexeme flags layout g.code c = .token t after)
    (s : Scan) : Agrees t after s := by
  have hl : Lexeme.ofText g.code c.rest = Lexeme.ofText g.code (g :: w) := by
    rw [h.rest]
    exact Lexeme.ofText_blank g.code Text.break_space (by decide)
  obtain ⟨u, hu⟩ := List.getLast?_eq_some_iff.1 hlast
  by_cases hnil : u = []
  · -- Nothing stands before the full stop.
    subst hnil
    cases hu
    have hbehind : (c.advance 1).Before " ." := h.advance_one
    have hdot : Lexeme.ofText (Glyph.char '.').code [.char '.'] = .dot := rfl
    rw [lexeme, hl, hdot] at hs
    simp only [dot, hbehind.peek] at hs
    rw [if_pos (by decide)] at hs
    obtain ⟨rfl, rfl⟩ := Scan.token.inj hs
    exact .early rfl hbehind
  · have hbefore : u.getLast? ≠ some (.char '.') := by
      intro hdots
      obtain ⟨x, rfl⟩ := List.getLast?_eq_some_iff.1 hdots
      exact hd ⟨x, by rw [hu, List.append_assoc]; rfl⟩
    have hstop : Lexeme.stopAfter (g :: w) (g :: w).length = true := by
      rw [hu, List.length_append]
      exact Lexeme.stopAfter_stop rfl hnil hbefore
    have hlen : (g :: w).length = u.length + 1 := by rw [hu, List.length_append]; rfl
    have hpos : 0 < u.length := List.length_pos_iff.2 hnil
    have hgraphic : CharClass.isGraphic g.code = true := by
      apply Decidable.byContradiction
      intro hg
      simp [Lexeme.graphicRun, Lexeme.graphicRunFrom, hg] at hrun
    have hname : Lexeme.ofText g.code (g :: w) = .name u.length := by
      rw [Lexeme.ofText_graphic hgraphic, hrun, if_neg (by omega), if_pos hstop, hlen]
      rfl
    have hbehind : (c.advance u.length).Before ". ." := by
      rw [hu, List.append_assoc] at h
      exact h.advance
    simp only [lexeme, hl, hname, name, hbehind.peek] at hs
    obtain ⟨rfl, rfl⟩ := Scan.token.inj hs
    exact .nameEarly rfl hbehind

end Scan

theorem Scan.unended_ne_token (cause : SyntaxCause) (start stopped : Cursor) {t : Token}
    {after : Cursor} : unended cause start stopped ≠ .token t after := by
  unfold unended
  split <;> simp [faultAt]

/-- A comment that is not closed before a break is not closed in it. -/
theorem scanFrom_comment {flags : Flags} (hk : flags.keepComments = false) {layout : Bool}
    {c : Cursor} {u m : Text} (h : c.Before (.char '/' :: .char '*' :: (u ++ m))) (hm : m.Break)
    (hnone : ∀ n, commentLengthFrom n m = none) :
    scanFrom flags layout c =
      match commentLengthFrom 0 u with
      | none => .unended .unterminatedComment c c.toEnd
      | some n => scanFrom flags true ((c.advance 2).advance n) := by
  have hopens : Lexeme.opensComment (.char '/' :: .char '*' :: (u ++ m)) = true := rfl
  have hafter : afterComment? (c.advance 2) [] =
      (commentLengthFrom 0 u).map (c.advance 2).advance := by
    have hinside : (c.advance 2).Before (u ++ m) :=
      Cursor.Before.advance (t := [.char '/', .char '*']) h
    rw [afterComment?, hinside.rest, commentLengthFrom_break hm hnone]
  rw [scanFrom_eq, h.fill, h.rest, h.later, hafter]
  have hblank : CharClass.isBlank (Glyph.char '/').code = false := by decide
  cases commentLengthFrom 0 u with
  | none => simp [hopens, hblank]
  | some n => simp [hopens, hblank, hk]

/-- The tokens of a text are the same before both ways to end it. -/
theorem scanFrom_agrees {flags : Flags} (hk : flags.keepComments = false) {v : Text} {c e : Cursor}
    {layout : Bool} {t : Token} {after : Cursor} (hv : v.Endable) (h : Cursor.EndAlike v c e)
    (hs : scanFrom flags layout c = .token t after) :
    Scan.Agrees t after (scanFrom flags layout e) := by
  induction hn : v.length using Nat.strongRecOn generalizing v c e layout with
  | _ k ih =>
    subst hn
    have hrest {v' : Text} {c' e' : Cursor} {layout' : Bool} (hsuffix : v' <:+ v)
        (hlt : v'.length < v.length) (h' : Cursor.EndAlike v' c' e')
        (hs' : scanFrom flags layout' c' = .token t after) :
        Scan.Agrees t after (scanFrom flags layout' e') :=
      ih _ hlt (hv.of_suffix hsuffix) h' hs' rfl
    cases v with
    | nil =>
      obtain ⟨place, after', hstop, -⟩ := scanFrom_spacedStop flags layout h.spaced
      obtain ⟨rfl, rfl⟩ := Scan.token.inj (hstop.symm.trans hs)
      have hclosed : e.Before (.char '.' :: [.char '\n']) := h.closed
      rw [scanFrom_stop hclosed (by decide)]
      exact .stop rfl rfl hclosed.advance_one
    | cons g w =>
      have hc : c.fill.rest = g :: (w ++ " .") := by rw [h.spaced.fill, h.spaced.rest]; rfl
      have he : e.fill.rest = g :: (w ++ ".\n") := by rw [h.closed.fill, h.closed.rest]; rfl
      have hone : Cursor.EndAlike w (c.advance 1) (e.advance 1) := h.advance (n := 1) (by simp)
      by_cases hb : CharClass.isBlank g.code = true
      · rw [scanFrom_blank layout hc hb, h.spaced.fill] at hs
        rw [scanFrom_blank layout he hb, h.closed.fill]
        exact hrest (List.suffix_cons g w) (by simp) hone hs
      by_cases hp : g = .char '%'
      · -- The comment goes on to the end of the line, and there is no other line.
        subst hp
        rw [scanFrom_line layout hk hc, h.spaced.fill, scanFrom_endOfFile h.spaced.toLineEnd] at hs
        rw [scanFrom_line layout hk he, h.closed.fill, scanFrom_endOfFile h.closed.toLineEnd]
        obtain ⟨rfl, rfl⟩ := Scan.token.inj hs
        exact .endOfFile rfl rfl h.closed.toLineEnd
      by_cases ho : Lexeme.opensComment (g :: w) = true
      · obtain ⟨u, hu⟩ := Lexeme.opensComment_iff.1 ho
        obtain ⟨rfl, rfl⟩ : .char '/' = g ∧ .char '*' :: u = w := List.cons.inj hu
        have htwo : Cursor.EndAlike u (c.advance 2) (e.advance 2) := h.advance (n := 2) (by simp)
        rw [scanFrom_comment hk h.spaced Text.break_space fun _ => rfl] at hs
        rw [scanFrom_comment hk h.closed Text.break_stop fun _ => rfl]
        cases hn : commentLengthFrom 0 u with
        | none =>
          rw [hn] at hs
          exact absurd hs (Scan.unended_ne_token _ _ _)
        | some n =>
          rw [hn] at hs
          have hle : n ≤ u.length := by simpa using commentLengthFrom_le hn
          refine hrest ((List.drop_suffix n u).trans ⟨[.char '/', .char '*'], rfl⟩) ?_
            (htwo.advance hle) hs
          simp only [List.length_drop, List.length_cons]
          omega
      · have ho' : Lexeme.opensComment (g :: w) = false := by simpa using ho
        have hlexeme {x : Cursor} {m : Text} (hx : x.Before (g :: w ++ m)) (hm : m.Break) :
            scanFrom flags layout x = .lexeme flags layout g.code x :=
          hx.scanFrom_eq_lexeme (by simpa using hb) hp
            ((Lexeme.opensComment_break hm).trans ho')
        rw [hlexeme h.spaced Text.break_space] at hs
        rw [hlexeme h.closed Text.break_stop]
        by_cases hearly : Lexeme.graphicRun (g :: w) = (g :: w).length ∧
            (g :: w).getLast? = some (.char '.')
        · exact Scan.lexeme_early hearly.1 hearly.2 hv.noStops h.spaced hs _
        · exact Scan.lexeme_agrees hv (fun hrun hlast => hearly ⟨hrun, hlast⟩) h hs

/-- Two cursors at which the same tokens are scanned, up to the full stop behind the text. -/
def Cursor.Agree (flags : Flags) (c e : Cursor) : Prop :=
  ∀ t after, scan flags c = .token t after → Scan.Agrees t after (scan flags e)

theorem Cursor.EndAlike.agree {flags : Flags} (hk : flags.keepComments = false) {v : Text}
    {c e : Cursor} (hv : v.Endable) (h : EndAlike v c e) : c.Agree flags e :=
  fun _ _ hs => scanFrom_agrees hk hv h hs

/-- Quoted text can have any quote at its end, since it is one token. -/
theorem Cursor.EndAlike.agree_quoted {flags : Flags} (hf : flags.charEscapes = true)
    {cs : List Char} {c e : Cursor} (h : EndAlike (Text.quoted '\'' (cs.map .char)) c e) :
    c.Agree flags e := by
  intro t after hs
  have hbehind := h.advance (Nat.le_refl _)
  rw [List.drop_length] at hbehind
  have hnil : Text.Endable [] := ⟨by simp, by simp, by simp [Text.ofString]⟩
  rw [scan, scanFrom_quoted (.inl rfl) h.spaced.rest hf (by decide), if_pos rfl] at hs
  rw [scan, scanFrom_quoted (.inl rfl) h.closed.rest hf (by decide), if_pos rfl]
  exact Scan.name_agrees hnil hbehind hs

end PrologText
