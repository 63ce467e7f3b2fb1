import PrologText.CommandLine.Run
import PrologText.Proofs.AtomTexts
import PrologText.Proofs.Comments
import PrologText.Proofs.Endings
import PrologText.Proofs.Rereading

/-!
# Clauses on lines of their own

A program prints each clause in canonical form with a full stop behind it and a newline. Main
statement: where the canonical text is read back as the term it was made of, with a full stop after
a space, the printed line is as well, unless the clause is a symbolic name with two full stops at
its end, which takes the third one for its own (`SingleRead.read_clauseLine`).
-/

namespace PrologText

/-! ## Readings -/

theorem Step.bare_eq_done {s : Step} {u : Term} {b : Bindings} (h : s.bare = .done u b) :
    s = .done u b := by
  cases s <;> simp_all [bare, moved]

namespace Reading

variable {d : Dialect} {r r' last : Reading} {t t' : Token} {ts : List Token} {c c' e : Cursor}

/-- White space before a full stop does not matter. -/
theorem step_bare_congr_of_stop (hk : t.kind = .stop) (hr : r.bare = r'.bare)
    (ht : t.bare = t'.bare) : (r.step d t).bare = (r'.step d t').bare := by
  have hk' : t'.kind = .stop := (Token.kind_eq_of_bare ht).symm.trans hk
  have hspaced {r : Reading} {t : Token} (hk : t.kind = .stop) :
      (r.step d { t with layoutBefore := true }).bare = (r.step d t).bare :=
    step_moved_of_spaced _ fun _ => by simp [Token.number?, hk]
  have hsame : ({ t with layoutBefore := true } : Token).unplaced =
      ({ t' with layoutBefore := true } : Token).unplaced :=
    congrArg (fun t : Token => { t with layoutBefore := true }) ht
  rw [← hspaced hk, ← hspaced hk']
  exact step_bare_congr hr hsame

/-- No reading goes on behind a full stop that ends the sentence. -/
theorem Takes.eq_of_stop (h : r.Takes d ts last) (hs : Scans d.flags c ts c')
    (hc : c.Before ". .") : c' = c := by
  have hstop : scan d.flags c = .token ⟨.stop, ".", false, false, c.place⟩ (c.advance 1) :=
    scanFrom_stop (t := " .") hc (by decide)
  cases h with
  | nil =>
    cases hs
    rfl
  | comment hk =>
    cases hs with
    | cons hscan =>
      obtain ⟨rfl, -⟩ := Scan.token.inj (hstop.symm.trans hscan)
      cases hk
  | more _ hnext =>
    cases hs with
    | cons hscan =>
      obtain ⟨rfl, -⟩ := Scan.token.inj (hstop.symm.trans hscan)
      exact absurd (isPart_of_step_more hnext) (by simp [TokenKind.isPart])

/-- The tokens that are taken before a full stop after a space are taken before one that ends the
line, unless the text has a full stop of its own at the end, behind a name. -/
theorem exists_feed_of_agree (hk : d.flags.keepComments = false) (h : r.Takes d ts last)
    (hs : Scans d.flags c ts c') (hr : r.bare = r'.bare) (ha : c.Agree d.flags e) :
    c'.Before ". ." ∨ ∃ ts' e' last', c'.Agree d.flags e' ∧ Scans d.flags e ts' e' ∧
      r'.feed d ts' = .more last' ∧ last.bare = last'.bare := by
  induction h generalizing c e r' with
  | nil =>
    cases hs
    exact .inr ⟨[], e, r', ha, .nil, rfl, hr⟩
  | comment hkind =>
    cases hs with
    | cons hscan =>
      have hno : (scan d.flags c).NoComment := Scan.scanFrom_noComment hk false c
      rw [hscan] at hno
      exact absurd hkind hno
  | @more r t next ts last _ hnext hrest ih =>
    cases hs with
    | cons hscan hs =>
      have hpart := isPart_of_step_more hnext
      have hstop : t.kind ≠ .stop := fun h => by simp [h, TokenKind.isPart] at hpart
      have heof : t.kind ≠ .endOfFile := fun h => by simp [h, TokenKind.isPart] at hpart
      rcases (ha _ _ hscan).exists_same hstop heof with
        hbefore | ⟨v, t', after', hv, hscan', ht, halike⟩
      · rw [hrest.eq_of_stop hs hbefore]
        exact .inl hbefore
      · have hstep := step_bare_congr (d := d) hr ht
        rw [hnext] at hstep
        obtain ⟨next', hnext', hbare⟩ := Step.bare_eq_more hstep.symm
        rcases ih hs hbare.symm (halike.agree hk hv) with
          hbefore | ⟨ts', e', last', ha', hs', hfeed', hlast⟩
        · exact .inl hbefore
        · exact .inr ⟨t' :: ts', e', last', ha', .cons hscan' hs',
            (feed_more hnext').trans hfeed', hlast⟩

end Reading

theorem Cursor.endAlike_ofText {v : Text} (h : .char '\n' ∉ v) :
    EndAlike v (.ofText (v ++ " .")) (.ofText (v ++ ".\n")) := by
  have hlines : Text.lines (v ++ ".\n") = [v ++ ".\n"] := by
    have hline : v ++ (".\n" : Text) = (v ++ ".") ++ "\n" := (List.append_assoc v "." "\n").symm
    rw [hline]
    exact Text.lines_append_newline (by simpa [Text.ofString] using h) []
  refine ⟨before_ofText (by simpa [Text.ofString] using h), ?_⟩
  rw [Cursor.ofText, hlines]
  exact ⟨rfl, rfl, rfl⟩

theorem scan_newline (flags : Flags) {c : Cursor} (h : c.Before "\n") :
    ∃ t after, scan flags c = .token t after ∧ t.kind = .endOfFile := by
  have hrest : c.fill.rest = [.char '\n'] := by rw [h.fill, h.rest]; rfl
  have hend : (c.advance 1).Before [] := h.advance_one
  have hscan : scan flags c =
      .token ⟨.endOfFile, [], true, false, (c.advance 1).place⟩ (c.advance 1) := by
    rw [scan, scanFrom_blank false hrest (by decide), h.fill, scanFrom_endOfFile hend]
  exact ⟨_, _, hscan, rfl⟩

theorem scanUncommented_eq {flags : Flags} (hk : flags.keepComments = false) (c : Cursor) :
    scanUncommented flags c = scan flags c := by
  have hno : (scan flags c).NoComment := Scan.scanFrom_noComment hk false c
  cases hs : scan flags c with
  | token t after =>
    rw [hs] at hno
    exact scanUncommented_of_ne hs hno
  | fault | failure =>
    rw [scanUncommented]
    split
    · next hs' => simp [hs] at hs'
    · exact hs

namespace SingleRead

variable {d : Dialect} {issued : Nat} {text text' : Text} {u : Term}

/-- How a text of one sentence is read: its tokens, the one that completes it, and the end. -/
theorem exists_feed_of_result (hk : d.flags.keepComments = false)
    (h : (ofText d issued text).result = .ok u) :
    ∃ ts c last stop after b eof after', Scans d.flags (.ofText text) ts c ∧
      (Reading.start issued).feed d ts = .more last ∧ scan d.flags c = .token stop after ∧
      last.step d stop = .done u b ∧ stop.kind ≠ .comment ∧
      scan d.flags after = .token eof after' ∧ eof.kind = .endOfFile := by
  obtain ⟨ts, c, last, hs, hfeed, hend⟩ := Reading.run_cases d (.start issued) [] (.ofText text)
  have hrun : Run.at d issued (.ofText text) = (Reading.start issued).run d [] (.ofText text) := rfl
  simp only [ofText, hrun] at h
  revert hend h
  generalize (Reading.start issued).run d [] (.ofText text) = run
  intro hend h
  cases hend with
  | failure | fault => cases h
  | @token stop after hstop hne hover =>
    cases hstep : last.step d stop with
    | done x b =>
      simp only [hstep, Run.conclude, scanUncommented_eq hk] at h
      split at h
      · cases h
      · cases h
      · next eof after' heof =>
        simp only at h
        split at h
        · next hkind =>
          cases h
          exact ⟨ts, c, last, stop, after, b, eof, after', hs, hfeed, hstop, hstep, hne, heof,
            hkind⟩
        · cases h
    | more | fault | endOfInput | stuck =>
      rw [hstep] at h
      cases h

/-- Another full stop comes behind a full stop at the end of the text. -/
theorem kind_ne_endOfFile {c after : Cursor} {t : Token} (h : c.Before " .")
    (hs : scan d.flags c = .token t after) : t.kind ≠ .endOfFile := by
  obtain ⟨place, x, hscan, -⟩ := scanFrom_spacedStop d.flags false h
  obtain ⟨rfl, -⟩ := Scan.token.inj (hscan.symm.trans hs)
  exact nofun

/-- Texts whose tokens agree are read as the same term. -/
theorem result_of_agree (hk : d.flags.keepComments = false)
    (ha : (Cursor.ofText text).Agree d.flags (.ofText text'))
    (h : (ofText d issued text).result = .ok u) : (ofText d issued text').result = .ok u := by
  obtain ⟨ts, c, last, stop, after, b, eof, x, hs, hfeed, hstop, hdone, hne, heof, hkind⟩ :=
    exists_feed_of_result hk h
  have hends : stop.kind = .stop ∨ stop.kind = .endOfFile := by
    have hproper := ((Reading.fits_start d.flags issued _).feed hs hfeed).step_proper hstop hne
    rwa [hdone] at hproper
  rcases Reading.exists_feed_of_agree hk (Reading.takes_of_feed hfeed) hs rfl ha with
    hearly | ⟨ts', e, last', ha', hs', hfeed', hlast⟩
  · have hscan : scan d.flags c = _ := scanFrom_stop (t := " .") hearly (by decide)
    obtain ⟨-, rfl⟩ := Scan.token.inj (hscan.symm.trans hstop)
    exact absurd hkind (kind_ne_endOfFile hearly.advance_one heof)
  have hfinish {stop' : Token} (hbare : (last.step d stop).bare = (last'.step d stop').bare) :
      last'.step d stop' = .done u b := by
    rw [hdone] at hbare
    exact Step.bare_eq_done hbare.symm
  have hplain {stop' : Token} (ht : stop.bare = stop'.bare) : stop'.kind ≠ .comment := by
    rwa [← Token.kind_eq_of_bare ht]
  have hagrees := ha' stop after hstop
  generalize hscan : scan d.flags e = s at hagrees
  cases hagrees with
  | same hv ht halike =>
    obtain ⟨eof', x', heof', hkind'⟩ := (halike.agree hk hv _ _ heof).exists_endOfFile hkind
    exact result_of_feed hs' hfeed' hscan (hfinish (Reading.step_bare_congr hlast ht))
      (hplain (Token.bare_eq_of_unplaced ht)) heof' hkind'
  | stop hstops ht hafter' =>
    obtain ⟨eof', x', heof', hkind'⟩ := scan_newline d.flags hafter'
    have hdone' := hfinish (Reading.step_bare_congr_of_stop hstops hlast ht)
    exact result_of_feed hs' hfeed' hscan hdone' (hplain ht) heof' hkind'
  | endOfFile _ ht hafter' =>
    obtain ⟨eof', heof', hkind'⟩ := @scan_endOfFile d.flags _ hafter'
    exact result_of_feed hs' hfeed' hscan (hfinish (Reading.step_bare_congr hlast ht))
      (hplain (Token.bare_eq_of_unplaced ht)) heof' hkind'
  | early _ hafter => exact absurd hkind (kind_ne_endOfFile hafter heof)
  | nameEarly hk' => simp [hk'] at hends

end SingleRead

/-! ## The end of canonical text -/

/-- The line on which a clause is printed. -/
def Term.clauseLine (t : Term) : Text :=
  t.canonical ++ ".\n"

namespace Text

/-- A text with a letter, a digit, a bracket or a double quote at its end. -/
def EndsPlainly (t : Text) : Prop :=
  ∃ u g, t = u ++ [g] ∧
    (CharClass.isAlphanumeric g.code ∨ g ∈ [.char '"', .char ')', .char ']', .char '\x7d'])

namespace EndsPlainly

variable {t u : Text} {g : Glyph}

theorem concat (t : Text) (hg : g ∈ [.char '"', .char ')', .char ']', .char '\x7d']) :
    EndsPlainly (t ++ [g]) :=
  ⟨t, g, rfl, .inr hg⟩

theorem of_alphanumeric (ht : t ≠ []) (h : ∀ g ∈ t, CharClass.isAlphanumeric g.code) :
    t.EndsPlainly :=
  ⟨t.dropLast, t.getLast ht, (List.dropLast_concat_getLast ht).symm, .inl (h _ (t.getLast_mem ht))⟩

theorem append_left (h : t.EndsPlainly) (u : Text) : EndsPlainly (u ++ t) := by
  obtain ⟨w, g, rfl, hg⟩ := h
  exact ⟨u ++ w, g, (List.append_assoc u w [g]).symm, hg⟩

theorem ne_of_suffix (h : t.EndsPlainly) {c : Char} (hu : u ++ [.char c] <:+ t) :
    CharClass.isAlphanumeric c ∨ c ∈ ['"', ')', ']', '\x7d'] := by
  obtain ⟨w, g, rfl, hg⟩ := h
  obtain ⟨x, hx⟩ := hu
  have hlast : some (.char c) = some g := by simpa using congrArg List.getLast? hx
  cases hlast
  simpa [Glyph.code] using hg

theorem endable (h : t.EndsPlainly) (hline : .char '\n' ∉ t) : t.Endable where
  oneLine := hline
  noQuote hq := absurd (h.ne_of_suffix (u := []) hq) (by decide)
  noStops hd := absurd (h.ne_of_suffix (u := [.char '.']) hd) (by decide)

end EndsPlainly

end Text

theorem Positional.endsPlainly_integer (n : Int) : (integer n).EndsPlainly := by
  have hdecimal : (decimal n.natAbs).EndsPlainly := by
    refine .of_alphanumeric text_ne_nil fun g hg => ?_
    obtain ⟨c, rfl, hc⟩ := isDecimal_of_mem_decimal hg
    exact CharClass.isAlphanumeric_of_isDecimal hc
  unfold integer
  split
  · exact hdecimal.append_left [_]
  · exact hdecimal

theorem FloatLiteral.endsPlainly_text (l : FloatLiteral) : l.text.EndsPlainly := by
  have hrun (r : DigitRun) : r.text.EndsPlainly := by
    refine .of_alphanumeric (by simpa [DigitRun.text] using r.ne_nil) fun g hg => ?_
    obtain ⟨c, rfl, hc⟩ := r.isDecimal_of_mem_text g hg
    exact CharClass.isAlphanumeric_of_isDecimal hc
  unfold text exponentText
  split
  · rw [List.append_nil]
    exact ((hrun l.fraction).append_left [_]).append_left l.whole.text
  · next negative e _ =>
    exact ((((hrun e).append_left [_, _]).append_left l.fraction.text).append_left [_]).append_left
      l.whole.text

theorem Binary64.endsPlainly_render {x : Binary64} (h : x.IsFinite) :
    (x.render Term.floatNotation).EndsPlainly := by
  obtain ⟨l, htext, -⟩ := exists_literal h
  rw [htext]
  exact l.endsPlainly_text.append_left _

theorem Variable.endsPlainly_text {v : Variable} (h : v.WellFormed) : v.text.EndsPlainly := by
  obtain ⟨g, t, htext, hs, hall, -⟩ := text_cases h
  rw [htext]
  refine .of_alphanumeric (List.cons_ne_nil g t) fun x hx => ?_
  rcases List.mem_cons.1 hx with rfl | hx
  · exact CharClass.isAlphanumeric_of_isVariableStart hs
  · exact hall x hx

namespace Term

theorem endsPlainly_listEnd (t : Term) : (t.renderAt .listEnd []).EndsPlainly := by
  have hother {t : Term} (hnil : t ≠ .nil) (hcons : ∀ x y, t ≠ .cons x y) :
      (t.renderAt .listEnd []).EndsPlainly := by
    have happend := renderAt_append .whole t [] [.char ']']
    rw [List.nil_append] at happend
    rw [Reading.renderAt_listEnd hnil hcons, happend]
    exact (Text.EndsPlainly.concat _ (by simp)).append_left [_]
  cases t with
  | nil => exact .concat [] (by simp)
  | cons head tail =>
    have htail := endsPlainly_listEnd tail
    have happend := renderAt_append .whole head [] (tail.renderAt .listEnd [])
    rw [List.nil_append] at happend
    rw [renderAt, happend]
    exact (htail.append_left _).append_left [_]
  | _ => exact hother (by simp) (by simp)

/-- The canonical text of a proper term that is no atom. -/
theorem Proper.endsPlainly_canonical {t : Term} (h : t.Proper) (hatom : ∀ a, t ≠ .atom a) :
    t.canonical.EndsPlainly := by
  have hargs (args : List Term) {g : Glyph}
      (hg : g ∈ [.char '"', .char ')', .char ']', .char '\x7d']) :
      (renderArguments args [g]).EndsPlainly := by
    have happend := renderArguments_append args [] [g]
    rw [List.nil_append] at happend
    rw [happend]
    exact .concat _ hg
  cases h with
  | atom => exact absurd rfl (hatom _)
  | integer | bigInteger =>
    have hinteger (n : Int) := Positional.endsPlainly_integer n
    simp [canonical, renderAt, Position.before, Position.after, hinteger]
  | float hx =>
    simp [canonical, renderAt, Position.before, Position.after, Binary64.endsPlainly_render hx]
  | @string s =>
    have hquoted : (s.quoted '"').EndsPlainly := .concat (.char '"' :: _) (by simp)
    simp [canonical, renderAt, Position.before, Position.after, hquoted]
  | var hv =>
    simp [canonical, renderAt, Position.before, Position.after, Variable.endsPlainly_text hv]
  | @compound f args =>
    rw [canonical, renderAt]
    split
    · exact (hargs args (by simp)).append_left [_]
    · exact ((hargs args (by simp)).append_left [_]).append_left f.text
  | nil => exact .concat [_] (by simp)
  | @cons head tail =>
    have happend := renderAt_append .whole head [] (tail.renderAt .listEnd [])
    rw [List.nil_append] at happend
    rw [canonical, renderAt, happend]
    exact ((endsPlainly_listEnd tail).append_left _).append_left [_]

theorem Proper.wellFormed {t : Term} (h : t.Proper) : ∀ v ∈ t.vars, v.WellFormed := by
  induction h with
  | var hv => simpa [vars] using hv
  | compound _ _ _ ih =>
    intro v hv
    obtain ⟨x, hx, hv⟩ := exists_mem_of_mem_varsOfAll hv
    exact ih x hx v hv
  | cons _ _ ihh iht => exact List.forall_mem_append.2 ⟨ihh, iht⟩
  | atom | integer | bigInteger | float | string | nil => exact nofun

end Term

/-- A name without quotes has no quote in it. -/
theorem Atom.quote_not_mem {name : Text} (h : isBare name) : .char '\'' ∉ name := by
  intro hmem
  by_cases hbraces : name = braces.name
  · rw [hbraces] at hmem
    exact absurd hmem (by decide)
  · rcases isBare_cases h hbraces with rfl | rfl | ⟨g, t, -, -, hall⟩ | ⟨g, t, -, hall, -⟩
    · exact absurd hmem (by decide)
    · exact absurd hmem (by decide)
    · exact absurd (hall _ hmem) (by decide)
    · exact absurd (hall _ hmem) (by decide)

theorem Term.canonical_atom (a : Atom) : (Term.atom a).canonical = a.text := by
  simp [canonical, renderAt, Position.before, Position.after]

/-- Both ways to end a sentence agree behind canonical text, unless it is a name without quotes that
has two full stops at its end. -/
theorem Term.Proper.agree_canonical {t : Term} (h : t.Proper) {flags : Flags}
    (hk : flags.keepComments = false) (hescapes : flags.charEscapes = true)
    (hstops : ∀ a, t = .atom a → Atom.isBare a.name → ¬(".." : Text) <:+ a.name) :
    (Cursor.ofText (t.canonical ++ " .")).Agree flags (.ofText t.clauseLine) := by
  have hline : .char '\n' ∉ t.canonical := newline_not_mem_renderAt .whole t h.wellFormed (by simp)
  have halike :
      Cursor.EndAlike t.canonical (.ofText (t.canonical ++ " .")) (.ofText t.clauseLine) :=
    Cursor.endAlike_ofText hline
  by_cases hatom : ∃ a, t = .atom a
  · obtain ⟨a, rfl⟩ := hatom
    by_cases hbare : Atom.isBare a.name = true
    · have hname : (Term.atom a).canonical = a.name := by
        rw [canonical_atom, Atom.text, if_pos hbare]
      refine halike.agree hk ⟨hline, fun hquote => ?_, fun hdots => ?_⟩
      · rw [hname] at hquote
        exact Atom.quote_not_mem hbare (hquote.subset (by simp))
      · rw [hname] at hdots
        exact hstops a rfl hbare hdots
    · have hquoted : (Term.atom a).canonical =
          Text.quoted '\'' ((a.name.map Glyph.code).map .char) := by
        rw [canonical_atom, Atom.text, if_neg hbare, ← Text.quoted_repaired '\'' a.name,
          List.map_map]
        rfl
      rw [clauseLine, hquoted] at halike ⊢
      exact halike.agree_quoted hescapes
  · exact halike.agree hk ((h.endsPlainly_canonical (not_exists.1 hatom)).endable hline)

/-! ## Names that end in full stops -/

/-- Symbol characters with two full stops at their end take the full stop behind them as well. -/
theorem Lexeme.ofText_stops {g : Glyph} {t : Text} (hall : ∀ x ∈ g :: t, CharClass.isGraphic x.code)
    (hopens : ∀ s, s <:+ g :: t → opensComment s = false) (hd : (".." : Text) <:+ g :: t) :
    ofText g.code (g :: t ++ ".\n") = .name (g :: t ++ ".").length := by
  have hname : graphicRunFrom 0 (g :: t) = 0 + (g :: t).length := by
    have hspaced := graphicRunFrom_append hall hopens ⟨' ', ".", rfl, by decide⟩ 0
    rw [graphicRunFrom_break (.blank (by decide) _)] at hspaced
    split at hspaced
    · assumption
    · exact hspaced
  have hrun : graphicRun (g :: t ++ ".\n") = (g :: t ++ ".").length := by
    rw [graphicRun, graphicRunFrom_break Text.break_stop, if_pos hname, List.length_append,
      Nat.zero_add]
    exact graphicRunFrom_of_stop (u := "\n") (by decide) _
  have hstop : stopAfter (g :: t ++ ".\n") (g :: t ++ ".").length = false := by
    obtain ⟨w, hw⟩ := hd
    rw [← hw]
    simp [stopAfter, Text.ofString]
  have hlong : ¬((g :: t ++ (".": Text)).length = 1 ∧ g.code = '.') := by simp [Text.ofString]
  rw [ofText_graphic (hall g List.mem_cons_self), hrun, hstop, if_neg hlong]
  rfl

/-- A symbolic name with two full stops at its end has the full stop behind them in it. -/
theorem Cursor.Before.yields_stops {flags : Flags} {c : Cursor} {name : Text}
    (h : c.Before (name ++ ".\n")) (hb : Atom.isBare name) (hc : ¬name.HidesComment)
    (hd : (".." : Text) <:+ name) : c.Yields flags .atom (name ++ ".") false "\n" := by
  have hdot : .char '.' ∈ name := hd.subset List.mem_cons_self
  have hbraces : name ≠ Atom.braces.name := by
    rintro rfl
    exact absurd hdot (by decide)
  rcases Atom.isBare_cases hb hbraces with
    rfl | rfl | ⟨g, t, rfl, -, hall⟩ | ⟨g, t, rfl, hall, hs, -⟩
  · exact absurd hdot (by decide)
  · exact absurd hdot (by decide)
  · exact absurd (hall _ hdot) (by decide)
  · have hg : CharClass.isGraphic g.code = true := hall g List.mem_cons_self
    have hopens := Lexeme.opensComment_of_suffix hall hs hc
    have hlexeme := Lexeme.ofText_stops hall hopens hd
    have hline : g :: t ++ (".\n" : Text) = g :: (t ++ ".") ++ "\n" := by simp [Text.ofString]
    rw [hline] at h hlexeme
    refine yields_name h (CharClass.isBlank_eq_false_of_isGraphic hg) ?_ ?_ hlexeme
    · rintro rfl
      exact absurd hg (by decide)
    · rw [← hline, List.cons_append, Lexeme.opensComment_break Text.break_stop]
      exact hopens _ (List.suffix_refl _)

theorem Atom.newline_not_mem_name {a : Atom} (hb : isBare a.name) : .char '\n' ∉ a.name := by
  have htext := a.newline_not_mem_text
  rwa [text, if_pos hb] at htext

theorem Token.signing_ne_atom {sign t : Token} {n : Term} (h : t.number? = some (.ok n))
    (a : Atom) : sign.signing n ≠ .atom a := by
  unfold signing
  rcases number_cases h with ⟨v, rfl⟩ | ⟨m, rfl⟩ | ⟨x, rfl⟩
  · simp only [Term.negate?, Option.getD_some]
    split
    · split <;> simp
    · simp
  · simp only [Term.negate?, Option.getD_some, Term.ofInt]
    split
    · split <;> simp
    · simp
  · simp only [Term.negate?, Option.getD_some]
    split <;> simp

/-- If a name stands in front of the tokens that an atom is read of, then it is the name of the
atom. -/
theorem DerivesWith.exists_cons_of_atom {able : Token → Prop} {d : Dialect} {s : Scope}
    {b : Bindings} {ts : List Token} {a : Atom} {p : Nat}
    (h : DerivesWith able d s b ts (.atom a) p) :
    ∃ t us, ts = t :: us ∧ (t.kind = .atom ∨ t.kind = .stop → t.text = a.name) := by
  generalize hx : Term.atom a = x at h
  cases h with
  | atom =>
    cases hx
    exact ⟨_, [], rfl, fun _ => rfl⟩
  | signed _ _ hn => exact absurd hx.symm (Token.signing_ne_atom hn a)
  | prefixOp | infixOp | postfixOp | compound | braces => cases hx
  | number hn =>
    refine ⟨_, [], rfl, fun hk => ?_⟩
    have hnumber := Token.kind_of_number? hn
    rcases hk with hk | hk <;> simp [hk] at hnumber
  | named hk | anonymous hk | doubleQuoted hk | backQuoted hk | group hk | noBraces hk
  | noElements hk | list hk | partialList hk => exact ⟨_, _, rfl, by simp [hk]⟩

namespace SingleRead

variable {d : Dialect} {issued : Nat} {a : Atom}

/-- No comment opens inside an atom whose name is read back. -/
theorem not_hidesComment_of_result {a' : Atom} (hb : Atom.isBare a.name)
    (h : (ofText d issued (a.name ++ " .")).result = .ok (.atom a')) (hname : a'.name = a.name) :
    ¬a.name.HidesComment := by
  intro hhidden
  obtain ⟨body, last, after, p, hscans, -, hderives⟩ := derives_of_result h
  have hc : (Cursor.ofText (a.name ++ " .")).rest = a.name ++ " ." :=
    (Cursor.endAlike_ofText (Atom.newline_not_mem_name hb)).spaced.rest
  obtain ⟨t, us, hbody, htext⟩ := hderives.exists_cons_of_atom
  cases body with
  | nil => cases hbody
  | cons t' ts =>
    cases hscans with
    | cons hscan =>
      obtain ⟨hk, hshorter⟩ := Atom.shorter_of_hidesComment hb hhidden hc hscan
      have hcomment : t'.kind ≠ .comment := by rcases hk with hk | hk <;> simp [hk]
      obtain ⟨rfl, -⟩ : t' = t ∧ uncommented ts = us := by
        simpa [uncommented, hcomment] using hbody
      rw [htext hk, hname] at hshorter
      exact Nat.lt_irrefl _ hshorter

/-- A line is not read if it has nothing but a symbolic name with full stops at its end on it. -/
theorem result_ne_of_stops (hflags : d.flags = .standard) (hb : Atom.isBare a.name)
    (hc : ¬a.name.HidesComment) (hd : (".." : Text) <:+ a.name) (u : Term) :
    (ofText d issued (a.name ++ ".\n")).result ≠ .ok u := by
  intro h
  obtain ⟨body, last, after, p, hscans, hends, hderives⟩ := derives_of_result h
  have hlast : last.kind = .stop := by simpa [Flags.Ends, hflags, Flags.standard] using hends
  obtain ⟨c, hname, hc⟩ :=
    (Cursor.endAlike_ofText (Atom.newline_not_mem_name hb)).closed.yields_stops hb hc hd
  obtain ⟨eof, c', heof, hkind⟩ := scan_newline d.flags hc
  cases body with
  | nil =>
    cases hscans with
    | cons hscan =>
      obtain ⟨rfl, -⟩ := Scan.token.inj (hname.symm.trans hscan)
      cases hlast
  | cons t ts =>
    cases hscans with
    | cons hscan hscans =>
      obtain ⟨-, rfl⟩ := Scan.token.inj (hname.symm.trans hscan)
      -- the second token is the end of the text, which neither ends a sentence nor is part of one
      cases ts with
      | nil =>
        cases hscans with
        | cons hscan =>
          obtain ⟨rfl, -⟩ := Scan.token.inj (heof.symm.trans hscan)
          simp [hlast] at hkind
      | cons t' ts =>
        cases hscans with
        | cons hscan =>
          obtain ⟨rfl, -⟩ := Scan.token.inj (heof.symm.trans hscan)
          have hpart := List.all_eq_true.1 hderives.all_isPart eof (by simp [uncommented, hkind])
          simp [hkind, TokenKind.isPart] at hpart

end SingleRead

/-! ## Reading a line back -/

/-- What the command line prints in canonical form are the lines of the clauses. -/
theorem Source.stdout_report (s : Source) (x : Consultation) :
    (s.report true x).stdout = x.clauses.flatMap fun c => c.term.clauseLine := by
  simp only [report, if_true, List.flatMap_map, List.append_assoc]
  rfl

/-- A term that is the same up to marks and numbers of variables. The variables of `u` are named as
those of `t` are written, and different ones have different numbers. -/
def Term.Copies (u t : Term) : Prop :=
  ∃ number : Variable → Nat,
    (∀ v ∈ t.vars, ∀ w ∈ t.vars, number v = number w → v = w) ∧
      u.unmarked = (t.renumbered number).unmarked

/-- The text of a variable is the name of one that is written in the same way. -/
theorem Variable.text_of_text (v : Variable) (n : Nat) :
    (⟨v.text, n⟩ : Variable).text = v.text := by
  refine if_neg ?_
  unfold text
  split
  · simp [Text.ofString]
  · next hnamed => exact hnamed

namespace Term.Copies

variable {u t : Term}

/-- Such terms are written alike. -/
theorem canonical_eq (h : u.Copies t) : u.canonical = t.canonical := by
  obtain ⟨number, -, hsame⟩ := h
  have hid : u.unmarked.canonical = u.canonical := canonical_map u fun _ _ => rfl
  rw [← hid, hsame, unmarked, renumbered, map_map]
  exact canonical_map t fun v _ => v.text_of_text (number v)

theorem exists_atom_of_left {a : Atom} (h : Copies (.atom a) t) :
    ∃ a', t = .atom a' ∧ a'.name = a.name := by
  obtain ⟨number, -, hsame⟩ := h
  cases t <;> simp_all [unmarked, renumbered, Term.map, Atom.unmarked, Atom.plain]

theorem exists_atom_of_right {a : Atom} (h : u.Copies (.atom a)) :
    ∃ a', u = .atom a' ∧ a'.name = a.name := by
  obtain ⟨number, -, hsame⟩ := h
  cases u <;> simp_all [unmarked, renumbered, Term.map, Atom.unmarked, Atom.plain]

end Term.Copies

theorem Term.Echoes.copies {b : Bindings} {u t : Term} (h : u.Echoes b t) (hb : b.Distinct)
    (hvars : ∀ v ∈ t.vars, ∀ w ∈ t.vars, v.text = w.text → v = w) : u.Copies t := by
  obtain ⟨hknown, hmap⟩ := h b (.refl b)
  refine ⟨fun v => b.number v.text, ?_, ?_⟩
  · intro v hv w hw hnumber
    exact hvars v hv w hw (hb.eq_of_number (hknown v hv) (hknown w hw) hnumber)
  · rw [renumbered, unmarked, unmarked, map_map, hmap]
    rfl

namespace SingleRead

/-- If the canonical text of a term is read back as the term, with a full stop after a space behind
it, then so is the line on which it is printed as a clause, unless the term is an atom by itself
that stands without quotes and has two full stops at the end of its name. Then nothing is read. -/
theorem read_clauseLine {d : Dialect} (hflags : d.flags = .standard) (issued : Nat) {t u : Term}
    (hread : (ofText d issued (.ofBytes (t.canonical ++ " .").bytes)).result = .ok u)
    (hcopies : u.Copies t) :
    (∀ (s : Source) (x : Consultation),
      (s.report true x).stdout = x.clauses.flatMap fun c => c.term.clauseLine) ∧
    ((∀ a, t = .atom a → Atom.isBare a.name → ¬(".." : Text) <:+ a.name) →
      (ofText d issued (.ofBytes t.clauseLine.bytes)).result = .ok u) ∧
    ∀ a, t = .atom a → Atom.isBare a.name → (".." : Text) <:+ a.name →
      ∀ u', (ofText d issued (.ofBytes t.clauseLine.bytes)).result ≠ .ok u' := by
  have hproper : u.Proper := proper_of_result hflags (Text.isJoined_ofBytes _) hread
  have hsame : u.canonical = t.canonical := hcopies.canonical_eq
  have hjoined (c : Char) {rest : Text} (hrest : rest.IsJoined) :
      (t.canonical ++ .char c :: rest).IsJoined := by
    rw [← hsame, Term.canonical, ← Term.renderAt_append]
    exact hproper.isJoined_renderAt .whole c hrest
  have hspaced : Text.ofBytes (t.canonical ++ " .").bytes = t.canonical ++ " ." :=
    hjoined ' ' (Text.isJoined_ofString ".")
  have hclosed : Text.ofBytes t.clauseLine.bytes = t.clauseLine :=
    hjoined '.' (Text.isJoined_ofString "\n")
  rw [hspaced] at hread
  rw [hclosed]
  refine ⟨Source.stdout_report, fun hstops => ?_, ?_⟩
  · have hagree : (Cursor.ofText (t.canonical ++ " .")).Agree d.flags (.ofText t.clauseLine) := by
      rw [Term.clauseLine, ← hsame, hflags]
      refine hproper.agree_canonical rfl rfl ?_
      rintro a rfl hbare
      obtain ⟨a', rfl, hname⟩ := hcopies.exists_atom_of_left
      rw [← hname] at hbare ⊢
      exact hstops a' rfl hbare
    exact result_of_agree (by rw [hflags]; rfl) hagree hread
  · rintro a rfl hbare hdots
    obtain ⟨a', rfl, hname⟩ := hcopies.exists_atom_of_right
    rw [Term.canonical_atom, Atom.text, if_pos hbare] at hread
    rw [Term.clauseLine, Term.canonical_atom, Atom.text, if_pos hbare]
    exact result_ne_of_stops hflags hbare (not_hidesComment_of_result hbare hread hname) hdots

theorem exists_copy {t : Term} (ht : t.Readable Dialect.standard.table)
    (hvars : ∀ v ∈ t.vars, ∀ w ∈ t.vars, v.text = w.text → v = w)
    (halone : ∀ a, t = .atom a → Atom.isBare a.name →
      Dialect.standard.table.prefixOperator? a.name = none ∧ ¬a.name.EndsInStop)
    (hjoined : (t.canonical ++ (" ." : Text)).IsJoined) :
    ∃ u, (ofText .standard 0 (.ofBytes (t.canonical ++ " .").bytes)).result = .ok u ∧
      u.Copies t := by
  obtain ⟨u, b, hresult, hb, hu⟩ := exists_echo rfl 0 ht halone
  refine ⟨u, ?_, hu.copies hb hvars⟩
  rw [show Text.ofBytes (t.canonical ++ " .").bytes = t.canonical ++ " ." from hjoined]
  exact hresult

/-- The lines of a symbolic name and of a term with quoted names, operators for arguments and
variables that occur twice. -/
theorem read_clauseLine_symbol_and_motley :
    (∃ u,
      (ofText .standard 0 (.ofBytes ((Term.atom (.plain "=:=")).canonical ++ " .").bytes)).result =
        .ok u ∧ u.Copies (.atom (.plain "=:=")) ∧
      (ofText .standard 0 (.ofBytes (Term.atom (.plain "=:=")).clauseLine.bytes)).result = .ok u) ∧
    ∃ u, (ofText .standard 0 (.ofBytes (Term.motley.canonical ++ " .").bytes)).result = .ok u ∧
      u.Copies .motley ∧
      (ofText .standard 0 (.ofBytes Term.motley.clauseLine.bytes)).result = .ok u := by
  constructor
  · have hname : (Term.atom (.plain "=:=")).Readable Dialect.standard.table :=
      .atom ⟨fun _ => by decide, fun h => absurd (by decide) h⟩
    obtain ⟨u, hread, hcopies⟩ := exists_copy hname (by decide)
      (by rintro a ⟨⟩ -; exact ⟨by decide +kernel, by unfold Text.EndsInStop; decide⟩)
      (by unfold Text.IsJoined; decide +kernel)
    refine ⟨u, hread, hcopies, (read_clauseLine rfl 0 hread hcopies).2.1 ?_⟩
    rintro a ⟨⟩ -
    decide
  · obtain ⟨u, hread, hcopies⟩ := exists_copy Term.legible_motley.readable (by decide +kernel)
      (by simp [Term.motley]) (by unfold Text.IsJoined; decide +kernel)
    exact ⟨u, hread, hcopies, (read_clauseLine rfl 0 hread hcopies).2.1 (by simp [Term.motley])⟩

/-- The atom `=..` is read with a full stop after a space behind it, but not from its line: all
three full stops belong to the name there. -/
theorem not_read_clauseLine_univ :
    ∃ u,
      (ofText .standard 0 (.ofBytes ((Term.atom (.plain "=..")).canonical ++ " .").bytes)).result =
        .ok u ∧ u.Copies (.atom (.plain "=..")) ∧
      ∀ u', (ofText .standard 0 (.ofBytes (Term.atom (.plain "=..")).clauseLine.bytes)).result ≠
        .ok u' := by
  have hname : (Term.atom (.plain "=..")).Readable Dialect.standard.table :=
    .atom ⟨fun _ => by decide, fun h => absurd (by decide) h⟩
  obtain ⟨u, hread, hcopies⟩ := exists_copy hname (by decide)
    (by rintro a ⟨⟩ -; exact ⟨by decide +kernel, by unfold Text.EndsInStop; decide⟩)
      (by unfold Text.IsJoined; decide +kernel)
  refine ⟨u, hread, hcopies, fun u' hu' => ?_⟩
  have hnone : (ofText .standard 0
      (.ofBytes (Term.atom (.plain "=..")).clauseLine.bytes)).result.toOption.isNone = true := by
    decide +kernel
  rw [hu'] at hnone
  cases hnone

end SingleRead

end PrologText
