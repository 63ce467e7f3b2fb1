import PrologText.Proofs.ErrorPlaces
import PrologText.Proofs.Faults
import PrologText.Proofs.QuotedText
import PrologText.Proofs.Soundness

/-!
# Literals and comments that lack their end

A literal or comment without an end takes the rest of the input with it. What is a complete one is
said by `Text.IsLiteral`. Main statement: if reading fails at a text that is the start of a literal
or comment, without being or holding a complete one, nothing behind it is read as a sentence
(`Reader.next_of_isUnterminated`). A text that stops within an escape sequence is an exception.
-/

namespace PrologText

/-! ## Complete literals and comments -/

namespace QuotedItem

/-- Whether an item is an escape sequence. -/
def isEscape : QuotedItem → Bool
  | plain _ | doubled => false
  | _ => true

/-- Whether an item is a line break, which stands for nothing. -/
def isLineBreak : QuotedItem → Bool
  | lineBreak _ => true
  | _ => false

/-- Line breaks as they can stand in a character code. -/
def AreBreaks (escapes : Bool) (items : List QuotedItem) : Prop :=
  ∀ i ∈ items, i.Valid .single escapes ∧ i.isLineBreak

end QuotedItem

namespace Text

/-- What a character code starts with. -/
def codeOpening : Text :=
  [.char '0', .char '\'']

/-- What a block comment starts with. -/
def commentOpening : Text :=
  [.char '/', .char '*']

/-- A complete quoted literal, character code or block comment in front of `behind`. A quote ends
none of them if it is doubled by what stands behind. -/
inductive IsLiteral (escapes : Bool) : Text → Text → Prop where
  | quoted {q items behind} (hi : ∀ i ∈ items, QuotedItem.Valid q escapes i)
      (hb : behind.head? ≠ some (.char q.char)) :
      IsLiteral escapes (.char q.char :: QuotedItem.sources q items ++ [.char q.char]) behind
  | code {breaks behind} {i : QuotedItem} (hbreaks : QuotedItem.AreBreaks escapes breaks)
      (hi : i.Valid .single escapes) (hvalue : i.isLineBreak = false) :
      IsLiteral escapes
        (codeOpening ++ QuotedItem.sources .single breaks ++ i.source .single) behind
  | quoteCode {breaks behind} (hbreaks : QuotedItem.AreBreaks escapes breaks)
      (hb : behind.head? ≠ some (.char '\'')) :
      IsLiteral escapes (codeOpening ++ QuotedItem.sources .single breaks ++ [.char '\'']) behind
  | comment {body behind} (hb : ¬commentEnd <:+: body) :
      IsLiteral escapes (commentOpening ++ body ++ commentEnd) behind

/-- The start of a literal or comment that does not have a complete one at its own start. -/
structure IsUnterminated (escapes : Bool) (t : Text) : Prop where
  exists_rest : ∃ u, u ≠ [] ∧ IsLiteral escapes (t ++ u) []
  incomplete : ∀ u v, t = u ++ v → ¬IsLiteral escapes u v

/-- A text that goes into an escape sequence and stops before its end. -/
def IsCutEscape (q : Quote) (escapes : Bool) (t : Text) : Prop :=
  t ≠ [] ∧ ∃ i : QuotedItem, i.Valid q escapes ∧ i.isEscape ∧ ∃ u, u ≠ [] ∧ t ++ u = i.source q

/-- A literal that stops within an escape sequence. -/
inductive StopsInEscape (escapes : Bool) : Text → Prop where
  | quoted {q items t} (hi : ∀ i ∈ items, QuotedItem.Valid q escapes i)
      (ht : IsCutEscape q escapes t) :
      StopsInEscape escapes (.char q.char :: QuotedItem.sources q items ++ t)
  | code {breaks t} (hbreaks : QuotedItem.AreBreaks escapes breaks)
      (ht : IsCutEscape .single escapes t) :
      StopsInEscape escapes (codeOpening ++ QuotedItem.sources .single breaks ++ t)

/-! ## How an unterminated text looks -/

/-- A literal or comment that has been opened, with complete items up to the end of the text. -/
inductive IsOpen (escapes : Bool) : Text → Prop where
  | quoted {q items} (hi : ∀ i ∈ items, QuotedItem.Valid q escapes i) :
      IsOpen escapes (.char q.char :: QuotedItem.sources q items)
  | code {breaks} (hbreaks : QuotedItem.AreBreaks escapes breaks) :
      IsOpen escapes (codeOpening ++ QuotedItem.sources .single breaks)
  | comment {body} (hb : ¬commentEnd <:+: body) : IsOpen escapes (commentOpening ++ body)

end Text

namespace QuotedItem

/-- A text cut off from some items and a text `w` behind them ends in front of or within one of
these. -/
theorem exists_of_sources_append_eq {q : Quote} {items : List QuotedItem} {t u w : Text}
    (hu : u ≠ []) (h : t ++ u = sources q items ++ w) :
    ∃ front part rest, front <+: items ∧ t = sources q front ++ part ∧ rest ≠ [] ∧
      ((∃ i ∈ items, part ++ rest = i.source q) ∨ part ++ rest = w) := by
  induction items generalizing t with
  | nil => exact ⟨[], t, u, List.nil_prefix, rfl, hu, .inr h⟩
  | cons i items ih =>
    have hlater {v : Text} (ht : t = i.source q ++ v) (hv : v ++ u = sources q items ++ w) :
        ∃ front part rest, front <+: i :: items ∧ t = sources q front ++ part ∧ rest ≠ [] ∧
          ((∃ j ∈ i :: items, part ++ rest = j.source q) ∨ part ++ rest = w) := by
      obtain ⟨front, part, rest, hfront, rfl, hrest, hpart⟩ := ih hv
      refine ⟨i :: front, part, rest, List.cons_prefix_cons.2 ⟨rfl, hfront⟩, ?_, hrest, ?_⟩
      · rw [ht, sources_cons, List.append_assoc]
      · exact hpart.imp_left fun ⟨j, hj, hsource⟩ => ⟨j, List.mem_cons_of_mem i hj, hsource⟩
    rw [sources_cons, List.append_assoc, List.append_eq_append_iff] at h
    rcases h with ⟨rest, hsource, hrest⟩ | ⟨v, ht, hv⟩
    · by_cases hnil : rest = []
      · exact hlater (v := []) (by simp [hsource, hnil]) (by simp [hrest, hnil])
      · exact ⟨[], t, rest, List.nil_prefix, rfl, hnil, .inl ⟨i, List.mem_cons_self, hsource.symm⟩⟩
    · exact hlater ht hv.symm

/-- Of an item, a doubled quote and an escape sequence alone can be cut in two. -/
theorem cut_cases {q : Quote} {escapes : Bool} {i : QuotedItem} (hi : i.Valid q escapes)
    {t u : Text} (h : t ++ u = i.source q) (hu : u ≠ []) :
    t = [] ∨ t = [.char q.char] ∨ t.IsCutEscape q escapes := by
  by_cases ht : t = []
  · exact .inl ht
  · have hcut (he : i.isEscape) : t.IsCutEscape q escapes := ⟨ht, i, hi, he, u, hu, h⟩
    obtain ⟨g, t, rfl⟩ := List.exists_cons_of_ne_nil ht
    obtain ⟨g', u, rfl⟩ := List.exists_cons_of_ne_nil hu
    cases i with
    | plain => simp [source] at h
    | doubled =>
      cases t with
      | nil => exact .inr (.inl (by rw [(List.cons.inj h).1]))
      | cons => simp [source] at h
    | _ => exact .inr (.inr (hcut rfl))

/-- Where a literal can be cut off whose last piece `w` is its closing quote or an item. -/
theorem exists_front {q : Quote} {escapes : Bool} {items : List QuotedItem} {t u w : Text}
    (hi : ∀ i ∈ items, i.Valid q escapes)
    (hw : w = [.char q.char] ∨ ∃ i : QuotedItem, i.Valid q escapes ∧ w = i.source q)
    (hu : u ≠ []) (h : t ++ u = sources q items ++ w) :
    ∃ front part, front <+: items ∧ t = sources q front ++ part ∧
      (part = [] ∨ part = [.char q.char] ∨ part.IsCutEscape q escapes) := by
  obtain ⟨front, part, rest, hfront, rfl, hrest, hpart⟩ := exists_of_sources_append_eq hu h
  refine ⟨front, part, hfront, rfl, ?_⟩
  rcases hpart with ⟨i, hmem, hsource⟩ | rfl
  · exact cut_cases (hi i hmem) hsource hrest
  · rcases hw with hclose | ⟨i, hvalid, hsource⟩
    · refine .inl ?_
      cases part with
      | nil => rfl
      | cons => simp_all
    · exact cut_cases hvalid hsource hrest

end QuotedItem

namespace Text

variable {escapes : Bool} {t u : Text}

theorem IsUnterminated.isOpen_quoted {q : Quote} {items : List QuotedItem}
    (h : IsUnterminated escapes (.char q.char :: t))
    (hs : ¬StopsInEscape escapes (.char q.char :: t))
    (hi : ∀ i ∈ items, i.Valid q escapes) (hu : u ≠ [])
    (ht : t ++ u = QuotedItem.sources q items ++ [.char q.char]) :
    IsOpen escapes (.char q.char :: t) := by
  obtain ⟨front, part, hfront, rfl, hpart⟩ := QuotedItem.exists_front hi (.inl rfl) hu ht
  have hvalid : ∀ i ∈ front, i.Valid q escapes := fun i hmem => hi i (hfront.subset hmem)
  rcases hpart with rfl | rfl | hcut
  · rw [List.append_nil]
    exact .quoted hvalid
  · -- With one half of a doubled quote at its end the literal is complete.
    exact absurd (.quoted hvalid (by simp)) (h.incomplete _ [] (List.append_nil _).symm)
  · exact absurd (.quoted hvalid hcut) hs

theorem IsUnterminated.isOpen_code {breaks : List QuotedItem} {w : Text}
    (h : IsUnterminated escapes (codeOpening ++ t))
    (hs : ¬StopsInEscape escapes (codeOpening ++ t)) (hb : QuotedItem.AreBreaks escapes breaks)
    (hw : w = [.char '\''] ∨ ∃ i : QuotedItem, i.Valid .single escapes ∧ w = i.source .single)
    (hu : u ≠ []) (ht : t ++ u = QuotedItem.sources .single breaks ++ w) :
    IsOpen escapes (codeOpening ++ t) := by
  obtain ⟨front, part, hfront, rfl, hpart⟩ :=
    QuotedItem.exists_front (q := .single) (fun i hmem => (hb i hmem).1) hw hu ht
  have hbreaks : QuotedItem.AreBreaks escapes front := fun i hmem => hb i (hfront.subset hmem)
  rw [← List.append_assoc] at h hs ⊢
  rcases hpart with rfl | rfl | hcut
  · rw [List.append_nil]
    exact .code hbreaks
  · exact absurd (.quoteCode hbreaks (by simp)) (h.incomplete _ [] (List.append_nil _).symm)
  · exact absurd (.code hbreaks hcut) hs

theorem cut_opening {g g' : Glyph} {w : Text} (h : t ++ u = g :: g' :: w) :
    t = [] ∨ t = [g] ∨ ∃ v, t = g :: g' :: v ∧ v ++ u = w := by
  rcases t with _ | ⟨x, _ | ⟨y, v⟩⟩
  · exact .inl rfl
  · exact .inr (.inl (by rw [(List.cons.inj h).1]))
  · simp only [List.cons_append, List.cons.injEq] at h
    obtain ⟨rfl, rfl, rfl⟩ := h
    exact .inr (.inr ⟨v, rfl, rfl⟩)

theorem IsUnterminated.isOpen_comment (h : IsUnterminated escapes (commentOpening ++ t)) :
    IsOpen escapes (commentOpening ++ t) := by
  cases hend : commentLengthFrom 0 t with
  | none => exact .comment (not_infix_of_commentLengthFrom hend)
  | some n =>
    obtain ⟨body, v, rfl, -, hbody⟩ := exists_of_commentLengthFrom hend
    exact absurd (.comment hbody) (h.incomplete _ v (by simp))

/-- An unterminated text that is more than half an opening is open, unless it stops within an escape
sequence. -/
theorem IsUnterminated.isOpen (h : IsUnterminated escapes t) (hs : ¬StopsInEscape escapes t) :
    t ∈ [[], [.char '0'], [.char '/']] ∨ IsOpen escapes t := by
  obtain ⟨u, hu, hliteral⟩ := h.exists_rest
  have hcode {breaks : List QuotedItem} {w : Text} (hb : QuotedItem.AreBreaks escapes breaks)
      (hw : w = [.char '\''] ∨ ∃ i : QuotedItem, i.Valid .single escapes ∧ w = i.source .single)
      (hv : t ++ u = codeOpening ++ QuotedItem.sources .single breaks ++ w) :
      t ∈ [[], [.char '0'], [.char '/']] ∨ IsOpen escapes t := by
    rcases cut_opening hv with rfl | rfl | ⟨v, rfl, htail⟩
    · exact .inl (by simp)
    · exact .inl (by simp)
    · exact .inr (h.isOpen_code hs hb hw hu htail)
  generalize hv : t ++ u = v at hliteral
  cases hliteral with
  | @quoted q _ _ hi =>
    cases t with
    | nil => exact .inl (by simp)
    | cons g t =>
      obtain rfl : g = .char q.char := (List.cons.inj hv).1
      exact .inr (h.isOpen_quoted hs hi hu (List.cons.inj hv).2)
  | code hbreaks hi => exact hcode hbreaks (.inr ⟨_, hi, rfl⟩) hv
  | quoteCode hbreaks => exact hcode hbreaks (.inl rfl) hv
  | comment =>
    rcases cut_opening hv with rfl | rfl | ⟨v, rfl, -⟩
    · exact .inl (by simp)
    · exact .inl (by simp)
    · exact .inr h.isOpen_comment

end Text

/-! ## Scanning an open text -/

section

variable {flags : Flags} {layout : Bool} {text : Text} {c : Cursor}

/-- Reading line breaks of a character code. -/
theorem QuotedItem.exists_scanQuoted_breaks {f : QuotedForm} (hq : f.quote ≠ '\\')
    {breaks : List QuotedItem} (hb : AreBreaks f.escapes breaks) {v : Text} (hc : c.Lined)
    (h : c.remaining = sources .single breaks ++ v) (seen : Text) :
    ∃ d, c.Leads d ∧ d.remaining = v ∧ scanQuoted f seen c = scanQuoted f seen d := by
  induction breaks generalizing c with
  | nil => exact ⟨c, .refl c, h, rfl⟩
  | cons i breaks ih =>
    obtain ⟨⟨hi, hbreak⟩, hbreaks⟩ := List.forall_mem_cons.1 hb
    cases i with
    | lineBreak carriageReturn =>
      rw [sources_cons, List.append_assoc] at h
      obtain ⟨d, hcd, hd, hscan⟩ := exists_scanQuoted_item hc hi h
        (QuotedForm.step_lineBreak hi hq .single carriageReturn seen)
      obtain ⟨e, hde, he, hscan'⟩ := ih hbreaks (hcd.lined hc) hd
      exact ⟨e, hcd.trans hde, he, hscan.trans hscan'⟩
    | _ => cases hbreak

theorem scanQuoted_of_remaining_nil {f : QuotedForm} (h : c.remaining = []) (seen : Text) :
    scanQuoted f seen c = .unclosed c.fill := by
  rw [scanQuoted_eq, Cursor.fill_rest_of_remaining_nil h]
  rfl

theorem Scan.exists_of_unclosed {f : QuotedForm} {start inside stopped : Cursor}
    (he : stopped.ending = .endOfInput) (h : scanQuoted f [] inside = .unclosed stopped) :
    ∃ e, quoted f layout start inside = .fault e start true := by
  rw [quoted, h]
  simp only [unended, he]
  exact ⟨_, rfl⟩

theorem scanFrom_code {t : Text} (h : c.fill.rest = .char '0' :: .char '\'' :: t) :
    scanFrom flags layout c =
      .quoted ⟨'\'', true, flags.charEscapes⟩ layout c.fill (c.fill.advance 2) := by
  have hlexeme : Lexeme.ofText '0' c.fill.rest = .charCode := by
    rw [h]
    rfl
  rw [scanFrom_eq_lexeme h (by decide) (by decide) (Lexeme.opensComment_of_ne (by decide) _),
    Scan.lexeme]
  simp only [Glyph.code, hlexeme]

theorem scanFrom_unended {t : Text} (h : c.fill.rest = .char '/' :: .char '*' :: t)
    (ha : afterComment? (c.fill.advance 2) c.fill.later = none) :
    scanFrom flags layout c = .unended .unterminatedComment c.fill c.fill.toEnd := by
  rw [scanFrom_eq, h]
  simp [ha, Lexeme.opensComment, show CharClass.isBlank (Glyph.char '/').code = false by decide]

/-- Scanning an open text comes to the end of the input. -/
theorem Text.IsOpen.exists_fault (h : c.remaining.IsOpen flags.charEscapes)
    (hc : (Cursor.ofText text).Leads c) (layout : Bool) :
    ∃ e, scanFrom flags layout c = .fault e c.fill true := by
  have hlined : c.Lined := hc.lined (Cursor.lined_ofText text)
  have hending {d : Cursor} (hd : c.Leads d) : d.ending = .endOfInput :=
    (hc.trans hd).ending.trans (Cursor.ending_ofText text)
  generalize hr : c.remaining = t at h
  cases h with
  | @quoted q items hi =>
    obtain ⟨w, hw, -, hopen, hinside⟩ := hlined.exists_fill_rest (u := []) (by simp) hr
    rw [← List.append_nil (QuotedItem.sources q items)] at hinside
    obtain ⟨d, hd, hnil, hscan⟩ :=
      QuotedItem.exists_scanQuoted_items (hopen.lined hlined) hi hinside []
    rw [scanFrom_quote hw]
    exact Scan.exists_of_unclosed (hending (hopen.trans (hd.trans d.leads_fill)))
      (hscan.trans (scanQuoted_of_remaining_nil hnil _))
  | @code breaks hb =>
    obtain ⟨w, hw, -, hopen, hinside⟩ :=
      hlined.exists_fill_rest (u := [.char '0']) (by decide) hr
    rw [← List.append_nil (QuotedItem.sources .single breaks)] at hinside
    obtain ⟨d, hd, hnil, hscan⟩ :=
      QuotedItem.exists_scanQuoted_breaks (f := ⟨'\'', true, flags.charEscapes⟩)
        (show '\'' ≠ '\\' by decide) hb (hopen.lined hlined) hinside []
    rw [scanFrom_code hw]
    exact Scan.exists_of_unclosed (hending (hopen.trans (hd.trans d.leads_fill)))
      (hscan.trans (scanQuoted_of_remaining_nil hnil _))
  | @comment body hb =>
    obtain ⟨w, hw, -, hopen, hinside⟩ :=
      hlined.exists_fill_rest (u := [.char '/']) (by decide) hr
    have hbody : (c.fill.advance 2).remaining = body := hinside
    have ha : afterComment? (c.fill.advance 2) c.fill.later = none :=
      (afterComment?_eq_none_iff (hopen.lined hlined)).2 (hbody ▸ hb)
    rw [scanFrom_unended hw ha, Scan.unended, hending (c.leads_fill.trans c.fill.leads_toEnd)]
    exact ⟨_, rfl⟩

/-- The first half of an opening is a token by itself. -/
theorem scanFrom_half_ne_fault (hc : c.Lined) (h : c.remaining ∈ [[], [.char '0'], [.char '/']])
    (layout : Bool) (e : SyntaxError) (start : Cursor) (exhausted : Bool) :
    scanFrom flags layout c ≠ .fault e start exhausted := by
  have hrest {g : Glyph} (hg : c.remaining = [g]) : c.fill.rest = [g] := by
    obtain ⟨w, hw, hnil, -, -⟩ := hc.exists_fill_rest (u := []) (by simp) hg
    rw [hw, List.prefix_nil.1 hnil]
    rfl
  simp only [List.mem_cons, List.not_mem_nil, or_false] at h
  rcases h with hnil | hzero | hslash
  · rw [scanFrom_eq, Cursor.fill_rest_of_remaining_nil hnil]
    cases c.fill.ending <;> simp
  · have hr := hrest hzero
    have hlexeme : Lexeme.ofText '0' [.char '0'] = .plain (.integer 10) 0 1 := rfl
    rw [scanFrom_eq_lexeme hr (by decide) (by decide) (by decide), Scan.lexeme, hr]
    simp [Glyph.code, hlexeme]
  · have hr := hrest hslash
    have hlexeme : Lexeme.ofText '/' [.char '/'] = .name 1 := rfl
    rw [scanFrom_eq_lexeme hr (by decide) (by decide) (by decide), Scan.lexeme, hr]
    simp only [Glyph.code, hlexeme, Scan.name]
    split <;> simp

end

namespace Text

variable {escapes : Bool} {t : Text}

theorem mem_of_isCutEscape {q : Quote} (h : IsCutEscape q escapes t) : .char '\\' ∈ t := by
  obtain ⟨hne, i, -, hesc, u, -, hsource⟩ := h
  obtain ⟨g, t, rfl⟩ := List.exists_cons_of_ne_nil hne
  have hg : g = .char '\\' := by
    cases i with
    | plain | doubled => cases hesc
    | lineBreak carriageReturn => cases carriageReturn <;> exact (List.cons.inj hsource).1
    | _ => exact (List.cons.inj hsource).1
  simp [hg]

/-- A text without backslashes does not stop within an escape sequence. -/
theorem not_stopsInEscape (h : .char '\\' ∉ t) : ¬StopsInEscape escapes t := by
  intro hs
  cases hs with
  | quoted _ ht | code _ ht => exact h (List.mem_append_right _ (mem_of_isCutEscape ht))

/-- What starts with a quote and is no token has no complete literal at its start. -/
theorem not_isLiteral_of_scan {flags : Flags} {text : Text} {c : Cursor} {q : Quote}
    (hc : (Cursor.ofText text).Leads c) (hr : c.remaining = .char q.char :: t)
    (h : (scan flags c).isToken = false) (u v : Text) (hsplit : c.remaining = u ++ v) :
    ¬IsLiteral flags.charEscapes u v := by
  have hhead := hr.symm.trans hsplit
  intro hliteral
  cases hliteral with
  | quoted hi hb =>
    rw [List.append_assoc] at hsplit
    obtain ⟨after, -, -, hscan⟩ := exists_scanFrom_items flags false
      (hc.lined (Cursor.lined_ofText text)) (hc.ending.trans (Cursor.ending_ofText text)) hi hsplit
      hb
    rw [scan, hscan] at h
    cases h
  | code | quoteCode | comment => cases q <;> cases (List.cons.inj hhead).1

theorem isUnterminated_of_scan {flags : Flags} {text u : Text} {c : Cursor} (q : Quote)
    (items : List QuotedItem) (hc : (Cursor.ofText text).Leads c)
    (hr : c.remaining = .char q.char :: t) (hi : ∀ i ∈ items, i.Valid q flags.charEscapes)
    (hu : u ≠ []) (h : t ++ u = QuotedItem.sources q items ++ [.char q.char])
    (hs : (scan flags c).isToken = false) :
    c.remaining.IsUnterminated flags.charEscapes := by
  refine ⟨⟨u, hu, ?_⟩, not_isLiteral_of_scan hc hr hs⟩
  rw [hr, List.cons_append, h]
  exact .quoted hi (by simp)

end Text

/-! ## Readers that have nothing left to read -/

theorem scan_of_remaining_nil {c : Cursor} (flags : Flags) (h : c.remaining = [])
    (he : c.ending = .endOfInput) :
    ∃ t, t.kind = .endOfFile ∧ scan flags c = .token t c.fill := by
  refine ⟨⟨.endOfFile, [], false, false, c.fill.place⟩, rfl, ?_⟩
  rw [scan, scanFrom_eq, Cursor.fill_rest_of_remaining_nil h, c.leads_fill.ending, he]

theorem Run.at_of_remaining_nil {c : Cursor} (d : Dialect) (issued : Nat) (h : c.remaining = [])
    (he : c.ending = .endOfInput) :
    ∃ t, t.kind = .endOfFile ∧ Run.at d issued c = ⟨.endOfInput, [t], c.fill, issued⟩ := by
  obtain ⟨t, ht, hscan⟩ := scan_of_remaining_nil d.flags h he
  have hstep := Reading.step_start_endOfFile d issued ht
  have hrun : Run.at d issued c = _ :=
    Reading.run_over hscan (by simp [ht]) (by simp [hstep])
  rw [hstep] at hrun
  exact ⟨t, ht, hrun⟩

namespace Reader

variable {d : Dialect} {r r' : Reader} {e : SyntaxError} {issued : Nat} {c : Cursor}

/-- A reader at the end of its text, or in front of an open text that it is going to pass over. -/
def Spent (flags : Flags) (r : Reader) : Prop :=
  r.cursor.ending = .endOfInput ∧
    (r.cursor.remaining = [] ∨
      r.resync = true ∧ ∃ e, scan flags r.cursor = .fault e r.cursor true)

theorem readAt_of_remaining_nil (d : Dialect) (issued : Nat) (h : c.remaining = [])
    (he : c.ending = .endOfInput) : (readAt d issued c).1 = .endOfInput := by
  obtain ⟨t, -, hrun⟩ := Run.at_of_remaining_nil d issued h he
  rw [readAt, hrun]

/-- Such a reader finds the end of the input, and stays there. -/
theorem Spent.next (h : r.Spent d.flags) :
    (r.next d).1 = .endOfInput ∧ (r.next d).2.Spent d.flags := by
  obtain ⟨he, hnil | ⟨hresync, e, hfault⟩⟩ := h
  · have hleads := r.next_leads d
    have hnext : (r.next d).2.cursor.remaining = [] :=
      List.suffix_nil.1 (hnil ▸ hleads.suffix)
    refine ⟨?_, hleads.ending.trans he, .inl hnext⟩
    unfold Reader.next
    split
    · obtain ⟨t, ht, hscan⟩ := scan_of_remaining_nil d.flags hnil he
      rw [skipSentence_eq, hscan]
      simp [ht]
    · exact readAt_of_remaining_nil d r.issued hnil he
  · have hskip : skipSentence d.flags r.cursor = .ended r.cursor.toEnd := by
      rw [skipSentence_eq, hfault]
      rfl
    have hnext : r.next d = (.endOfInput, ⟨r.cursor.toEnd, false, r.issued⟩) := by
      simp only [Reader.next, hresync, if_true, hskip]
    rw [hnext]
    exact ⟨rfl, r.cursor.leads_toEnd.ending.trans he, .inl r.cursor.remaining_toEnd⟩

/-- The reader after `n` calls, the n-th of them in the dialect `ds n`. -/
def after (ds : Nat → Dialect) (r : Reader) : Nat → Reader
  | 0 => r
  | n + 1 => ((r.after ds n).next (ds n)).2

theorem Spent.next_after {flags : Flags} (h : r.Spent flags) {ds : Nat → Dialect}
    (hds : ∀ n, (ds n).flags = flags) (n : Nat) :
    ((r.after ds n).next (ds n)).1 = .endOfInput := by
  have hspent (n : Nat) : (r.after ds n).Spent (ds n).flags := by
    induction n with
    | zero => exact hds 0 ▸ h
    | succ n ih =>
      rw [hds (n + 1), ← hds n]
      exact ih.next.2
  exact (hspent n).next.1

/-- A token that starts with a text that lacks its end is the last one. -/
theorem remaining_of_scan_token {flags : Flags} {text : Text} {before after start : Cursor}
    {t : Token} (hbefore : (Cursor.ofText text).Leads before)
    (hscan : scan flags before = .token t after) (hstart : (Cursor.ofText text).Leads start)
    (hplace : start.place = t.place)
    (hu : start.remaining ∈ [[], [.char '0'], [.char '/']] ∨
      start.remaining.IsOpen flags.charEscapes) : after.remaining = [] := by
  have hlined := hbefore.lined (Cursor.lined_ofText text)
  obtain ⟨at', hat⟩ := exists_passesTo flags false before hlined
  have hthere := hat.scan.symm.trans hscan
  have hcuts := hat.atToken.cutsAt (hat.leads.lined hlined) (false || !(before.upTo at').isEmpty)
  rw [hthere] at hcuts
  obtain ⟨hspan, -, htoken, hfits⟩ := hcuts
  obtain rfl : start = at' :=
    hstart.eq_of_place (hbefore.trans hat.leads) (hplace.trans htoken)
  rcases hu with hhalf | hopen
  · by_cases hk : t.kind = .endOfFile
    · exact hfits.last hk
    · have hne : start.upTo after ≠ [] := fun hnil => hk (hfits.span_eq_nil.1 hnil)
      have hlength : start.remaining.length ≤ 1 := by
        simp only [List.mem_cons, List.not_mem_nil, or_false] at hhalf
        rcases hhalf with h | h | h <;> simp [h]
      rw [hspan.remaining_eq, List.length_append] at hlength
      have hpos := List.length_pos_iff.2 hne
      exact List.length_eq_zero_iff.1 (by omega)
  · obtain ⟨e, hfault⟩ := hopen.exists_fault hstart (false || !(before.upTo start).isEmpty)
    cases hthere.symm.trans hfault

/-- If reading fails at a text that lacks its end and does not stop within an escape sequence, the
end of the input is all that is found from then on, whatever operators are defined. -/
theorem next_of_isUnterminated {text : Text} {start : Cursor} {ds : Nat → Dialect}
    (hr : (Cursor.ofText text).Leads r.cursor) (h : r.next d = (.error (.malformed e), r'))
    (hstart : (Cursor.ofText text).Leads start) (hplace : start.place = e.place)
    (hu : start.remaining.IsUnterminated d.flags.charEscapes)
    (hs : ¬start.remaining.StopsInEscape d.flags.charEscapes)
    (hds : ∀ n, (ds n).flags = d.flags) (n : Nat) :
    ((r'.after ds n).next (ds n)).1 = .endOfInput := by
  refine Spent.next_after ?_ hds n
  obtain ⟨c, hrc, hread⟩ := exists_readAt_of_next h
  have hcases := hu.isOpen hs
  rcases readAt_malformed hread with ⟨before, exhausted, hbefore, hscan, hresync⟩ |
    ⟨before, after, t, hbefore, hscan, htoken, hafter⟩
  · -- The text cannot be scanned, so it is open.
    have hlead := (hr.trans hrc).trans hbefore
    have hthere := hlead.trans (leads_of_scan_fault hscan)
    have hlined := Cursor.lined_ofText text
    obtain ⟨-, hagain, hfaults⟩ := (hlead.lined hlined).fault_cases hscan
    rw [hagain] at hfaults
    obtain rfl : start = r'.cursor := hstart.eq_of_place hthere (hplace.trans hfaults.2.1)
    refine ⟨hthere.ending.trans (Cursor.ending_ofText text), .inr ⟨hresync, ?_⟩⟩
    rcases hcases with hhalf | hopen
    · exact absurd hagain (scanFrom_half_ne_fault (hthere.lined hlined) hhalf false e _ _)
    · obtain ⟨e', hfault⟩ := hopen.exists_fault hthere false
      obtain ⟨-, -, rfl⟩ := Scan.fault.inj (hagain.symm.trans hfault)
      exact ⟨e, hagain⟩
  · have hlead := (hr.trans hrc).trans hbefore
    have hnil := remaining_of_scan_token hlead hscan hstart (hplace.trans htoken.symm) hcases
    refine ⟨((hlead.trans (leads_of_scan_token hscan)).trans hafter).ending.trans
      (Cursor.ending_ofText text), .inl ?_⟩
    exact List.suffix_nil.1 (hnil ▸ hafter.suffix)

/-- A text with quoted text in it that lacks its end. -/
def openQuoteText : Text :=
  "a. X = 'b\nc. d.\n"

/-- The reader behind the first sentence of it. -/
def beforeOpenQuote : Reader :=
  ⟨(Cursor.ofText openQuoteText).advance 2, false, 0⟩

/-- Where the quoted text starts. -/
def atOpenQuote : Cursor :=
  (Cursor.ofText openQuoteText).advance 7

theorem next_of_atOpenQuote :
    atOpenQuote.remaining.IsUnterminated Flags.standard.charEscapes ∧
      ¬atOpenQuote.remaining.StopsInEscape Flags.standard.charEscapes ∧
      ∃ e r', beforeOpenQuote.next .standard = (.error (.malformed e), r') ∧
        atOpenQuote.place = e.place ∧
        ∀ n, ((r'.after (fun _ => .standard) n).next .standard).1 = .endOfInput := by
  have hstart : (Cursor.ofText openQuoteText).Leads atOpenQuote :=
    Cursor.leads_advance (by decide)
  have hu : atOpenQuote.remaining.IsUnterminated Flags.standard.charEscapes :=
    Text.isUnterminated_of_scan (t := "b\nc. d.\n") (u := [.char '\'']) .single
      (("b\nc. d.\n" : Text).map .plain) hstart (by decide) (by decide) (by decide) (by decide)
      (by decide +kernel)
  have hs : ¬atOpenQuote.remaining.StopsInEscape Flags.standard.charEscapes :=
    Text.not_stopsInEscape (by decide)
  have hplace : (beforeOpenQuote.next .standard).1.place? = some atOpenQuote.place := by
    decide +kernel
  obtain ⟨e, he, hplace⟩ := Outcome.exists_of_place? hplace
  have hnext : beforeOpenQuote.next .standard =
      (.error (.malformed e), (beforeOpenQuote.next .standard).2) := by rw [← he]
  exact ⟨hu, hs, e, _, hnext, hplace.symm, next_of_isUnterminated (Cursor.leads_advance (by decide))
    hnext hstart hplace.symm hu hs fun _ => rfl⟩

/-- Quoted text that stops within an escape sequence. -/
def cutEscapeText : Text :=
  "'a. b. \\"

/-- Within an escape sequence the end of the input goes unnoticed: a sentence is read inside of the
quoted text. -/
theorem next_of_cutEscapeText :
    (Cursor.ofText cutEscapeText).remaining.IsUnterminated Flags.standard.charEscapes ∧
      ∃ e r', (Reader.ofCursor (.ofText cutEscapeText) 0).next .standard =
          (.error (.malformed e), r') ∧
        (Cursor.ofText cutEscapeText).place = e.place ∧
        ∃ s, (r'.next .standard).1 = .sentence s := by
  have hu : (Cursor.ofText cutEscapeText).remaining.IsUnterminated Flags.standard.charEscapes :=
    Text.isUnterminated_of_scan (t := "a. b. \\") (u := [.char '\\', .char '\'']) .single
      (("a. b. " : Text).map .plain ++ [.escaped '\\']) (.refl _) (by decide) (by decide)
      (by decide) (by decide) (by decide +kernel)
  have hplace : ((Reader.ofCursor (.ofText cutEscapeText) 0).next .standard).1.place? =
      some (Cursor.ofText cutEscapeText).place := by
    decide +kernel
  obtain ⟨e, he, hplace⟩ := Outcome.exists_of_place? hplace
  have hnext : (Reader.ofCursor (.ofText cutEscapeText) 0).next .standard =
      (.error (.malformed e), ((Reader.ofCursor (.ofText cutEscapeText) 0).next .standard).2) := by
    rw [← he]
  obtain ⟨s, after, hs⟩ := exists_next_sentence (d := .standard)
    (r := ((Reader.ofCursor (.ofText cutEscapeText) 0).next .standard).2) (by decide +kernel)
  exact ⟨hu, e, _, hnext, hplace.symm, s, by rw [hs]⟩

end Reader

end PrologText
