import PrologText.Proofs.Lookahead
import PrologText.Proofs.Positions

/-!
# Texts that go on

What is scanned at the start of a text stays the same when the text goes on, as long as white space
stands between. Main statement: a token is scanned in the same way if something is added to the text
behind it (`scan_prolongs`). The case that nothing is added says that scanning does not depend on
what stands before.
-/

namespace PrologText

/-! ## Added lines -/

/-- Some lines with `m` added to the last of them and the lines `ms` behind it. -/
def Text.glue (m : Text) (ms : List Text) : List Text → List Text
  | [] => []
  | [l] => (l ++ m) :: ms
  | l :: l' :: ls => l :: glue m ms (l' :: ls)

theorem Text.glue_nil_nil (ls : List Text) : glue [] [] ls = ls := by
  fun_induction glue [] [] ls with
  | case1 => rfl
  | case2 l => rw [List.append_nil]
  | case3 l l' ls ih => rw [ih]

theorem Text.flatten_glue (m : Text) (ms : List Text) {ls : List Text} (h : ls ≠ []) :
    (glue m ms ls).flatten = ls.flatten ++ (m ++ ms.flatten) := by
  fun_induction glue m ms ls with
  | case1 => exact absurd rfl h
  | case2 l => simp
  | case3 l l' ls ih =>
    rw [List.flatten_cons, ih nofun, List.flatten_cons (l := l), List.append_assoc]

namespace Cursor

/-- Nothing is added, or something remains before a cursor. -/
def Open (m : Text) (ms : List Text) (c : Cursor) : Prop :=
  m = [] ∧ ms = [] ∨ c.remaining ≠ []

/-- The second cursor has before it what the first one has, with `m` added to the last line and the
lines `ms` behind it. Unless nothing is added, the first text ends in white space. -/
structure Prolongs (m : Text) (ms : List Text) (c e : Cursor) : Prop where
  ending : c.ending = .endOfInput
  ending' : e.ending = .endOfInput
  lines : e.rest :: e.later = Text.glue m ms (c.rest :: c.later)
  blank : m = [] ∧ ms = [] ∨ c.remaining.EndsBlank

variable {m : Text} {ms : List Text} {c d e e' : Cursor}

theorem Leads.open (h : c.Leads d) (ho : d.Open m ms) : c.Open m ms :=
  ho.imp_right fun hne hnil => hne (List.suffix_nil.1 (hnil ▸ h.suffix))

namespace Prolongs

theorem «open» (h : c.Prolongs m ms e) : c.Open m ms :=
  h.blank.imp_right Text.EndsBlank.ne_nil

/-- What is added is added to this line or behind it. -/
theorem line_cases (h : c.Prolongs m ms e) :
    (c.later = [] ∧ e.rest = c.rest ++ m ∧ e.later = ms) ∨
      (c.later ≠ [] ∧ e.rest = c.rest ∧ e.later = Text.glue m ms c.later) := by
  have hlines := h.lines
  cases hl : c.later with
  | nil =>
    rw [hl] at hlines
    exact .inl ⟨rfl, List.cons.inj hlines⟩
  | cons l ls =>
    rw [hl] at hlines
    exact .inr ⟨nofun, List.cons.inj hlines⟩

/-- A line that goes on does so behind white space. -/
theorem rest (h : c.Prolongs m ms e) :
    ∃ u, e.rest = c.rest ++ u ∧ (m = [] → u = []) ∧ (u = [] ∨ c.rest.EndsBlank) := by
  rcases h.line_cases with ⟨hl, hr, -⟩ | ⟨-, hr, -⟩
  · refine ⟨m, hr, id, h.blank.imp (·.1) fun hb => ?_⟩
    rwa [remaining, hl, List.flatten_nil, List.append_nil] at hb
  · exact ⟨[], by rw [hr, List.append_nil], fun _ => rfl, .inl rfl⟩

theorem rest_eq_nil (h : c.Prolongs m ms e) : e.rest = [] ↔ c.rest = [] := by
  obtain ⟨u, hu, -, hb⟩ := h.rest
  constructor
  · intro he
    rw [hu] at he
    exact (List.append_eq_nil_iff.1 he).1
  · intro hc
    rcases hb with rfl | hb
    · rw [hu, hc, List.append_nil]
    · exact absurd hc hb.ne_nil

theorem isEmpty_rest (h : c.Prolongs m ms e) : e.rest.isEmpty = c.rest.isEmpty := by
  rw [Bool.eq_iff_iff, List.isEmpty_iff, List.isEmpty_iff, h.rest_eq_nil]

theorem remaining (h : c.Prolongs m ms e) : e.remaining = c.remaining ++ (m ++ ms.flatten) := by
  have := congrArg List.flatten h.lines
  rwa [Text.flatten_glue m ms (List.cons_ne_nil _ _)] at this

theorem upTo (h : c.Prolongs m ms e) (h' : d.Prolongs m ms e') (hd : c.Leads d) (he : e.Leads e') :
    e.upTo e' = c.upTo d := by
  have heq := h.remaining
  rw [hd.remaining_eq, he.remaining_eq, h'.remaining, List.append_assoc] at heq
  exact List.append_cancel_right heq

theorem blank_of_leads (h : c.Prolongs m ms e) (hd : c.Leads d) (ho : d.Open m ms) :
    m = [] ∧ ms = [] ∨ d.remaining.EndsBlank := by
  rcases ho with hnone | hne
  · exact .inl hnone
  · exact h.blank.imp_right fun hb => hb.of_suffix hd.suffix hne

theorem advance (h : c.Prolongs m ms e) {n : Nat} (hn : n ≤ c.rest.length)
    (ho : (c.advance n).Open m ms) : (c.advance n).Prolongs m ms (e.advance n) := by
  refine ⟨h.ending, h.ending', ?_, h.blank_of_leads (leads_advance hn) ho⟩
  simp only [Cursor.advance]
  rcases h.line_cases with ⟨hl, hr, hl'⟩ | ⟨hl, hr, hl'⟩
  · rw [hl, hl', hr, List.drop_append_of_le_length hn]
    rfl
  · obtain ⟨l, ls, hcons⟩ := List.exists_cons_of_ne_nil hl
    rw [hl', hr, hcons]
    rfl

/-- If something remains behind a line, nothing is added to it. -/
theorem rest_eq (h : c.Prolongs m ms e) (ho : c.toLineEnd.Open m ms) : e.rest = c.rest := by
  rcases h.line_cases with ⟨hl, hr, -⟩ | ⟨-, hr, -⟩
  · rcases ho with ⟨rfl, -⟩ | hne
    · rw [hr, List.append_nil]
    · exact absurd (by simp [Cursor.remaining, Cursor.toLineEnd, Cursor.advance, hl]) hne
  · exact hr

theorem toLineEnd (h : c.Prolongs m ms e) (ho : c.toLineEnd.Open m ms) :
    c.toLineEnd.Prolongs m ms e.toLineEnd := by
  rw [Cursor.toLineEnd, Cursor.toLineEnd, h.rest_eq ho]
  exact h.advance (Nat.le_refl _) ho

theorem toEnd (h : c.Prolongs [] [] e) : c.toEnd.Prolongs [] [] e.toEnd := by
  have hend (c : Cursor) : c.toEnd.rest = [] ∧ c.toEnd.later = [] := by
    have := c.unread_toEnd
    rw [unread, Nat.add_eq_zero_iff, List.length_eq_zero_iff] at this
    cases hl : c.toEnd.later with
    | nil => exact ⟨this.1, rfl⟩
    | cons l ls => simp [hl, extent] at this
  refine ⟨c.leads_toEnd.ending.trans h.ending, e.leads_toEnd.ending.trans h.ending', ?_,
    .inl ⟨rfl, rfl⟩⟩
  rw [(hend c).1, (hend c).2, (hend e).1, (hend e).2]
  rfl

/-- The line after this one. -/
theorem nextLine (h : c.Prolongs m ms e) {l : Text} {ls : List Text} (hl : c.later = l :: ls)
    (ho : (atLine (c.number + 1) l ls c.ending).Open m ms) :
    e.rest = c.rest ∧ ∃ l' ls', e.later = l' :: ls' ∧
      (atLine (c.number + 1) l ls c.ending).Prolongs m ms
        (atLine (e.number + 1) l' ls' e.ending) := by
  rcases h.line_cases with ⟨hnil, -, -⟩ | ⟨-, hr, hl'⟩
  · simp [hl] at hnil
  · refine ⟨hr, ?_⟩
    rw [hl] at hl'
    have hblank := h.blank_of_leads (leads_atLine hl) ho
    cases ls with
    | nil => exact ⟨l ++ m, ms, hl', h.ending, h.ending', rfl, hblank⟩
    | cons l' ls => exact ⟨l, Text.glue m ms (l' :: ls), hl', h.ending, h.ending', rfl, hblank⟩

theorem skipEmpty (h : c.Prolongs m ms e) (hr : c.rest = []) :
    (c.skipEmpty c.later).Prolongs m ms (e.skipEmpty e.later) := by
  induction hlater : c.later generalizing c e with
  | nil =>
    -- Nothing remains, so nothing is added.
    have hnone : m = [] ∧ ms = [] :=
      h.open.resolve_right (by simp [Cursor.remaining, hr, hlater])
    rcases h.line_cases with ⟨-, -, hl'⟩ | ⟨hl, -, -⟩
    · simpa only [hl', hnone.2, Cursor.skipEmpty] using h
    · exact absurd hlater hl
  | cons l ls ih =>
    have hnext : (atLine (c.number + 1) l ls c.ending).Open m ms := by
      refine h.open.imp_right fun hne => ?_
      simpa [Cursor.remaining, hr, hlater, atLine] using hne
    obtain ⟨-, l', ls', hl', hp⟩ := h.nextLine hlater hnext
    have hempty : l'.isEmpty = l.isEmpty := hp.isEmpty_rest
    rw [hl']
    simp only [Cursor.skipEmpty, hempty]
    split
    · next hl => exact ih hp (List.isEmpty_iff.1 hl) rfl
    · exact hp

theorem fill (h : c.Prolongs m ms e) : c.fill.Prolongs m ms e.fill := by
  simp only [Cursor.fill, h.isEmpty_rest]
  split
  · next hr => exact h.skipEmpty (List.isEmpty_iff.1 hr)
  · exact h

theorem peek (h : c.Prolongs m ms e) : c.peek = .ok c.fill.rest.head? ∧ e.peek = c.peek := by
  have hpeek {c : Cursor} (hc : c.ending = .endOfInput) : c.peek = .ok c.fill.rest.head? := by
    have hending : c.fill.ending = .endOfInput := c.leads_fill.ending.trans hc
    rw [Cursor.peek, hending]
    cases c.fill.rest <;> rfl
  refine ⟨hpeek h.ending, ?_⟩
  rw [hpeek h.ending, hpeek h.ending']
  obtain ⟨u, hu, -, hb⟩ := h.fill.rest
  rw [hu]
  rcases hb with rfl | hb
  · rw [List.append_nil]
  · obtain ⟨g, t, ht⟩ := List.exists_cons_of_ne_nil hb.ne_nil
    rw [ht]
    rfl

end Prolongs

end Cursor

theorem afterComment?_of_some {c : Cursor} {n : Nat} (h : commentLengthFrom 0 c.rest = some n)
    (later : List Text) : afterComment? c later = some (c.advance n) := by
  cases later <;> simp [afterComment?, h]

theorem afterComment?_eq_none {c : Cursor} {later : List Text} :
    afterComment? c later = none ↔
      commentLengthFrom 0 c.rest = none ∧ ∀ l ∈ later, commentLengthFrom 0 l = none := by
  induction later generalizing c with
  | nil => simp [afterComment?]
  | cons l ls ih =>
    cases h : commentLengthFrom 0 c.rest with
    | some n => simp [afterComment?, h]
    | none =>
      simp only [afterComment?, h, ih, List.forall_mem_cons, true_and]
      rfl

/-- A comment that ends within a text ends there also if the text goes on. -/
theorem afterComment?_prolongs {m : Text} {ms : List Text} {c d e : Cursor} {later : List Text}
    (h : c.Prolongs m ms e) (hl : c.later = later) (hs : afterComment? c later = some d)
    (ho : d.Open m ms) : ∃ d', afterComment? e e.later = some d' ∧ d.Prolongs m ms d' := by
  have hhere {n : Nat} {c e : Cursor} (h : c.Prolongs m ms e)
      (hn : commentLengthFrom 0 c.rest = some n) (ho : (c.advance n).Open m ms) :
      ∃ d', afterComment? e e.later = some d' ∧ (c.advance n).Prolongs m ms d' := by
    obtain ⟨u, hu, -, -⟩ := h.rest
    have hn' : commentLengthFrom 0 e.rest = some n := hu ▸ commentLengthFrom_prolong u hn
    exact ⟨_, afterComment?_of_some hn' _, h.advance (by simpa using commentLengthFrom_le hn) ho⟩
  induction later generalizing c e with
  | nil =>
    obtain ⟨n, hn, rfl⟩ := Option.map_eq_some_iff.1 hs
    exact hhere h hn ho
  | cons l ls ih =>
    cases hn : commentLengthFrom 0 c.rest with
    | some n =>
      rw [afterComment?_of_some hn] at hs
      cases hs
      exact hhere h hn ho
    | none =>
      simp only [afterComment?, hn] at hs
      have hnext := (leads_afterComment? rfl hs).open ho
      obtain ⟨hr, l', ls', hl', hp⟩ := h.nextLine hl hnext
      obtain ⟨d', hd', hpd⟩ := ih hp rfl hs
      refine ⟨d', ?_, hpd⟩
      simp only [hl', afterComment?, hr, hn]
      exact hd'

/-- What lies behind the opening of a comment at a cursor, and behind its end. -/
theorem afterOpening_prolongs {m : Text} {ms : List Text} {c e after : Cursor}
    (h : c.Prolongs m ms e) (hlen : 2 ≤ c.rest.length)
    (ha : afterComment? (c.advance 2) c.later = some after) (ho : after.Open m ms) :
    ∃ after', afterComment? (e.advance 2) e.later = some after' ∧ after.Prolongs m ms after' ∧
      c.Leads after ∧ e.Leads after' := by
  have hlen' : 2 ≤ e.rest.length := by
    obtain ⟨u, hu, -, -⟩ := h.rest
    rw [hu, List.length_append]
    omega
  have hinside := leads_afterComment? (c := c.advance 2) rfl ha
  obtain ⟨after', ha', hafter⟩ :=
    afterComment?_prolongs (h.advance hlen (hinside.open ho)) rfl ha ho
  exact ⟨after', ha', hafter, (Cursor.leads_advance hlen).trans hinside,
    (Cursor.leads_advance hlen').trans (leads_afterComment? (c := e.advance 2) rfl ha')⟩

/-- A comment that does not end goes on to the end of the same text. -/
theorem afterOpening_eq_none {c e : Cursor} (h : c.Prolongs [] [] e)
    (ha : afterComment? (c.advance 2) c.later = none) :
    afterComment? (e.advance 2) e.later = none := by
  have hlines := h.lines
  rw [Text.glue_nil_nil] at hlines
  obtain ⟨hrest, hlater⟩ := List.cons.inj hlines
  rw [afterComment?_eq_none] at ha ⊢
  simpa only [Cursor.advance, hrest, hlater] using ha

/-! ## Scanning -/

/-- Quoted text that ends in the same way. -/
inductive QuotedEnd.Same (m : Text) (ms : List Text) : QuotedEnd → QuotedEnd → Prop where
  | closed {text after after'} (h : after.Prolongs m ms after') :
    Same m ms (.closed text after) (.closed text after')
  | unclosed {stopped stopped'} (h : stopped.Prolongs m ms stopped') :
    Same m ms (.unclosed stopped) (.unclosed stopped')
  | faulty {cause stopped stopped'} (h : stopped.Prolongs m ms stopped') :
    Same m ms (.faulty cause stopped) (.faulty cause stopped')

/-- Scanning that comes to the same but for places. -/
inductive Scan.Same (m : Text) (ms : List Text) : Scan → Scan → Prop where
  | token {t t' after after'} (ht : t.unplaced = t'.unplaced) (h : after.Prolongs m ms after') :
    Same m ms (.token t after) (.token t' after')
  | fault {e e' start start' exhausted} (he : e.unplaced = e'.unplaced)
    (h : start.Prolongs m ms start') :
    Same m ms (.fault e start exhausted) (.fault e' start' exhausted)

/-- Quoted text is closed, and something remains behind it, or nothing is added. -/
def QuotedEnd.Open (m : Text) (ms : List Text) : QuotedEnd → Prop
  | closed _ after => after.Open m ms
  | _ => m = [] ∧ ms = []

/-- A token is scanned, and something remains behind it, or nothing is added. -/
def Scan.Open (m : Text) (ms : List Text) : Scan → Prop
  | token _ after => after.Open m ms
  | _ => m = [] ∧ ms = []

theorem QuotedEnd.Open.leads {m : Text} {ms : List Text} {q : QuotedEnd} {c : Cursor}
    (h : q.Open m ms) (ha : q.Ahead c) : c.Open m ms := by
  cases q with
  | closed => exact Cursor.Leads.open ha h
  | _ => exact .inl h

theorem Scan.Open.leads {m : Text} {ms : List Text} {s : Scan} {c : Cursor}
    (h : s.Open m ms) (ha : s.Ahead c) : c.Open m ms := by
  cases s with
  | token => exact Cursor.Leads.open ha h
  | _ => exact .inl h

variable {m : Text} {ms : List Text} {c e : Cursor}

/-- Nothing is added, or the step is made with what is there. -/
def QuotedStep.Open (m : Text) : QuotedStep → Prop
  | unclosed | faulty _ => m = []
  | _ => True

theorem QuotedForm.step_prolong {f : QuotedForm} (hq : CharClass.isBlank f.quote = false)
    (seen : Text) {t u : Text} (hu : u = [] ∨ t.EndsBlank) (ho : (f.step seen t).Open u) :
    f.step seen (t ++ u) = f.step seen t := by
  rcases hu with rfl | hb
  · rw [List.append_nil]
  obtain ⟨g, t, rfl⟩ := List.exists_cons_of_ne_nil hb.ne_nil
  simp only [List.cons_append, step] at ho ⊢
  by_cases hg : g = .char f.quote
  · subst hg
    -- A quote is no white space, so there is something behind it.
    obtain ⟨g', t, rfl⟩ := hb.exists_cons hq
    rw [if_pos rfl, if_pos rfl]
    rfl
  · simp only [hg, if_false] at ho ⊢
    by_cases hesc : g = .char '\\' ∧ f.escapes
    · simp only [hesc, and_self, if_true] at ho ⊢
      cases he : Escape.ofText t with
      | faulty cause =>
        rw [he] at ho
        rw [show u = [] from ho, List.append_nil, he]
      | _ => rw [Escape.ofText_prolong u (by simp [he]), he]
    · simp only [hesc, if_false]

theorem scanQuoted_prolongs {f : QuotedForm} {seen : Text}
    (hq : CharClass.isBlank f.quote = false) (h : c.Prolongs m ms e)
    (ho : (scanQuoted f seen c).Open m ms) :
    QuotedEnd.Same m ms (scanQuoted f seen c) (scanQuoted f seen e) := by
  induction hn : c.unread using Nat.strongRecOn generalizing seen c e with
  | _ k ih =>
    subst hn
    have hfits := f.step_fits seen c.fill.rest
    obtain ⟨u, hrest, hnone, hu⟩ := h.fill.rest
    rw [scanQuoted_eq f seen c] at ho ⊢
    rw [scanQuoted_eq f seen e, hrest, QuotedForm.step_prolong hq seen hu (by
      cases hstep : f.step seen c.fill.rest <;> simp_all [QuotedStep.Open, QuotedEnd.Open])]
    cases hstep : f.step seen c.fill.rest with
    | unclosed => exact .unclosed h.fill
    | faulty => exact .faulty h.fill
    | closed text n =>
      rw [hstep] at hfits ho
      exact .closed (h.fill.advance hfits.2 ho)
    | more seen' n =>
      rw [hstep] at hfits ho
      have hnext := h.fill.advance hfits.2 (ho.leads (scanQuoted_ahead ..))
      exact ih _ (c.unread_fill_advance_lt hfits.1 hfits.2) hnext ho rfl

theorem Cursor.Prolongs.lexeme_eq {ch : Char} (h : c.Prolongs m ms e) :
    Lexeme.ofText ch e.rest = Lexeme.ofText ch c.rest := by
  obtain ⟨u, hu, -, hb⟩ := h.rest
  rw [hu]
  rcases hb with rfl | hb
  · rw [List.append_nil]
  · exact Lexeme.ofText_prolong u ch hb

namespace Scan

variable {start start' after after' stopped stopped' : Cursor} {layout : Bool}

theorem name_prolongs {kind : TokenKind} {text : Text} (h : after.Prolongs m ms after') :
    Same m ms (name kind text layout start after) (name kind text layout start' after') := by
  obtain ⟨hp, hp'⟩ := h.peek
  simp only [name, hp', hp]
  exact .token rfl h

theorem dot_prolongs (h : after.Prolongs m ms after') :
    Same m ms (dot layout start after) (dot layout start' after') := by
  obtain ⟨hp, hp'⟩ := h.peek
  simp only [dot, hp', hp]
  split <;> exact .token rfl h

theorem faultAt_prolongs {cause : SyntaxCause} {exhausted : Bool}
    (h : start.Prolongs m ms start') (hs : stopped.Prolongs m ms stopped')
    (hl : start.Leads stopped) (hl' : start'.Leads stopped') :
    Same m ms (faultAt cause start stopped exhausted) (faultAt cause start' stopped' exhausted) :=
  .fault (by simp only [SyntaxError.unplaced, h.upTo hs hl hl']) h

theorem unended_prolongs {cause : SyntaxCause} (h : start.Prolongs m ms start')
    (hs : stopped.Prolongs m ms stopped') (hl : start.Leads stopped) (hl' : start'.Leads stopped') :
    Same m ms (unended cause start stopped) (unended cause start' stopped') := by
  simp only [unended, hs.ending, hs.ending']
  exact faultAt_prolongs h hs hl hl'

theorem open_of_name {kind : TokenKind} {text : Text}
    (ho : (name kind text layout start after).Open m ms) : after.Open m ms := by
  unfold name at ho
  split at ho
  · exact .inl ho
  · exact ho

theorem open_of_dot (ho : (dot layout start after).Open m ms) : after.Open m ms := by
  unfold dot at ho
  split at ho
  · exact .inl ho
  · split at ho <;> exact ho

theorem open_of_quoted {f : QuotedForm} {inside : Cursor}
    (ho : (quoted f layout start inside).Open m ms) : (scanQuoted f [] inside).Open m ms := by
  unfold quoted at ho
  cases hs : scanQuoted f [] inside with
  | unclosed stopped =>
    simp only [hs, unended] at ho
    split at ho <;> exact ho
  | faulty cause stopped =>
    rw [hs] at ho
    exact ho
  | closed text after =>
    simp only [hs] at ho
    split at ho
    · exact open_of_name ho
    · exact ho

theorem quoted_prolongs {f : QuotedForm} (hq : CharClass.isBlank f.quote = false) {n : Nat}
    (h : start.Prolongs m ms start') (hn : n ≤ start.rest.length)
    (ho : (quoted f layout start (start.advance n)).Open m ms) :
    Same m ms (quoted f layout start (start.advance n))
      (quoted f layout start' (start'.advance n)) := by
  have hqo := open_of_quoted ho
  have hn' : n ≤ start'.rest.length := by
    obtain ⟨u, hu, -, -⟩ := h.rest
    rw [hu, List.length_append]
    omega
  have hsame := scanQuoted_prolongs hq (h.advance hn (hqo.leads (scanQuoted_ahead ..))) hqo
  have hahead := (scanQuoted_ahead f [] (start.advance n)).mono (Cursor.leads_advance hn)
  have hahead' := (scanQuoted_ahead f [] (start'.advance n)).mono (Cursor.leads_advance hn')
  unfold quoted
  revert hsame hahead hahead'
  generalize scanQuoted f [] (start.advance n) = q, scanQuoted f [] (start'.advance n) = q'
  intro hsame hahead hahead'
  cases hsame with
  | unclosed hs => exact unended_prolongs h hs hahead hahead'
  | faulty hs => exact faultAt_prolongs h hs hahead hahead'
  | closed hs =>
    simp only
    split
    · exact name_prolongs hs
    · exact .token rfl hs

theorem lexeme_prolongs {flags : Flags} {ch : Char} (h : start.Prolongs m ms start')
    (hr : start.rest ≠ []) (ho : (lexeme flags layout ch start).Open m ms) :
    Same m ms (lexeme flags layout ch start) (lexeme flags layout ch start') := by
  obtain ⟨u, hu, -, -⟩ := h.rest
  have htake {n : Nat} (hn : n ≤ start.rest.length) : start'.rest.take n = start.rest.take n := by
    rw [hu, List.take_append_of_le_length hn]
  have hfits := Lexeme.ofText_fits ch hr
  unfold lexeme at ho ⊢
  rw [h.lexeme_eq]
  cases hl : Lexeme.ofText ch start.rest with
  | plain kind lead length =>
    rw [hl] at ho hfits
    exact .token (by simp only [Token.unplaced, htake hfits.2]) (h.advance hfits.2 ho)
  | name length =>
    rw [hl] at ho hfits
    have htext : start'.rest.take length = _ := htake hfits
    simp only [htext]
    exact name_prolongs (h.advance hfits (open_of_name ho))
  | dot =>
    rw [hl] at ho hfits
    exact dot_prolongs (h.advance hfits (open_of_dot ho))
  | quotedText q =>
    rw [hl] at ho hfits
    exact quoted_prolongs (Lexeme.isBlank_of_quotedText hl) h hfits ho
  | charCode =>
    rw [hl] at ho hfits
    exact quoted_prolongs (show CharClass.isBlank '\'' = false by decide) h hfits ho
  | unknown c => exact faultAt_prolongs h h (.refl _) (.refl _)

end Scan

/-- The line that is scanned, with a character first that is not blank: whether a comment opens
there does not depend on what is added. -/
theorem Cursor.Prolongs.opensComment_eq {g : Glyph} {t : Text} (h : c.Prolongs m ms e)
    (hd : c.fill.rest = g :: t) (hb : ¬CharClass.isBlank g.code = true) :
    ∃ u, e.fill.rest = g :: (t ++ u) ∧
      Lexeme.opensComment (g :: (t ++ u)) = Lexeme.opensComment (g :: t) := by
  obtain ⟨u, hu, -, hend⟩ := h.fill.rest
  rw [hd] at hu hend
  refine ⟨u, hu, ?_⟩
  rcases hend with rfl | hend
  · rw [List.append_nil]
  · exact Lexeme.opensComment_prolong u g (hend.tail (by simpa using hb)).ne_nil

theorem scanFrom_prolongs (flags : Flags) (layout : Bool) (c : Cursor) :
    ∀ e, c.Prolongs m ms e → (scanFrom flags layout c).Open m ms →
      Scan.Same m ms (scanFrom flags layout c) (scanFrom flags layout e) := by
  fun_induction scanFrom flags layout c with
  | case1 layout c d hd reason he =>
    -- The lines of these texts do not fail.
    intro e h ho
    have := he.symm.trans h.fill.ending
    cases this
  | case2 layout c d hd he =>
    intro e h ho
    rw [scanFrom_eq flags layout e, h.fill.rest_eq_nil.2 hd, h.fill.ending']
    exact .token rfl h.fill
  | case3 layout c d g t hd _ _ hb _ ih =>
    intro e h ho
    obtain ⟨u, hu, -, -⟩ := h.fill.rest
    rw [show c.fill.rest = _ from hd, List.cons_append] at hu
    simp only [scanFrom_eq flags layout e, hu, hb, if_true]
    exact ih _ (h.fill.advance (by simp [show c.fill.rest = _ from hd])
      (ho.leads (scanFrom_ahead ..))) ho
  | case4 layout c d t _ after hk hd _ hb =>
    intro e h ho
    -- The comment takes the whole line, which ends within the first text.
    have hrest : e.fill.rest = d.rest := h.fill.rest_eq ho
    simp only [scanFrom_eq flags layout e, hrest.trans hd, hb, hk, if_true]
    exact .token (by simp only [Token.unplaced, hd]) (h.fill.toLineEnd ho)
  | case5 layout c d t _ after hk hd _ hb _ ih =>
    intro e h ho
    obtain ⟨u, hu, -⟩ := h.opensComment_eq hd hb
    simp only [scanFrom_eq flags layout e, hu, hb, hk, if_true]
    exact ih _ (h.fill.toLineEnd (ho.leads (scanFrom_ahead ..))) ho
  | case6 layout c d g t hd _ _ hb hp hc ha =>
    intro e h ho
    -- A comment that is not closed is open to what is added, so nothing is.
    obtain ⟨rfl, rfl⟩ : m = [] ∧ ms = [] := by
      rw [Scan.unended] at ho
      split at ho <;> exact ho
    obtain ⟨u, hu, hopen⟩ := h.opensComment_eq hd hb
    have ha' := afterOpening_eq_none h.fill ha
    simp only [scanFrom_eq flags layout e, hu, hb, hp, hopen, hc, ha', if_true, if_false]
    exact Scan.unended_prolongs h.fill h.fill.toEnd (Cursor.leads_toEnd _) (Cursor.leads_toEnd _)
  | case7 layout c d g t hd _ _ hb hp hc after ha hk =>
    intro e h ho
    obtain ⟨u, hu, hopen⟩ := h.opensComment_eq hd hb
    obtain ⟨after', ha', hafter, hleads, hleads'⟩ :=
      afterOpening_prolongs h.fill (hd ▸ Lexeme.two_le_of_opensComment hc) ha ho
    simp only [scanFrom_eq flags layout e, hu, hb, hp, hopen, hc, ha', hk, if_true, if_false]
    exact .token (by simp only [Token.unplaced, h.fill.upTo hafter hleads hleads']; rfl) hafter
  | case8 layout c d g t hd _ _ hb hp hc after ha hk _ ih =>
    intro e h ho
    obtain ⟨u, hu, hopen⟩ := h.opensComment_eq hd hb
    obtain ⟨after', ha', hafter, -, -⟩ := afterOpening_prolongs h.fill
      (hd ▸ Lexeme.two_le_of_opensComment hc) ha (ho.leads (scanFrom_ahead ..))
    simp only [scanFrom_eq flags layout e, hu, hb, hp, hopen, hc, ha', hk, if_true, if_false]
    exact ih _ hafter ho
  | case9 layout c d g t hd hne _ hb hp hc =>
    intro e h ho
    obtain ⟨u, hu, hopen⟩ := h.opensComment_eq hd hb
    simp only [scanFrom_eq flags layout e, hu, hb, hp, hopen, hc, if_false]
    exact Scan.lexeme_prolongs h.fill hne ho

/-- A token is scanned in the same way if something is added to the text behind it. -/
theorem scan_prolongs (flags : Flags) (h : c.Prolongs m ms e) (ho : (scan flags c).Open m ms) :
    Scan.Same m ms (scan flags c) (scan flags e) :=
  scanFrom_prolongs flags false c e h ho

theorem scan_token_prolongs {flags : Flags} {t : Token} {after : Cursor}
    (hs : scan flags c = .token t after) (h : c.Prolongs m ms e) (ho : after.Open m ms) :
    ∃ t' after', scan flags e = .token t' after' ∧ t.unplaced = t'.unplaced ∧
      after.Prolongs m ms after' := by
  have hsame := scan_prolongs flags h
  rw [hs] at hsame
  generalize scan flags e = s at hsame
  cases hsame ho with
  | token ht hafter => exact ⟨_, _, rfl, ht, hafter⟩

end PrologText
