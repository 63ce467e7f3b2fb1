import PrologText.Proofs.Comments
import PrologText.Proofs.Faults
import PrologText.Proofs.Truncation

/-!
# Layout between tokens

Where white space stands between tokens, more layout changes nothing but places. Main statement:
layout that is put behind white space outside all tokens and comments leaves every outcome as it is
(`Reader.outcome_inserting`).

Up to the point of insertion both texts have the same tokens, since scanning does not see what
stands behind the white space. From there scanning passes over the layout to the same lines.
-/

namespace PrologText

/-! ## Passing over layout -/

theorem commentLengthFrom_append {n : Nat} {body : Text} (h : ¬commentEnd <:+: body) (t : Text) :
    commentLengthFrom n (body ++ commentEnd ++ t) = some (n + body.length + 2) := by
  induction body generalizing n with
  | nil => rfl
  | cons g body ih =>
    rw [List.infix_cons_iff, not_or] at h
    have hne : ∀ u, g = .char '*' → body ++ commentEnd ++ t = .char '/' :: u → False := by
      rintro u rfl hu
      cases body with
      | nil => cases hu
      | cons g' body =>
        obtain ⟨rfl, -⟩ := List.cons.inj hu
        exact h.1 ⟨body, rfl⟩
    rw [List.cons_append, List.cons_append, commentLengthFrom, ih h.2, List.length_cons]
    · congr 1
      omega
    · exact hne

/-- A block comment ends at the first end that stands in it. -/
theorem eq_of_append_commentEnd {body body' t t' : Text} (h : ¬commentEnd <:+: body)
    (h' : ¬commentEnd <:+: body') (heq : body ++ commentEnd ++ t = body' ++ commentEnd ++ t') :
    t = t' := by
  have hlength : 0 + body.length + 2 = 0 + body'.length + 2 := by
    rw [← Option.some.injEq, ← commentLengthFrom_append h t, heq, commentLengthFrom_append h' t']
  have hbody : (body ++ commentEnd).length = (body' ++ commentEnd).length := by
    rw [List.length_append, List.length_append]
    omega
  exact (List.append_inj heq hbody).2

namespace Cursor

variable {flags : Flags} {layout : Bool} {c d e : Cursor} {gap gap' behind : Text}

/-- A line goes on to its newline. -/
theorem Lined.eq_nil_of_rest (hc : c.Lined) {body w : Text}
    (hr : c.rest = body ++ .char '\n' :: w) : w = [] := by
  rcases hc.rest_cases (by simp [hr]) with ⟨front, hfront, hno⟩ | ⟨-, hno⟩
  · rcases List.eq_nil_or_concat w with hnil | ⟨init, g, rfl⟩
    · exact hnil
    · have hlast : (body ++ .char '\n' :: init) ++ [g] = front ++ [.char '\n'] := by
        rw [← hfront, hr]
        simp
      rw [← (List.append_inj' hlast rfl).1] at hno
      simp at hno
  · simp [hr] at hno

/-- Scanning passes over a text before a cursor to what stands behind it. -/
def PassesOver (flags : Flags) (layout : Bool) (c : Cursor) (gap behind : Text) : Prop :=
  ∃ d, c.Leads d ∧ d.remaining = behind ∧
    scanFrom flags layout c = scanFrom flags (layout || !gap.isEmpty) d

theorem PassesOver.of_leads (h : d.PassesOver flags true gap' behind) (hd : c.Leads d)
    (hgap : gap ≠ []) (hscan : scanFrom flags layout c = scanFrom flags true d) :
    c.PassesOver flags layout gap behind := by
  obtain ⟨d', hd', hbehind, hscan'⟩ := h
  have hempty : gap.isEmpty = false := List.isEmpty_eq_false_iff.2 hgap
  exact ⟨d', hd.trans hd', hbehind, by rw [hscan, hscan', hempty]; simp⟩

theorem Lined.passesOver (hc : c.Lined) (layout : Bool)
    (hgap : gap.IsLayout flags.keepComments behind) (h : c.remaining = gap ++ behind) :
    c.PassesOver flags layout gap behind := by
  induction hgap generalizing c layout with
  | nil => exact ⟨c, .refl c, h, by simp⟩
  | blank hg ht ih =>
    obtain ⟨w, hrest, -, hleads, hremaining⟩ := hc.exists_fill_rest (u := []) (by simp) h
    exact (ih (hleads.lined hc) true hremaining).of_leads hleads (List.cons_ne_nil _ _)
      (scanFrom_blank layout hrest hg)
  | @line body t behind hk hb ht ih =>
    have hsplit : c.remaining = (.char '%' :: body) ++ .char '\n' :: (t ++ behind) := by
      rw [h, List.append_assoc]
      rfl
    obtain ⟨w, hrest, -, hleads, hremaining⟩ := hc.exists_fill_rest (by simpa using hb) hsplit
    obtain rfl := (c.leads_fill.lined hc).eq_nil_of_rest hrest
    refine (ih (hleads.lined hc) true hremaining).of_leads hleads (List.cons_ne_nil _ _) ?_
    rw [scanFrom_line layout hk hrest, toLineEnd, hrest]
    simp
  | @lastLine body hk hb =>
    obtain ⟨w, hrest, -, -, -⟩ := hc.exists_fill_rest (u := []) (by simp) h
    refine ⟨c.fill.toLineEnd, c.leads_fill.trans c.fill.leads_toLineEnd, ?_, ?_⟩
    · -- There is no newline, so the line is the last one.
      rcases (c.leads_fill.lined hc).rest_cases (by simp [hrest]) with ⟨front, hfront, -⟩ | ⟨hl, -⟩
      · rw [← remaining_fill, remaining, hfront] at h
        have : Glyph.char '\n' ∈ Glyph.char '%' :: body ++ [] := h ▸ by simp
        simp [hb] at this
      · simp [remaining, toLineEnd, advance, hl]
    · rw [scanFrom_line layout hk hrest]
      simp
  | @block body t behind hk hb ht ih =>
    obtain ⟨w, hrest, -, hopen, hinside⟩ := hc.exists_fill_rest (u := [.char '/']) (by decide) h
    replace hopen : c.Leads (c.fill.advance 2) := hopen
    replace hinside : (c.fill.advance 2).remaining = body ++ commentEnd ++ (t ++ behind) :=
      hinside.trans (List.append_assoc _ _ _)
    cases ha : afterComment? (c.fill.advance 2) c.fill.later with
    | none =>
      refine absurd ?_ ((afterComment?_eq_none_iff (hopen.lined hc)).1 ha)
      exact ⟨body, t ++ behind, hinside.symm⟩
    | some after =>
      have hclose := leads_afterComment? (c := c.fill.advance 2) rfl ha
      obtain ⟨body', hbody, hfirst⟩ := upTo_afterComment? (hopen.lined hc) rfl ha
      have hafter : after.remaining = t ++ behind := by
        rw [hclose.remaining_eq, hbody] at hinside
        exact eq_of_append_commentEnd hfirst hb hinside
      have hleads := hopen.trans hclose
      exact (ih (hleads.lined hc) true hafter).of_leads hleads (List.cons_ne_nil _ _)
        (scanFrom_block layout hk hrest ha)

/-! ## The same text behind two cursors -/

theorem Leads.later_suffix (h : c.Leads d) : d.later <:+ c.later := by
  rcases h.lines with ⟨-, -, hlater, -⟩ | ⟨-, hlater⟩
  · exact hlater ▸ List.suffix_rfl
  · exact (List.suffix_cons d.whole d.later).trans (hlater ▸ List.drop_suffix _ _)

variable {text text' : Text}

theorem Leads.lines_remaining (h : (ofText text).Leads c) (hr : c.rest ≠ []) :
    c.remaining.lines = c.rest :: c.later := by
  have hlined := h.lined (lined_ofText text)
  have hsplit : Text.IsSplit (c.rest :: c.later) := ⟨hlined.rest_cases hr, hlined.2⟩
  refine hsplit.lines_flatten (List.forall_mem_cons.2 ⟨hr, fun l hl => ?_⟩)
  have hlater : l ∈ (ofText text).later := h.later_suffix.subset hl
  refine Text.ne_nil_of_mem_lines (t := text) ?_
  revert hlater
  unfold ofText
  cases text.lines with
  | nil =>
    intro h
    cases h
  | cons line later => exact List.mem_cons_of_mem _

/-- Where the same text remains, the same lines do. -/
theorem Leads.alike_fill (h : (ofText text).Leads c) (h' : (ofText text').Leads e)
    (heq : c.remaining = e.remaining) : c.fill.Alike e.fill := by
  have hc := h.trans c.leads_fill
  have he := h'.trans e.leads_fill
  refine ⟨hc.ending.trans (ending_ofText text), he.ending.trans (ending_ofText text'), ?_,
    .inl ⟨rfl, rfl⟩⟩
  rw [Text.glue_nil_nil]
  by_cases hr : c.fill.rest = []
  · have hr' := fill_rest_of_remaining_nil (heq ▸ remaining_of_fill_nil hr)
    rw [hr, hr', later_fill hr, later_fill hr']
  · have hr' (hnil : e.fill.rest = []) : c.fill.rest = [] :=
      fill_rest_of_remaining_nil (heq.trans (remaining_of_fill_nil hnil))
    rw [← hc.lines_remaining hr, ← he.lines_remaining (mt hr' hr), remaining_fill, remaining_fill,
      heq]

/-! ## The same tokens -/

/-- The same tokens, but for places, are scanned at two cursors, and behind them scanning comes to
the same. -/
def Meets (flags : Flags) (c e : Cursor) : Prop :=
  ∃ ts us c' e', Scans flags c ts c' ∧ Scans flags e us e' ∧
    ts.map Token.unplaced = us.map Token.unplaced ∧
    Scan.Same [] [] (scan flags c') (scan flags e')

theorem Alike.meets (flags : Flags) (h : c.Alike e) : c.Meets flags e :=
  ⟨[], [], c, e, .nil, .nil, rfl, scan_alike flags h⟩

theorem bisimulation_meets (flags : Flags) : Bisimulation flags (Meets flags) := by
  rintro c e ⟨ts, us, c', e', hc, he, hts, hsame⟩
  cases hc with
  | nil =>
    cases he with
    | nil => exact hsame.related.mono (Alike.meets flags)
    | cons => cases hts
  | cons ht hc =>
    cases he with
    | nil => cases hts
    | cons hu he =>
      obtain ⟨hhead, htail⟩ := List.cons.inj hts
      rw [ht, hu]
      exact .token hhead ⟨_, _, c', e', hc, he, htail, hsame⟩

end Cursor

/-! ## Inserting layout -/

/-- A point between two texts is right behind white space outside all tokens and comments: from the
tokens before it to the point stand only white space and complete comments, white space last. -/
def Text.PartsAt (flags : Flags) (u v : Text) : Prop :=
  ∃ ts c gap, Scans flags (.ofText (u ++ v)) ts c ∧ u = (Cursor.ofText (u ++ v)).upTo c ++ gap ∧
    (∀ behind, gap.IsLayout flags.keepComments behind) ∧ gap.EndsBlank

variable {flags : Flags} {u v x : Text}

theorem Cursor.Prolongs.eq_of_ofText {m : Text} {ms : List Text}
    (h : (ofText u).Prolongs m ms (ofText (u ++ v))) : m ++ ms.flatten = v := by
  have hr := h.remaining
  rw [remaining_ofText, remaining_ofText] at hr
  exact (List.append_cancel_left hr).symm

theorem Cursor.Leads.remaining_of_upTo {c : Cursor} {gap : Text} (h : (ofText (u ++ v)).Leads c)
    (hu : u = (ofText (u ++ v)).upTo c ++ gap) : c.remaining = gap ++ v := by
  have hr := h.remaining_eq
  rw [remaining_ofText] at hr
  have hboth : (ofText (u ++ v)).upTo c ++ (gap ++ v) =
      (ofText (u ++ v)).upTo c ++ c.remaining := by
    rw [← List.append_assoc, ← hu]
    exact hr
  exact (List.append_cancel_left hboth).symm

/-- Up to the point the tokens do not depend on what stands behind it. -/
theorem Text.PartsAt.exists_scans (h : PartsAt flags u v) :
    ∃ (ts : List Token) (gap : Text), (∀ behind, gap.IsLayout flags.keepComments behind) ∧
      gap.EndsBlank ∧
      ∀ w, ∃ us c, Scans flags (.ofText (u ++ w)) us c ∧
        ts.map Token.unplaced = us.map Token.unplaced ∧ c.remaining = gap ++ w := by
  obtain ⟨ts', c', gap, hs, hu, hgap, hblank⟩ := h
  have hends : u.EndsBlank := hu ▸ hblank.append_left _
  have hremaining := hs.leads.remaining_of_upTo hu
  obtain ⟨m, ms, hm, -⟩ := Cursor.prolongs_ofText hends v
  have hshort : c'.ShortOf m ms := by
    rw [Cursor.ShortOf, hm.eq_of_ofText, hremaining, List.length_append]
    exact Nat.lt_add_of_pos_left (List.length_pos_iff.2 hblank.ne_nil)
  obtain ⟨ts, last, hts, hlast⟩ := hs.truncates hm hshort
  have hgap' : last.remaining = gap := by
    have hr := hlast.remaining
    rw [hremaining, hm.eq_of_ofText] at hr
    exact (List.append_cancel_right hr).symm
  refine ⟨ts, gap, hgap, hblank, fun w => ?_⟩
  obtain ⟨m, ms, hm, -⟩ := Cursor.prolongs_ofText hends w
  obtain ⟨us, c, hus, heq, hc⟩ := hts.prolongs hm (.inr (hgap' ▸ hblank.ne_nil))
  exact ⟨us, c, hus, heq, by rw [hc.remaining, hm.eq_of_ofText, hgap']⟩

theorem Text.PartsAt.meets (h : PartsAt flags u v) (hx : x.IsLayout flags.keepComments v) :
    (Cursor.ofText (u ++ x ++ v)).Meets flags (.ofText (u ++ v)) := by
  obtain ⟨ts, gap, hgap, hblank, hscans⟩ := h.exists_scans
  obtain ⟨us, c, hus, hust, hc⟩ := hscans (x ++ v)
  obtain ⟨us', e, hus', hust', he⟩ := hscans v
  rw [List.append_assoc]
  refine ⟨us, us', c, e, hus, hus', hust.symm.trans hust', ?_⟩
  have hcl := hus.leads.lined (Cursor.lined_ofText _)
  have hel := hus'.leads.lined (Cursor.lined_ofText _)
  -- Scanning passes over the layout that was there, and over what is put behind it.
  obtain ⟨c₁, hc₁, hbehind, hscan⟩ := hcl.passesOver false (hgap _) hc
  obtain ⟨c₂, hc₂, hv, hscan'⟩ := (hc₁.lined hcl).passesOver true hx hbehind
  obtain ⟨e₁, he₁, hv', hscan''⟩ := hel.passesOver false (hgap _) he
  have halike := (hus.leads.trans (hc₁.trans hc₂)).alike_fill (hus'.leads.trans he₁)
    (hv.trans hv'.symm)
  have hsame := scanFrom_alike flags true halike
  rw [scanFrom_fill, scanFrom_fill] at hsame
  have hempty : gap.isEmpty = false := List.isEmpty_eq_false_iff.2 hblank.ne_nil
  simp only [hempty, Bool.not_false, Bool.or_true, Bool.true_or] at hscan hscan' hscan''
  rw [scan, scan, hscan, hscan', hscan'']
  exact hsame

namespace Reader

variable {d : Dialect}

theorem ahead_related {R : Cursor → Cursor → Prop} (hR : Cursor.Bisimulation d.flags R)
    {r r' : Reader} (h : r.Related R r') (n : Nat) :
    (r.ahead d n).Related R (r'.ahead d n) := by
  induction n with
  | zero => exact h
  | succ n ih => exact (next_related hR ih).reader

/-- Layout that is put behind white space outside all tokens and comments changes no outcome of any
call but for places. -/
theorem outcome_inserting (hpoint : Text.PartsAt d.flags u v)
    (hx : x.IsLayout d.flags.keepComments v) (issued n : Nat) :
    (((ofCursor (.ofText (u ++ x ++ v)) issued).ahead d n).next d).1.unplaced =
      (((ofCursor (.ofText (u ++ v)) issued).ahead d n).next d).1.unplaced := by
  have hR := Cursor.bisimulation_meets d.flags
  have hstart : (ofCursor (.ofText (u ++ x ++ v)) issued).Related (Cursor.Meets d.flags)
      (ofCursor (.ofText (u ++ v)) issued) :=
    ⟨hpoint.meets hx, rfl, rfl⟩
  exact (next_related hR (ahead_related hR hstart n)).outcome

/-- A rule with a sign in front of white space and a comment. -/
def beforeNumber : Text :=
  "a(X) :- X = - /* sign */ "

/-- The number that the sign does not belong to, and two sentences, one of them malformed. -/
def fromNumber : Text :=
  "1. b) c. 'd e'(f)."

theorem outcome_inserting_beforeNumber :
    Text.PartsAt .standard beforeNumber fromNumber ∧
      Text.IsLayout false "% one. \n /* two\n*/" fromNumber ∧
      ∀ n, (((ofCursor (.ofText (beforeNumber ++ "% one. \n /* two\n*/" ++ fromNumber)) 0).ahead
          .standard n).next .standard).1.unplaced =
        (((ofCursor (.ofText (beforeNumber ++ fromNumber)) 0).ahead
          .standard n).next .standard).1.unplaced := by
  have hpoint : Text.PartsAt .standard beforeNumber fromNumber := by
    obtain ⟨ts, hts⟩ := Cursor.exists_scans_scanned .standard
      (.ofText (beforeNumber ++ fromNumber)) 8 (by decide +kernel)
    refine ⟨ts, _, " /* sign */ ", hts, by decide +kernel, fun behind => ?_, ?_⟩
    · exact .blank (by decide) (@Text.IsLayout.block _ " sign " _ _ rfl (by decide)
        (.blank (by decide) .nil))
    · exact ⟨.char ' ', by decide, by decide⟩
  have hlayout : Text.IsLayout false "% one. \n /* two\n*/" fromNumber :=
    @Text.IsLayout.line _ " one. " _ _ rfl (by decide)
      (.blank (by decide) (@Text.IsLayout.block _ " two\n" _ _ rfl (by decide) .nil))
  exact ⟨hpoint, hlayout, outcome_inserting hpoint hlayout 0⟩

end Reader

end PrologText
