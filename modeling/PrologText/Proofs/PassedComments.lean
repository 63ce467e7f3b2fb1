import PrologText.Proofs.Comments
import PrologText.Proofs.TextPlaces

/-!
# Comments that are passed over

Tokens are scanned one after the other up to the end of the file or to an error (`results`). Where
comments are kept each of them ends a call to scan, where they are not one call passes over any
number of them, with the white space around them. Main statement: the two runs come to the same
results, but for the comments and the white space before tokens, and the comments that the one keeps
are those that stand in the gaps of the other (`results_ofText_keeping`).
-/

namespace PrologText

/-! ## Runs -/

namespace Scan

/-- Whether a run is over: at the end of the file or at an error. -/
def isLast : Scan → Bool
  | token t _ => t.kind = .endOfFile
  | _ => true

/-- What scanning comes to, but for the white space before a token. -/
def unspaced : Scan → Scan
  | token t after => token { t with layoutBefore := false } after
  | s => s

/-- The text of a comment. -/
def comment? : Scan → Option Text
  | token t _ => if t.kind = .comment then some t.text else none
  | _ => none

@[simp] theorem isLast_spaced (s : Scan) : s.spaced.isLast = s.isLast := by
  cases s <;> rfl

@[simp] theorem cursor_spaced (s : Scan) : s.spaced.cursor = s.cursor := by
  cases s <;> rfl

@[simp] theorem unspaced_spaced (s : Scan) : s.spaced.unspaced = s.unspaced := by
  cases s <;> rfl

theorem NoComment.comment?_eq {s : Scan} (h : s.NoComment) : s.comment? = none := by
  cases s with
  | token t after => exact if_neg h
  | fault | failure => rfl

theorem noComment_or_comment (s : Scan) :
    s.NoComment ∨ ∃ t after, s = token t after ∧ t.kind = .comment := by
  cases s with
  | token t after =>
    by_cases hk : t.kind = .comment
    · exact .inr ⟨t, after, rfl, hk⟩
    · exact .inl hk
  | fault | failure => exact .inl trivial

end Scan

theorem unread_cursor_scan_lt {flags : Flags} {c : Cursor} (h : ¬(scan flags c).isLast) :
    (scan flags c).cursor.unread < c.unread := by
  cases hs : scan flags c with
  | token t after =>
    rw [hs] at h
    exact scan_token_unread_lt hs (by simpa [Scan.isLast] using h)
  | fault | failure =>
    rw [hs] at h
    exact absurd rfl h

/-- What calls to scan come to one after the other, up to and including the first end of the file or
error. -/
def results (flags : Flags) (c : Cursor) : List Scan :=
  if h : (scan flags c).isLast then [scan flags c]
  else
    have : (scan flags c).cursor.unread < c.unread := unread_cursor_scan_lt h
    scan flags c :: results flags (scan flags c).cursor
termination_by c.unread

theorem results_eq (flags : Flags) (c : Cursor) :
    results flags c = scan flags c ::
      if (scan flags c).isLast then [] else results flags (scan flags c).cursor := by
  rw [results]
  split
  · rfl
  · rfl

/-! ## Comments in layout -/

/-- A text in front of `behind` that is white space and complete comments, with the texts of the
comments in order. That of a comment to the end of its line goes without the line end. -/
inductive Text.Holds : List Text → Text → Text → Prop where
  | nil {behind} : Holds [] [] behind
  | blank {comments g t behind} (hg : CharClass.isBlank g.code) (ht : Holds comments t behind) :
      Holds comments (g :: t) behind
  | line {comments body t behind} (hb : .char '\n' ∉ body) (ht : Holds comments t behind) :
      Holds (trimLineEnd (.char '%' :: body) :: comments) (.char '%' :: body ++ .char '\n' :: t)
        behind
  | lastLine {body} (hb : .char '\n' ∉ body) :
      Holds [trimLineEnd (.char '%' :: body)] (.char '%' :: body) []
  | block {comments body t behind} (hb : ¬commentEnd <:+: body) (ht : Holds comments t behind) :
      Holds ((.char '/' :: .char '*' :: body ++ commentEnd) :: comments)
        (.char '/' :: .char '*' :: body ++ commentEnd ++ t) behind

/-- White space in front of layout adds no comment. -/
theorem Text.IsLayout.holds_append {comments : List Text} {t u behind behind' : Text}
    (ht : t.IsLayout true behind') (hu : u.Holds comments behind) :
    (t ++ u).Holds comments behind := by
  induction ht with
  | nil => exact hu
  | blank hg _ ih => exact .blank hg ih
  | line hk | lastLine hk | block hk => cases hk

/-- A comment from one cursor to another: in front of any layout it is the first comment. -/
def Cursor.IsComment (c after : Cursor) (text : Text) : Prop :=
  c.Leads after ∧ ∀ comments gap behind, after.remaining = gap ++ behind →
    gap.Holds comments behind → (c.upTo after ++ gap).Holds (text :: comments) behind

namespace Cursor

variable {c start after : Cursor} {g : Glyph} {t text : Text}

theorem Lined.isComment_line (hc : c.Lined) (hr : c.rest = .char '%' :: t) :
    c.IsComment c.toLineEnd c.rest.trimLineEnd := by
  refine ⟨c.leads_toLineEnd, fun comments gap behind hsplit hgap => ?_⟩
  rw [c.upTo_toLineEnd]
  rcases hc.percent_cases hr with ⟨body, hbody, hnewline⟩ | ⟨hnil, hnewline⟩
  · rw [hbody, Text.trimLineEnd_append_newline]
    simpa using Text.Holds.line hnewline hgap
  · obtain ⟨rfl, rfl⟩ := List.append_eq_nil_iff.1 (hsplit.symm.trans hnil)
    cases hgap
    rw [hr, List.append_nil]
    exact .lastLine hnewline

theorem Lined.isComment_block (hc : c.Lined) (hr : c.rest = g :: t)
    (ho : Lexeme.opensComment (g :: t))
    (ha : afterComment? (c.advance 2) c.later = some after) :
    c.IsComment after (c.upTo after) := by
  obtain ⟨hleads, body, hspan, hbody⟩ := hc.upTo_block hr ho ha
  refine ⟨hleads, fun comments gap behind _ hgap => ?_⟩
  rw [hspan]
  exact .block hbody hgap

theorem IsComment.behind_blanks (h : start.IsComment after text) (hc : c.Leads start)
    {behind : Text} (hgap : (c.upTo start).IsLayout true behind) : c.IsComment after text := by
  refine ⟨hc.trans h.1, fun comments gap behind' hsplit hholds => ?_⟩
  rw [hc.upTo_trans h.1, List.append_assoc]
  exact hgap.holds_append (h.2 comments gap behind' hsplit hholds)

end Cursor

/-! ## One call -/

namespace Scan

/-- Something is found at `start`: a token or a fault there, or lines that give out from there
on. -/
def StandsAt (start : Cursor) : Scan → Prop
  | token t _ => t.place = start.place
  | fault _ at' _ => at' = start
  | failure _ stopped => start.Leads stopped

/-- Something is found from `c` on, behind layout that holds these comments and to which no further
layout belongs. -/
def FoundPast (c : Cursor) (comments : List Text) (s : Scan) : Prop :=
  ∃ start, c.Leads start ∧ (c.upTo start).Holds comments start.remaining ∧
    start.AtToken false ∧ s.StandsAt start

variable {c after : Cursor} {comments : List Text} {text : Text} {s : Scan}

theorem FoundPast.spaced (h : s.FoundPast c comments) : s.spaced.FoundPast c comments := by
  obtain ⟨start, hleads, hholds, htoken, hstands⟩ := h
  refine ⟨start, hleads, hholds, htoken, ?_⟩
  cases s <;> exact hstands

theorem FoundPast.comment (h : s.FoundPast after comments) (hc : c.IsComment after text) :
    s.FoundPast c (text :: comments) := by
  obtain ⟨start, hleads, hholds, htoken, hstands⟩ := h
  refine ⟨start, hc.1.trans hleads, ?_, htoken, hstands⟩
  rw [hc.1.upTo_trans hleads]
  exact hc.2 comments _ _ hleads.remaining_eq hholds

end Scan

namespace Cursor

variable {flags : Flags} {c start : Cursor}

theorem AtToken.standsAt (h : start.AtToken flags.keepComments) (hc : start.Lined)
    (layout : Bool) : (scanFrom flags layout start).StandsAt start := by
  have hcuts := h.cutsAt hc layout
  have hahead := scanFrom_ahead flags layout start
  have hfaults := Scan.found_faultsAt flags layout start
  rw [← h.scanFrom_eq hc] at hfaults
  cases hs : scanFrom flags layout start with
  | token =>
    rw [hs] at hcuts
    exact hcuts.2.2.1
  | fault =>
    rw [hs] at hfaults
    exact hfaults.1
  | failure =>
    rw [hs] at hahead
    exact hahead.1

/-- Where no white space stands there is either no layout at all or a comment. -/
theorem AtToken.bare_or_comment (h : start.AtToken true) (hc : start.Lined) (flags : Flags)
    (layout : Bool) :
    start.AtToken false ∨ ∃ t after, Scan.found flags layout start = .token t after ∧
      t.kind = .comment ∧ start.IsComment after t.text := by
  cases hr : start.rest with
  | nil =>
    rw [← h.fill] at hr ⊢
    exact .inl (atToken_fill_of_nil hr)
  | cons g t =>
    have hblank : CharClass.isBlank g.code = false := by
      rw [Bool.eq_false_iff]
      intro hblank
      have hnil := h.bare [g] (t ++ start.later.flatten) (by simp [remaining, hr])
        (.blank hblank .nil)
      cases hnil
    by_cases hg : g = .char '%'
    · subst hg
      have hfound : Scan.found flags layout start =
          .token ⟨.comment, start.rest.trimLineEnd, layout, false, start.place⟩
            start.toLineEnd := by
        simp [Scan.found, hr]
      exact .inr ⟨_, _, hfound, rfl, hc.isComment_line hr⟩
    · have hbare (hblock : Lexeme.opensComment (g :: t) →
          afterComment? (start.advance 2) start.later = none) : start.AtToken false := by
        rw [← h.fill] at hr hblock ⊢
        exact hc.atToken_fill hr hblank (fun _ => hg) fun _ => hblock
      by_cases ho : Lexeme.opensComment (g :: t)
      · cases ha : afterComment? (start.advance 2) start.later with
        | none => exact .inl (hbare fun _ => ha)
        | some after =>
          have hfound : Scan.found flags layout start =
              .token ⟨.comment, start.upTo after, layout, false, start.place⟩ after := by
            simp [Scan.found, hr, hg, ho, ha]
          exact .inr ⟨_, _, hfound, rfl, hc.isComment_block hr ho ha⟩
      · exact .inl (hbare fun h => absurd h ho)

/-- A call that keeps comments comes to a comment, or to something with no comment before it. -/
theorem Lined.scan_keeping_cases (hc : c.Lined) (flags : Flags) :
    (scan (flags.keeping true) c).NoComment ∧ (scan (flags.keeping true) c).FoundPast c [] ∨
      ∃ t after, scan (flags.keeping true) c = .token t after ∧ t.kind = .comment ∧
        c.IsComment after t.text := by
  obtain ⟨start, hstart⟩ := exists_passesTo (flags.keeping true) false c hc
  have hlined := hstart.leads.lined hc
  have hgap : (c.upTo start).IsLayout true start.remaining := hstart.gap
  generalize hlayout : (false || !(c.upTo start).isEmpty) = layout
  have hscan : scan (flags.keeping true) c = Scan.found flags layout start := by
    rw [scan, hstart.scan, hlayout, hstart.atToken.scanFrom_eq hlined]
    rfl
  rcases hstart.atToken.bare_or_comment hlined flags layout with
    hbare | ⟨t, after, hfound, hk, hcomment⟩
  · -- With no layout before it, it does not matter whether comments are kept.
    replace hbare : start.AtToken (flags.keeping false).keepComments := hbare
    have hfound : scanFrom (flags.keeping false) layout start = Scan.found flags layout start :=
      hbare.scanFrom_eq hlined layout
    have hholds := hgap.holds_append (show Text.Holds [] [] start.remaining from .nil)
    rw [List.append_nil] at hholds
    rw [hscan, ← hfound]
    exact .inl ⟨Scan.scanFrom_noComment rfl layout start, start, hstart.leads, hholds, hbare,
      hbare.standsAt hlined layout⟩
  · exact .inr ⟨t, after, hscan.trans hfound, hk, hcomment.behind_blanks hstart.leads hgap⟩

end Cursor

/-! ## Whole runs -/

section

variable {flags : Flags} {c after : Cursor} {t : Token}

theorem scan_keeping_of_comment (hs : scan (flags.keeping true) c = .token t after)
    (hk : t.kind = .comment) :
    scan (flags.keeping false) c = (scan (flags.keeping false) after).spaced := by
  have hkeeps := scan_keeps flags c
  rw [hs] at hkeeps
  generalize scan (flags.keeping false) c = s at hkeeps
  cases hkeeps with
  | same h => exact absurd hk h
  | comment => exact scanFrom_spaced (flags.keeping false) false after

/-- A comment that is kept makes one call more. -/
theorem results_of_comment (hs : scan flags c = .token t after) (hk : t.kind = .comment) :
    results flags c = .token t after :: results flags after := by
  have hlast : (scan flags c).isLast = false := by simp [hs, Scan.isLast, hk]
  rw [results_eq, hlast, hs]
  rfl

theorem map_unspaced_results (hs : scan flags c = (scan flags after).spaced) :
    (results flags c).map Scan.unspaced = (results flags after).map Scan.unspaced := by
  rw [results_eq, results_eq flags after, hs]
  simp

/-- Comments aside, it does not matter whether they are kept. -/
theorem map_unspaced_results_keeping (flags : Flags) (c : Cursor) :
    ((results (flags.keeping true) c).filter (·.comment?.isNone)).map Scan.unspaced =
      (results (flags.keeping false) c).map Scan.unspaced := by
  induction hn : c.unread using Nat.strongRecOn generalizing c with
  | _ n ih =>
    subst hn
    rcases (scan (flags.keeping true) c).noComment_or_comment with hno | ⟨t, after, hs, hk⟩
    · -- Both runs make the same call, and go on from the same cursor.
      rw [results_eq (flags.keeping true), results_eq (flags.keeping false),
        scan_keeping_of_noComment rfl hno, List.filter_cons_of_pos (by simp [hno.comment?_eq])]
      split
      · rfl
      · next hl => rw [List.map_cons, List.map_cons, ih _ (unread_cursor_scan_lt hl) _ rfl]
    · have htext : (Scan.token t after).comment? = some t.text := if_pos hk
      rw [results_of_comment hs hk, map_unspaced_results (scan_keeping_of_comment hs hk),
        List.filter_cons_of_neg (by simp [htext])]
      exact ih _ (scan_token_unread_lt hs (by simp [hk])) _ rfl

end

/-- Each of some results is found from where the one before it left the cursor, behind layout that
holds the comments given for it. -/
inductive Skips : Cursor → List (List Text) → List Scan → Prop where
  | nil {c} : Skips c [] []
  | cons {c comments s gaps found} (hp : s.FoundPast c comments)
      (hs : Skips s.cursor gaps found) : Skips c (comments :: gaps) (s :: found)

/-- A run in which a comment is passed over first. -/
theorem Skips.comment {flags : Flags} {c after : Cursor} {text : Text} {gaps : List (List Text)}
    (h : Skips after gaps (results flags after)) (hc : c.IsComment after text)
    (hs : scan flags c = (scan flags after).spaced) :
    ∃ gaps', Skips c gaps' (results flags c) ∧ gaps'.flatten = text :: gaps.flatten := by
  rw [results_eq] at h ⊢
  rw [hs, Scan.isLast_spaced, Scan.cursor_spaced]
  cases h with
  | @cons _ comments _ gaps _ hp htail =>
    refine ⟨(text :: comments) :: gaps, .cons (hp.spaced.comment hc) ?_, by simp⟩
    rwa [Scan.cursor_spaced]

/-- The comments that one run keeps are those that the other passes over. -/
theorem Cursor.Lined.exists_skips {c : Cursor} (hc : c.Lined) (flags : Flags) :
    ∃ gaps, Skips c gaps (results (flags.keeping false) c) ∧
      (results (flags.keeping true) c).filterMap Scan.comment? = gaps.flatten := by
  induction hn : c.unread using Nat.strongRecOn generalizing c with
  | _ n ih =>
    subst hn
    rcases hc.scan_keeping_cases flags with ⟨hno, hfound⟩ | ⟨t, after, hs, hk, hcomment⟩
    · rw [results_eq (flags.keeping true), results_eq (flags.keeping false),
        scan_keeping_of_noComment rfl hno, List.filterMap_cons_none hno.comment?_eq]
      split
      · exact ⟨[[]], .cons hfound .nil, rfl⟩
      · next hl =>
        have hlined := (leads_cursor_scan (flags.keeping true) c).lined hc
        obtain ⟨gaps, hskips, hcomments⟩ := ih _ (unread_cursor_scan_lt hl) hlined rfl
        exact ⟨[] :: gaps, .cons hfound hskips, hcomments⟩
    · obtain ⟨gaps, hskips, hcomments⟩ :=
        ih _ (scan_token_unread_lt hs (by simp [hk])) (hcomment.1.lined hc) rfl
      obtain ⟨gaps', hskips', hgaps⟩ := hskips.comment hcomment (scan_keeping_of_comment hs hk)
      refine ⟨gaps', hskips', ?_⟩
      rw [results_of_comment hs hk, hgaps, ← hcomments]
      exact List.filterMap_cons_some (if_pos hk)

/-- Without the comments, the results for a text with comments kept are the results with comments
passed over, but for the white space before tokens; and the comments are, in order and with their
texts, those in the gaps before the results. -/
theorem results_ofText_keeping (flags : Flags) (text : Text) :
    ((results (flags.keeping true) (.ofText text)).filter (·.comment?.isNone)).map Scan.unspaced =
        (results (flags.keeping false) (.ofText text)).map Scan.unspaced ∧
      ∃ gaps, Skips (.ofText text) gaps (results (flags.keeping false) (.ofText text)) ∧
        (results (flags.keeping true) (.ofText text)).filterMap Scan.comment? = gaps.flatten :=
  ⟨map_unspaced_results_keeping flags (.ofText text),
    (Cursor.lined_ofText text).exists_skips flags⟩

end PrologText
