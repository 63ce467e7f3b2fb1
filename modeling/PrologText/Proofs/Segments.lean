import PrologText.Proofs.Replay

/-!
# Sentence by sentence

A text that is made up of tokens falls into segments: the tokens up to a full stop
(`afterStop?`). Consulting such a text takes one segment after the other, whether the sentence in it
is well-formed or not (`Consulting.Passes.consult_eq`), and it does so however the text goes on
behind the white space at its end (`Consulting.exists_passes`).
-/

namespace PrologText

/-! ## Segments -/

/-- The cursor behind the first full stop. There is none if what comes before the full stop is not
made up of tokens. -/
def afterStop? (flags : Flags) (c : Cursor) : Option Cursor :=
  match hs : scan flags c with
  | .token t after =>
    if t.kind = .stop then some after
    else if he : t.kind = .endOfFile then none
    else
      have : after.unread < c.unread := scan_token_unread_lt hs he
      afterStop? flags after
  | _ => none
termination_by c.unread

theorem afterStop?_eq (flags : Flags) (c : Cursor) :
    afterStop? flags c =
      match scan flags c with
      | .token t after =>
        if t.kind = .stop then some after
        else if t.kind = .endOfFile then none
        else afterStop? flags after
      | _ => none := by
  rw [afterStop?]
  split
  · next h =>
    simp only [h]
    split
    · rfl
    · split <;> rfl
  · next h =>
    split
    · next h' => exact absurd h' (h _ _)
    · rfl

variable {flags : Flags} {c c' : Cursor}

theorem leads_of_afterStop? (h : afterStop? flags c = some c') : c.Leads c' := by
  fun_induction afterStop? flags c with
  | case1 c t after hs _ =>
    cases h
    exact leads_of_scan_token hs
  | case2 | case4 => cases h
  | case3 c t after hs _ _ _ ih => exact (leads_of_scan_token hs).trans (ih h)

theorem afterStop?_unread_lt (h : afterStop? flags c = some c') : c'.unread < c.unread := by
  fun_induction afterStop? flags c with
  | case1 c t after hs hk =>
    cases h
    exact scan_token_unread_lt hs (by simp [hk])
  | case2 | case4 => cases h
  | case3 _ _ _ _ _ _ shorter ih => exact Nat.lt_trans (ih h) shorter

theorem skipSentence_of_afterStop? (h : afterStop? flags c = some c') :
    skipSentence flags c = .resumed c' := by
  fun_induction afterStop? flags c with
  | case1 c t after hs hk =>
    cases h
    rw [skipSentence_eq]
    simp only [hs, hk, if_true]
  | case2 | case4 => cases h
  | case3 c t after hs hk he _ ih =>
    rw [skipSentence_eq]
    simp only [hs, hk, he, if_false]
    exact ih h

/-- How a sentence ends in a segment: at the full stop, or with a syntax error before it and a rest
that is passed over up to the full stop. -/
def Run.EndsIn (flags : Flags) (c' : Cursor) (run : Run) : Prop :=
  run.outcome.Continues ∧ run.cursor = c' ∧ leavesRest run.tokens = false ∨
    (∃ e, run.outcome = .error (.malformed e)) ∧ leavesRest run.tokens = true ∧
      skipSentence flags run.cursor = .resumed c'

theorem leavesRest_concat {t : Token} (hk : t.kind ≠ .comment) (ts : List Token) :
    leavesRest (ts ++ [t]) = (t.kind ≠ .stop && t.kind ≠ .endOfFile) := by
  simp [leavesRest, hk]

/-- A sentence whose last token is in a segment. -/
theorem Run.conclude_endsIn {last : Reading} {ts : List Token} {t : Token} {s : Step}
    (hs : s.Proper t) (hmore : ∀ next, s ≠ .more next) (hk : t.kind ≠ .comment)
    (h : t.kind = .stop ∧ c = c' ∨
      t.kind ≠ .stop ∧ t.kind ≠ .endOfFile ∧ skipSentence flags c = .resumed c') :
    (conclude last (ts ++ [t]) c s).EndsIn flags c' := by
  have hrest := leavesRest_concat hk ts
  rcases h with ⟨hstop, rfl⟩ | ⟨hstop, heof, hskip⟩
  · have hrest : leavesRest (ts ++ [t]) = false := by simp [hrest, hstop]
    cases s with
    | more next => exact absurd rfl (hmore next)
    | done | fault => exact .inl ⟨trivial, rfl, hrest⟩
    | endOfInput => cases hstop.symm.trans hs
    | stuck => exact hs.elim
  · have hrest : leavesRest (ts ++ [t]) = true := by simp [hrest, hstop, heof]
    cases s with
    | more next => exact absurd rfl (hmore next)
    | done => exact (hs.elim hstop heof).elim
    | fault e => exact .inr ⟨⟨e, rfl⟩, hrest, hskip⟩
    | endOfInput => exact absurd hs heof
    | stuck => exact hs.elim

theorem Reading.run_endsIn {d : Dialect} {r : Reading} (h : afterStop? d.flags c = some c')
    (hr : r.Fits d.flags c) (seen : List Token) : (r.run d seen c).EndsIn d.flags c' := by
  fun_induction afterStop? d.flags c generalizing r seen with
  | case1 c t after hs hk =>
    cases h
    have hc : t.kind ≠ .comment := by simp [hk]
    have hmore (next : Reading) : r.step d t ≠ .more next := fun hnext => by
      simpa [hk, TokenKind.isPart] using isPart_of_step_more hnext
    rw [run_over hs hc hmore, List.reverse_cons]
    exact Run.conclude_endsIn (hr.step_proper hs hc) hmore hc (.inl ⟨hk, rfl⟩)
  | case2 | case4 => cases h
  | case3 c t after hs hk he _ ih =>
    by_cases hc : t.kind = .comment
    · rw [run_comment hs hc]
      exact ih h (hr.comment hs hc) _
    · by_cases hmore : ∃ next, r.step d t = .more next
      · obtain ⟨next, hnext⟩ := hmore
        rw [run_more hs hnext]
        exact ih h (hr.more hs hc hnext) _
      · have hmore := not_exists.1 hmore
        -- The sentence ends before its full stop, which is a syntax error: the rest is passed over.
        have hskip := skipSentence_of_afterStop? h
        rw [run_over hs hc hmore, List.reverse_cons]
        exact Run.conclude_endsIn (hr.step_proper hs hc) hmore hc (.inr ⟨hk, he, hskip⟩)

/-! ## Consulting a segment -/

/-- The dialect that an outcome leaves. -/
def Outcome.dialect (d : Dialect) : Outcome → Dialect
  | sentence s => (d.apply s).dialect
  | _ => d

/-- Adds an outcome in front. -/
def Consultation.addOutcome (done : Consultation) (d : Dialect) : Outcome → Consultation
  | .sentence s => done.addSentence s (d.apply s)
  | .error (.malformed e) => done.addError e
  | _ => done

namespace Reader

variable {d : Dialect} {r : Reader} {done : Consultation}

theorem consult_of_continues (h : (r.next d).1.Continues) :
    r.consult d done =
      (r.next d).2.consult ((r.next d).1.dialect d) (done.addOutcome d (r.next d).1) := by
  rw [consult_eq]
  revert h
  generalize r.next d = x
  obtain ⟨s | _ | (e | _ | _), after⟩ := x
  · exact fun _ => rfl
  · exact False.elim
  · exact fun _ => rfl
  · exact False.elim
  · exact False.elim

theorem consult_resync (h : skipSentence d.flags c = .resumed c') (issued : Nat) :
    consult d done ⟨c, true, issued⟩ = consult d done (ofCursor c' issued) := by
  have hnext : next d ⟨c, true, issued⟩ = next d (ofCursor c' issued) := by
    simp [next, h, ofCursor]
  rw [consult_eq, hnext, ← consult_eq]

end Reader

/-- How far a program has been consulted. -/
structure Consulting where
  dialect : Dialect
  /-- The number of the last variable. -/
  issued : Nat
  cursor : Cursor
  /-- What came before, last first. -/
  done : Consultation

namespace Consulting

/-- Reading the sentence that comes next. -/
def run (s : Consulting) : Run :=
  .at s.dialect s.issued s.cursor

/-- What consulting comes to in the end. -/
def consult (s : Consulting) : Consulted :=
  (Reader.ofCursor s.cursor s.issued).consult s.dialect s.done

/-- The point behind the sentence that comes next, with what this sentence leaves. -/
def behind (s : Consulting) (stop : Cursor) : Consulting :=
  ⟨s.run.outcome.dialect s.dialect, s.run.issued, stop,
    s.done.addOutcome s.dialect s.run.outcome⟩

/-- The sentence that comes next ends in its own segment, be it malformed. -/
theorem run_endsIn {s : Consulting} (h : afterStop? s.dialect.flags s.cursor = some c') :
    s.run.EndsIn s.dialect.flags c' :=
  Reading.run_endsIn h (Reading.fits_start _ _ _) []

/-- Consulting goes on behind a segment with the dialect that its sentence leaves. -/
theorem consult_behind {s : Consulting} (h : afterStop? s.dialect.flags s.cursor = some c') :
    s.consult = (s.behind c').consult := by
  obtain ⟨d, issued, c, done⟩ := s
  rcases run_endsIn h with ⟨hmore, rfl, hrest⟩ | ⟨⟨e, he⟩, hrest, hskip⟩
  · have hnext : ((Reader.ofCursor c issued).next d).2 =
        .ofCursor (Run.at d issued c).cursor (Run.at d issued c).issued := by
      simp only [Reader.next, Reader.readAt, Reader.ofCursor, Bool.false_eq_true, if_false]
      congr 1
      split
      · exact hrest
      · rfl
    rw [consult, Reader.consult_of_continues (r := .ofCursor c issued) hmore, hnext]
    rfl
  · have he : (Run.at d issued c).outcome = .error (.malformed e) := he
    have hnext : (Reader.ofCursor c issued).next d =
        (.error (.malformed e),
          ⟨(Run.at d issued c).cursor, true, (Run.at d issued c).issued⟩) := by
      simp only [Reader.next, Reader.readAt, Reader.ofCursor, Bool.false_eq_true, if_false, he]
      exact congrArg (fun b => (_, Reader.mk _ b _)) hrest
    rw [consult, Reader.consult_of_continues (hnext ▸ trivial), hnext]
    simp only [consult, behind, run, he]
    exact Reader.consult_resync hskip _

/-- Consulting passes over segments, one after the other. In each there is one sentence, which ends
at the full stop of its segment, also where it is malformed. -/
inductive Passes : Consulting → Consulting → Prop where
  | refl {s : Consulting} : Passes s s
  | step {s last : Consulting} {stop : Cursor}
    (hstop : afterStop? s.dialect.flags s.cursor = some stop)
    (hends : s.run.EndsIn s.dialect.flags stop) (h : (s.behind stop).Passes last) : Passes s last

theorem Passes.segment {s last : Consulting} {stop : Cursor}
    (hstop : afterStop? s.dialect.flags s.cursor = some stop) (h : (s.behind stop).Passes last) :
    s.Passes last :=
  .step hstop (run_endsIn hstop) h

theorem Passes.consult_eq {s last : Consulting} (h : s.Passes last) : s.consult = last.consult := by
  induction h with
  | refl => rfl
  | step hstop _ _ ih => exact (consult_behind hstop).trans ih

end Consulting

/-! ## Texts made up of tokens -/

/-- Whether the text at a cursor is made up of tokens, each in the dialect that the sentences before
it have left, and has white space and nothing else behind its last full stop. -/
def Dialect.tokenises (d : Dialect) (issued : Nat) (c : Cursor) : Bool :=
  match h : afterStop? d.flags c with
  | none => false
  | some after =>
    have : after.unread < c.unread := afterStop?_unread_lt h
    let run := Run.at d issued c
    !after.remaining.isEmpty && after.remaining.all (CharClass.isBlank ·.code) ||
      (run.outcome.dialect d).tokenises run.issued after
termination_by c.unread

/-- White space before a cursor and nothing else. -/
structure Cursor.Blank (c : Cursor) : Prop where
  ne_nil : c.remaining ≠ []
  blank : ∀ g ∈ c.remaining, CharClass.isBlank g.code = true

theorem Cursor.Blank.endsBlank (h : c.Blank) : c.remaining.EndsBlank :=
  ⟨_, List.getLast?_eq_some_getLast h.ne_nil, h.blank _ (List.getLast_mem _)⟩

/-- The segments of a text: the first one, and the text is blank or made up of tokens behind it. -/
theorem Dialect.tokenises_cases {d : Dialect} {issued : Nat} (h : d.tokenises issued c = true) :
    ∃ c', afterStop? d.flags c = some c' ∧
      (c'.Blank ∨
        ((Run.at d issued c).outcome.dialect d).tokenises (Run.at d issued c).issued c') := by
  rw [tokenises] at h
  split at h
  · cases h
  · next c' hc' =>
    refine ⟨c', hc', ?_⟩
    simp only [Bool.or_eq_true, Bool.and_eq_true, Bool.not_eq_true', List.isEmpty_eq_false_iff,
      List.all_eq_true] at h
    exact h.imp_left fun h => ⟨h.1, h.2⟩

theorem Dialect.endsBlank_of_tokenises {d : Dialect} {issued : Nat}
    (h : d.tokenises issued c = true) : c.remaining.EndsBlank := by
  induction hn : c.unread using Nat.strongRecOn generalizing d issued c with
  | _ n ih =>
    subst hn
    obtain ⟨c', hc', hblank⟩ := tokenises_cases h
    rw [(leads_of_afterStop? hc').remaining_eq]
    refine Text.EndsBlank.append_left ?_ _
    exact hblank.elim Cursor.Blank.endsBlank fun h => ih _ (afterStop?_unread_lt hc') h rfl

/-! ## Segments of a longer text -/

variable {m : Text} {ms : List Text} {e : Cursor}

theorem afterStop?_prolongs (h : afterStop? flags c = some c') (hp : c.Prolongs m ms e)
    (ho : c'.Open m ms) : ∃ e', afterStop? flags e = some e' ∧ c'.Prolongs m ms e' := by
  fun_induction afterStop? flags c generalizing e with
  | case1 c t after hs hk =>
    cases h
    obtain ⟨t', after', hs', ht, hafter⟩ := scan_token_prolongs hs hp ho
    have hk' := Token.kind_eq_of_bare (Token.bare_eq_of_unplaced ht)
    refine ⟨after', ?_, hafter⟩
    rw [afterStop?_eq]
    simp only [hs', ← hk', hk, if_true]
  | case2 | case4 => cases h
  | case3 c t after hs hk he _ ih =>
    obtain ⟨t', after', hs', ht, hafter⟩ :=
      scan_token_prolongs hs hp ((leads_of_afterStop? h).open ho)
    have hk' := Token.kind_eq_of_bare (Token.bare_eq_of_unplaced ht)
    rw [afterStop?_eq]
    simp only [hs', ← hk', hk, he, if_false]
    exact ih h hafter

theorem Reading.run_related_of_afterStop? {d : Dialect} {r r' : Reading} {seen seen' : List Token}
    (h : afterStop? d.flags c = some c') (hp : c.Prolongs m ms e) (ho : c'.Open m ms)
    (hr : r.bare = r'.bare) (hseen : seen.map Token.bare = seen'.map Token.bare) :
    (r.run d seen c).Related (Cursor.Prolongs m ms) (r'.run d seen' e) := by
  fun_induction afterStop? d.flags c generalizing r r' seen seen' e with
  | case1 c t after hs hk =>
    cases h
    obtain ⟨t', after', hs', ht, hafter⟩ := scan_token_prolongs hs hp ho
    refine run_token_related hs hs' hr hseen (Token.bare_eq_of_unplaced ht)
      (step_bare_congr hr ht) hafter fun hpart => ?_
    simp [hk, TokenKind.isPart] at hpart
  | case2 | case4 => cases h
  | case3 c t after hs hk he _ ih =>
    obtain ⟨t', after', hs', ht, hafter⟩ :=
      scan_token_prolongs hs hp ((leads_of_afterStop? h).open ho)
    exact run_token_related hs hs' hr hseen (Token.bare_eq_of_unplaced ht)
      (step_bare_congr hr ht) hafter fun _ _ _ _ _ hr hseen => ih h hafter hr hseen

theorem Outcome.dialect_unplaced {o o' : Outcome} (h : o.unplaced = o'.unplaced) (d : Dialect) :
    o.dialect d = o'.dialect d := by
  obtain ⟨s, s', rfl, rfl, hs⟩ | ⟨x, x', rfl, rfl, -⟩ | ⟨rfl, -⟩ := Outcome.unplaced_cases h
  · simp only [dialect, ← d.apply_unplaced s, ← d.apply_unplaced s', hs]
  · rfl
  · rfl

theorem Consultation.addOutcome_unplaced {a b : Consultation} (h : a.unplaced = b.unplaced)
    {o o' : Outcome} (ho : o.unplaced = o'.unplaced) (d : Dialect) :
    (a.addOutcome d o).unplaced = (b.addOutcome d o').unplaced := by
  obtain ⟨s, s', rfl, rfl, hs⟩ | ⟨x, x', rfl, rfl, hx⟩ | ⟨rfl, hover⟩ := Outcome.unplaced_cases ho
  · simp only [addOutcome, ← d.apply_unplaced s, ← d.apply_unplaced s', hs]
    exact addSentence_unplaced h hs _
  · exact addError_unplaced h hx
  · obtain s | _ | (x | _ | _) := o
    · exact absurd trivial hover
    · exact h
    · exact absurd trivial hover
    · exact h
    · exact h

/-- Points of two texts with the same before them, but for places. -/
structure Consulting.Same (s s' : Consulting) : Prop where
  dialect : s.dialect = s'.dialect
  issued : s.issued = s'.issued
  done : s.done.unplaced = s'.done.unplaced

theorem Consulting.Same.behind {s s' : Consulting} {stop stop' : Cursor} (h : s.Same s')
    (hrun : s.run.Same s'.run) : (s.behind stop).Same (s'.behind stop') where
  dialect := by
    simp only [Consulting.behind, h.dialect, Outcome.dialect_unplaced hrun.outcome]
  issued := hrun.issued
  done := by
    simp only [Consulting.behind, h.dialect]
    exact Consultation.addOutcome_unplaced h.done hrun.outcome _

/-- Where consulting a text made up of tokens comes to the white space at its end: it comes there
segment by segment and with the same as if there were more behind. -/
theorem Consulting.exists_passes {s s' : Consulting} (hsame : s.Same s')
    (h : s.dialect.tokenises s.issued s.cursor = true) (hp : s.cursor.Prolongs m ms s'.cursor) :
    ∃ last last', s.Passes last ∧ s'.Passes last' ∧ last.Same last' ∧ last.cursor.Blank ∧
      last.cursor.Prolongs m ms last'.cursor := by
  induction hn : s.cursor.unread using Nat.strongRecOn generalizing s s' with
  | _ n ih =>
    subst hn
    obtain ⟨stop, hstop, hrest⟩ := Dialect.tokenises_cases h
    have hends : stop.remaining.EndsBlank :=
      hrest.elim Cursor.Blank.endsBlank Dialect.endsBlank_of_tokenises
    obtain ⟨stop', hstop', hp'⟩ := afterStop?_prolongs hstop hp (.inr hends.ne_nil)
    rw [hsame.dialect] at hstop'
    have hrun : s.run.Related (Cursor.Prolongs m ms) s'.run := by
      rw [run, run, ← hsame.dialect, ← hsame.issued]
      exact Reading.run_related_of_afterStop? hstop hp (.inr hends.ne_nil) rfl rfl
    have hbehind : (s.behind stop).Same (s'.behind stop') := hsame.behind hrun.toSame
    -- Both texts are now behind the same segment, with the same dialect and the same results.
    rcases hrest with hblank | htokens
    · exact ⟨_, _, .segment hstop .refl, .segment hstop' .refl, hbehind, hblank, hp'⟩
    · obtain ⟨last, last', hlast, hlast', hend⟩ :=
        ih _ (afterStop?_unread_lt hstop) hbehind htokens hp' rfl
      exact ⟨last, last', .segment hstop hlast, .segment hstop' hlast', hend⟩

end PrologText
