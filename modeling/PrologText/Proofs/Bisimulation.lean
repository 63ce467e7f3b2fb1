import PrologText.Proofs.Completion
import PrologText.Proofs.Positions

/-!
# Readers at related cursors

A reader sees its text through `scan` alone. Let scanning at related cursors come to the same, but
for places, and end at related cursors again (`Cursor.Bisimulation`). Main statement: then readers
at related cursors yield the same, but for places, and are left at related cursors
(`Reader.next_related`).
-/

namespace PrologText

variable {R : Cursor → Cursor → Prop}

/-- Scanning that comes to the same but for places. A reader goes on behind a token; where there is
none, it goes on at that point, behind its first character or at the end of the text. -/
inductive Scan.Related (R : Cursor → Cursor → Prop) : Scan → Scan → Prop where
  | token {t t' after after'} (ht : t.unplaced = t'.unplaced) (h : R after after') :
    Related R (.token t after) (.token t' after')
  | fault {e e' start start' exhausted} (he : e.unplaced = e'.unplaced) (h : R start start')
    (hnext : R (start.advance 1) (start'.advance 1)) (hend : R start.toEnd start'.toEnd) :
    Related R (.fault e start exhausted) (.fault e' start' exhausted)

theorem Scan.Related.mono {S : Cursor → Cursor → Prop} {s s' : Scan} (h : s.Related R s')
    (hRS : ∀ {c e}, R c e → S c e) : s.Related S s' := by
  cases h with
  | token ht h => exact .token ht (hRS h)
  | fault he h hnext hend => exact .fault he (hRS h) (hRS hnext) (hRS hend)

def Cursor.Bisimulation (flags : Flags) (R : Cursor → Cursor → Prop) : Prop :=
  ∀ c e, R c e → (scan flags c).Related R (scan flags e)

/-! ## One sentence -/

/-- Runs that come to the same but for places and stop at related cursors. -/
structure Run.Related (R : Cursor → Cursor → Prop) (a b : Run) : Prop extends Run.Same a b where
  cursor : R a.cursor b.cursor

namespace Reading

variable {d : Dialect} {r r' : Reading} {seen seen' : List Token} {c e : Cursor}

theorem run_fault_related {x x' : SyntaxError} {start start' : Cursor} {exhausted : Bool}
    (hs : scan d.flags c = .fault x start exhausted)
    (hs' : scan d.flags e = .fault x' start' exhausted) (hr : r.bare = r'.bare)
    (hseen : seen.map Token.bare = seen'.map Token.bare) (hx : x.unplaced = x'.unplaced)
    (h : R start start') : (r.run d seen c).Related R (r'.run d seen' e) := by
  have hrun : r.run d seen c = ⟨.error (.malformed x), seen.reverse, start, r.names.issued⟩ := by
    rw [run]
    split <;> simp_all
  have hrun' : r'.run d seen' e =
      ⟨.error (.malformed x'), seen'.reverse, start', r'.names.issued⟩ := by
    rw [run]
    split <;> simp_all
  have hissued : r.bare.names.issued = r'.bare.names.issued := by rw [hr]
  rw [hrun, hrun']
  exact ⟨⟨by simp only [Outcome.unplaced, hx], by simp only [List.map_reverse, hseen], hissued⟩, h⟩

/-- One token, with what the run behind it comes to. -/
theorem run_token_related {t t' : Token} {after after' : Cursor}
    (hs : scan d.flags c = .token t after) (hs' : scan d.flags e = .token t' after')
    (hr : r.bare = r'.bare) (hseen : seen.map Token.bare = seen'.map Token.bare)
    (ht : t.bare = t'.bare) (hstep : (r.step d t).bare = (r'.step d t').bare)
    (h : R after after')
    (ih : t.kind = .comment ∨ t.kind.isPart → ∀ {r r' : Reading} {seen seen' : List Token},
      r.bare = r'.bare → seen.map Token.bare = seen'.map Token.bare →
      (r.run d seen after).Related R (r'.run d seen' after')) :
    (r.run d seen c).Related R (r'.run d seen' e) := by
  have hk := Token.kind_eq_of_bare ht
  have hseen : (t :: seen).map Token.bare = (t' :: seen').map Token.bare := by
    rw [List.map_cons, List.map_cons, ht, hseen]
  by_cases hc : t.kind = .comment
  · rw [run_comment hs hc, run_comment hs' (hk ▸ hc)]
    exact ih (.inl hc) hr hseen
  · by_cases hmore : ∃ next, r.step d t = .more next
    · obtain ⟨next, hnext⟩ := hmore
      obtain ⟨next', hnext', hbare⟩ :=
        Step.bare_eq_more (hstep.symm.trans (congrArg Step.bare hnext))
      rw [run_more hs hnext, run_more hs' hnext']
      exact ih (.inr (isPart_of_step_more hnext)) hbare.symm hseen
    · have hover := not_exists.1 hmore
      rw [run_over hs hc hover, run_over hs' (hk ▸ hc) (Step.ne_more_of_bare hstep hover)]
      have hseen : (t :: seen).reverse.map Token.bare = (t' :: seen').reverse.map Token.bare := by
        rw [List.map_reverse, List.map_reverse, hseen]
      refine ⟨Run.conclude_same hr hseen hstep, ?_⟩
      rw [Run.cursor_conclude, Run.cursor_conclude]
      exact h

theorem run_related (hR : Cursor.Bisimulation d.flags R) (h : R c e) (hr : r.bare = r'.bare)
    (hseen : seen.map Token.bare = seen'.map Token.bare) :
    (r.run d seen c).Related R (r'.run d seen' e) := by
  induction hn : c.unread using Nat.strongRecOn generalizing r r' seen seen' c e with
  | _ n ih =>
    subst hn
    have hrelated := hR c e h
    generalize hs : scan d.flags c = s, hs' : scan d.flags e = s' at hrelated
    cases hrelated with
    | fault hx hstart => exact run_fault_related hs hs' hr hseen hx hstart
    | token ht hafter =>
      refine run_token_related hs hs' hr hseen (Token.bare_eq_of_unplaced ht)
        (step_bare_congr hr ht) hafter fun hk _ _ _ _ hr hseen => ?_
      have hlt := scan_token_unread_lt hs fun he => by simp [he, TokenKind.isPart] at hk
      exact ih _ hlt hafter hr hseen rfl

end Reading

/-! ## All sentences -/

/-- Where passing over a sentence ends, at related cursors. -/
inductive Skipped.Related (R : Cursor → Cursor → Prop) : Skipped → Skipped → Prop where
  | resumed {after after'} (h : R after after') : Related R (.resumed after) (.resumed after')
  | ended {after after'} (h : R after after') : Related R (.ended after) (.ended after')

theorem skipSentence_related {flags : Flags} {c e : Cursor} (hR : Cursor.Bisimulation flags R)
    (h : R c e) : (skipSentence flags c).Related R (skipSentence flags e) := by
  induction hn : c.unread using Nat.strongRecOn generalizing c e with
  | _ n ih =>
    subst hn
    have hrelated := hR c e h
    rw [skipSentence_eq flags c, skipSentence_eq flags e]
    generalize hs : scan flags c = s, scan flags e = s' at hrelated
    cases hrelated with
    | fault hx hstart hnext hend =>
      obtain ⟨hrest, hunread⟩ := scan_fault hs
      simp only
      split
      · exact .ended hend
      · have hlt := Cursor.unread_advance_lt Nat.one_pos hrest
        exact ih _ (Nat.lt_of_lt_of_le hlt hunread) hnext rfl
    | @token t t' after after' ht hafter =>
      have hk : t.kind = t'.kind := Token.kind_eq_of_bare (Token.bare_eq_of_unplaced ht)
      simp only [← hk]
      split
      · exact .resumed hafter
      · split
        · exact .ended hafter
        · next hend => exact ih _ (scan_token_unread_lt hs hend) hafter rfl

/-- Readers at related cursors. -/
structure Reader.Related (R : Cursor → Cursor → Prop) (r r' : Reader) : Prop where
  cursor : R r.cursor r'.cursor
  resync : r.resync = r'.resync
  issued : r.issued = r'.issued

/-- Outcomes that are the same but for places, with readers at related cursors. -/
structure Outcome.Related (R : Cursor → Cursor → Prop) (x y : Outcome × Reader) : Prop where
  outcome : x.1.unplaced = y.1.unplaced
  reader : x.2.Related R y.2

namespace Reader

variable {d : Dialect} {r r' : Reader} {c e : Cursor} {issued : Nat}

theorem readAt_of_run (h : (Run.at d issued c).Related R (Run.at d issued e)) :
    Outcome.Related R (readAt d issued c) (readAt d issued e) := by
  refine ⟨h.outcome, h.cursor, ?_, h.issued⟩
  have hrest : leavesRest (Run.at d issued c).tokens = leavesRest (Run.at d issued e).tokens := by
    rw [← leavesRest_bare, h.tokens, leavesRest_bare]
  simp only [readAt, hrest]
  obtain ⟨s, s', h, h', -⟩ | ⟨x, x', h, h', -⟩ | ⟨h, -⟩ := Outcome.unplaced_cases h.outcome
  · rw [h, h']
  · rw [h, h']
  · rw [h]

theorem next_related (hR : Cursor.Bisimulation d.flags R) (h : r.Related R r') :
    Outcome.Related R (r.next d) (r'.next d) := by
  obtain ⟨c, resync, issued⟩ := r
  obtain ⟨c', resync', issued'⟩ := r'
  obtain ⟨hc, hresync, hissued⟩ := h
  cases hresync
  cases hissued
  have hread {c c' : Cursor} (hc : R c c') :
      Outcome.Related R (readAt d issued c) (readAt d issued c') :=
    readAt_of_run (Reading.run_related hR hc rfl rfl)
  cases resync with
  | false => exact hread hc
  | true =>
    have hskip := skipSentence_related hR hc
    simp only [next, if_true]
    revert hskip
    generalize skipSentence d.flags c = s, skipSentence d.flags c' = s'
    intro hskip
    cases hskip with
    | resumed hafter => exact hread hafter
    | ended hafter => exact ⟨rfl, hafter, rfl, rfl⟩

end Reader

end PrologText
