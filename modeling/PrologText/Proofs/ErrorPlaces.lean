import PrologText.Proofs.Completion
import PrologText.Proofs.Positions

/-!
# Where syntax errors stand

A syntax error names a place, and a place in a text is that of one cursor. Main statement: the place
is that of a text that cannot be scanned, with the rest of the sentence still to be passed over, or
that of a token that has been taken (`Reader.readAt_malformed`).
-/

namespace PrologText

/-- A place in a text is that of one cursor alone. -/
theorem Cursor.Leads.eq_of_place {c d e : Cursor} (hd : c.Leads d) (he : c.Leads e)
    (h : d.place = e.place) : d = e := by
  have hending : d.ending = e.ending := hd.ending.trans he.ending.symm
  have hnumber : d.number = e.number := Nat.succ.inj (congrArg Place.line h)
  have hlater : d.later = e.later := by
    rcases hd.lines with ⟨hn, -, hl, -⟩ | ⟨hn, hl⟩ <;>
      rcases he.lines with ⟨hn', -, hl', -⟩ | ⟨hn', hl'⟩
    · exact hl.trans hl'.symm
    · omega
    · omega
    · rw [hnumber] at hl
      exact (List.cons.inj (hl.symm.trans hl')).2
  obtain ⟨number, whole, column, rest, later, ending, hrest⟩ := d
  obtain ⟨number', whole', column', rest', later', ending', hrest'⟩ := e
  simp only [place, Place.mk.injEq, Nat.add_right_cancel_iff] at h hending hlater
  obtain ⟨rfl, rfl, rfl⟩ := h
  simp only [hrest, hrest', hending, hlater]

/-- The place of a syntax error. -/
def Outcome.place? : Outcome → Option Place
  | error (.malformed e) => some e.place
  | _ => none

theorem Outcome.exists_of_place? {o : Outcome} {p : Place} (h : o.place? = some p) :
    ∃ e, o = .error (.malformed e) ∧ e.place = p := by
  unfold place? at h
  split at h
  · next e => exact ⟨e, rfl, Option.some.inj h⟩
  · cases h

/-! ## Errors and tokens -/

namespace Reading

variable {d : Dialect} {r last : Reading} {t : Token} {ts : List Token} {f g : Place → Place}

theorem step_moved_eq (hr : r.moved f = r.moved g) (ht : f t.place = g t.place) :
    (r.step d t).moved f = (r.step d t).moved g := by
  have hshifted : t.shifted f = t.shifted g := by simp only [Token.shifted, ht]
  have hmoved : t.moved f = t.moved g := by simp only [Token.moved, ht]
  rw [← Step.recast_zero, ← Step.recast_zero, step_recast, step_recast, recast_zero, recast_zero,
    hr, hshifted, hmoved]

theorem Takes.moved_eq (h : r.Takes d ts last) (hr : r.moved f = r.moved g)
    (hts : ∀ t ∈ ts, f t.place = g t.place) : last.moved f = last.moved g := by
  induction h with
  | nil => exact hr
  | comment _ _ ih => exact ih hr (List.forall_mem_cons.1 hts).2
  | more _ hnext _ ih =>
    have hstep := step_moved_eq (d := d) hr (List.forall_mem_cons.1 hts).1
    rw [hnext] at hstep
    exact ih (Step.more.inj hstep) (List.forall_mem_cons.1 hts).2

/-- A syntax error stands at a token that was taken. Whatever moves other places leaves the error
where it is. -/
theorem Takes.place_mem {issued : Nat} {e : SyntaxError} (h : (start issued).Takes d ts last)
    (hs : last.step d t = .fault e) : e.place ∈ (ts ++ [t]).map (·.place) := by
  apply Decidable.byContradiction
  intro hmem
  let elsewhere (p : Place) : Place :=
    if p ∈ (ts ++ [t]).map (·.place) then p else { p with line := p.line + 1 }
  have hfixed (u : Token) (hu : u ∈ ts ++ [t]) : elsewhere u.place = id u.place :=
    if_pos (List.mem_map_of_mem hu)
  have hlast : last.moved elsewhere = last.moved id :=
    h.moved_eq rfl fun u hu => hfixed u (List.mem_append_left _ hu)
  have hstep := step_moved_eq (d := d) hlast (hfixed t (by simp))
  rw [hs] at hstep
  have hplace : elsewhere e.place = e.place :=
    congrArg SyntaxError.place (Step.fault.inj hstep)
  rw [show elsewhere e.place = _ from if_neg hmem] at hplace
  exact Nat.succ_ne_self _ (congrArg Place.line hplace)

theorem Takes.isPart (h : r.Takes d ts last) : ∀ t ∈ ts, t.kind = .comment ∨ t.kind.isPart := by
  induction h with
  | nil => simp
  | comment hk _ ih => exact List.forall_mem_cons.2 ⟨.inl hk, ih⟩
  | more _ hnext _ ih => exact List.forall_mem_cons.2 ⟨.inr (isPart_of_step_more hnext), ih⟩

/-- Tokens that are taken before the end of a sentence leave a rest of it. -/
theorem Takes.leavesRest (h : r.Takes d ts last) : leavesRest ts = true := by
  unfold PrologText.leavesRest
  split
  · rfl
  · next t hfind =>
    have hk := List.find?_some hfind
    have hmem := List.mem_reverse.1 (List.mem_of_find?_eq_some hfind)
    rcases h.isPart t hmem with hcomment | hpart
    · simp [hcomment] at hk
    · cases hkind : t.kind <;> simp_all [TokenKind.isPart]

end Reading

theorem Scans.exists_of_mem {flags : Flags} {c c' : Cursor} {t : Token} {ts : List Token}
    (h : Scans flags c ts c') (ht : t ∈ ts) :
    ∃ before after, c.Leads before ∧ scan flags before = .token t after ∧ after.Leads c' := by
  induction h with
  | nil => cases ht
  | @cons c u after ts last hu hs ih =>
    rcases List.mem_cons.1 ht with rfl | ht
    · exact ⟨c, after, .refl c, hu, hs.leads⟩
    · obtain ⟨before, after', hbefore, hscan, hafter⟩ := ih ht
      exact ⟨before, after', (leads_of_scan_token hu).trans hbefore, hscan, hafter⟩

namespace Reader

variable {d : Dialect} {r r' : Reader} {e : SyntaxError} {issued : Nat} {c : Cursor}

theorem exists_readAt_of_next (h : r.next d = (.error (.malformed e), r')) :
    ∃ c, r.cursor.Leads c ∧ readAt d r.issued c = (.error (.malformed e), r') := by
  rcases r.next_eq_cases d with
    ⟨start, hleads, hnext⟩ | ⟨after, -, hnext⟩ | ⟨reason, stopped, -, -, hnext⟩
  · exact ⟨start, hleads, hnext.symm.trans h⟩
  · cases hnext.symm.trans h
  · cases hnext.symm.trans h

/-- A syntax error is a fault, with the rest of the sentence left, or stands at a token. -/
theorem readAt_malformed (h : readAt d issued c = (.error (.malformed e), r')) :
    (∃ before exhausted, c.Leads before ∧ scan d.flags before = .fault e r'.cursor exhausted ∧
        r'.resync = true) ∨
      ∃ before after t, c.Leads before ∧ scan d.flags before = .token t after ∧
        t.place = e.place ∧ after.Leads r'.cursor := by
  obtain ⟨ts, at', last, hts, hfeed, hend⟩ := Reading.run_cases d (.start issued) [] c
  have htakes := Reading.takes_of_feed hfeed
  simp only [readAt, Prod.mk.injEq] at h
  obtain ⟨houtcome, rfl⟩ := h
  unfold Run.at at houtcome ⊢
  generalize (Reading.start issued).run d [] c = run at hend houtcome ⊢
  cases hend with
  | failure => cases houtcome
  | fault hs =>
    cases houtcome
    exact .inl ⟨at', _, hts.leads, hs, htakes.leavesRest⟩
  | @token t after hs =>
    have hfault : last.step d t = .fault e := by
      cases hstep : last.step d t <;> simp_all [Run.conclude]
    obtain ⟨u, hu, hplace⟩ := List.mem_map.1 (htakes.place_mem hfault)
    obtain ⟨before, behind, hbefore, hscan, hbehind⟩ :=
      (hts.append (.cons hs .nil)).exists_of_mem hu
    refine .inr ⟨before, behind, u, hbefore, hscan, hplace, ?_⟩
    rwa [Run.cursor_conclude]

end Reader

end PrologText
