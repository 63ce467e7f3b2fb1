import PrologText.Proofs.Bisimulation
import PrologText.Proofs.Prolongation

/-!
# The same lines elsewhere

Two readers that have the same lines before them yield the same, but for places, however much came
before. Main statement: consulting comes to the same (`Reader.consult_alike`). Where a sentence
starts it is enough that the first tokens are the same but for the white space before them
(`Reader.consult_akin`).
-/

namespace PrologText

/-! ## One sentence -/

/-- Cursors with the same lines before them. -/
abbrev Cursor.Alike : Cursor → Cursor → Prop :=
  Cursor.Prolongs [] []

theorem scanFrom_alike (flags : Flags) (layout : Bool) {c e : Cursor} (h : c.Alike e) :
    Scan.Same [] [] (scanFrom flags layout c) (scanFrom flags layout e) := by
  refine scanFrom_prolongs flags layout c e h ?_
  cases scanFrom flags layout c with
  | token => exact .inl ⟨rfl, rfl⟩
  | _ => exact ⟨rfl, rfl⟩

theorem scan_alike (flags : Flags) {c e : Cursor} (h : c.Alike e) :
    Scan.Same [] [] (scan flags c) (scan flags e) :=
  scanFrom_alike flags false h

theorem Scan.Same.related {flags : Flags} {c e : Cursor}
    (h : Scan.Same [] [] (scan flags c) (scan flags e)) :
    (scan flags c).Related Cursor.Alike (scan flags e) := by
  generalize hs : scan flags c = s, scan flags e = s' at h
  cases h with
  | token ht hafter => exact .token ht hafter
  | fault he hstart =>
    have hone := hstart.advance (List.length_pos_iff.2 (scan_fault hs).1) (.inl ⟨rfl, rfl⟩)
    exact .fault he hstart hone hstart.toEnd

theorem Cursor.bisimulation_alike (flags : Flags) : Bisimulation flags Alike :=
  fun _ _ h => (scan_alike flags h).related

/-- Scanning that comes to the same but for places and white space before the token. -/
inductive Scan.Akin : Scan → Scan → Prop where
  | token {t t' after after'} (ht : t.bare = t'.bare) (h : after.Alike after') :
    Akin (.token t after) (.token t' after')
  | fault {e e' start start' exhausted} (he : e.unplaced = e'.unplaced) (h : start.Alike start') :
    Akin (.fault e start exhausted) (.fault e' start' exhausted)

theorem Run.at_akin {d : Dialect} {c e : Cursor}
    (h : Scan.Akin (scan d.flags c) (scan d.flags e)) (issued : Nat) :
    (Run.at d issued c).Related Cursor.Alike (Run.at d issued e) := by
  generalize hs : scan d.flags c = s, hs' : scan d.flags e = s' at h
  -- Only the first tokens differ in the white space before them; the lines behind are the same.
  cases h with
  | fault hx hstart => exact Reading.run_fault_related hs hs' rfl rfl hx hstart
  | token ht hafter =>
    exact Reading.run_token_related hs hs' rfl rfl ht
      (Reading.step_bare_congr_of_operand rfl rfl rfl ht) hafter fun _ _ _ _ _ hr hseen =>
        Reading.run_related (Cursor.bisimulation_alike d.flags) hafter hr hseen

/-! ## All sentences -/

/-- Programs that come to the same but for places. -/
structure Consulted.Same (a b : Consulted) : Prop where
  dialect : a.dialect = b.dialect
  issued : a.issued = b.issued
  result : a.result.map Consultation.unplaced = b.result.map Consultation.unplaced

theorem Consulted.Same.trans {a b c : Consulted} (h : a.Same b) (h' : b.Same c) : a.Same c :=
  ⟨h.dialect.trans h'.dialect, h.issued.trans h'.issued, h.result.trans h'.result⟩

namespace Reader

variable {R : Cursor → Cursor → Prop} {d : Dialect} {r r' : Reader} {c e : Cursor}
variable {done done' : Consultation}

theorem consult_same_of_next (h : Outcome.Related R (r.next d) (r'.next d))
    (hdone : done.unplaced = done'.unplaced)
    (ih : (r.next d).1.Continues → ∀ {d' : Dialect} {done done' : Consultation},
      done.unplaced = done'.unplaced →
        ((r.next d).2.consult d' done).Same ((r'.next d).2.consult d' done')) :
    (r.consult d done).Same (r'.consult d done') := by
  rw [consult_eq d done r, consult_eq d done' r']
  revert h ih
  generalize r.next d = x, r'.next d = y
  obtain ⟨o, after⟩ := x
  obtain ⟨o', after'⟩ := y
  intro h ih
  have hissued : after.issued = after'.issued := h.reader.issued
  obtain ⟨s, s', rfl, rfl, hs⟩ | ⟨x, x', rfl, rfl, hx⟩ | ⟨rfl, hover⟩ :=
    Outcome.unplaced_cases h.outcome
  · have happly : d.apply s = d.apply s' := by
      rw [← d.apply_unplaced s, ← d.apply_unplaced s', hs]
    simp only [happly]
    exact ih trivial (Consultation.addSentence_unplaced hdone hs _)
  · exact ih trivial (Consultation.addError_unplaced hdone hx)
  · have hresult : (Except.ok done.reverse : Except ReadError Consultation).map
        Consultation.unplaced = (Except.ok done'.reverse).map Consultation.unplaced := by
      simp only [Except.map, Consultation.reverse_unplaced, hdone]
    obtain s | _ | (e | reason | _) := o
    · exact absurd trivial hover
    · exact ⟨rfl, hissued, hresult⟩
    · exact absurd trivial hover
    · exact ⟨rfl, hissued, rfl⟩
    · exact ⟨rfl, hissued, rfl⟩

/-- Directives can change the flags, so scanning has to come to the same under all of them. -/
theorem consult_related (hR : ∀ flags, Cursor.Bisimulation flags R) (h : r.Related R r')
    (hdone : done.unplaced = done'.unplaced) : (r.consult d done).Same (r'.consult d done') := by
  induction hn : r.measure using Nat.strongRecOn generalizing d r r' done done' with
  | _ n ih =>
    subst hn
    have hnext := next_related (hR d.flags) h
    -- The outcomes are the same but for places, and directives do not see places.
    refine consult_same_of_next hnext hdone fun hmore _ _ _ hdone => ?_
    exact ih _ (next_measure_lt hmore) hnext.reader hdone rfl

theorem consult_alike (h : r.Related Cursor.Alike r') (hdone : done.unplaced = done'.unplaced) :
    (r.consult d done).Same (r'.consult d done') :=
  consult_related Cursor.bisimulation_alike h hdone

/-- Where a sentence starts it does not matter what stands before its first token. -/
theorem consult_akin (h : Scan.Akin (scan d.flags c) (scan d.flags e)) (issued : Nat)
    (hdone : done.unplaced = done'.unplaced) :
    ((Reader.ofCursor c issued).consult d done).Same ((Reader.ofCursor e issued).consult d done') :=
  have hnext : Outcome.Related Cursor.Alike ((ofCursor c issued).next d)
      ((ofCursor e issued).next d) :=
    readAt_of_run (Run.at_akin h issued)
  consult_same_of_next hnext hdone fun _ => consult_alike hnext.reader

end Reader

end PrologText
