import PrologText.Proofs.Completion
import PrologText.Proofs.Coverage

/-!
# Sentences have derivations

Whatever the operators, the flags and the text, the term of a sentence has a derivation in the
prioritised operator grammar from exactly the tokens of the sentence
(`Reader.derives_of_next_sentence`).
-/

namespace PrologText

/-! ## Runs -/

/-- How a sentence comes of tokens, `b` being the variables met before them: the term has a
derivation, and the lists of variables are what is known of them behind the tokens. -/
structure Sentence.ReadFrom (able : Token → Prop) (d : Dialect) (b : Bindings)
    (tokens : List Token) (s : Sentence) : Prop where
  derives : ∃ p, DerivesWith able d .whole b tokens s.term p
  namedVariables : s.namedVariables = (b.after tokens).namedVariables
  singletons : s.singletons = (b.after tokens).singletons

namespace Reading

variable {able : Token → Prop} {d : Dialect} {b : Bindings} {r last : Reading}
variable {seen ts : List Token} {c : Cursor}

/-- Whether a quoted comma or bar among some tokens is taken for an operator. -/
def misreadsAny (d : Dialect) : Reading → List Token → Bool
  | _, [] => false
  | r, t :: ts =>
    if t.kind = .comment then misreadsAny d r ts
    else
      r.misreads d t ||
        match r.step d t with
        | .more next => misreadsAny d next ts
        | _ => false

theorem misreadsAny_append {us : List Token} (h : r.feed d ts = .more last) :
    r.misreadsAny d (ts ++ us) = (r.misreadsAny d ts || last.misreadsAny d us) := by
  replace h := takes_of_feed h
  induction h with
  | nil => rfl
  | comment hk _ ih => simpa [misreadsAny, hk] using ih
  | more hk hnext _ ih => simp [misreadsAny, hk, hnext, ih, Bool.or_assoc]

/-- Feeding tokens keeps a reading one of all its tokens. -/
theorem feed_covers (hable : ∀ t : Token, ¬t.IsQuotedSeparator → able t)
    (hr : r.Covers able d b (uncommented seen)) (hm : r.misreadsAny d ts → ∀ t, able t)
    (h : r.feed d ts = .more last) : last.Covers able d b (uncommented (seen ++ ts)) := by
  replace h := takes_of_feed h
  induction h generalizing seen with
  | nil => simpa using hr
  | comment hk _ ih =>
    rw [List.append_cons]
    exact ih (by simpa [uncommented_singleton_of_comment hk] using hr)
      (by simpa [misreadsAny, hk] using hm)
  | @more _ t _ _ _ hk hnext _ ih =>
    simp only [misreadsAny, if_neg hk, hnext, Bool.or_eq_true] at hm
    have hsound := step_sound (t := t) hable hr fun h => hm (.inl h) t
    rw [hnext, Step.Sound] at hsound
    rw [List.append_cons]
    exact ih (by simpa [uncommented_singleton_of_ne hk] using hsound) fun h => hm (.inr h)

/-- A run that starts with a reading of the tokens `seen` and ends in a sentence: the tokens it
takes, and how the sentence comes of all tokens but the last. -/
theorem run_sentence {s : Sentence} (hable : ∀ t : Token, ¬t.IsQuotedSeparator → able t)
    (hr : r.Covers able d b (uncommented seen.reverse))
    (hm : ∀ ts, (r.run d seen c).tokens = seen.reverse ++ ts → r.misreadsAny d ts → ∀ t, able t)
    (h : (r.run d seen c).outcome = .sentence s) :
    ∃ body last, Scans d.flags c (body ++ [last]) (r.run d seen c).cursor ∧ d.flags.Ends last ∧
      s.ReadFrom able d b (uncommented (seen.reverse ++ body)) ∧
      (r.run d seen c).issued = (b.after (uncommented (seen.reverse ++ body))).issued := by
  obtain ⟨body, at', last, hscans, hfeed, hend⟩ := run_cases d r seen c
  generalize r.run d seen c = run at h hm hend ⊢
  cases hend with
  | failure => cases h
  | fault => cases h
  | @token t after ht hk hover =>
    rw [Run.tokens_conclude, List.append_assoc] at hm
    replace hm := hm (body ++ [t]) rfl
    rw [misreadsAny_append hfeed, Bool.or_eq_true] at hm
    have hlast := feed_covers hable hr (fun hbody => hm (.inl hbody)) hfeed
    -- of all steps that end a reading only the completion of its expression gives a sentence
    have hsound := step_sound (t := t) hable hlast fun hlast =>
      hm (.inr (by simp [misreadsAny, hk, hlast])) t
    generalize last.step d t = step at h hsound ⊢
    cases step with
    | done term names =>
      obtain ⟨hp, rfl, hends⟩ := hsound
      cases h
      exact ⟨body, t, hscans.append (.cons ht .nil), hends, ⟨hp, rfl, rfl⟩, rfl⟩
    | more | endOfInput | fault | stuck => cases h

/-- The derivation of the term of a sentence. -/
theorem run_derives {s : Sentence} (hr : r.Covers (fun _ => True) d b (uncommented seen.reverse))
    (h : (r.run d seen c).outcome = .sentence s) :
    ∃ body last p, Scans d.flags c (body ++ [last]) (r.run d seen c).cursor ∧ d.flags.Ends last ∧
      Derives d .whole b (uncommented (seen.reverse ++ body)) s.term p := by
  obtain ⟨body, last, hscans, hlast, ⟨⟨p, hp⟩, -, -⟩, -⟩ :=
    run_sentence (fun _ _ => trivial) hr (fun _ _ _ _ => trivial) h
  exact ⟨body, last, p, hscans, hlast, hp.derives⟩

end Reading

/-! ## Readers -/

/-- The sentence of an outcome. -/
def Outcome.sentence? : Outcome → Option Sentence
  | sentence s => some s
  | _ => none

namespace Reader

/-- Where the next sentence of a reader starts: behind the rest of a malformed one, if there is
such a rest. -/
def StartsAt (flags : Flags) (r : Reader) (start : Cursor) : Prop :=
  if r.resync then skipSentence flags r.cursor = .resumed start else start = r.cursor

theorem next_eq_readAt {d : Dialect} {r : Reader} {start : Cursor}
    (h : r.StartsAt d.flags start) : r.next d = readAt d r.issued start := by
  unfold StartsAt at h
  unfold next
  split at h
  · next hr => simp [hr, h]
  · next hr => simp [hr, h]

theorem exists_startsAt {d : Dialect} {r : Reader} (h : (r.next d).1.Continues) :
    ∃ start, r.StartsAt d.flags start := by
  unfold StartsAt
  unfold next at h
  split at h
  · next hr =>
    simp only [if_pos hr]
    split at h
    · exact h.elim
    · exact h.elim
    · next after hs => exact ⟨after, hs⟩
  · next hr =>
    simp only [if_neg hr]
    exact ⟨_, rfl⟩

theorem startsAt_of_next_sentence {d : Dialect} {r : Reader} {s : Sentence}
    (h : (r.next d).1 = .sentence s) : ∃ start, r.StartsAt d.flags start :=
  exists_startsAt (h ▸ trivial)

theorem StartsAt.leads {flags : Flags} {r : Reader} {start : Cursor}
    (h : r.StartsAt flags start) : r.cursor.Leads start := by
  unfold StartsAt at h
  split at h
  · have hahead := skipSentence_ahead flags r.cursor
    rwa [h] at hahead
  · exact h ▸ .refl _

/-- The tokens of an expression, with comments among them, do not end a sentence. -/
theorem not_ends_of_derives {d : Dialect} {s : Scope} {b : Bindings} {body : List Token} {x : Term}
    {p : Nat} (h : Derives d s b (uncommented body) x p) : ∀ t ∈ body, ¬d.flags.Ends t := by
  intro t ht hends
  have hk : t.kind ≠ .comment := by rcases hends with hk | ⟨-, hk⟩ <;> simp [hk]
  have hpart := List.all_eq_true.1 h.all_isPart t (by simp [uncommented, ht, hk])
  rcases hends with hk | ⟨-, hk⟩ <;> simp [hk, TokenKind.isPart] at hpart

/-- Whether a quoted comma or bar in the next sentence is taken for an operator. -/
def misreads (d : Dialect) (r : Reader) : Bool :=
  let misreadsAt (start : Cursor) : Bool :=
    (Reading.start r.issued).misreadsAny d (Run.at d r.issued start).tokens
  if r.resync then
    match skipSentence d.flags r.cursor with
    | .resumed start => misreadsAt start
    | _ => false
  else misreadsAt r.cursor

theorem misreads_eq {d : Dialect} {r : Reader} {start : Cursor} (h : r.StartsAt d.flags start) :
    r.misreads d = (Reading.start r.issued).misreadsAny d (Run.at d r.issued start).tokens := by
  unfold StartsAt at h
  unfold misreads
  split at h
  · next hr => simp [hr, h]
  · next hr => simp [hr, h]

/-- How the next sentence comes of the tokens between its start and the first token that ends one.
-/
theorem readFrom_of_next_sentence {able : Token → Prop} {d : Dialect} {r after : Reader}
    {s : Sentence} (hable : ∀ t : Token, ¬t.IsQuotedSeparator → able t)
    (hm : r.misreads d → ∀ t, able t) (h : r.next d = (.sentence s, after)) :
    ∃ start body last, r.StartsAt d.flags start ∧
      Scans d.flags start (body ++ [last]) after.cursor ∧
      (∀ t ∈ body, ¬d.flags.Ends t) ∧ d.flags.Ends last ∧
      s.ReadFrom able d (.startingAfter r.issued) (uncommented body) ∧
      after.issued = ((Bindings.startingAfter r.issued).after (uncommented body)).issued := by
  obtain ⟨start, hstart⟩ := startsAt_of_next_sentence (d := d) (s := s) (by rw [h])
  rw [misreads_eq hstart] at hm
  rw [next_eq_readAt hstart] at h
  obtain ⟨houtcome, hafter⟩ := Prod.mk.inj h
  obtain ⟨body, last, hscans, hlast, hread, hissued⟩ :=
    Reading.run_sentence hable (Reading.covers_start d r.issued)
      (fun ts hts => (show (Run.at d r.issued start).tokens = ts from hts) ▸ hm) houtcome
  have hread : s.ReadFrom able d (.startingAfter r.issued) (uncommented body) := by
    simpa using hread
  have hends : ∀ t ∈ body, ¬d.flags.Ends t := by
    obtain ⟨⟨p, hp⟩, -, -⟩ := hread
    exact not_ends_of_derives hp.derives
  refine ⟨start, body, last, hstart, hafter ▸ hscans, hends, hlast, hread, ?_⟩
  rw [← hafter]
  simpa [Run.at] using hissued

/-- The term of a sentence is derivable, in the prioritised operator grammar of the dialect, from
the tokens between the start of the sentence and the first token that ends one: from all of them but
the comments, in their order, each used once. -/
theorem derives_of_next_sentence {d : Dialect} {r after : Reader} {s : Sentence}
    (h : r.next d = (.sentence s, after)) :
    ∃ start body last p, r.StartsAt d.flags start ∧
      Scans d.flags start (body ++ [last]) after.cursor ∧
      (∀ t ∈ body, ¬d.flags.Ends t) ∧ d.flags.Ends last ∧
      Derives d .whole (.startingAfter r.issued) (uncommented body) s.term p := by
  obtain ⟨start, hstart⟩ := startsAt_of_next_sentence (d := d) (s := s) (by rw [h])
  rw [next_eq_readAt hstart] at h
  obtain ⟨houtcome, hafter⟩ := Prod.mk.inj h
  obtain ⟨body, last, p, hscans, hlast, hder⟩ :=
    Reading.run_derives (Reading.covers_start d r.issued) houtcome
  have hder : Derives d .whole (.startingAfter r.issued) (uncommented body) s.term p := by
    simpa using hder
  exact ⟨start, body, last, p, hstart, hafter ▸ hscans, not_ends_of_derives hder, hlast, hder⟩

theorem exists_next_sentence {d : Dialect} {r : Reader} (h : (r.next d).1.sentence?.isSome) :
    ∃ s after, r.next d = (.sentence s, after) := by
  revert h
  rcases r.next d with ⟨outcome, after⟩
  cases outcome with
  | sentence s => exact fun _ => ⟨s, after, rfl⟩
  | endOfInput | error => exact nofun

/-- A reader inside a malformed sentence, before a clause with operators of all kinds. -/
def beforeClause : Reader :=
  ⟨.ofText "b c). X = [- , a|-1] :- \\+ (f(:-), !).", true, 7⟩

theorem derives_of_next_beforeClause :
    ∃ s after, beforeClause.next .standard = (.sentence s, after) ∧
      ∃ start body last p, beforeClause.StartsAt Dialect.standard.flags start ∧
        Scans Dialect.standard.flags start (body ++ [last]) after.cursor ∧
        (∀ t ∈ body, ¬Dialect.standard.flags.Ends t) ∧ Dialect.standard.flags.Ends last ∧
        Derives .standard .whole (.startingAfter 7) (uncommented body) s.term p := by
  obtain ⟨s, after, h⟩ :=
    exists_next_sentence (d := .standard) (r := beforeClause) (by decide +kernel)
  exact ⟨s, after, h, derives_of_next_sentence h⟩

end Reader

end PrologText
