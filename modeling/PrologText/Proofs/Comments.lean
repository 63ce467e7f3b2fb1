import PrologText.Proofs.Completion
import PrologText.Proofs.Positions
import PrologText.Proofs.Soundness
import PrologText.Proofs.Spans

/-!
# Kept comments

A reader can keep comments as tokens or pass over them. A comment that is passed over counts as
white space before the next token, one that is kept does not. This shows only where a number stands
directly behind a comment and a sign before it waits for a number (`Reading.partsSign`). Main
statement: everywhere else a reader yields the same sentences and the same errors in both ways
(`Reader.outcome_keeping`).
-/

namespace PrologText

/-- Flags with which comments are kept as tokens, or are not. -/
def Flags.keeping (f : Flags) (keep : Bool) : Flags :=
  { f with keepComments := keep }

def Dialect.keeping (d : Dialect) (keep : Bool) : Dialect :=
  { d with flags := d.flags.keeping keep }

/-! ## Scanning -/

/-- A token, with white space before it if `spaced`. -/
def Token.spacedIf (spaced : Bool) (t : Token) : Token :=
  if spaced then { t with layoutBefore := true } else t

@[simp] theorem Token.kind_spacedIf (spaced : Bool) (t : Token) :
    (t.spacedIf spaced).kind = t.kind := by
  cases spaced <;> rfl

@[simp] theorem Token.moved_spacedIf (f : Place → Place) (spaced : Bool) (t : Token) :
    (t.spacedIf spaced).moved f = t.moved f := by
  cases spaced <;> rfl

namespace Scan

/-- What scanning comes to where white space has been passed over first if `layout`. -/
def spacedIf (layout : Bool) (s : Scan) : Scan :=
  if layout then s.spaced else s

@[simp] theorem spacedIf_token (layout : Bool) (t : Token) (after : Cursor) :
    (token t after).spacedIf layout = token (t.spacedIf layout) after := by
  cases layout <;> rfl

@[simp] theorem spacedIf_fault (layout : Bool) (e : SyntaxError) (start : Cursor)
    (exhausted : Bool) :
    (fault e start exhausted).spacedIf layout = fault e start exhausted := by
  cases layout <;> rfl

@[simp] theorem spacedIf_failure (layout : Bool) (reason : Text) (stopped : Cursor) :
    (failure reason stopped).spacedIf layout = failure reason stopped := by
  cases layout <;> rfl

theorem spacedIf_spaced (layout : Bool) (s : Scan) : s.spaced.spacedIf layout = s.spaced := by
  cases layout <;> cases s <;> rfl

/-- What scanning comes to is no comment. -/
def NoComment : Scan → Prop
  | token t _ => t.kind ≠ .comment
  | _ => True

theorem name_noComment {kind : TokenKind} {text : Text} {layout : Bool} {start after : Cursor}
    (hk : kind ≠ .comment) : (name kind text layout start after).NoComment := by
  unfold name
  split
  · trivial
  · exact hk

theorem dot_noComment {layout : Bool} {start after : Cursor} :
    (dot layout start after).NoComment := by
  unfold dot
  split
  · trivial
  · split <;> exact nofun

theorem unended_noComment {cause : SyntaxCause} {start stopped : Cursor} :
    (unended cause start stopped).NoComment := by
  unfold unended
  split <;> trivial

theorem quoted_noComment {f : QuotedForm} {layout : Bool} {start inside : Cursor} :
    (quoted f layout start inside).NoComment := by
  have hk : quotedKind f ≠ .comment := by
    rcases quotedKind_cases f with h | h | h | h <;> simp [h]
  unfold quoted
  split
  · exact unended_noComment
  · trivial
  · simp only
    split
    · exact name_noComment hk
    · exact hk

theorem lexeme_noComment {flags : Flags} {layout : Bool} {ch : Char} {start : Cursor} :
    (lexeme flags layout ch start).NoComment := by
  unfold lexeme
  split
  · next h => exact (Lexeme.ofText_plain h).2.2.2.1
  · exact name_noComment nofun
  · exact dot_noComment
  · exact quoted_noComment
  · exact quoted_noComment
  · trivial

theorem scanFrom_noComment {flags : Flags} (hk : flags.keepComments = false) (layout : Bool)
    (c : Cursor) : (scanFrom flags layout c).NoComment := by
  fun_induction scanFrom flags layout c with
  | case1 => trivial
  | case2 => simp [NoComment]
  | case3 _ _ _ _ _ _ _ _ _ _ ih => exact ih
  | case4 => simp_all
  | case5 _ _ _ _ _ _ _ _ _ _ _ ih => exact ih
  | case6 => exact unended_noComment
  | case7 => simp_all
  | case8 _ _ _ _ _ _ _ _ _ _ _ _ _ _ _ ih => exact ih
  | case9 => exact lexeme_noComment

/-- What scanning comes to when comments are passed over, beside what it comes to when they are
kept. -/
inductive Keeps (flags : Flags) : Scan → Scan → Prop where
  | same {s} (h : s.NoComment) : Keeps flags s s
  | comment {t after} (hk : t.kind = .comment) :
    Keeps flags (scanFrom (flags.keeping false) true after) (.token t after)

end Scan

theorem scanFrom_keeps (flags : Flags) (layout : Bool) (c : Cursor) :
    Scan.Keeps flags (scanFrom (flags.keeping false) layout c)
      (scanFrom (flags.keeping true) layout c) := by
  induction hn : c.unread using Nat.strongRecOn generalizing layout c with
  | _ n ih =>
    subst hn
    rw [scanFrom_eq _ layout c, scanFrom_eq _ layout c]
    cases hr : c.fill.rest with
    | nil => cases c.fill.ending <;> exact .same (by simp [Scan.NoComment])
    | cons g t =>
      simp only
      split
      · exact ih _ (c.unread_fill_advance_lt Nat.one_pos (by simp [hr])) true _ rfl
      · split
        · exact .comment rfl
        · split
          · split
            · exact .same Scan.unended_noComment
            · exact .comment rfl
          · exact .same Scan.lexeme_noComment

theorem scan_keeps (flags : Flags) (c : Cursor) :
    Scan.Keeps flags (scan (flags.keeping false) c) (scan (flags.keeping true) c) :=
  scanFrom_keeps flags false c

theorem scan_keeping_of_noComment {flags : Flags} {c : Cursor} {s : Scan}
    (hs : scan (flags.keeping true) c = s) (h : s.NoComment) :
    scan (flags.keeping false) c = s := by
  have hkeeps := scan_keeps flags c
  rw [hs] at hkeeps
  generalize scan (flags.keeping false) c = s' at hkeeps
  cases hkeeps with
  | same => rfl
  | comment hk => exact absurd hk h

/-! ## Passing over a sentence -/

theorem skipSentence_of_spacedIf {flags : Flags} {layout : Bool} {c c' : Cursor}
    (h : scan flags c = (scan flags c').spacedIf layout) :
    skipSentence flags c = skipSentence flags c' := by
  rw [skipSentence_eq flags c, skipSentence_eq flags c', h]
  cases scan flags c' <;> simp

theorem skipSentence_keeping (flags : Flags) (c : Cursor) :
    skipSentence (flags.keeping false) c = skipSentence (flags.keeping true) c := by
  induction hn : c.unread using Nat.strongRecOn generalizing c with
  | _ n ih =>
    subst hn
    have hkeeps := scan_keeps flags c
    generalize hs : scan (flags.keeping true) c = s, hs' : scan (flags.keeping false) c = s'
      at hkeeps
    cases hkeeps with
    | same h =>
      rw [skipSentence_eq, hs', skipSentence_eq, hs]
      cases s with
      | failure => rfl
      | fault e start exhausted =>
        obtain ⟨hrest, hunread⟩ := scan_fault hs
        simp only
        split
        · rfl
        · exact ih _ (Nat.lt_of_lt_of_le (Cursor.unread_advance_lt Nat.one_pos hrest) hunread) _ rfl
      | token t after =>
        simp only
        split
        · rfl
        · split
          · rfl
          · next hend => exact ih _ (scan_token_unread_lt hs hend) _ rfl
    | @comment t after hk =>
      have hspaced := hs'.trans (scanFrom_spaced (flags.keeping false) false after)
      rw [skipSentence_of_spacedIf (show _ = (scan _ after).spacedIf true from hspaced),
        skipSentence_eq _ c, hs]
      simp only [hk, reduceCtorEq, if_false]
      exact ih _ (scan_token_unread_lt hs (by simp [hk])) _ rfl

/-! ## Reading a sentence -/

namespace Reading

variable {d : Dialect} {r r' last : Reading} {t : Token} {ts us : List Token}

theorem step_keeping (keep : Bool) : r.step (d.keeping keep) t = r.step d t := rfl

theorem feed_keeping (keep : Bool) : r.feed (d.keeping keep) ts = r.feed d ts := by
  induction ts generalizing r with
  | nil => rfl
  | cons t ts ih => simp only [feed, step_keeping, ih]

/-- Whether a sign waits for a number. -/
def awaitsNumber (r : Reading) : Bool :=
  match r.expects with
  | .signed _ _ => true
  | _ => false

/-- Whether, among tokens that are fed to a reading, a number stands directly behind a comment where
a sign waits for it. `behind` tells that the tokens themselves stand directly behind a comment. -/
def partsSign (d : Dialect) (r : Reading) (behind : Bool) : List Token → Bool
  | [] => false
  | t :: ts =>
    if t.kind = .comment then r.partsSign d true ts
    else if behind && r.awaitsNumber && !t.layoutBefore && t.number?.isSome then true
    else
      match r.step d t with
      | .more next => next.partsSign d false ts
      | _ => false

theorem settle_spaced (h : r.awaitsNumber = true → t.number? = none) :
    r.settle d { t with layoutBefore := true } = r.settle d t := by
  cases hx : r.expects with
  | signed op sign =>
    have hnone : t.number? = none := h (by simp [awaitsNumber, hx])
    simp [settle, hx, hnone]
  | _ => simp [settle, hx]

/-- White space before a token does not matter, unless the token is a number that a sign waits
for. -/
theorem step_moved_of_spaced (f : Place → Place) (h : r.awaitsNumber = true → t.number? = none) :
    (r.step d { t with layoutBefore := true }).moved f = (r.step d t).moved f := by
  simp only [step, settle_spaced h]
  cases r.settle d t with
  | taken s => rfl
  | ready next =>
    simp only
    rw [← take_moved, ← take_moved]
    rfl

theorem step_moved_of_spacedIf {spaced : Bool} (hr : r.moved id = r'.moved id)
    (h : (spaced && r.awaitsNumber && !t.layoutBefore && t.number?.isSome) = false) :
    (r.step d t).moved id = (r'.step d (t.spacedIf spaced)).moved id := by
  by_cases hs : t.spacedIf spaced = t
  · rw [hs]
    exact step_moved_congr hr rfl
  · obtain ⟨rfl, hl⟩ : spaced = true ∧ t.layoutBefore = false := by
      obtain ⟨kind, text, layoutBefore, functional, place⟩ := t
      cases spaced <;> cases layoutBefore <;> simp_all [Token.spacedIf]
    have hnumber : r.awaitsNumber = true → t.number? = none := by simpa [hl] using h
    rw [← step_moved_of_spaced id hnumber]
    exact step_moved_congr hr rfl

end Reading

/-- The tokens when comments are passed over, beside those when they are kept. -/
def Token.Passes (kept passed : List Token) : Prop :=
  passed.map (Token.moved id) = (uncommented kept).map (Token.moved id)

namespace Reading

variable {d : Dialect} {r r' last : Reading} {ts us : List Token} {c c' at' : Cursor}
variable {behind : Bool}

/-- Tokens that are taken with the comments among them are taken without them as well, and what
comes behind them is scanned in the same way, but for the white space before it. -/
theorem exists_feed_keeping (hs : Scans (d.flags.keeping true) c ts at')
    (hfeed : r.feed d ts = .more last) (hr : r.moved id = r'.moved id)
    (hscan : scan (d.flags.keeping false) c' = (scan (d.flags.keeping false) c).spacedIf behind)
    (hparts : r.partsSign d behind (ts ++ us) = false) :
    ∃ ts' at'' last' behind', Scans (d.flags.keeping false) c' ts' at'' ∧
      r'.feed d ts' = .more last' ∧ last.moved id = last'.moved id ∧ Token.Passes ts ts' ∧
      scan (d.flags.keeping false) at'' =
        (scan (d.flags.keeping false) at').spacedIf behind' ∧
      last.partsSign d behind' us = false := by
  replace hfeed := takes_of_feed hfeed
  induction hfeed generalizing c c' r' behind with
  | nil =>
    cases hs
    exact ⟨[], c', r', behind, .nil, rfl, hr, rfl, hscan, hparts⟩
  | @comment r t ts last hk _ ih =>
    cases hs with
    | @cons _ _ after _ _ ht hs =>
      have hkeeps := scan_keeps d.flags c
      rw [ht] at hkeeps
      generalize hoff : scan (d.flags.keeping false) c = s at hkeeps
      cases hkeeps with
      | same h => exact absurd hk h
      | comment =>
        -- Where the comment is passed over the cursor stays before it.
        rw [scanFrom_spaced _ false] at hoff
        have hscan' : scan (d.flags.keeping false) c' =
            (scan (d.flags.keeping false) after).spacedIf true := by
          rw [hscan, hoff, Scan.spacedIf_spaced]
          rfl
        obtain ⟨ts', at'', last', behind', hs', hfeed', hlast, hpass, hscan'', hparts'⟩ :=
          ih hs hr hscan' (by simpa [partsSign, hk] using hparts)
        refine ⟨ts', at'', last', behind', hs', hfeed', hlast, ?_, hscan'', hparts'⟩
        simpa [Token.Passes, uncommented, hk] using hpass
  | @more r t next ts last hk hnext _ ih =>
    cases hs with
    | @cons _ _ after _ _ ht hs =>
      have hkeeps := scan_keeps d.flags c
      rw [ht] at hkeeps
      generalize hoff : scan (d.flags.keeping false) c = s at hkeeps
      cases hkeeps with
      | comment hc => exact absurd hc hk
      | same =>
        rw [hoff, Scan.spacedIf_token] at hscan
        simp only [List.cons_append, partsSign, hk, if_false, hnext] at hparts
        split at hparts
        · cases hparts
        · next hstays =>
          have hstep := step_moved_of_spacedIf (d := d) hr (by simpa using hstays)
          rw [hnext] at hstep
          obtain ⟨next', hnext', hmoved⟩ := Step.moved_eq_more hstep.symm
          obtain ⟨ts', at'', last', behind', hs', hfeed', hlast, hpass, hscan'', hparts'⟩ :=
            ih hs hmoved.symm (show _ = Scan.spacedIf false _ from rfl) hparts
          refine ⟨t.spacedIf behind :: ts', at'', last', behind', .cons hscan hs',
            (feed_more hnext').trans hfeed', hlast, ?_, hscan'', hparts'⟩
          simpa [Token.Passes, uncommented, hk] using hpass

end Reading

/-! ## Sentences -/

namespace Token.Passes

variable {kept passed : List Token} {t : Token} {spaced : Bool}

theorem concat (h : Passes kept passed) (hk : t.kind ≠ .comment) :
    Passes (kept ++ [t]) (passed ++ [t.spacedIf spaced]) := by
  have hpassed : passed.map (Token.moved id) = (uncommented kept).map (Token.moved id) := h
  simp [Passes, hpassed, uncommented_singleton_of_ne hk]

theorem uncommented_passed (h : Passes kept passed) : uncommented passed = passed := by
  refine List.filter_eq_self.2 fun t ht => ?_
  have hmem : t.moved id ∈ (uncommented kept).map (Token.moved id) :=
    h ▸ List.mem_map_of_mem ht
  obtain ⟨u, hu, hmoved⟩ := List.mem_map.1 hmem
  have hkind : t.kind = u.kind := (congrArg Token.kind hmoved).symm
  simpa [hkind] using (List.mem_filter.1 hu).2

theorem map_eq (h : Passes kept passed) :
    (uncommented passed).map (Token.moved id) = (uncommented kept).map (Token.moved id) :=
  h.uncommented_passed.symm ▸ h

theorem leavesRest_eq (h : Passes kept passed) : leavesRest passed = leavesRest kept := by
  have key (ts : List Token) : leavesRest ts =
      ((uncommented ts).map (Token.moved id)).reverse.head?.all fun t =>
        t.kind ≠ .stop && t.kind ≠ .endOfFile := by
    have hfind : ts.reverse.find? (·.kind ≠ .comment) = (uncommented ts).reverse.head? := by
      rw [← List.head?_filter, List.filter_reverse]
      rfl
    rw [leavesRest, hfind, ← List.map_reverse, List.head?_map]
    cases (uncommented ts).reverse.head? <;> rfl
  rw [key, key, h.map_eq]

end Token.Passes

/-- A sentence without its comments. -/
def Sentence.uncommented (s : Sentence) : Sentence :=
  { s with comments := [] }

/-- An outcome without the comments of its sentence. -/
def Outcome.uncommented : Outcome → Outcome
  | sentence s => sentence s.uncommented
  | o => o

theorem Sentence.ofTokens_uncommented {kept passed : List Token} (h : Token.Passes kept passed)
    (term : Term) (names : Bindings) :
    ofTokens term names passed = (ofTokens term names kept).uncommented := by
  have hcomments : passed.filter (·.kind = .comment) = [] := by
    rw [← h.uncommented_passed, PrologText.uncommented, List.filter_filter]
    simp
  have hline (ts : List Token) : ((ts.find? (·.kind ≠ .comment)).map (·.place.line)).getD 0 =
      (((PrologText.uncommented ts).map (Token.moved id)).head?.map (·.place.line)).getD 0 := by
    rw [← List.head?_filter, List.head?_map, Option.map_map]
    rfl
  simp only [ofTokens, Sentence.uncommented, hcomments, hline, h.map_eq, List.map_nil]

/-- What a run comes to when comments are passed over, beside what it comes to when they are
kept. -/
structure Run.Passes (kept passed : Run) : Prop where
  outcome : passed.outcome = kept.outcome.uncommented
  tokens : Token.Passes kept.tokens passed.tokens
  cursor : passed.cursor = kept.cursor
  issued : passed.issued = kept.issued

theorem Run.conclude_passes {last last' : Reading} {kept passed : List Token} {after : Cursor}
    {s s' : Step} (hlast : last.moved id = last'.moved id) (h : Token.Passes kept passed)
    (hs : s.moved id = s'.moved id) :
    (conclude last kept after s).Passes (conclude last' passed after s') := by
  have hissued : last'.names.issued = last.names.issued := by
    have := congrArg Reading.names hlast
    exact congrArg Bindings.issued this.symm
  cases s <;> cases s' <;> simp only [Step.moved, reduceCtorEq] at hs <;> try cases hs
  case done.done.refl =>
    exact ⟨congrArg Outcome.sentence (Sentence.ofTokens_uncommented h _ _), h, rfl, rfl⟩
  case fault.fault e e' =>
    have he : e = e' := Step.fault.inj hs
    exact ⟨by rw [he]; rfl, h, rfl, hissued⟩
  all_goals exact ⟨rfl, h, rfl, hissued⟩

theorem Run.at_keeping {d : Dialect} {issued : Nat} {c : Cursor}
    (h : (Reading.start issued).partsSign d false (Run.at (d.keeping true) issued c).tokens =
      false) :
    (Run.at (d.keeping true) issued c).Passes (Run.at (d.keeping false) issued c) := by
  unfold Run.at at h ⊢
  obtain ⟨ts, at', last, hs, hfeed, hend⟩ :=
    Reading.run_cases (d.keeping true) (Reading.start issued) [] c
  rw [Reading.feed_keeping] at hfeed
  generalize (Reading.start issued).run (d.keeping true) [] c = kept at h hend ⊢
  -- The last token, if there is one, is scanned behind all the others.
  obtain ⟨us, hus⟩ : ∃ us, kept.tokens = ts ++ us := by
    cases hend with
    | failure => exact ⟨[], by simp⟩
    | fault => exact ⟨[], by simp⟩
    | @token t => exact ⟨[t], by simp⟩
  rw [hus] at h
  obtain ⟨ts', at'', last', behind, hs', hfeed', hlast, hpass, hscan, hparts⟩ :=
    Reading.exists_feed_keeping hs hfeed rfl (show _ = Scan.spacedIf false _ from rfl) h
  rw [← Reading.feed_keeping false] at hfeed'
  rw [Reading.run_of_feed_more hs' hfeed']
  have hissued : last'.names.issued = last.names.issued :=
    congrArg Bindings.issued (congrArg Reading.names hlast).symm
  have hpass' : Token.Passes ([].reverse ++ ts) (ts'.reverse ++ []).reverse := by simpa using hpass
  cases hend with
  | failure hfailure =>
    rw [scan_keeping_of_noComment hfailure trivial, Scan.spacedIf_failure] at hscan
    rw [Reading.run_failure hscan]
    exact ⟨rfl, hpass', rfl, hissued⟩
  | fault hfault =>
    rw [scan_keeping_of_noComment hfault trivial, Scan.spacedIf_fault] at hscan
    rw [Reading.run_fault hscan]
    exact ⟨rfl, hpass', rfl, hissued⟩
  | @token t after ht hk hover =>
    obtain rfl : us = [t] := by simpa using hus.symm
    rw [scan_keeping_of_noComment ht hk, Scan.spacedIf_token] at hscan
    have hstays : (behind && last.awaitsNumber && !t.layoutBefore && t.number?.isSome) = false := by
      simp only [Reading.partsSign, hk, if_false] at hparts
      split at hparts
      · cases hparts
      · next h => simpa using h
    have hstep : (last.step (d.keeping true) t).moved id =
        (last'.step (d.keeping false) (t.spacedIf behind)).moved id :=
      Reading.step_moved_of_spacedIf (d := d) hlast hstays
    rw [Reading.run_over hscan (by simpa using hk) (Step.ne_more_of_moved hstep hover)]
    have hpass'' : Token.Passes ([].reverse ++ ts ++ [t])
        ((ts'.reverse ++ []).reverse ++ [t.spacedIf behind]) := hpass'.concat hk
    exact Run.conclude_passes hlast (by simpa using hpass'') hstep

theorem Reading.partsSign_keeping {d : Dialect} (keep : Bool) (r : Reading) (behind : Bool)
    (ts : List Token) : r.partsSign (d.keeping keep) behind ts = r.partsSign d behind ts := by
  induction ts generalizing r behind with
  | nil => rfl
  | cons t ts ih => simp only [partsSign, step_keeping, ih]

namespace Reader

variable {d : Dialect}

/-- The reader behind the first `n` outcomes. -/
def ahead (d : Dialect) (r : Reader) : Nat → Reader
  | 0 => r
  | n + 1 => ((r.ahead d n).next d).2

/-- Whether the next sentence has a number directly behind a comment where a sign waits for it. -/
def partsSign (d : Dialect) (r : Reader) : Bool :=
  let parts (start : Cursor) : Bool :=
    (Reading.start r.issued).partsSign d false (Run.at d r.issued start).tokens
  if r.resync then
    match skipSentence d.flags r.cursor with
    | .resumed start => parts start
    | _ => false
  else parts r.cursor

theorem readAt_keeping {issued : Nat} {c : Cursor}
    (h : (Reading.start issued).partsSign (d.keeping true) false
      (Run.at (d.keeping true) issued c).tokens = false) :
    readAt (d.keeping false) issued c =
      ((readAt (d.keeping true) issued c).1.uncommented, (readAt (d.keeping true) issued c).2) := by
  rw [Reading.partsSign_keeping] at h
  obtain ⟨houtcome, htokens, hcursor, hissued⟩ := Run.at_keeping h
  simp only [readAt, houtcome, hcursor, hissued, htokens.leavesRest_eq]
  obtain s | _ | (e | reason | _) := (Run.at (d.keeping true) issued c).outcome <;> rfl

/-- The next outcome without comments is the next outcome, and the reader comes to the same. -/
theorem next_keeping {r : Reader} (h : r.partsSign (d.keeping true) = false) :
    r.next (d.keeping false) =
      ((r.next (d.keeping true)).1.uncommented, (r.next (d.keeping true)).2) := by
  have hskip : skipSentence (d.keeping false).flags r.cursor =
      skipSentence (d.keeping true).flags r.cursor := skipSentence_keeping d.flags r.cursor
  unfold partsSign at h
  unfold next
  rw [hskip]
  split
  · next hr =>
    simp only [hr, if_true] at h
    cases hs : skipSentence (d.keeping true).flags r.cursor with
    | failure | ended => rfl
    | resumed start =>
      rw [hs] at h
      exact readAt_keeping h
  · next hr =>
    simp only [hr] at h
    exact readAt_keeping h

theorem ahead_keeping {r : Reader} {n : Nat}
    (h : ∀ m < n, (r.ahead (d.keeping true) m).partsSign (d.keeping true) = false) :
    r.ahead (d.keeping false) n = r.ahead (d.keeping true) n := by
  induction n with
  | zero => rfl
  | succ n ih =>
    have hn := next_keeping (h n (Nat.lt_succ_self n))
    rw [ahead, ahead, ih fun m hm => h m (Nat.lt_succ_of_lt hm), hn]

/-- Up to the first sentence in which a comment parts a sign from its number, a reader that keeps
comments yields what one that passes over them yields, but for the comments. -/
theorem outcome_keeping {r : Reader} {n : Nat}
    (h : ∀ m ≤ n, (r.ahead (d.keeping true) m).partsSign (d.keeping true) = false) :
    ((r.ahead (d.keeping false) n).next (d.keeping false)).1 =
      ((r.ahead (d.keeping true) n).next (d.keeping true)).1.uncommented := by
  rw [ahead_keeping fun m hm => h m (Nat.le_of_lt hm), next_keeping (h n (Nat.le_refl n))]

/-- A reader before sentences with comments, one of them malformed. -/
def beforeComments : Reader :=
  ⟨.ofText "a :- % one\n  b, - /*two*/ 1. /*three*/ c) - /*four*/2. X = -3 %five\n.", false, 0⟩

theorem outcome_keeping_beforeComments :
    (∀ m ≤ 3, (beforeComments.ahead (Dialect.standard.keeping true) m).partsSign
      (Dialect.standard.keeping true) = false) ∧
    ((beforeComments.ahead (Dialect.standard.keeping false) 3).next
        (Dialect.standard.keeping false)).1 =
      ((beforeComments.ahead (Dialect.standard.keeping true) 3).next
        (Dialect.standard.keeping true)).1.uncommented := by
  have h : ∀ m ≤ 3, (beforeComments.ahead (Dialect.standard.keeping true) m).partsSign
      (Dialect.standard.keeping true) = false := by
    decide +kernel
  exact ⟨h, outcome_keeping h⟩

/-- A reader before a sign with a comment and a number directly behind it. -/
def beforePartedSign : Reader :=
  ⟨.ofText "-/*c*/1.", false, 0⟩

/-- Where a comment between a sign and a number is kept, the two are one number; where it is passed
over, the sign is an operator. -/
theorem outcome_keeping_beforePartedSign :
    beforePartedSign.partsSign (Dialect.standard.keeping true) = true ∧
      (beforePartedSign.next (Dialect.standard.keeping false)).1 ≠
        (beforePartedSign.next (Dialect.standard.keeping true)).1.uncommented := by
  refine ⟨by decide +kernel, fun h => ?_⟩
  have hterm : ((beforePartedSign.next (Dialect.standard.keeping false)).1.sentence?.map
        (·.term.canonical)) =
      ((beforePartedSign.next (Dialect.standard.keeping true)).1.uncommented.sentence?.map
        (·.term.canonical)) := by
    rw [h]
  revert hterm
  decide +kernel

end Reader

end PrologText
