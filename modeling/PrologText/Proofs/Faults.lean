import PrologText.Proofs.Spans

/-!
# Texts that are no tokens

Scanning passes over layout to a point with no layout before it (`Cursor.PassesTo`), and what it
finds there does not depend on the layout. Main statement: a fault leaves the cursor at that point,
tells how far the text was read from there, and comes back at every further call
(`Cursor.scan_scanned_fault`).
-/

namespace PrologText

/-! ## What a fault tells -/

/-- Whether a cause is the end of the input within quoted text or a comment. -/
def SyntaxCause.isUnterminated : SyntaxCause → Bool
  | unterminatedComment | unterminatedQuotedText | unterminatedCharCode => true
  | _ => false

theorem Escape.isUnterminated_of_numeric {base : Nat} {isDigit : Char → Bool} {lead t : Text}
    {cause : SyntaxCause} (h : numeric base isDigit lead t = .faulty cause) :
    cause.isUnterminated = false := by
  unfold numeric at h
  simp only at h
  split at h
  · cases h
    rfl
  · split at h <;> cases h
    rfl

theorem Escape.isUnterminated_of_ofText {t : Text} {cause : SyntaxCause}
    (h : ofText t = .faulty cause) : cause.isUnterminated = false := by
  unfold ofText at h
  split at h
  · cases h
    rfl
  · cases h
  · cases h
  · exact isUnterminated_of_numeric h
  · simp only at h
    split at h
    · cases h
    · split at h
      · cases h
      · split at h
        · exact isUnterminated_of_numeric h
        · cases h
          rfl

/-- A line that leaves quoted text unclosed is at its end, and the end of the input makes none
faulty. -/
def QuotedStep.Tells (t : Text) : QuotedStep → Prop
  | unclosed => t = []
  | faulty cause => cause.isUnterminated = false
  | _ => True

theorem QuotedForm.step_tells (f : QuotedForm) (seen t : Text) : (f.step seen t).Tells t := by
  unfold step
  split
  · rfl
  · split
    · split
      · split <;> trivial
      · trivial
    · split
      · split
        · next he => exact Escape.isUnterminated_of_ofText he
        · trivial
        · split <;> trivial
      · split <;> trivial

/-- Quoted text is unclosed at the end of the text alone, and faulty at an escape sequence alone. -/
def QuotedEnd.Tells : QuotedEnd → Prop
  | closed _ _ => True
  | unclosed stopped => stopped.remaining = []
  | faulty cause _ => cause.isUnterminated = false

theorem scanQuoted_tells (f : QuotedForm) (seen : Text) (c : Cursor) :
    (scanQuoted f seen c).Tells := by
  induction hn : c.unread using Nat.strongRecOn generalizing seen c with
  | _ k ih =>
    subst hn
    have hfits := f.step_fits seen c.fill.rest
    have htells := f.step_tells seen c.fill.rest
    rw [scanQuoted_eq]
    cases hstep : f.step seen c.fill.rest with
    | unclosed =>
      rw [hstep] at htells
      exact c.remaining_fill.trans (Cursor.remaining_of_fill_nil htells)
    | faulty cause =>
      rw [hstep] at htells
      exact htells
    | closed text n => trivial
    | more seen' n =>
      rw [hstep] at hfits
      exact ih _ (c.unread_fill_advance_lt hfits.1 hfits.2) seen' _ rfl

namespace Scan

/-- A fault stands at `start`. It tells the place and what was read from there on, which is all the
text there is if the end of the input is the cause. -/
def FaultsAt (start : Cursor) : Scan → Prop
  | fault e at' exhausted =>
    at' = start ∧ e.place = start.place ∧ exhausted = e.cause.isUnterminated ∧
      ∃ stopped, start.Leads stopped ∧ e.consumed = some (start.upTo stopped) ∧
        (exhausted = true → stopped.remaining = [])
  | _ => True

variable {start stopped inside : Cursor} {layout : Bool} {cause : SyntaxCause}

theorem name_faultsAt {kind : TokenKind} {text : Text} {after : Cursor} :
    (name kind text layout start after).FaultsAt start := by
  unfold name
  split <;> trivial

theorem dot_faultsAt {after : Cursor} : (dot layout start after).FaultsAt start := by
  unfold dot
  split
  · trivial
  · split <;> trivial

theorem faultAt_faultsAt (h : start.Leads stopped) (hc : cause.isUnterminated = false) :
    (faultAt cause start stopped false).FaultsAt start :=
  ⟨rfl, rfl, hc.symm, stopped, h, rfl, by simp⟩

theorem unended_faultsAt (h : start.Leads stopped) (hc : cause.isUnterminated = true)
    (hr : stopped.remaining = []) : (unended cause start stopped).FaultsAt start := by
  unfold unended
  split
  · trivial
  · exact ⟨rfl, rfl, hc.symm, stopped, h, rfl, fun _ => hr⟩

theorem quoted_faultsAt {f : QuotedForm} (h : start.Leads inside) :
    (quoted f layout start inside).FaultsAt start := by
  have hahead := (scanQuoted_ahead f [] inside).mono h
  have htells := scanQuoted_tells f [] inside
  unfold quoted
  split
  · next hq =>
    rw [hq] at hahead htells
    exact unended_faultsAt hahead (by split <;> rfl) htells
  · next hq =>
    rw [hq] at hahead htells
    exact faultAt_faultsAt hahead htells
  · simp only
    split
    · exact name_faultsAt
    · trivial

theorem lexeme_faultsAt {flags : Flags} {ch : Char} (hr : start.rest ≠ []) :
    (lexeme flags layout ch start).FaultsAt start := by
  have hfits := (Lexeme.ofText_fits ch hr).length_le
  unfold lexeme
  cases hl : Lexeme.ofText ch start.rest with
  | plain => trivial
  | name => exact name_faultsAt
  | dot => exact dot_faultsAt
  | quotedText | charCode =>
    rw [hl] at hfits
    exact quoted_faultsAt (Cursor.leads_advance hfits)
  | unknown => exact faultAt_faultsAt (.refl start) rfl

end Scan

theorem Scan.found_faultsAt (flags : Flags) (layout : Bool) (start : Cursor) :
    (found flags layout start).FaultsAt start := by
  unfold found
  split
  · split <;> trivial
  · next hr =>
    split
    · trivial
    · split
      · split
        · exact unended_faultsAt start.leads_toEnd rfl start.remaining_toEnd
        · trivial
      · exact lexeme_faultsAt (by simp [hr])

/-- A fault does not depend on the layout that was passed over before. -/
theorem scanFrom_fault_layout {flags : Flags} {layout : Bool} {c start : Cursor} {e : SyntaxError}
    {exhausted : Bool} (h : scanFrom flags layout c = .fault e start exhausted) (layout' : Bool) :
    scanFrom flags layout' c = .fault e start exhausted := by
  have htrue : scanFrom flags true c = .fault e start exhausted := by
    rw [scanFrom_spaced flags layout, h]
    rfl
  rw [scanFrom_spaced flags layout'] at htrue
  cases hs : scanFrom flags layout' c with
  | token | failure =>
    rw [hs] at htrue
    cases htrue
  | fault =>
    rw [hs] at htrue
    exact htrue

/-- Whether the end of the input within quoted text or a comment is a fault here. -/
def Scan.isUnterminated : Scan → Bool
  | fault e _ _ => e.cause.isUnterminated
  | _ => false

theorem Scan.exists_of_isUnterminated {s : Scan} (h : s.isUnterminated) :
    ∃ e start exhausted, s = .fault e start exhausted ∧ e.cause.isUnterminated := by
  cases s with
  | fault e start exhausted => exact ⟨e, start, exhausted, rfl, h⟩
  | token | failure => cases h

/-! ## Faults in the course of scanning -/

/-- Whether a token is scanned. -/
def Scan.isToken : Scan → Bool
  | token _ _ => true
  | _ => false

/-- Where a cursor stands after scanning. -/
def Scan.cursor : Scan → Cursor
  | token _ after => after
  | fault _ start _ => start
  | failure _ stopped => stopped

namespace Cursor

/-- The cursor after `n` calls to scan. -/
def scanned (flags : Flags) (c : Cursor) : Nat → Cursor
  | 0 => c
  | n + 1 => (scan flags (c.scanned flags n)).cursor

theorem leads_cursor_scan (flags : Flags) (c : Cursor) : c.Leads (scan flags c).cursor := by
  cases hs : scan flags c with
  | token => exact leads_of_scan_token hs
  | fault => exact leads_of_scan_fault hs
  | failure => exact leads_of_scan_failure hs

theorem leads_scanned (flags : Flags) (c : Cursor) (n : Nat) : c.Leads (c.scanned flags n) := by
  induction n with
  | zero => exact .refl c
  | succ n ih => exact ih.trans (leads_cursor_scan flags _)

theorem exists_scans_scanned (flags : Flags) (c : Cursor) (n : Nat)
    (h : ∀ k < n, (scan flags (c.scanned flags k)).isToken) :
    ∃ ts, Scans flags c ts (c.scanned flags n) := by
  induction n with
  | zero => exact ⟨[], .nil⟩
  | succ n ih =>
    obtain ⟨ts, hts⟩ := ih fun k hk => h k (Nat.lt_succ_of_lt hk)
    have htoken := h n (Nat.lt_succ_self n)
    cases hs : scan flags (c.scanned flags n) with
    | token t after =>
      rw [scanned, hs]
      exact ⟨ts ++ [t], hts.append (.cons hs .nil)⟩
    | fault | failure =>
      rw [hs] at htoken
      cases htoken

variable {flags : Flags} {c start : Cursor} {e : SyntaxError} {exhausted : Bool}

/-- What a fault says of the point where it stands, and that it stands there still. -/
theorem Lined.fault_cases (hc : c.Lined) (h : scan flags c = .fault e start exhausted) :
    c.PassesTo flags false start ∧ scan flags start = .fault e start exhausted ∧
      (scan flags start).FaultsAt start := by
  obtain ⟨at', hat⟩ := exists_passesTo flags false c hc
  have hthere := hat.scan.symm.trans h
  have hfaults := Scan.found_faultsAt flags false at'
  rw [← hat.atToken.scanFrom_eq (hat.leads.lined hc)] at hfaults
  have hscan : scan flags at' = .fault e start exhausted := scanFrom_fault_layout hthere false
  rw [show scanFrom flags false at' = _ from hscan] at hfaults
  obtain rfl : start = at' := hfaults.1
  exact ⟨hat, hscan, hscan ▸ hfaults⟩

theorem scan_scanned_of_le (hc : c.Lined) {n m : Nat}
    (h : scan flags (c.scanned flags n) = .fault e start exhausted) (hm : n ≤ m) :
    scan flags (c.scanned flags m) = .fault e start exhausted := by
  induction hm with
  | refl => exact h
  | @step m _ ih =>
    rw [scanned, ih]
    exact (((leads_scanned flags c n).lined hc).fault_cases h).2.1

/-- A text that is no token is found behind the layout before it, where the cursor stays. The error
gives that place and the text read from there, which is all of the rest if it lacks its end, and
every further call gives the same error. -/
theorem scan_scanned_fault {text : Text} {n : Nat}
    (h : scan flags ((ofText text).scanned flags n) = .fault e start exhausted) :
    (ofText text).scanned flags (n + 1) = start ∧
      ((ofText text).scanned flags n).Leads start ∧
      (((ofText text).scanned flags n).upTo start).IsLayout flags.keepComments start.remaining ∧
      start.AtToken flags.keepComments ∧
      e.place = start.place ∧
      (∃ consumed, e.consumed = some consumed ∧ consumed <+: start.remaining ∧
        (e.cause.isUnterminated = true → consumed = start.remaining)) ∧
      ∀ m, n ≤ m → scan flags ((ofText text).scanned flags m) = .fault e start exhausted := by
  have hlined := lined_ofText text
  have hn : ((ofText text).scanned flags n).Lined := (leads_scanned flags _ n).lined hlined
  obtain ⟨hpasses, hagain, hfaults⟩ := hn.fault_cases h
  rw [hagain] at hfaults
  obtain ⟨-, hplace, hexhausted, stopped, hleads, hconsumed, hall⟩ := hfaults
  refine ⟨?_, hpasses.leads, hpasses.gap, hpasses.atToken, hplace,
    ⟨start.upTo stopped, hconsumed, ⟨stopped.remaining, hleads.remaining_eq.symm⟩, fun hu => ?_⟩,
    fun m hm => scan_scanned_of_le hlined h hm⟩
  · rw [scanned, h]
    rfl
  · rw [hleads.remaining_eq, hall (hexhausted.trans hu), List.append_nil]

/-- A comment between two tokens, the second of which lacks its end. -/
def beforeUnclosed : Cursor :=
  .ofText "ok /* c */ 'never\nclosed"

theorem scan_scanned_beforeUnclosed :
    ∃ e start exhausted,
      scan .standard (beforeUnclosed.scanned .standard 1) = .fault e start exhausted ∧
        e.place = ⟨1, 12, "ok /* c */ 'never\n"⟩ ∧ e.consumed = some ("'never\nclosed" : Text) ∧
        ∀ m, 1 ≤ m →
          scan .standard (beforeUnclosed.scanned .standard m) = .fault e start exhausted := by
  have hfault : (scan .standard (beforeUnclosed.scanned .standard 1)).isUnterminated := by
    decide +kernel
  obtain ⟨e, start, exhausted, h, he⟩ := Scan.exists_of_isUnterminated hfault
  obtain ⟨hstart, -, -, -, hplace, ⟨consumed, hconsumed, -, hall⟩, hagain⟩ := scan_scanned_fault h
  have hthere : (beforeUnclosed.scanned .standard 2).place = ⟨1, 12, "ok /* c */ 'never\n"⟩ ∧
      (beforeUnclosed.scanned .standard 2).remaining = "'never\nclosed" := by
    decide +kernel
  rw [show beforeUnclosed.scanned .standard 2 = start from hstart] at hthere
  exact ⟨e, start, exhausted, h, hplace.trans hthere.1, by rw [hconsumed, hall he, hthere.2],
    hagain⟩

end Cursor

end PrologText
