import PrologText.Token.Lexer

/-!
# Scanning makes progress

A token other than the end of file leaves less unread (`scan_token_unread_lt`). Where a text is no
token there is something to read (`scan_fault`), so that skipping a glyph there leaves less unread.
-/

namespace PrologText

namespace CharClass

theorem isAlphanumeric_of_isNameStart {c : Char} (h : isNameStart c) : isAlphanumeric c := by
  simp only [isNameStart, Bool.and_eq_true] at h
  simp [isAlphanumeric, h.1]

theorem isAlphanumeric_of_isVariableStart {c : Char} (h : isVariableStart c) :
    isAlphanumeric c := by
  simp only [isVariableStart, isUpper, Bool.or_eq_true, decide_eq_true_eq] at h
  rcases h with h | h <;> simp [isAlphanumeric, isLetter, h]

end CharClass

namespace Lexeme

theorem run_pos {p : Char → Bool} {g : Glyph} {t : Text} (h : p g.code) : 0 < run p (g :: t) := by
  simp [run, h]

theorem le_graphicRunFrom (n : Nat) (t : Text) : n ≤ graphicRunFrom n t := by
  induction t generalizing n with
  | nil => simp [graphicRunFrom]
  | cons g t ih =>
    simp only [graphicRunFrom]
    split
    · exact Nat.le_of_succ_le (ih (n + 1))
    · exact Nat.le_refl n

theorem graphicRun_pos {g : Glyph} {t : Text} (hg : CharClass.isGraphic g.code)
    (ht : opensComment (g :: t) = false) : 0 < graphicRun (g :: t) := by
  simp only [graphicRun, graphicRunFrom, hg, ht, Bool.not_false, Bool.and_self, if_true]
  exact le_graphicRunFrom 1 t

theorem le_digitGroupsFrom (p : Char → Bool) (n : Nat) (t : Text) :
    n ≤ digitGroupsFrom p n t := by
  fun_induction digitGroupsFrom p n t <;> omega

theorem digitGroups_pos {p : Char → Bool} {g : Glyph} {t : Text} (h : p g.code) :
    0 < digitGroups p (g :: t) := by
  unfold digitGroups
  unfold digitGroupsFrom
  split
  · contradiction
  · rename_i heq
    cases heq
    simp only [h, if_true]
    split
    · exact Nat.lt_of_lt_of_le (by omega) (le_digitGroupsFrom p 2 _)
    · omega
  · rename_i heq
    cases heq
    simp only [h, if_true]
    exact le_digitGroupsFrom p 1 _

/-- How many glyphs a token has at the least. -/
def length : Lexeme → Nat
  | plain _ _ length | name length => length
  | dot | quotedText _ => 1
  | charCode => 2
  | unknown _ => 1

theorem number_length_pos {g : Glyph} {t : Text} (h : CharClass.isDecimal g.code) :
    0 < (number (g :: t)).length := by
  have hd := digitGroups_pos (t := t) h
  unfold number
  split
  · simp [length]
  · split
    · simp only [length]
      omega
    · split
      · exact hd
      · rename_i h0
        exact Nat.pos_of_ne_zero h0

theorem ofText_length_pos {g : Glyph} {t : Text} (ht : opensComment (g :: t) = false) :
    0 < (ofText g.code (g :: t)).length := by
  unfold ofText
  split
  · rename_i h
    exact run_pos (CharClass.isAlphanumeric_of_isNameStart h)
  · split
    · rename_i h
      have := graphicRun_pos h ht
      simp only
      split
      · simp [length]
      · simp only [length]
        split
        · rename_i hs
          simp only [stopAfter, Bool.and_eq_true, decide_eq_true_eq] at hs
          omega
        · exact this
    · split
      · simp [length]
      · split
        · rename_i h
          exact number_length_pos h
        · split
          · rename_i h
            exact run_pos (CharClass.isAlphanumeric_of_isVariableStart h)
          · split
            · simp [length]
            · split <;> simp [length]

end Lexeme

theorem scanQuoted_closed_unread_le {f : QuotedForm} {seen text : Text} {c after : Cursor}
    (h : scanQuoted f seen c = .closed text after) : after.unread ≤ c.unread := by
  fun_induction scanQuoted f seen c with
  | case1 => cases h
  | case5 => cases h
  | case2 _ _ _ _ _ _ shorter | case4 _ _ _ _ _ shorter | case7 _ _ _ _ _ _ shorter
  | case9 _ _ _ _ _ _ shorter =>
    cases h
    exact Nat.le_of_lt (shorter _)
  | case3 _ _ _ _ _ _ shorter _ ih | case6 _ _ _ _ _ _ shorter _ _ _ _ ih
  | case8 _ _ _ _ _ _ shorter _ _ _ _ _ _ ih | case10 _ _ _ _ _ _ shorter _ _ _ ih =>
    exact Nat.le_trans (ih h) (Nat.le_of_lt (shorter _))

namespace Scan

/-- Where the outcome of a scan stands: a token other than the end of file leaves less than `bound`
unread, and a fault stands where there is something to read. -/
def Within (bound : Nat) : Scan → Prop
  | token t after => after.unread < bound ∨ t.kind = .endOfFile ∧ after.unread ≤ bound
  | fault _ start _ => start.rest ≠ [] ∧ start.unread ≤ bound
  | failure _ _ => True

variable {bound : Nat} {layout : Bool} {start after stopped : Cursor}

theorem Within.mono {s : Scan} {larger : Nat} (h : s.Within bound) (hb : bound ≤ larger) :
    s.Within larger := by
  cases s with
  | token t after =>
    exact h.imp (Nat.lt_of_lt_of_le · hb) (fun ⟨hk, hu⟩ => ⟨hk, Nat.le_trans hu hb⟩)
  | fault => exact ⟨h.1, Nat.le_trans h.2 hb⟩
  | failure => trivial

theorem within_name {kind : TokenKind} {text : Text} (h : after.unread < bound) :
    (name kind text layout start after).Within bound := by
  unfold name
  split
  · trivial
  · exact .inl h

theorem within_dot (h : after.unread < bound) : (dot layout start after).Within bound := by
  unfold dot
  split
  · trivial
  · split <;> exact .inl h

theorem within_faultAt {cause : SyntaxCause} {exhausted : Bool} (hr : start.rest ≠ [])
    (h : start.unread ≤ bound) : (faultAt cause start stopped exhausted).Within bound :=
  ⟨hr, h⟩

theorem within_unended {cause : SyntaxCause} (hr : start.rest ≠ []) (h : start.unread ≤ bound) :
    (unended cause start stopped).Within bound := by
  unfold unended
  split
  · trivial
  · exact within_faultAt hr h

theorem within_quoted {f : QuotedForm} {inside : Cursor} (hr : start.rest ≠ [])
    (hs : start.unread ≤ bound) (hi : inside.unread < bound) :
    (quoted f layout start inside).Within bound := by
  unfold quoted
  split
  · exact within_unended hr hs
  · exact within_faultAt hr hs
  · rename_i h
    have := Nat.lt_of_le_of_lt (scanQuoted_closed_unread_le h) hi
    simp only
    split
    · exact within_name this
    · exact .inl this

theorem within_lexeme {flags : Flags} {g : Glyph} {t : Text} (hr : start.rest = g :: t)
    (ht : Lexeme.opensComment (g :: t) = false) (h : start.unread ≤ bound) :
    (lexeme flags layout g.code start).Within bound := by
  have hne : start.rest ≠ [] := by simp [hr]
  have hpos := Lexeme.ofText_length_pos ht
  have shorter {n : Nat} (hn : 0 < n) : (start.advance n).unread < bound :=
    Nat.lt_of_lt_of_le (Cursor.unread_advance_lt hn hne) h
  unfold lexeme
  rw [hr]
  split <;> rename_i heq <;> rw [heq] at hpos
  · exact .inl (shorter hpos)
  · exact within_name (shorter hpos)
  · exact within_dot (shorter Nat.one_pos)
  · exact within_quoted hne h (shorter Nat.one_pos)
  · exact within_quoted hne h (shorter Nat.two_pos)
  · exact within_faultAt hne h

end Scan

theorem scanFrom_within (flags : Flags) (layout : Bool) (c : Cursor) :
    (scanFrom flags layout c).Within c.unread := by
  fun_induction scanFrom flags layout c with
  | case1 => trivial
  | case2 _ c => exact .inr ⟨rfl, c.unread_fill_le⟩
  | case3 _ _ _ _ _ _ _ _ _ shorter ih | case5 _ _ _ _ _ _ _ _ _ _ shorter ih
  | case8 _ _ _ _ _ _ _ _ _ _ _ _ _ _ shorter ih => exact ih.mono (Nat.le_of_lt shorter)
  | case4 _ _ _ _ hdc _ _ _ hd =>
    exact .inl (Nat.lt_of_lt_of_le (Cursor.unread_toLineEnd_lt hd) hdc)
  | case6 _ _ _ _ _ _ hd hdc => exact Scan.within_unended hd hdc
  | case7 _ _ _ _ _ _ hd hdc _ _ _ _ ha =>
    exact .inl (Nat.lt_of_le_of_lt (afterComment?_unread_le (c := Cursor.advance _ 2) rfl ha)
      (Nat.lt_of_lt_of_le (Cursor.unread_advance_lt Nat.two_pos hd) hdc))
  | case9 _ _ _ _ _ hr _ hdc _ _ ht =>
    exact Scan.within_lexeme hr (by simpa using ht) hdc

theorem scan_token_unread_lt {flags : Flags} {c after : Cursor} {t : Token}
    (h : scan flags c = .token t after) (ht : t.kind ≠ .endOfFile) : after.unread < c.unread := by
  have := scanFrom_within flags false c
  rw [show scanFrom flags false c = .token t after from h] at this
  exact this.resolve_right fun hk => ht hk.1

theorem scan_token_unread_le {flags : Flags} {c after : Cursor} {t : Token}
    (h : scan flags c = .token t after) : after.unread ≤ c.unread := by
  have := scanFrom_within flags false c
  rw [show scanFrom flags false c = .token t after from h] at this
  exact this.elim Nat.le_of_lt (·.2)

theorem scan_fault {flags : Flags} {c start : Cursor} {e : SyntaxError} {exhausted : Bool}
    (h : scan flags c = .fault e start exhausted) :
    start.rest ≠ [] ∧ start.unread ≤ c.unread := by
  have := scanFrom_within flags false c
  rwa [show scanFrom flags false c = .fault e start exhausted from h] at this

end PrologText
