import PrologText.Proofs.Occurrences

/-!
# Quoted commas and bars

A comma or a bar in quotes is an atom, even where its name is an operator. Main statement: no quoted
comma or bar of a sentence is an operator between or behind operands, and those that are functors
are written right before their arguments (`Reader.separators_of_next_sentence`). There is one
exception: behind a prefix operator that lacks its operand, such a token is taken for an operator
(`Reader.misreads`).
-/

namespace PrologText

/-- A quoted comma or bar. -/
def Atom.IsQuotedSeparator (a : Atom) : Prop :=
  a.quoted ∧ (a.name = "," ∨ a.name = "|")

instance (a : Atom) : Decidable a.IsQuotedSeparator :=
  inferInstanceAs (Decidable (_ ∧ _))

namespace Term

/-- The quoted commas and bars among the functors of a term, from left to right. -/
def separators (x : Term) : List Atom :=
  x.functors.filter (·.IsQuotedSeparator)

def separatorsOfAll (xs : List Term) : List Atom :=
  (functorsOfAll xs).filter (·.IsQuotedSeparator)

theorem separators_compound (f : Atom) (xs : List Term) :
    (compound f xs).separators =
      (if f.IsQuotedSeparator then [f] else []) ++ separatorsOfAll xs := by
  by_cases hf : f.IsQuotedSeparator <;> simp [separators, separatorsOfAll, functors, hf]

@[simp] theorem separatorsOfAll_nil : separatorsOfAll [] = [] := rfl

@[simp] theorem separatorsOfAll_cons (x : Term) (xs : List Term) :
    separatorsOfAll (x :: xs) = x.separators ++ separatorsOfAll xs := by
  simp [separatorsOfAll, separators, functorsOfAll]

@[simp] theorem separatorsOfAll_append (xs ys : List Term) :
    separatorsOfAll (xs ++ ys) = separatorsOfAll xs ++ separatorsOfAll ys := by
  simp [separatorsOfAll, functorsOfAll_append]

theorem separators_ofList (xs : List Term) (tail : Term) :
    (ofList xs tail).separators = separatorsOfAll xs ++ tail.separators := by
  simp [separatorsOfAll, separators, functors_ofList]

theorem Bare.separators {x : Term} (h : x.Bare) : x.separators = [] := by
  rw [Term.separators, h.2]
  rfl

end Term

namespace Token

/-- A quoted comma or bar right before an opening bracket. -/
def IsSeparatorFunctor (t : Token) : Prop :=
  t.functional ∧ t.IsQuotedSeparator

instance (t : Token) : Decidable t.IsSeparatorFunctor :=
  inferInstanceAs (Decidable (_ ∧ _))

variable {d : Dialect} {op : Operator} {t : Token}

theorem isQuotedSeparator_toAtom : t.toAtom.IsQuotedSeparator ↔ t.IsQuotedSeparator := by
  simp [Atom.IsQuotedSeparator, IsQuotedSeparator, toAtom]

theorem not_isSeparatorFunctor_of_ne (h : t.kind ≠ .quotedAtom) : ¬t.IsSeparatorFunctor :=
  fun hs => h hs.2.1

theorem IsPrefix.not_isQuotedSeparator (h : t.IsPrefix d op) : ¬t.IsQuotedSeparator := by
  simp [IsQuotedSeparator, h.1]

theorem kind_ne_of_number? {n : Except NumberError Term} (h : t.number? = some n) :
    t.kind ≠ .quotedAtom := by
  unfold number? at h
  split at h <;> simp_all

/-- The atoms of the quoted commas and bars that are functors, in order. -/
def separators (ts : List Token) : List Atom :=
  (ts.filter (·.IsSeparatorFunctor)).map toAtom

@[simp] theorem separators_nil : separators [] = [] := rfl

@[simp] theorem separators_append (ts us : List Token) :
    separators (ts ++ us) = separators ts ++ separators us := by
  simp [separators]

theorem separators_cons_of_not {ts : List Token} (h : ¬t.IsSeparatorFunctor) :
    separators (t :: ts) = separators ts := by
  simp [separators, h]

theorem separators_cons_of_functor {ts : List Token} (h : t.IsSeparatorFunctor) :
    separators (t :: ts) = t.toAtom :: separators ts := by
  simp [separators, h]

theorem separators_cons_of_ne {ts : List Token} (h : t.kind ≠ .quotedAtom) :
    separators (t :: ts) = separators ts :=
  separators_cons_of_not (not_isSeparatorFunctor_of_ne h)

theorem separators_bracketed {opening closing : Token} {ts : List Token}
    (ho : opening.kind ≠ .quotedAtom) (hc : closing.kind ≠ .quotedAtom) :
    separators (opening :: ts ++ [closing]) = separators ts := by
  rw [List.cons_append, separators_cons_of_ne ho, separators_append, separators_cons_of_ne hc]
  exact List.append_nil _

end Token

/-- A term whose functor is an operator. -/
theorem Term.separators_operator {t : Token} {xs : List Term} (h : ¬t.IsQuotedSeparator) :
    (compound t.toAtom xs).separators = separatorsOfAll xs := by
  rw [separators_compound, if_neg (mt Token.isQuotedSeparator_toAtom.1 h)]
  rfl

/-! ## Separators in expressions -/

mutual

/-- Where quoted commas and bars are no operators, those that are functors are written so. -/
theorem DerivesWith.separators_eq {d s b ts x p} :
    DerivesWith (¬·.IsQuotedSeparator) d s b ts x p → x.separators = Token.separators ts
  | .number h => by
    rw [Token.separators_cons_of_ne (Token.kind_ne_of_number? h)]
    exact (Token.bare_number h).separators
  | .signed ⟨⟨_, hs⟩, _⟩ _ h => by
    rw [Token.separators_cons_of_ne (by simp [hs.1]),
      Token.separators_cons_of_ne (Token.kind_ne_of_number? h)]
    exact (Token.bare_signing (Token.bare_number h)).separators
  | .named h | .anonymous h => by
    rw [Token.separators_cons_of_ne (by simp [h])]
    rfl
  | .doubleQuoted h | .backQuoted h => by
    rw [Token.separators_cons_of_ne (by simp [h])]
    exact (QuoteKind.bare_term _ _).separators
  | .atom h => by
    rw [Token.separators_cons_of_not (by simp [Token.IsSeparatorFunctor, h.2])]
    rfl
  | .group ho h hc => by
    rw [Token.separators_bracketed (by simp [ho]) (by simp [hc])]
    exact h.separators_eq
  | .noBraces ho hc | .noElements ho hc => by
    rw [Token.separators_cons_of_ne (by simp [ho]), Token.separators_cons_of_ne (by simp [hc])]
    rfl
  | .braces ho h hc => by
    rw [Token.separators_bracketed (by simp [ho]) (by simp [hc]), ← h.separators_eq, Term.inBraces,
      Term.separators_compound, if_neg (by decide)]
    simp
  | .compound (f := f) hf ho h hc => by
    rw [Term.separators_compound, h.separators_eq, List.cons_append]
    by_cases hsep : f.IsQuotedSeparator
    · rw [Token.separators_cons_of_functor ⟨hf.2, hsep⟩,
        Token.separators_bracketed (by simp [ho]) (by simp [hc]),
        if_pos (Token.isQuotedSeparator_toAtom.2 hsep)]
      rfl
    · rw [Token.separators_cons_of_not fun h => hsep h.2,
        Token.separators_bracketed (by simp [ho]) (by simp [hc]),
        if_neg (mt Token.isQuotedSeparator_toAtom.1 hsep)]
      rfl
  | .list ho h hc => by
    rw [Token.separators_bracketed (by simp [ho]) (by simp [hc]), Term.separators_ofList,
      h.separators_eq]
    exact List.append_nil _
  | .partialList ho h hb hx hc => by
    rw [List.append_assoc, List.cons_append, Token.separators_cons_of_ne (by simp [ho]),
      Token.separators_append, List.cons_append, Token.separators_cons_of_ne (by simp [hb]),
      Token.separators_append, Token.separators_cons_of_ne (by simp [hc]), Term.separators_ofList,
      h.separators_eq, hx.separators_eq]
    simp
  | .prefixOp ht hx _ => by
    rw [Token.separators_cons_of_not fun h => ht.not_isQuotedSeparator h.2,
      Term.separators_operator ht.not_isQuotedSeparator, ← hx.separators_eq]
    simp
  | .infixOp hx _ ha _ hy _ _ => by
    rw [Token.separators_append, Token.separators_cons_of_not fun h => ha h.2,
      Term.separators_operator ha, ← hx.separators_eq, ← hy.separators_eq]
    simp
  | .postfixOp hx _ ha _ _ => by
    rw [Token.separators_append, Token.separators_cons_of_not fun h => ha h.2,
      Term.separators_operator ha, ← hx.separators_eq]
    simp

theorem ItemsWith.separators_eq {d s b ts xs} :
    ItemsWith (¬·.IsQuotedSeparator) d s b ts xs →
      Term.separatorsOfAll xs = Token.separators ts
  | .one h => by simp [h.separators_eq]
  | .snoc h hc hx => by
    rw [Token.separators_append, Token.separators_cons_of_ne (by simp [hc]), ← h.separators_eq,
      ← hx.separators_eq]
    simp

end

theorem Token.separators_uncommented (ts : List Token) :
    separators (uncommented ts) = separators ts := by
  rw [separators, uncommented, List.filter_filter]
  congr 1
  refine List.filter_congr fun t _ => ?_
  by_cases hs : t.IsSeparatorFunctor
  · simp [hs.2.1]
  · simp [hs]

/-- Tokens before the end of the file are tokens of the stream. -/
theorem Scans.subset_tokensFrom {flags : Flags} {c c' : Cursor} {seen ts : List Token}
    (h : Scans flags c ts c') (hts : ∀ t ∈ ts, t.kind ≠ .endOfFile) :
    seen ⊆ (tokensFrom flags seen c).1 ∧ ts ⊆ (tokensFrom flags seen c).1 := by
  induction h generalizing seen with
  | @nil c =>
    obtain ⟨us, -, heq, -⟩ := exists_of_tokensFrom flags seen c
    rw [heq]
    exact ⟨fun t ht => by simp [ht], List.nil_subset _⟩
  | @cons c t after ts last ht _ ih =>
    obtain ⟨hk, hts⟩ := List.forall_mem_cons.1 hts
    have hstream : tokensFrom flags seen c = tokensFrom flags (t :: seen) after := by
      rw [tokensFrom]
      split
      · next hs => cases ht.symm.trans hs
      · next hs => cases ht.symm.trans hs
      · next hs =>
        cases ht.symm.trans hs
        rw [dif_neg hk]
    obtain ⟨hseen, hts⟩ := @ih (t :: seen) hts
    rw [hstream]
    exact ⟨fun u hu => hseen (List.mem_cons_of_mem _ hu),
      List.cons_subset.2 ⟨hseen List.mem_cons_self, hts⟩⟩

/-! ## Readers -/

namespace Reader

/-- Where no quoted comma or bar is misread, the term of a sentence is derivable from its tokens
without one as an operator. So each of them that is not right before an opening bracket is an atom
by itself; the others, and no more, are the functors of this kind in the term. -/
theorem separators_of_next_sentence {d : Dialect} {r after : Reader} {s : Sentence}
    (hm : r.misreads d = false) (h : r.next d = (.sentence s, after)) :
    ∃ start body last p, r.StartsAt d.flags start ∧
      Scans d.flags start (body ++ [last]) after.cursor ∧
      (∀ t ∈ body, ¬d.flags.Ends t) ∧ d.flags.Ends last ∧
      DerivesWith (¬·.IsQuotedSeparator) d .whole (.startingAfter r.issued) (uncommented body)
        s.term p ∧
      s.term.separators = Token.separators body := by
  obtain ⟨start, body, last, hstart, hscans, hends, hlast, ⟨⟨p, hp⟩, -, -⟩, -⟩ :=
    readFrom_of_next_sentence (fun _ => id) (fun hmis => absurd (hm ▸ hmis) Bool.false_ne_true) h
  have hseparators := hp.separators_eq
  rw [Token.separators_uncommented] at hseparators
  exact ⟨start, body, last, p, hstart, hscans, hends, hlast, hp, hseparators⟩

/-- A reader inside a malformed sentence, before quoted commas and bars at all places. -/
def beforeSeparators : Reader :=
  ⟨.ofText "a b). '|' = [',', f('|')|','(X, '|'(b))] :- - (','), \x7b'|'\x7d, '|' , ','.", true, 2⟩

theorem separators_of_next_beforeSeparators :
    beforeSeparators.misreads .standard = false ∧
    ∃ s after, beforeSeparators.next .standard = (.sentence s, after) ∧
      ∃ start body last p, beforeSeparators.StartsAt Dialect.standard.flags start ∧
        Scans Dialect.standard.flags start (body ++ [last]) after.cursor ∧
        (∀ t ∈ body, ¬Dialect.standard.flags.Ends t) ∧ Dialect.standard.flags.Ends last ∧
        DerivesWith (¬·.IsQuotedSeparator) .standard .whole (.startingAfter 2) (uncommented body)
          s.term p ∧
        s.term.separators = Token.separators body := by
  have hm : beforeSeparators.misreads .standard = false := by decide +kernel
  obtain ⟨s, after, h⟩ :=
    exists_next_sentence (d := .standard) (r := beforeSeparators) (by decide +kernel)
  exact ⟨hm, s, after, h, separators_of_next_sentence hm h⟩

/-- A reader before a quoted comma behind a prefix operator. -/
def beforeQuotedComma : Reader :=
  ⟨.ofText "- ',' a.", false, 0⟩

/-- A quoted comma behind a prefix operator, which is an operator in the term. -/
theorem separators_of_next_beforeQuotedComma :
    beforeQuotedComma.misreads .standard = true ∧
    ∃ s after, beforeQuotedComma.next .standard = (.sentence s, after) ∧
      ¬∃ start body last p, beforeQuotedComma.StartsAt Dialect.standard.flags start ∧
        Scans Dialect.standard.flags start (body ++ [last]) after.cursor ∧
        (∀ t ∈ body, ¬Dialect.standard.flags.Ends t) ∧ Dialect.standard.flags.Ends last ∧
        DerivesWith (¬·.IsQuotedSeparator) .standard .whole (.startingAfter 0) (uncommented body)
          s.term p := by
  have hm : beforeQuotedComma.misreads .standard = true := by decide +kernel
  obtain ⟨s, after, h⟩ :=
    exists_next_sentence (d := .standard) (r := beforeQuotedComma) (by decide +kernel)
  refine ⟨hm, s, after, h, ?_⟩
  rintro ⟨start, body, last, p, hstart, hscans, hends, hlast, hp⟩
  obtain rfl : start = .ofText "- ',' a." := hstart
  -- In the term the comma is a functor, but in the text no bracket follows it.
  have hterm : s.term.separators = [⟨",", true⟩] := by
    have : (beforeQuotedComma.next .standard).1.sentence?.map (·.term.separators) =
        some [⟨",", true⟩] := by
      decide +kernel
    rw [h] at this
    exact Option.some.inj this
  have hfile : ∀ t ∈ body, t.kind ≠ .endOfFile := by
    intro t ht hk
    have hpart := List.all_eq_true.1 hp.derives.all_isPart t (by simp [uncommented, ht, hk])
    simp [hk, TokenKind.isPart] at hpart
  obtain ⟨_, hbody, -⟩ := hscans.of_append
  have hstream : ∀ t ∈ (tokensFrom Dialect.standard.flags [] (.ofText "- ',' a.")).1,
      ¬t.IsSeparatorFunctor := by
    decide +kernel
  have hnone : Token.separators body = [] := by
    have := fun t ht => hstream t ((hbody.subset_tokensFrom hfile).2 ht)
    simpa [Token.separators] using this
  have heq := hp.separators_eq
  rw [Token.separators_uncommented, hterm, hnone] at heq
  cases heq

end Reader

end PrologText
