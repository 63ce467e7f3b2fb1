import Mathlib.Data.List.Chain
import Mathlib.Data.List.Pairwise
import PrologText.Proofs.BareTerms
import PrologText.Proofs.ReadTerms

/-!
# The variables of sentences

A sentence comes with its named variables and with those that are met once. Both lists are kept
while tokens are read, the term is put together later. Main statement: the variables of the term are
those that the tokens stand for, one for each token and in the same order, and the lists say of the
term what they are meant to say (`Reader.variables_of_next_sentence`). The numbers of the variables
only grow (`Reader.issued_le_next`), so that no other sentence has the same, be it of another text
that is consulted before or after (`Reader.Consults.pairwise_id_lt`).
-/

namespace PrologText

/-! ## Variables along tokens -/

/-- Whether tokens of a kind stand for variables. -/
def TokenKind.isVariable : TokenKind → Bool
  | .variable | .anonymousVariable => true
  | _ => false

namespace Bindings

/-- The variable that a token stands for. -/
def varOf? (b : Bindings) (t : Token) : Option Variable :=
  match t.kind with
  | .variable => some (b.named t.text).1
  | .anonymousVariable => some b.anonymous.1
  | _ => none

/-- The variables that tokens stand for, in order. -/
def met (b : Bindings) : List Token → List Variable
  | [] => []
  | t :: ts => (b.varOf? t).toList ++ (b.see t).met ts

variable {b : Bindings} {t : Token} {ts us : List Token}

@[simp] theorem met_nil : b.met [] = [] := rfl

@[simp] theorem met_append : b.met (ts ++ us) = b.met ts ++ (b.after ts).met us := by
  induction ts generalizing b with
  | nil => rfl
  | cons t ts ih => simp only [List.cons_append, met, ih, after_cons, List.append_assoc]

theorem see_of_not_variable (h : t.kind.isVariable = false) : b.see t = b := by
  unfold see
  split <;> simp_all [TokenKind.isVariable]

theorem met_cons_of_not_variable (h : t.kind.isVariable = false) : b.met (t :: ts) = b.met ts := by
  have hnone : b.varOf? t = none := by
    unfold varOf?
    split <;> simp_all [TokenKind.isVariable]
  simp [met, hnone, see_of_not_variable h]

end Bindings

theorem Token.bare_signing {sign : Token} {n : Term} (h : n.Bare) : (sign.signing n).Bare := by
  unfold signing
  split
  · exact h.negate
  · exact h

namespace Token

variable {d : Dialect} {s : Scope} {op : Operator} {t : Token}

theorem not_variable_of_number? {n : Except NumberError Term} (h : t.number? = some n) :
    t.kind.isVariable = false := by
  unfold number? at h
  split at h <;> simp_all [TokenKind.isVariable]

theorem IsPrefix.not_variable (h : t.IsPrefix d op) : t.kind.isVariable = false := by
  simp [h.1, TokenKind.isVariable]

theorem IsAtom.not_variable (h : t.IsAtom) : t.kind.isVariable = false := by
  rcases h.1 with hk | hk <;> simp [hk, TokenKind.isVariable]

theorem IsFunctor.not_variable (h : t.IsFunctor) : t.kind.isVariable = false := by
  rcases h.1 with hk | hk <;> simp [hk, TokenKind.isVariable]

theorem IsInfix.not_variable (h : t.IsInfix d s op) : t.kind.isVariable = false := by
  have hk := h.1
  unfold TokenKind.isVariable
  split <;> simp_all [Scope.admits]

end Token

mutual

/-- The variables of an expression are those that its tokens stand for, from left to right. -/
theorem DerivesWith.vars_eq {able d s b ts x p} :
    DerivesWith able d s b ts x p → x.vars = b.met ts
  | .number h => by
    rw [Bindings.met_cons_of_not_variable (Token.not_variable_of_number? h)]
    exact (Token.bare_number h).1
  | .signed ⟨⟨_, hs⟩, _⟩ _ h => by
    rw [Bindings.met_cons_of_not_variable hs.not_variable,
      Bindings.met_cons_of_not_variable (Token.not_variable_of_number? h)]
    exact (Token.bare_signing (Token.bare_number h)).1
  | .named h | .anonymous h => by simp [Term.vars, Bindings.met, Bindings.varOf?, h]
  | .doubleQuoted h | .backQuoted h => by
    simp [(QuoteKind.bare_term _ _).1, Bindings.met, Bindings.varOf?, h]
  | .atom h => by
    rw [Bindings.met_cons_of_not_variable h.not_variable]
    rfl
  | .group ho h hc => by
    simp [h.vars_eq, Bindings.met, Bindings.varOf?, Bindings.see, ho, hc]
  | .noBraces ho hc | .noElements ho hc => by
    simp [Term.vars, Bindings.met, Bindings.varOf?, ho, hc]
  | .braces ho h hc => by
    simp [Term.inBraces, Term.vars, Term.varsOfAll, h.vars_eq, Bindings.met, Bindings.varOf?,
      Bindings.see, ho, hc]
  | .compound hf ho h hc => by
    rw [List.cons_append, Bindings.met_cons_of_not_variable hf.not_variable]
    simp [Term.vars, h.vars_eq, Bindings.met, Bindings.varOf?, Bindings.see, ho, hc]
  | .list ho h hc => by
    simp [Term.vars_ofList, Term.vars, h.vars_eq, Bindings.met, Bindings.varOf?, Bindings.see, ho,
      hc]
  | .partialList ho h hb hx hc => by
    simp [Term.vars_ofList, h.vars_eq, hx.vars_eq, Bindings.met, Bindings.varOf?, Bindings.see, ho,
      hb, hc]
  | .prefixOp ht hx _ => by
    rw [Bindings.met_cons_of_not_variable ht.not_variable, ← hx.vars_eq]
    simp [Term.vars, Term.varsOfAll]
  | .infixOp hx ht _ _ hy _ _ => by
    rw [Bindings.met_append, Bindings.met_cons_of_not_variable ht.not_variable, ← hx.vars_eq,
      ← hy.vars_eq]
    simp [Term.vars, Term.varsOfAll]
  | .postfixOp hx ht _ _ _ => by
    rw [Bindings.met_append, Bindings.met_cons_of_not_variable ht.not_variable, ← hx.vars_eq]
    simp [Term.vars, Term.varsOfAll]

theorem ItemsWith.vars_eq {able d s b ts xs} :
    ItemsWith able d s b ts xs → Term.varsOfAll xs = b.met ts
  | .one h => by simp [Term.varsOfAll, h.vars_eq]
  | .snoc h hc hx => by
    simp [Term.varsOfAll_append, Term.varsOfAll, h.vars_eq, hx.vars_eq, Bindings.met,
      Bindings.varOf?, Bindings.see, hc]

end

/-! ## What is known of variables -/

/-- The name of all variables that are written without one. -/
def Variable.anonymousName : Text := "_"

/-- Whether two occurrences are one variable exactly if both have the same name of their own. -/
def Variable.Agrees (v w : Variable) : Prop :=
  v.id = w.id ↔ v.name = w.name ∧ v.name ≠ anonymousName

instance : Std.Symm Variable.Agrees where
  symm v w h := by
    unfold Variable.Agrees at *
    rw [eq_comm, h, eq_comm (a := w.name)]
    exact and_congr_right fun heq => by rw [heq]

/-- Whether a token that stands for a variable is spelt as its kind says. -/
def Token.SpeltAsVariable (t : Token) : Prop :=
  t.kind.isVariable → (t.kind = .variable ↔ t.text ≠ Variable.anonymousName)

namespace Bindings

open Variable (anonymousName)

/-- What is known of the variables `vs`, met since the number `n` was given to the last one before
them. -/
structure Records (n : Nat) (vs : List Variable) (b : Bindings) : Prop where
  /-- The named ones in the order in which they were met first. -/
  named : b.namedVariables = (vs.filter (·.name ≠ anonymousName)).eraseDups
  count : ∀ e ∈ b.entries, e.count = vs.count e.var
  least : n ≤ b.issued
  range : ∀ v ∈ vs, n < v.id ∧ v.id ≤ b.issued
  agree : vs.Pairwise Variable.Agrees

variable {n : Nat} {vs : List Variable} {b : Bindings} {v w : Variable} {name : Text}

theorem records_startingAfter (n : Nat) : Records n [] (startingAfter n) :=
  ⟨rfl, nofun, Nat.le_refl n, nofun, .nil⟩

theorem eraseDups_concat (v : Variable) :
    (vs ++ [v]).eraseDups = if v ∈ vs then vs.eraseDups else vs.eraseDups ++ [v] := by
  rw [List.eraseDups_append]
  by_cases hv : v ∈ vs <;> simp [List.removeAll, hv, List.eraseDups_cons]

namespace Records

theorem mem_iff (h : Records n vs b) :
    v ∈ b.namedVariables ↔ v ∈ vs ∧ v.name ≠ anonymousName := by
  rw [h.named, List.mem_eraseDups, List.mem_filter, decide_eq_true_iff]

theorem fresh (h : Records n vs b) (hv : v.id = b.issued + 1) : v ∉ vs := by
  intro hmem
  have := (h.range v hmem).2
  omega

theorem eq_of_name (h : Records n vs b) (hv : v ∈ vs) (hw : w ∈ vs) (hname : v.name = w.name)
    (hnamed : v.name ≠ anonymousName) : v = w := by
  by_contra hne
  have hid := (h.agree.forall hv hw hne).2 ⟨hname, hnamed⟩
  obtain ⟨name, id⟩ := v
  cases hname
  cases hid
  exact hne rfl

/-- A variable of a new number comes, whether it has a name or not. -/
theorem agree_fresh (h : Records n vs b) (hid : w.id = b.issued + 1)
    (hname : ∀ v ∈ vs, v.name = w.name → v.name = anonymousName) :
    (vs ++ [w]).Pairwise Variable.Agrees := by
  refine List.pairwise_append.2 ⟨h.agree, List.pairwise_singleton .., fun v hv x hx => ?_⟩
  obtain rfl := List.mem_singleton.1 hx
  have hlt := (h.range v hv).2
  exact iff_of_false (by omega) fun ⟨heq, hne⟩ => hne (hname v hv heq)

theorem range_concat {issued : Nat} (h : Records n vs b) (hle : b.issued ≤ issued)
    (hlow : n < w.id) (hhigh : w.id ≤ issued) :
    ∀ v ∈ vs ++ [w], n < v.id ∧ v.id ≤ issued := by
  intro v hv
  rcases List.mem_append.1 hv with hv | hv
  · exact ⟨(h.range v hv).1, Nat.le_trans (h.range v hv).2 hle⟩
  · obtain rfl := List.mem_singleton.1 hv
    exact ⟨hlow, hhigh⟩

/-- A variable is met again. -/
theorem known (h : Records n vs b) (hv : b.var? name = some v) (hname : name ≠ anonymousName) :
    Records n (vs ++ [(b.named name).1]) (b.named name).2 := by
  obtain ⟨hvar, hnamed, hissued⟩ := named_of_known hv
  have hvname := name_of_var? hv
  have hmem := (h.mem_iff.1 (mem_of_var? hv)).1
  rw [hvar]
  refine ⟨?_, ?_, ?_, ?_, ?_⟩
  · rw [hnamed, h.named, List.filter_append]
    simp [eraseDups_concat, hvname, hname, hmem]
  · -- Of the known variables only this one has the name, so that its count alone goes up.
    rw [← find?_entries] at hv
    obtain ⟨known, hknown, -⟩ := Option.map_eq_some_iff.1 hv
    simp only [Bindings.named, hknown, Bindings.count, List.mem_map]
    rintro e ⟨e', he', rfl⟩
    have hin := h.mem_iff.1 (List.mem_map_of_mem (f := Binding.var) he')
    have hcount := h.count e' he'
    by_cases heq : e'.var.name = name
    · have : e'.var = v := h.eq_of_name hin.1 hmem (heq.trans hvname.symm) hin.2
      rw [if_pos heq]
      simp [hcount, this, List.count_append]
    · have : v ≠ e'.var := fun hve => heq (hve ▸ hvname)
      simp [heq, hcount, List.count_append, this]
  · rw [hissued]
    exact h.least
  · exact h.range_concat (Nat.le_of_eq hissued.symm) (h.range v hmem).1
      (hissued ▸ (h.range v hmem).2)
  · refine List.pairwise_append.2 ⟨h.agree, List.pairwise_singleton .., fun w hw x hx => ?_⟩
    obtain rfl := List.mem_singleton.1 hx
    by_cases heq : w = x
    · subst heq
      exact iff_of_true rfl ⟨rfl, hvname ▸ hname⟩
    · exact h.agree.forall hw hmem heq

/-- A name is met for the first time. -/
theorem unknown (h : Records n vs b) (hv : b.var? name = none) (hname : name ≠ anonymousName) :
    Records n (vs ++ [(b.named name).1]) (b.named name).2 := by
  obtain ⟨hvar, hnamed, hissued⟩ := named_of_unknown hv
  have hleast := h.least
  rw [hvar]
  have hfresh := h.fresh (v := ⟨name, b.issued + 1⟩) rfl
  refine ⟨?_, ?_, ?_, ?_, ?_⟩
  · rw [hnamed, h.named, List.filter_append]
    simp [eraseDups_concat, hname, hfresh]
  · rw [← find?_entries] at hv
    simp only [Bindings.named, Option.map_eq_none_iff.1 hv, List.mem_append, List.mem_singleton]
    rintro e (he | rfl)
    · have hin := h.mem_iff.1 (List.mem_map_of_mem (f := Binding.var) he)
      have : (⟨name, b.issued + 1⟩ : Variable) ≠ e.var := fun heq => hfresh (heq ▸ hin.1)
      simp [h.count e he, List.count_append, this]
    · simp [List.count_append, List.count_eq_zero_of_not_mem hfresh]
  · rw [hissued]
    omega
  · exact h.range_concat (by omega) (Nat.lt_succ_of_le hleast) (Nat.le_of_eq hissued.symm)
  · refine h.agree_fresh rfl fun w hw heq => ?_
    by_contra hne
    have hmem := h.mem_iff.2 ⟨hw, hne⟩
    exact List.find?_eq_none.1 hv w hmem (by simpa using heq)

/-- A variable without a name comes. -/
theorem anonymous (h : Records n vs b) : Records n (vs ++ [b.anonymous.1]) b.anonymous.2 := by
  have hfresh := h.fresh (v := b.anonymous.1) rfl
  have hleast := h.least
  refine ⟨?_, ?_, Nat.le_succ_of_le hleast, ?_, ?_⟩
  · rw [List.filter_append]
    exact h.named.trans (by simp [Bindings.anonymous, anonymousName])
  · intro e he
    have hin := h.mem_iff.1 (List.mem_map_of_mem (f := Binding.var) he)
    have : b.anonymous.1 ≠ e.var := fun heq => hfresh (heq ▸ hin.1)
    simp [h.count e he, List.count_append, this]
  · exact h.range_concat (Nat.le_succ _) (Nat.lt_succ_of_le hleast) (Nat.le_refl _)
  · exact h.agree_fresh rfl fun _ _ heq => heq

theorem see {t : Token} (h : Records n vs b) (ht : t.SpeltAsVariable) :
    Records n (vs ++ (b.varOf? t).toList) (b.see t) := by
  unfold Bindings.varOf? Bindings.see
  cases hk : t.kind with
  | «variable» =>
    have hname := (ht (by simp [hk, TokenKind.isVariable])).1 hk
    cases hv : b.var? t.text with
    | some v => exact h.known hv hname
    | none => exact h.unknown hv hname
  | anonymousVariable => exact h.anonymous
  | _ => simpa using h

theorem after {ts : List Token} (h : Records n vs b) (hts : ∀ t ∈ ts, t.SpeltAsVariable) :
    Records n (vs ++ b.met ts) (b.after ts) := by
  induction ts generalizing vs b with
  | nil => simpa using h
  | cons t ts ih =>
    obtain ⟨ht, hts⟩ := List.forall_mem_cons.1 hts
    have := ih (h.see ht) hts
    rwa [List.append_assoc] at this

theorem singletons_eq (h : Records n vs b) :
    b.singletons =
      b.namedVariables.filter fun v => vs.count v = 1 ∧ ¬v.name.startsWith "_" := by
  rw [singletons, namedVariables, List.filter_map]
  congr 1
  refine List.filter_congr fun e he => ?_
  simp [h.count e he]

end Records

theorem issued_le_see (b : Bindings) (t : Token) : b.issued ≤ (b.see t).issued := by
  unfold see
  split
  · cases hv : b.var? t.text with
    | some v => exact Nat.le_of_eq (named_of_known hv).2.2.symm
    | none => exact (named_of_unknown hv).2.2 ▸ Nat.le_succ _
  · exact Nat.le_succ _
  · exact Nat.le_refl _

theorem issued_le_after (b : Bindings) (ts : List Token) : b.issued ≤ (b.after ts).issued := by
  induction ts generalizing b with
  | nil => exact Nat.le_refl _
  | cons t ts ih => exact Nat.le_trans (b.issued_le_see t) (ih _)

/-- Tokens and the variables that they stand for: one for each, of the same spelling. -/
theorem map_name_met {ts : List Token} (hts : ∀ t ∈ ts, t.SpeltAsVariable) :
    (b.met ts).map (·.name) = (ts.filter (·.kind.isVariable)).map (·.text) := by
  induction ts generalizing b with
  | nil => rfl
  | cons t ts ih =>
    obtain ⟨ht, hts⟩ := List.forall_mem_cons.1 hts
    rw [met, List.map_append, ih hts]
    cases hk : t.kind with
    | «variable» =>
      have hname : (b.named t.text).1.name = t.text := name_of_var? (b.var?_named t.text)
      simp [varOf?, hk, TokenKind.isVariable, hname]
    | anonymousVariable =>
      have hname : t.text = anonymousName := by
        have := ht (by simp [hk, TokenKind.isVariable])
        simpa [hk] using this
      simp [varOf?, hk, TokenKind.isVariable, hname, Bindings.anonymous, anonymousName]
    | _ => simp [varOf?, hk, TokenKind.isVariable]

end Bindings

/-! ## How variables are spelt -/

theorem Lexeme.ofText_isVariable {c : Char} {t : Text} {kind : TokenKind} {lead n : Nat}
    (h : ofText c t = .plain kind lead n) (hk : kind.isVariable) :
    lead = 0 ∧ n = run CharClass.isAlphanumeric t ∧ CharClass.isVariableStart c ∧
      (kind = .variable ↔ ¬(n = 1 ∧ c = '_')) := by
  unfold ofText number solo? at h
  simp only at h
  split_ifs at h <;> grind [TokenKind.isVariable]

namespace Scan

/-- The token that scanning comes to, if any, is spelt as its kind says where it is a variable. -/
def SpeltAsVariable : Scan → Prop
  | token t _ => t.SpeltAsVariable
  | _ => True

variable {layout : Bool} {start after : Cursor}

theorem speltAsVariable_of_not {t : Token} (h : t.kind.isVariable = false) :
    (token t after).SpeltAsVariable :=
  fun hk => absurd (h ▸ hk) Bool.false_ne_true

theorem name_speltAsVariable {kind : TokenKind} {text : Text} (hk : kind.isVariable = false) :
    (name kind text layout start after).SpeltAsVariable := by
  unfold name
  split
  · trivial
  · exact speltAsVariable_of_not hk

theorem dot_speltAsVariable : (dot layout start after).SpeltAsVariable := by
  unfold dot
  split
  · trivial
  · split <;> exact speltAsVariable_of_not rfl

theorem unended_speltAsVariable {cause : SyntaxCause} {stopped : Cursor} :
    (unended cause start stopped).SpeltAsVariable := by
  unfold unended
  split <;> trivial

theorem quoted_speltAsVariable {f : QuotedForm} {inside : Cursor} :
    (quoted f layout start inside).SpeltAsVariable := by
  have hk : (quotedKind f).isVariable = false := by
    rcases quotedKind_cases f with h | h | h | h <;> simp [h, TokenKind.isVariable]
  unfold quoted
  split
  · exact unended_speltAsVariable
  · trivial
  · simp only
    split
    · exact name_speltAsVariable hk
    · exact speltAsVariable_of_not hk

theorem lexeme_speltAsVariable {flags : Flags} {g : Glyph} {t : Text} (hr : start.rest = g :: t) :
    (lexeme flags layout g.code start).SpeltAsVariable := by
  unfold lexeme
  split
  · next kind lead n heq =>
    intro hk
    obtain ⟨rfl, hn, hstart, hkind⟩ := Lexeme.ofText_isVariable heq hk
    have hg := CharClass.isAlphanumeric_of_isVariableStart hstart
    obtain ⟨m, hm⟩ : ∃ m, n = m + 1 := by
      rw [hr] at hn
      exact Nat.exists_eq_succ_of_ne_zero (hn ▸ (Lexeme.run_pos hg).ne')
    have hle : n ≤ (g :: t).length := hr ▸ hn ▸ Lexeme.run_le _ _
    refine hkind.trans (not_congr ?_)
    -- The text is the underscore alone exactly if it has one character and starts with it.
    subst hm
    simp only [hr, List.take_succ_cons, List.drop_zero, Variable.anonymousName]
    refine ⟨fun ⟨hone, hcode⟩ => ?_, fun htext => ?_⟩
    · obtain rfl : m = 0 := by omega
      rw [Glyph.eq_char_of_code (by decide) hcode]
      rfl
    · obtain ⟨rfl, htail⟩ := List.cons.inj htext
      have hzero : m = 0 := by
        rcases List.take_eq_nil_iff.1 htail with hm | rfl
        · exact hm
        · simp only [List.length_singleton] at hle
          omega
      exact ⟨by omega, rfl⟩
  · exact name_speltAsVariable rfl
  · exact dot_speltAsVariable
  · exact quoted_speltAsVariable
  · exact quoted_speltAsVariable
  · trivial

end Scan

theorem scanFrom_speltAsVariable (flags : Flags) (layout : Bool) (c : Cursor) :
    (scanFrom flags layout c).SpeltAsVariable := by
  fun_induction scanFrom flags layout c with
  | case1 => trivial
  | case2 | case4 | case7 => exact Scan.speltAsVariable_of_not rfl
  | case3 _ _ _ _ _ _ _ _ _ _ ih => exact ih
  | case5 _ _ _ _ _ _ _ _ _ _ _ ih => exact ih
  | case6 => exact Scan.unended_speltAsVariable
  | case8 _ _ _ _ _ _ _ _ _ _ _ _ _ _ _ ih => exact ih
  | case9 _ _ _ _ _ hr => exact Scan.lexeme_speltAsVariable hr

theorem Scans.speltAsVariable {flags : Flags} {c c' : Cursor} {ts : List Token}
    (h : Scans flags c ts c') : ∀ t ∈ ts, t.SpeltAsVariable := by
  induction h with
  | nil => exact nofun
  | @cons c t after ts last ht _ ih =>
    have hspelt := scanFrom_speltAsVariable flags false c
    rw [show scanFrom flags false c = .token t after from ht] at hspelt
    exact List.forall_mem_cons.2 ⟨hspelt, ih⟩

/-! ## The numbers of variables -/

/-- Reading a sentence, be it malformed, takes back no number. -/
theorem Reading.issued_le_run (d : Dialect) (n : Nat) (c : Cursor) :
    n ≤ (Run.at d n c).issued := by
  obtain ⟨ts, at', last, -, hfeed, hend⟩ := run_cases d (start n) [] c
  have hlast : last.Covers (fun _ => True) d (.startingAfter n) (uncommented ([] ++ ts)) :=
    feed_covers (fun _ _ => trivial) (covers_start d n) (fun _ _ => trivial) hfeed
  have hle : n ≤ last.names.issued := by
    rw [hlast.names_eq]
    exact (Bindings.startingAfter n).issued_le_after _
  unfold Run.at
  generalize (start n).run d [] c = run at hend ⊢
  cases hend with
  | failure | fault => exact hle
  | @token t after =>
    have hsound := step_sound (t := t) (fun _ _ => trivial) hlast fun _ => trivial
    generalize last.step d t = step at hsound ⊢
    cases step with
    | done =>
      obtain ⟨-, rfl, -⟩ := hsound
      exact (Bindings.startingAfter n).issued_le_after _
    | more | endOfInput | fault | stuck => exact hle

/-- The relation of a sentence to those of its tokens that stand for variables. -/
structure Sentence.VariablesAgree (tokens : List Token) (s : Sentence) : Prop where
  /-- Only the underscore by itself is no name. -/
  kinds : ∀ t ∈ tokens, t.kind = .variable ↔ t.text ≠ Variable.anonymousName
  occurrences : s.term.vars.map (·.name) = tokens.map (·.text)
  identities : (tokens.zip s.term.vars).Pairwise fun a b =>
    a.2.id = b.2.id ↔ a.1.kind = .variable ∧ b.1.kind = .variable ∧ a.1.text = b.1.text
  /-- The named variables in the order in which they occur first. -/
  namedVariables : s.namedVariables =
    (s.term.vars.filter (·.name ≠ Variable.anonymousName)).eraseDups
  singletons : s.singletons =
    s.namedVariables.filter fun v => s.term.vars.count v = 1 ∧ ¬v.name.startsWith "_"

/-- A token and the variable that stands beside it are spelt the same. -/
theorem Variable.name_of_mem_zip {tokens : List Token} {vs : List Variable} {a : Token × Variable}
    (h : vs.map (·.name) = tokens.map (·.text)) (ha : a ∈ tokens.zip vs) :
    a.2.name = a.1.text := by
  obtain ⟨i, hi, rfl⟩ := List.mem_iff_getElem.1 ha
  have := congrArg (·[i]?) h
  simp only [List.length_zip, Nat.lt_min] at hi
  simpa [hi] using this

namespace Sentence.ReadFrom

variable {able : Token → Prop} {d : Dialect} {n : Nat} {body : List Token} {s : Sentence}

theorem vars_eq (h : s.ReadFrom able d (.startingAfter n) body) :
    s.term.vars = (Bindings.startingAfter n).met body := by
  obtain ⟨⟨p, hp⟩, -, -⟩ := h
  exact hp.vars_eq

theorem records (h : s.ReadFrom able d (.startingAfter n) body)
    (hspelt : ∀ t ∈ body, t.SpeltAsVariable) :
    Bindings.Records n s.term.vars ((Bindings.startingAfter n).after body) := by
  rw [h.vars_eq]
  exact (Bindings.records_startingAfter n).after hspelt

theorem variablesAgree (h : s.ReadFrom able d (.startingAfter n) body)
    (hspelt : ∀ t ∈ body, t.SpeltAsVariable) :
    s.VariablesAgree (body.filter (·.kind.isVariable)) := by
  have hrecords := h.records hspelt
  have hkinds : ∀ t ∈ body.filter (·.kind.isVariable),
      t.kind = .variable ↔ t.text ≠ Variable.anonymousName := by
    intro t ht
    obtain ⟨hmem, hk⟩ := List.mem_filter.1 ht
    exact hspelt t hmem hk
  have hnames := h.vars_eq ▸ Bindings.map_name_met (b := .startingAfter n) hspelt
  refine ⟨hkinds, hnames, ?_, h.namedVariables.trans hrecords.named, ?_⟩
  · generalize body.filter (·.kind.isVariable) = tokens at hkinds hnames ⊢
    have hlength := congrArg List.length hnames
    rw [List.length_map, List.length_map] at hlength
    have hzip : (tokens.zip s.term.vars).map Prod.snd = s.term.vars :=
      List.map_snd_zip (Nat.le_of_eq hlength)
    have hagree := hrecords.agree
    rw [← hzip, List.pairwise_map] at hagree
    refine hagree.imp_of_mem fun {a b} ha hb hab => ?_
    have hid : a.2.id = b.2.id ↔ a.2.name = b.2.name ∧ a.2.name ≠ Variable.anonymousName := hab
    rw [hid, Variable.name_of_mem_zip hnames ha, Variable.name_of_mem_zip hnames hb,
      hkinds _ (List.of_mem_zip ha).1, hkinds _ (List.of_mem_zip hb).1]
    exact ⟨fun ⟨heq, hne⟩ => ⟨hne, heq ▸ hne, heq⟩, fun ⟨hne, _, heq⟩ => ⟨heq, hne⟩⟩
  · rw [h.singletons, h.namedVariables]
    exact hrecords.singletons_eq

end Sentence.ReadFrom

theorem mem_of_mem_uncommented {t last : Token} {body : List Token} (h : t ∈ uncommented body) :
    t ∈ body ++ [last] :=
  List.mem_append_left _ (List.mem_filter.1 h).1

namespace Reader

theorem issued_le_next (d : Dialect) (r : Reader) : r.issued ≤ (r.next d).2.issued := by
  rcases r.next_eq_cases d with ⟨start, -, h⟩ | ⟨after, -, h⟩ | ⟨reason, stopped, -, -, h⟩
  · rw [h]
    exact Reading.issued_le_run d _ _
  · rw [h]
  · rw [h]

/-- Whether the numbers of variables go on from the one call to the other. -/
def Call.Precedes (a b : Call) : Prop :=
  (a.reader.next a.dialect).2.issued ≤ b.reader.issued

instance : IsTrans Call Call.Precedes where
  trans _ b _ hab hbc := hab.trans ((issued_le_next b.dialect b.reader).trans hbc)

/-- The numbers that a sentence has come from its own call. -/
theorem range_of_next_sentence {d : Dialect} {r after : Reader} {s : Sentence}
    (h : r.next d = (.sentence s, after)) :
    ∀ v ∈ s.term.vars, r.issued < v.id ∧ v.id ≤ after.issued := by
  obtain ⟨start, body, last, -, hscans, -, -, hread, hissued⟩ :=
    @readFrom_of_next_sentence (fun _ => True) _ _ _ _ (fun _ _ => trivial) (fun _ _ => trivial) h
  rw [hissued]
  exact (hread.records fun t ht => hscans.speltAsVariable t (mem_of_mem_uncommented ht)).range

/-- Of two calls, the later one has the higher numbers. -/
theorem Call.Precedes.id_lt {a b : Call} {s s' : Sentence} (hab : a.Precedes b)
    (hs : (a.reader.next a.dialect).1 = .sentence s)
    (hs' : (b.reader.next b.dialect).1 = .sentence s') :
    ∀ v ∈ s.term.vars, ∀ w ∈ s'.term.vars, v.id < w.id := by
  intro v hv w hw
  have hrange := range_of_next_sentence (Prod.ext hs rfl) v hv
  have hrange' := range_of_next_sentence (Prod.ext hs' rfl) w hw
  exact Nat.lt_of_le_of_lt (hrange.2.trans hab) hrange'.1

/-! ## Texts one after the other -/

theorem Calls.head?_eq {d : Dialect} {r : Reader} {calls : List Call} (h : Calls d r calls) :
    calls.head? = some ⟨d, r⟩ := by
  cases h <;> rfl

/-- The numbers go on from call to call of a text. -/
theorem Calls.isChain {d : Dialect} {r : Reader} {calls : List Call} (h : Calls d r calls) :
    calls.IsChain Call.Precedes := by
  induction h with
  | last => exact .singleton _
  | sentence _ hs ih | malformed _ hs ih =>
    refine List.isChain_cons.2 ⟨fun b hb => ?_, ih⟩
    cases hs.head?_eq.symm.trans hb
    exact Nat.le_refl _

/-- The last call of a text leaves the number that consulting it leaves. -/
theorem Calls.issued_of_getLast? {d : Dialect} {r : Reader} {calls : List Call} {last : Call}
    (h : Calls d r calls) (hlast : calls.getLast? = some last) (done : Consultation) :
    (last.reader.next last.dialect).2.issued = (r.consult d done).issued := by
  induction h generalizing done with
  | @last d r h =>
    obtain rfl : ⟨d, r⟩ = last := by simpa using hlast
    rw [consult_eq, ← Prod.eta (r.next d), h]
  | @sentence d r s calls h hs ih =>
    obtain ⟨call, rest, rfl⟩ := List.exists_cons_of_ne_nil hs.ne_nil
    rw [consult_eq, ← Prod.eta (r.next d), h]
    exact ih (by simpa using hlast) _
  | @malformed d r e calls h hs ih =>
    obtain ⟨call, rest, rfl⟩ := List.exists_cons_of_ne_nil hs.ne_nil
    rw [consult_eq, ← Prod.eta (r.next d), h]
    exact ih (by simpa using hlast) _

/-- The calls of consulting texts one after the other, in whatever dialects. Each text goes on with
the numbers that the one before has left. -/
inductive Consults : Nat → List Call → Prop where
  | nil {n : Nat} : Consults n []
  | cons {n : Nat} {d : Dialect} {c : Cursor} {calls rest : List Call}
    (h : Calls d (.ofCursor c n) calls) (hs : Consults (d.consult n c).issued rest) :
    Consults n (calls ++ rest)

theorem Consults.issued_of_head? {n : Nat} {calls : List Call} {call : Call}
    (h : Consults n calls) (hcall : calls.head? = some call) : call.reader.issued = n := by
  cases h with
  | nil => cases hcall
  | cons h _ =>
    rw [List.head?_append, h.head?_eq] at hcall
    cases hcall
    rfl

theorem Consults.isChain {n : Nat} {calls : List Call} (h : Consults n calls) :
    calls.IsChain Call.Precedes := by
  induction h with
  | nil => exact .nil
  | cons h hs ih =>
    refine List.isChain_append.2 ⟨h.isChain, ih, fun a ha b hb => ?_⟩
    rw [Call.Precedes, h.issued_of_getLast? ha .empty, hs.issued_of_head? hb]
    exact Nat.le_refl _

/-- Of texts consulted one after the other, no two sentences have a variable in common. -/
theorem Consults.pairwise_id_lt {n : Nat} {calls : List Call} (h : Consults n calls) :
    calls.Pairwise fun a b => ∀ s s', (a.reader.next a.dialect).1 = .sentence s →
      (b.reader.next b.dialect).1 = .sentence s' →
      ∀ v ∈ s.term.vars, ∀ w ∈ s'.term.vars, v.id < w.id :=
  (List.isChain_iff_pairwise.1 h.isChain).imp fun hab _ _ => Call.Precedes.id_lt hab

/-! ## Sentences -/

/-- Calls are made one after the other, of any readers, while the numbers of variables go on. In a
sentence of one of them the variables of the term are those that the tokens stand for, occurrence by
occurrence. They are the same exactly for tokens of the same name, and no other sentence has one of
them. The lists of the sentence are its named variables and those of them that occur once. -/
theorem variables_of_next_sentence {calls : List Call} {i : Nat} {d : Dialect} {r after : Reader}
    {s : Sentence} (hcalls : calls.IsChain Call.Precedes) (hi : calls[i]? = some ⟨d, r⟩)
    (h : r.next d = (.sentence s, after)) :
    (∃ start body last, r.StartsAt d.flags start ∧
      Scans d.flags start (body ++ [last]) after.cursor ∧
      (∀ t ∈ body, ¬d.flags.Ends t) ∧ d.flags.Ends last ∧
      s.VariablesAgree (body.filter (·.kind.isVariable))) ∧
    ∀ j call s', j ≠ i → calls[j]? = some call →
      (call.reader.next call.dialect).1 = .sentence s' →
      ∀ v ∈ s.term.vars, ∀ w ∈ s'.term.vars, v.id ≠ w.id := by
  constructor
  · obtain ⟨start, body, last, hstart, hscans, hends, hlast, hread, -⟩ :=
      @readFrom_of_next_sentence (fun _ => True) _ _ _ _ (fun _ _ => trivial) (fun _ _ => trivial) h
    have hagree :=
      hread.variablesAgree fun t ht => hscans.speltAsVariable t (mem_of_mem_uncommented ht)
    have hfilter : (uncommented body).filter (·.kind.isVariable) =
        body.filter (·.kind.isVariable) := by
      rw [uncommented, List.filter_filter]
      refine List.filter_congr fun t _ => ?_
      cases hk : t.kind <;> simp [TokenKind.isVariable]
    exact ⟨start, body, last, hstart, hscans, hends, hlast, hfilter ▸ hagree⟩
  · intro j call s' hj hcall h' v hv w hw
    have h : (r.next d).1 = .sentence s := by rw [h]
    -- of two calls the numbers of the one end where those of the other start, or before
    have hpairs := List.pairwise_iff_getElem.1 (List.isChain_iff_pairwise.1 hcalls)
    obtain ⟨hilt, hi⟩ := List.getElem?_eq_some_iff.1 hi
    obtain ⟨hjlt, hj'⟩ := List.getElem?_eq_some_iff.1 hcall
    rcases Nat.lt_or_gt_of_ne hj with hlt | hlt
    · have hle : call.Precedes ⟨d, r⟩ := hi ▸ hj' ▸ hpairs j i hjlt hilt hlt
      exact (hle.id_lt h' h w hw v hv).ne'
    · have hle : Call.Precedes ⟨d, r⟩ call := hi ▸ hj' ▸ hpairs i j hilt hjlt hlt
      exact (hle.id_lt h h' v hv w hw).ne

/-- A reader before two clauses that share names, with variables at all places. -/
def beforeVariables : Reader :=
  .ofCursor (.ofText "p([X,_,_|Y], \x7b_Z, f(Z)\x7d) :- - X, \"X\" = Y, _ . q(X, _Z, W).") 3

theorem variables_of_next_beforeVariables :
    ∃ s s' after after', beforeVariables.next .standard = (.sentence s, after) ∧
      after.next .standard = (.sentence s', after') ∧
      (∃ start body last, beforeVariables.StartsAt Dialect.standard.flags start ∧
        Scans Dialect.standard.flags start (body ++ [last]) after.cursor ∧
        (∀ t ∈ body, ¬Dialect.standard.flags.Ends t) ∧ Dialect.standard.flags.Ends last ∧
        s.VariablesAgree (body.filter (·.kind.isVariable))) ∧
      ∀ v ∈ s.term.vars, ∀ w ∈ s'.term.vars, v.id ≠ w.id := by
  obtain ⟨s, after, h⟩ :=
    exists_next_sentence (d := .standard) (r := beforeVariables) (by decide +kernel)
  have hafter : (beforeVariables.next .standard).2 = after := congrArg Prod.snd h
  obtain ⟨s', after', h'⟩ :=
    exists_next_sentence (d := .standard) (r := after) (hafter ▸ by decide +kernel)
  have hcalls : [⟨.standard, beforeVariables⟩, ⟨.standard, after⟩].IsChain Call.Precedes := by
    refine List.isChain_pair.2 ?_
    rw [Call.Precedes, h]
  obtain ⟨hagree, hapart⟩ := variables_of_next_sentence (i := 0) hcalls rfl h
  exact ⟨s, s', after, after', h, h', hagree,
    hapart 1 ⟨.standard, after⟩ s' (by decide) rfl (by rw [h'])⟩

end Reader

end PrologText
