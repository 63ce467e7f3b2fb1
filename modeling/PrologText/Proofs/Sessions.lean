import PrologText.Program.Consult
import PrologText.Proofs.Tables

/-!
# Sessions

A session is a dialect with a table of its own over that of its parent. The directives of the texts
that it consults change the dialect, in the very syntax that the texts are read with.
`Dialect.Evolves` says what such a change keeps. Main statement: whatever texts a session has
consulted, its operators and flags are proper, and what it has from its parent is as it was
(`Dialect.consultAll_proper`).
-/

namespace PrologText

/-! ## Flags -/

namespace Flags

variable {f f' : Flags} {name : Text} {value : Term}

/-- The flags that can be set: valid ones that differ in quotes and escape sequences only. -/
theorem set_cases (h : f.set name value = .ok f') :
    f'.validate = .ok () ∧ f'.fullStopOptional = f.fullStopOptional ∧
      f'.keepComments = f.keepComments := by
  -- Whatever has been set is validated last, so that it is enough to know what can have been set.
  have checked {next : Flags} (h : (do next.validate; pure next : Except FlagError Flags) = .ok f')
      (hstop : next.fullStopOptional = f.fullStopOptional)
      (hkeep : next.keepComments = f.keepComments) :
      f'.validate = .ok () ∧ f'.fullStopOptional = f.fullStopOptional ∧
        f'.keepComments = f.keepComments := by
    cases hv : next.validate with
    | error e => simp [hv, bind, Except.bind] at h
    | ok u =>
      rw [hv] at h
      cases h
      exact ⟨hv, hstop, hkeep⟩
  unfold set at h
  split at h
  · next v =>
    split at h
    · exact checked h rfl rfl
    · split at h
      · exact checked h rfl rfl
      · split at h
        · split at h
          · exact checked h rfl rfl
          · cases h
        · cases h
  · cases h

end Flags

/-! ## What directives keep -/

namespace Dialect

/-- What every text relies on in a dialect. -/
structure Proper (d : Dialect) : Prop where
  table : d.table.Proper
  flags : d.flags.validate = .ok ()

/-- What holds of a dialect and of those that directives make of it. -/
structure Evolves (d d' : Dialect) : Prop where
  proper : d.Proper → d'.Proper
  ancestors : d'.table.ancestors = d.table.ancestors
  fullStopOptional : d'.flags.fullStopOptional = d.flags.fullStopOptional
  keepComments : d'.flags.keepComments = d.flags.keepComments

variable {d d' d'' : Dialect}

theorem Evolves.refl (d : Dialect) : d.Evolves d :=
  ⟨id, rfl, rfl, rfl⟩

theorem Evolves.trans (h : d.Evolves d') (h' : d'.Evolves d'') : d.Evolves d'' where
  proper := h'.proper ∘ h.proper
  ancestors := h'.ancestors.trans h.ancestors
  fullStopOptional := h'.fullStopOptional.trans h.fullStopOptional
  keepComments := h'.keepComments.trans h.keepComments

theorem defineOperators_evolves {priority specifier names : Term}
    (h : d.defineOperators priority specifier names = .ok d') : d.Evolves d' := by
  unfold defineOperators at h
  split at h
  · split at h
    · split at h
      · cases h
      · split at h
        · cases h
        · next table htable =>
          cases h
          exact ⟨fun hd => ⟨hd.table.define htable, hd.flags⟩, Table.ancestors_define htable,
            rfl, rfl⟩
    · cases h
  · cases h

theorem setFlag_evolves {name value : Term} (h : d.setFlag name value = .ok d') :
    d.Evolves d' := by
  unfold setFlag at h
  split at h
  · split at h
    · cases h
    · next flags hflags =>
      cases h
      obtain ⟨hvalid, hstop, hkeep⟩ := Flags.set_cases hflags
      exact ⟨fun hd => ⟨hd.table, hvalid⟩, rfl, hstop, hkeep⟩
  · cases h

theorem ofExcept_evolves {x : Except DirectiveError Dialect}
    (h : ∀ d', x = .ok d' → d.Evolves d') : d.Evolves (Execution.ofExcept d x).dialect := by
  cases x with
  | error e => exact .refl d
  | ok d' => exact h d' rfl

theorem execute_evolves (d : Dialect) (goal : Term) : d.Evolves (d.execute goal).dialect := by
  fun_induction execute d goal with
  | case1 d functor a b hf first herror ih => exact ih
  | case2 d functor a b hf first herror second ih ih' => exact ih.trans ih'
  | case3 d functor a b hcomma hflag => exact ofExcept_evolves fun _ => setFlag_evolves
  | case5 d functor a b c hop => exact ofExcept_evolves fun _ => defineOperators_evolves
  | case4 | case6 | case7 => exact .refl _

theorem apply_evolves (d : Dialect) (s : Sentence) : d.Evolves (d.apply s).dialect := by
  unfold apply
  split
  · exact .refl d
  · exact execute_evolves d _

/-! ## Consulting -/

end Dialect

/-- Consulting a text executes directives only. -/
theorem Reader.consult_evolves (d : Dialect) (done : Consultation) (r : Reader) :
    d.Evolves (r.consult d done).dialect := by
  fun_induction Reader.consult d done r with
  | case1 => exact .refl _
  | case2 d _ _ s _ _ _ _ ih => exact (d.apply_evolves s).trans ih
  | case3 _ _ _ _ _ _ _ ih => exact ih
  | case4 => exact .refl _

namespace Dialect

/-- The dialect that is left when some texts have been consulted one after the other. With each text
comes the number of the last variable before it. -/
def consultAll (d : Dialect) (texts : List (Nat × Cursor)) : Dialect :=
  texts.foldl (fun d text => (d.consult text.1 text.2).dialect) d

theorem consultAll_evolves (d : Dialect) (texts : List (Nat × Cursor)) :
    d.Evolves (d.consultAll texts) := by
  induction texts generalizing d with
  | nil => exact .refl d
  | cons text texts ih => exact (Reader.consult_evolves d _ _).trans (ih _)

/-- The table that a session can have as its parent: the standard one, or one that a configuration
has made over it. -/
def IsParent (parent : Table) : Prop :=
  parent = .standard ∨ ∃ c : Config, c.table .standard = .ok parent

theorem IsParent.proper {parent : Table} (h : IsParent parent) : parent.Proper := by
  rcases h with rfl | ⟨c, hc⟩
  · exact Table.proper_standard
  · exact Config.proper_of_table Table.proper_standard hc

/-- Whatever texts a session with valid flags has consulted, and whatever directives and errors they
held: its tables are well formed, the comma, the bar and the empty brackets are what they have to
be, its flags are valid, and the tables above its own and the flags that directives do not know are
those it started with. -/
theorem consultAll_proper {parent : Table} {flags : Flags} (hparent : IsParent parent)
    (hflags : flags.validate = .ok ()) (texts : List (Nat × Cursor)) :
    let d := (derive ⟨parent, flags⟩).consultAll texts
    d.table.Proper ∧ d.flags.validate = .ok () ∧ d.table.ancestors = parent.layers ∧
      d.flags.fullStopOptional = flags.fullStopOptional ∧
      d.flags.keepComments = flags.keepComments := by
  intro d
  obtain ⟨hproper, hancestors, hstop, hkeep⟩ := consultAll_evolves (derive ⟨parent, flags⟩) texts
  obtain ⟨htable, hvalid⟩ := hproper ⟨hparent.proper.derive, hflags⟩
  exact ⟨htable, hvalid, hancestors, hstop, hkeep⟩

/-- A configuration that takes the bar away and defines operators in its place. -/
def barlessConfig : Config where
  flags := { Flags.standard with doubleQuotes := .codes, keepComments := true }
  operators := [⟨0, "xfy", ["|"]⟩, ⟨1200, "xf", ["!", "|>"]⟩, ⟨1, "fy", ["is"]⟩]

/-- Texts with directives that succeed, fail or fail in part, and with syntax errors. -/
def unrulyTexts : List (Nat × Cursor) :=
  [(0, .ofText ":- op(0, xf, [a|B]), op(700, xfx, =>). :- op(0, xfx, '|'), op(0, yf, ','). ) a.\n"),
    (7, .ofText ":- op(1001, xfy, '|'), op(9, fy, ['|']). X => Y. :- op(200, xf, =>)."),
    (3, .ofText ":- set_prolog_flag(back_quotes, atom); set_prolog_flag(char_escapes, off). 'a")]

theorem consultAll_proper_unrulyTexts :
    ∃ parent, barlessConfig.table .standard = .ok parent ∧ IsParent parent ∧
      barlessConfig.flags.validate = .ok () ∧
      let d := (derive ⟨parent, barlessConfig.flags⟩).consultAll unrulyTexts
      d.table.Proper ∧ d.flags.validate = .ok () ∧ d.table.ancestors = parent.layers ∧
        d.flags.fullStopOptional = false ∧ d.flags.keepComments = true := by
  obtain ⟨parent, hparent⟩ : ∃ parent, barlessConfig.table .standard = .ok parent := ⟨_, rfl⟩
  exact ⟨parent, hparent, .inr ⟨_, hparent⟩, rfl, consultAll_proper (.inr ⟨_, hparent⟩) rfl _⟩

end Dialect

end PrologText
