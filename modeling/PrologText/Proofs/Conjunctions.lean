import PrologText.Proofs.Definitions
import PrologText.Proofs.Sessions

/-!
# Conjunctions of goals

The goal of a directive can be a conjunction, nested in any way. Among its goals only `op/3` and
`set_prolog_flag/2` are commands to a dialect. Main statement: the commands are performed from left
to right up to the first that fails, which changes nothing, and those behind it are not performed
(`Dialect.apply_conjunction`).
-/

namespace PrologText

/-- What a goal asks of a dialect. -/
inductive Command where
  | defineOperators (priority specifier names : Term)
  | setFlag (name value : Term)

namespace Term

/-- The goals of a conjunction from left to right; a term of any other form is a goal by itself. -/
def goals : Term → List Term
  | compound functor [a, b] =>
    if functor.name = "," then a.goals ++ b.goals else [compound functor [a, b]]
  | t => [t]

/-- The command that a goal is: `op/3` and `set_prolog_flag/2` are, others are not. -/
def command? : Term → Option Command
  | compound functor [name, value] =>
    if functor.name = "set_prolog_flag" then some (.setFlag name value) else none
  | compound functor [priority, specifier, names] =>
    if functor.name = "op" then some (.defineOperators priority specifier names) else none
  | _ => none

/-- The commands among the goals of a conjunction. -/
def commands (t : Term) : List Command :=
  t.goals.filterMap command?

theorem commands_conjunction {functor : Atom} (h : functor.name = ",") (a b : Term) :
    (compound functor [a, b]).commands = a.commands ++ b.commands := by
  simp only [commands, goals, h, if_true, List.filterMap_append]

/-- A term that is no conjunction. -/
def IsGoal (t : Term) : Prop :=
  t.goals = [t]

theorem IsGoal.commands_eq {t : Term} (h : t.IsGoal) : t.commands = t.command?.toList := by
  rw [commands, h]
  cases hc : t.command? <;> simp [hc]

end Term

/-! ## Updates in place -/

/-- Lets a program that changes a table change the one of a dialect. -/
def Dialect.inTable (p : ExceptT OperatorError (StateM Table) Unit) :
    ExceptT DirectiveError (StateM Dialect) Unit :=
  ExceptT.mk fun d =>
    match p.run.run d.table with
    | (.ok (), table) => (.ok (), { d with table })
    | (.error e, table) => (.error (.operator e), { d with table })

theorem Dialect.run_inTable (p : ExceptT OperatorError (StateM Table) Unit) (d : Dialect) :
    (inTable p).run.run d =
      match p.run.run d.table with
      | (.ok (), table) => (.ok (), { d with table })
      | (.error e, table) => (.error (.operator e), { d with table }) := rfl

namespace Command

/-- Performs a command in a dialect that is at hand: what was changed before a failure stays
changed. -/
def performing : Command → ExceptT DirectiveError (StateM Dialect) Unit
  | defineOperators priority specifier names =>
    match priority with
    | .integer p =>
      match specifier with
      | .atom s =>
        match names.operatorNames with
        | .error e => throw e
        | .ok names => Dialect.inTable (Table.defining p.toInt s.name names)
      | other => throw (.ofArgument "atom" other)
    | other => throw (.ofArgument "integer" other)
  | setFlag name value =>
    match name with
    | .atom a => do
      match (← get).flags.set a.name value with
      | .error e => throw (.flag e)
      | .ok flags => modify fun d => { d with flags }
    | other => throw (.ofArgument "atom" other)

/-- The dialect that a command leaves, or why it fails. -/
def perform (d : Dialect) : Command → Except DirectiveError Dialect
  | defineOperators priority specifier names => d.defineOperators priority specifier names
  | setFlag name value => d.setFlag name value

/-- What comes of a dialect that is updated in place: it is as it was where the update fails. -/
def settled (d : Dialect) : Except DirectiveError Dialect → Except DirectiveError Unit × Dialect
  | .ok next => (.ok (), next)
  | .error e => (.error e, d)

/-- A command that fails leaves nothing half done. -/
theorem run_performing (d : Dialect) (c : Command) :
    c.performing.run.run d = settled d (c.perform d) := by
  cases c with
  | defineOperators priority specifier names =>
    cases priority with
    | integer p =>
      cases specifier with
      | atom s =>
        simp only [performing, perform, Dialect.defineOperators]
        cases names.operatorNames with
        | error e => rfl
        | ok names =>
          simp only [Dialect.run_inTable, Table.run_defining]
          cases d.table.define p.toInt s.name names <;> rfl
      | _ => rfl
    | _ => rfl
  | setFlag name value =>
    cases name with
    | atom a =>
      change (match d.flags.set a.name value with
        | .error e => throw (.flag e)
        | .ok flags => modify fun d => { d with flags } :
        ExceptT DirectiveError (StateM Dialect) Unit).run.run d = _
      simp only [perform, Dialect.setFlag]
      cases d.flags.set a.name value <;> rfl
    | _ => rfl

/-- Commands that are performed one after the other, none of which fails. -/
inductive Succeed : Dialect → List Command → Dialect → Prop where
  | nil {d} : Succeed d [] d
  | cons {d next last c cs} (h : c.performing.run.run d = (.ok (), next))
      (hs : Succeed next cs last) : Succeed d (c :: cs) last

theorem Succeed.append {d next last : Dialect} {cs cs' : List Command} (h : Succeed d cs next)
    (h' : Succeed next cs' last) : Succeed d (cs ++ cs') last := by
  induction h with
  | nil => exact h'
  | cons hc _ ih => exact .cons hc (ih h')

end Command

/-! ## Executing a conjunction -/

/-- How an execution performs some commands: all of them, or those before the first that fails. -/
inductive Execution.Performs (d : Dialect) : List Command → Execution → Prop where
  | all {cs last} (h : Command.Succeed d cs last) : Performs d cs ⟨last, !cs.isEmpty, none⟩
  | failing {done last c e later} (h : Command.Succeed d done last)
      (hc : c.performing.run.run last = (.error e, last)) :
      Performs d (done ++ c :: later) ⟨last, true, some e⟩

namespace Execution.Performs

variable {d : Dialect} {x : Execution} {cs : List Command}

/-- A command by itself. -/
theorem command {goal : Term} {c : Command} (h : goal.IsGoal) (hc : goal.command? = some c)
    (d : Dialect) : Performs d goal.commands (.ofExcept d (c.perform d)) := by
  rw [h.commands_eq, hc]
  have hrun := c.run_performing d
  cases hp : c.perform d with
  | ok next =>
    rw [hp] at hrun
    exact .all (.cons hrun .nil)
  | error e =>
    rw [hp] at hrun
    exact .failing .nil hrun

/-- A goal that is no command. -/
theorem ignored {goal : Term} (h : goal.IsGoal) (hc : goal.command? = none) (d : Dialect) :
    Performs d goal.commands (.ignored d) := by
  rw [h.commands_eq, hc]
  exact .all .nil

theorem behind_failure (h : Performs d cs x) (he : x.error?.isSome) (later : List Command) :
    Performs d (cs ++ later) x := by
  cases h with
  | all => cases he
  | failing h hc =>
    rw [List.append_assoc, List.cons_append]
    exact .failing h hc

theorem andThen {y : Execution} {later : List Command} (h : Performs d cs x)
    (he : ¬x.error?.isSome) (hy : Performs x.dialect later y) :
    Performs d (cs ++ later) { y with handled := x.handled || y.handled } := by
  cases h with
  | failing => exact absurd rfl he
  | @all _ last h =>
    cases hy with
    | @all _ last' h' =>
      have hhandled : (!cs.isEmpty || !later.isEmpty) = !(cs ++ later).isEmpty := by
        cases cs <;> rfl
      simp only [hhandled]
      exact .all (h.append h')
    | failing h' hc =>
      rw [← List.append_assoc]
      simp only [Bool.or_true]
      exact .failing (h.append h') hc

end Execution.Performs

namespace Dialect

theorem execute_performs (d : Dialect) (goal : Term) :
    (d.execute goal).Performs d goal.commands := by
  fun_induction execute d goal with
  | case1 d functor a b hcomma first herror ih =>
    rw [Term.commands_conjunction hcomma]
    exact ih.behind_failure herror _
  | case2 d functor a b hcomma first herror second ih ih' =>
    rw [Term.commands_conjunction hcomma]
    exact ih.andThen herror ih'
  | case3 d functor a b hcomma hflag =>
    have hgoal : (Term.compound functor [a, b]).IsGoal := by simp [Term.IsGoal, Term.goals, hcomma]
    have hcommand : (Term.compound functor [a, b]).command? = some (.setFlag a b) := if_pos hflag
    exact .command hgoal hcommand d
  | case4 d functor a b hcomma hflag =>
    have hgoal : (Term.compound functor [a, b]).IsGoal := by simp [Term.IsGoal, Term.goals, hcomma]
    exact .ignored hgoal (if_neg hflag) d
  | case5 d functor a b c hop =>
    have hgoal : (Term.compound functor [a, b, c]).IsGoal := by simp [Term.IsGoal, Term.goals]
    have hcommand : (Term.compound functor [a, b, c]).command? = some (.defineOperators a b c) :=
      if_pos hop
    exact .command hgoal hcommand d
  | case6 d functor a b c hop =>
    have hgoal : (Term.compound functor [a, b, c]).IsGoal := by simp [Term.IsGoal, Term.goals]
    exact .ignored hgoal (if_neg hop) d
  | case7 goal d htwo hthree =>
    refine .ignored ?_ ?_ d
    · unfold Term.IsGoal Term.goals
      split
      · exact absurd rfl (htwo _ _ _)
      · rfl
    · unfold Term.command?
      split
      · exact absurd rfl (htwo _ _ _)
      · exact absurd rfl (hthree _ _ _ _)
      · rfl

/-- A directive performs the commands of its goal from left to right, up to the first that fails and
leaves the dialect as it was. There is an error just if one fails, and the directive is handled just
if there are commands. Goals of any other kind do nothing. -/
theorem apply_conjunction {d : Dialect} {s : Sentence} {quoted : Bool} {goal : Term}
    (h : s.term = .compound ⟨":-", quoted⟩ [goal]) :
    ∃ done rest, goal.commands = done ++ rest ∧
      Command.Succeed d done (d.apply s).dialect ∧
      (rest = [] ∧ (d.apply s).error? = none ∨
        ∃ failing later e, rest = failing :: later ∧
          failing.performing.run.run (d.apply s).dialect = (.error e, (d.apply s).dialect) ∧
          (d.apply s).error? = some e) ∧
      ((d.apply s).handled = true ↔ goal.commands ≠ []) := by
  have happly : d.apply s = d.execute goal := by
    rw [apply, h]
    rfl
  have hperforms := d.execute_performs goal
  rw [happly]
  generalize goal.commands = cs, d.execute goal = x at hperforms
  cases hperforms with
  | all hs => exact ⟨cs, [], by simp, hs, .inl ⟨rfl, rfl⟩, by simp⟩
  | @failing done last c e later hs hc =>
    exact ⟨done, c :: later, rfl, hs, .inr ⟨c, later, e, rfl, hc, rfl⟩, by simp⟩

/-- A conjunction in which the third of four commands fails. -/
def mixedGoal : Term :=
  let both (a b : Term) : Term := .compound (.plain ",") [a, b]
  let op (priority : Int64) (specifier : String) (names : Term) : Term :=
    .compound (.plain "op") [.integer priority, .atom (.plain specifier), names]
  let names : Term := .ofList [.atom (.plain "<=>"), .atom (.plain ",")] .nil
  both (both (op 700 "xfx" (.atom (.plain "=>"))) (.atom (.plain "halt")))
    (both (.compound (.plain "set_prolog_flag")
        [.atom (.plain "double_quotes"), .atom (.plain "codes")])
      (both (op 200 "xfy" names) (op 0 "fy" (.atom (.plain "-")))))

def mixedDirective : Sentence :=
  ⟨.compound (.plain ":-") [mixedGoal], [], [], [], 1⟩

theorem apply_mixedDirective :
    mixedDirective.term = .compound ⟨":-", false⟩ [mixedGoal] ∧ mixedGoal.commands.length = 4 ∧
      (standard.apply mixedDirective).error?.isSome ∧
      ∃ done rest, mixedGoal.commands = done ++ rest ∧
        Command.Succeed .standard done (standard.apply mixedDirective).dialect ∧
        (rest = [] ∧ (standard.apply mixedDirective).error? = none ∨
          ∃ failing later e, rest = failing :: later ∧
            failing.performing.run.run (standard.apply mixedDirective).dialect =
              (.error e, (standard.apply mixedDirective).dialect) ∧
            (standard.apply mixedDirective).error? = some e) ∧
        ((standard.apply mixedDirective).handled = true ↔ mixedGoal.commands ≠ []) :=
  ⟨rfl, rfl, by decide +kernel, apply_conjunction rfl⟩

end Dialect

end PrologText
