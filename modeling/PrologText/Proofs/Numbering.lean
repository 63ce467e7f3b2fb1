import PrologText.Proofs.Completion
import PrologText.Proofs.Positions
import PrologText.Proofs.Sessions
import PrologText.Service.Basic

/-!
# Where the numbers of variables start

The variables of all texts are numbered one after the other. What a text is read as depends on the
numbers given before it only in that its own are higher (`Dialect.exists_consult_raised`). Malformed
sentences give numbers as well, and goals that hold variables are executed, but nothing is decided
by a number. Main statement: so a response of the service is the one of a service that has just been
started, but for the numbers of variables without a name (`consult_and_respond_renumbered`).
-/

namespace PrologText

/-! ## One sentence -/

/-- A sentence with all its variables changed. -/
def Sentence.mapVars (f : Variable → Variable) (s : Sentence) : Sentence :=
  { s with
    term := s.term.map id f
    namedVariables := s.namedVariables.map f
    singletons := s.singletons.map f }

theorem Sentence.ofTokens_raised (n : Nat) (x : Term) (names : Bindings) (ts : List Token) :
    ofTokens (x.raised n) (names.raised n) ts = (ofTokens x names ts).mapVars (.raised n) := by
  simp only [ofTokens, mapVars, Bindings.namedVariables_raised, Bindings.singletons_raised]
  rfl

def Outcome.raised (n : Nat) : Outcome → Outcome
  | sentence s => sentence (s.mapVars (.raised n))
  | o => o

def Run.raised (n : Nat) (run : Run) : Run :=
  { run with outcome := run.outcome.raised n, issued := n + run.issued }

namespace Reading

/-- The second reading is the first with higher numbers. White space before the tokens that it keeps
does not matter. -/
def Raises (n : Nat) (r r' : Reading) : Prop :=
  r'.moved id = r.recast id n

variable {d : Dialect} {n : Nat} {r r' last last' : Reading} {t : Token} {ts : List Token}

theorem raises_start (n issued : Nat) : (start issued).Raises n (start (n + issued)) := rfl

namespace Raises

theorem issued_eq (h : r.Raises n r') : r'.names.issued = n + r.names.issued :=
  congrArg (·.names.issued) h

theorem step (h : r.Raises n r') (d : Dialect) (t : Token) :
    (r'.step d t).moved id = (r.step d t).recast id n := by
  have hr : r'.recast id 0 = r.recast id n := (recast_zero id r').trans h
  rw [← Step.recast_zero]
  exact step_recast_congr hr rfl

theorem step_more {next : Reading} (h : r.Raises n r') (hnext : r.step d t = .more next) :
    ∃ next', r'.step d t = .more next' ∧ next.Raises n next' := by
  have hstep := h.step d t
  rw [hnext] at hstep
  exact Step.moved_eq_more hstep

theorem step_ne_more (h : r.Raises n r') (hover : ∀ next, r.step d t ≠ .more next)
    (next : Reading) : r'.step d t ≠ .more next := by
  intro hnext
  have hstep := h.step d t
  rw [hnext] at hstep
  cases hs : r.step d t with
  | more => exact hover _ hs
  | done | endOfInput | fault | stuck =>
    rw [hs] at hstep
    cases hstep

theorem feed (h : r.Raises n r') (hfeed : r.feed d ts = .more last) :
    ∃ last', r'.feed d ts = .more last' ∧ last.Raises n last' := by
  replace hfeed := takes_of_feed hfeed
  induction hfeed generalizing r' with
  | nil => exact ⟨r', rfl, h⟩
  | comment hk _ ih =>
    rw [feed_comment hk]
    exact ih h
  | more _ hnext _ ih =>
    obtain ⟨next', hnext', hraises⟩ := h.step_more hnext
    rw [feed_more hnext']
    exact ih hraises

theorem conclude {s s' : Step} (h : last.Raises n last') (hs : s'.moved id = s.recast id n)
    (ts : List Token) (after : Cursor) :
    Run.conclude last' ts after s' = (Run.conclude last ts after s).raised n := by
  have hissued := h.issued_eq
  cases s with
  | done x names =>
    cases s' <;> cases hs
    simp only [Run.conclude, Run.raised, Outcome.raised, Sentence.ofTokens_raised]
    rfl
  | fault e =>
    cases s' with
    | fault e' =>
      obtain rfl : e' = e := Step.fault.inj hs
      simp only [Run.conclude, Run.raised, Outcome.raised, hissued]
    | _ => cases hs
  | more | endOfInput | stuck =>
    cases s' <;> simp only [Step.moved, Step.recast, reduceCtorEq] at hs
    simp only [Run.conclude, Run.raised, Outcome.raised, hissued]

/-- What comes of a reading with higher numbers. -/
theorem run (h : r.Raises n r') (seen : List Token) (c : Cursor) :
    r'.run d seen c = (r.run d seen c).raised n := by
  obtain ⟨ts, at', last, hscans, hfeed, hend⟩ := run_cases d r seen c
  obtain ⟨last', hfeed', hlast⟩ := h.feed hfeed
  have hissued := hlast.issued_eq
  have hseen : (ts.reverse ++ seen).reverse = seen.reverse ++ ts := by simp
  rw [run_of_feed_more hscans hfeed']
  generalize r.run d seen c = run at hend ⊢
  cases hend with
  | failure hs =>
    rw [run_failure hs, hseen, hissued]
    rfl
  | fault hs =>
    rw [run_fault hs, hseen, hissued]
    rfl
  | @token t after hs hk hover =>
    rw [run_over hs hk (hlast.step_ne_more hover), List.reverse_cons, hseen]
    exact hlast.conclude (hlast.step d t) _ _

end Raises

end Reading

namespace Reader

/-- The same point in a text, with more numbers given before it. -/
def raised (n : Nat) (r : Reader) : Reader :=
  { r with issued := n + r.issued }

theorem readAt_raised (d : Dialect) (n issued : Nat) (c : Cursor) :
    readAt d (n + issued) c =
      ((readAt d issued c).1.raised n, (readAt d issued c).2.raised n) := by
  have hrun : Run.at d (n + issued) c = (Run.at d issued c).raised n :=
    (Reading.raises_start n issued).run [] c
  simp only [readAt, hrun, Run.raised, raised]
  cases (Run.at d issued c).outcome with
  | sentence | endOfInput => rfl
  | error e => cases e <;> rfl

theorem next_raised (d : Dialect) (n : Nat) (r : Reader) :
    (r.raised n).next d = ((r.next d).1.raised n, (r.next d).2.raised n) := by
  unfold next
  simp only [raised, readAt_raised]
  split
  · cases skipSentence d.flags r.cursor <;> rfl
  · rfl

end Reader

/-! ## Directives -/

/-- A reason that names a term, with all variables of the term changed. -/
def FlagError.mapVars (f : Variable → Variable) : FlagError → FlagError
  | notAtom value => notAtom (value.map id f)
  | e => e

def DirectiveError.mapVars (f : Variable → Variable) : DirectiveError → DirectiveError
  | unexpectedType expected culprit => unexpectedType expected (culprit.map id f)
  | flag e => flag (e.mapVars f)
  | e => e

def Execution.mapVars (f : Variable → Variable) (x : Execution) : Execution :=
  { x with error? := x.error?.map (.mapVars f) }

section Directives

variable (f : Variable → Variable) (d : Dialect)

theorem Execution.ofExcept_mapError (x : Except DirectiveError Dialect) :
    ofExcept d (x.mapError (.mapVars f)) = (ofExcept d x).mapVars f := by
  cases x <;> rfl

namespace Term

theorem atomName?_map (t : Term) : (t.map id f).atomName? = t.atomName? := by
  cases t <;> rfl

theorem elements_map (t : Term) :
    (t.map id f).elements = (t.elements.1.map (map id f), t.elements.2.map id f) := by
  cases t with
  | cons head tail => simp only [map, elements, elements_map tail, List.map_cons]
  | _ => rfl

theorem directiveGoal?_map (t : Term) :
    (t.map id f).directiveGoal? = t.directiveGoal?.map (map id f) := by
  cases t with
  | compound functor args =>
    rcases args with _ | ⟨goal, _ | ⟨next, rest⟩⟩
    · rfl
    · by_cases hname : functor.name = ":-" <;> simp [map, mapAll, directiveGoal?, hname]
    · rfl
  | _ => rfl

theorem operatorNames_map (t : Term) :
    (t.map id f).operatorNames = t.operatorNames.mapError (.mapVars f) := by
  cases t with
  | cons head tail =>
    have helements := elements_map f (cons head tail)
    have hnames (ts : List Term) : (ts.map (map id f)).mapM atomName? = ts.mapM atomName? := by
      rw [List.mapM_map, show atomName? ∘ map id f = atomName? from funext (atomName?_map f)]
    unfold operatorNames
    simp only [map] at helements ⊢
    rw [helements]
    obtain ⟨elements, last⟩ := (cons head tail).elements
    cases last with
    | nil =>
      simp only [map, hnames]
      cases elements.mapM atomName? <;> rfl
    | _ => rfl
  | _ => rfl

end Term

theorem Flags.set_map (flags : Flags) (name : Text) (value : Term) :
    flags.set name (value.map id f) = (flags.set name value).mapError (.mapVars f) := by
  have hvalidate (next : Flags) :
      (do next.validate; pure next : Except FlagError Flags).mapError (.mapVars f) =
        (do next.validate; pure next) := by
    unfold validate
    cases next.doubleQuotes <;> cases next.backQuotes <;> rfl
  cases value with
  | atom v =>
    simp only [Term.map, set, id]
    split
    · exact (hvalidate _).symm
    · split
      · exact (hvalidate _).symm
      · split
        · cases switch? v.name with
          | some b => exact (hvalidate _).symm
          | none => rfl
        · rfl
  | _ => rfl

namespace Dialect

theorem setFlag_map (name value : Term) :
    d.setFlag (name.map id f) (value.map id f) = (d.setFlag name value).mapError (.mapVars f) := by
  cases name with
  | atom a =>
    simp only [Term.map, setFlag, id, Flags.set_map]
    cases d.flags.set a.name value <;> rfl
  | _ => rfl

theorem defineOperators_map (priority specifier names : Term) :
    d.defineOperators (priority.map id f) (specifier.map id f) (names.map id f) =
      (d.defineOperators priority specifier names).mapError (.mapVars f) := by
  cases priority with
  | integer p =>
    cases specifier with
    | atom s =>
      simp only [Term.map, defineOperators, id, Term.operatorNames_map]
      cases names.operatorNames with
      | error e => rfl
      | ok names =>
        have hok : (Except.ok names).mapError (DirectiveError.mapVars f) = .ok names := rfl
        simp only [hok]
        cases d.table.define p.toInt s.name names <;> rfl
    | _ => rfl
  | _ => rfl

/-- What a goal does to a dialect does not depend on its variables. -/
theorem execute_map (t : Term) : d.execute (t.map id f) = (d.execute t).mapVars f := by
  fun_induction execute d t with
  | case1 d functor a b hf first herror ih =>
    have hfirst : (d.execute (a.map id f)).error?.isSome := by
      simpa [ih, Execution.mapVars] using herror
    simp only [Term.map, Term.mapAll, execute, id]
    rw [if_pos hf, if_pos hfirst]
    exact ih
  | case2 d functor a b hf first herror second ih ih' =>
    have hfirst : ¬(d.execute (a.map id f)).error?.isSome := by
      simpa [ih, Execution.mapVars] using herror
    have hsecond : (d.execute (a.map id f)).dialect.execute (b.map id f) = second.mapVars f := by
      rw [ih]
      exact ih'
    simp only [Term.map, Term.mapAll, execute, id]
    rw [if_pos hf, if_neg hfirst, hsecond, ih]
    rfl
  | case3 d functor a b hcomma hflag =>
    simp only [Term.map, Term.mapAll, execute, id]
    rw [if_neg hcomma, if_pos hflag, setFlag_map, Execution.ofExcept_mapError]
  | case5 d functor a b c hop =>
    simp only [Term.map, Term.mapAll, execute, id]
    rw [if_pos hop, defineOperators_map, Execution.ofExcept_mapError]
  | case4 d functor a b hcomma hflag =>
    simp only [Term.map, Term.mapAll, execute, id]
    rw [if_neg hcomma, if_neg hflag]
    rfl
  | case6 d functor a b c hop =>
    simp only [Term.map, Term.mapAll, execute, id]
    rw [if_neg hop]
    rfl
  | case7 t d hpair htriple =>
    cases t with
    | compound functor args =>
      rcases args with _ | ⟨a, _ | ⟨b, _ | ⟨c, _ | _⟩⟩⟩
      · rfl
      · rfl
      · exact (hpair functor a b rfl).elim
      · exact (htriple functor a b c rfl).elim
      · rfl
    | _ => rfl

theorem apply_mapVars (s : Sentence) : d.apply (s.mapVars f) = (d.apply s).mapVars f := by
  simp only [apply, Sentence.mapVars, Term.directiveGoal?_map]
  cases s.term.directiveGoal? with
  | none => rfl
  | some goal => exact execute_map f d goal

end Dialect

end Directives

/-! ## Programs -/

/-- Why a sentence is malformed, or which sentence could not be executed and why. -/
inductive Failure where
  | malformed (e : SyntaxError)
  | directive (s : Sentence) (e : DirectiveError)

namespace Failure

def diagnostic : Failure → Diagnostic
  | malformed e => e.diagnostic
  | directive s e => e.inSentence s

def mapVars (f : Variable → Variable) : Failure → Failure
  | malformed e => malformed e
  | directive s e => directive (s.mapVars f) (e.mapVars f)

end Failure

/-- What a program consists of, with its failures before they are put in words. -/
structure Program where
  clauses : List Sentence
  directives : List Sentence
  failures : List Failure

namespace Program

def empty : Program :=
  ⟨[], [], []⟩

/-- What a program consists of, in words. -/
def consultation (x : Program) : Consultation :=
  ⟨x.clauses, x.directives, x.failures.map Failure.diagnostic⟩

def mapVars (f : Variable → Variable) (x : Program) : Program :=
  ⟨x.clauses.map (.mapVars f), x.directives.map (.mapVars f), x.failures.map (.mapVars f)⟩

def addSentence (done : Program) (s : Sentence) (x : Execution) : Program where
  clauses := if x.handled then done.clauses else s :: done.clauses
  directives := if x.handled then s :: done.directives else done.directives
  failures := (x.error?.map (.directive s)).toList ++ done.failures

def addError (done : Program) (e : SyntaxError) : Program :=
  { done with failures := .malformed e :: done.failures }

def reverse (x : Program) : Program :=
  ⟨x.clauses.reverse, x.directives.reverse, x.failures.reverse⟩

variable (f : Variable → Variable) (done : Program)

theorem consultation_addSentence (s : Sentence) (x : Execution) :
    ((done.addSentence s x).mapVars f).consultation =
      (done.mapVars f).consultation.addSentence (s.mapVars f) (x.mapVars f) := by
  obtain ⟨d, handled, error?⟩ := x
  cases handled <;> cases error? <;> rfl

theorem consultation_addError (e : SyntaxError) :
    ((done.addError e).mapVars f).consultation = (done.mapVars f).consultation.addError e := rfl

theorem consultation_reverse :
    (done.reverse.mapVars f).consultation = (done.mapVars f).consultation.reverse := by
  simp [reverse, mapVars, consultation, Consultation.reverse]

end Program

/-- Consulting comes to the same program, wherever the numbers of its variables start. -/
theorem Reader.exists_consult_raised (d : Dialect) (r : Reader) (done : Program) :
    ∃ dialect issued, ∃ result : Except ReadError Program, ∀ n,
      (r.raised n).consult d (done.mapVars (.raised n)).consultation =
        ⟨dialect, n + issued, result.map fun x => (x.mapVars (.raised n)).consultation⟩ := by
  -- Each call yields the same with higher numbers; only those that leave less to be read go on.
  induction hm : r.measure using Nat.strongRecOn generalizing d r done with
  | _ m ih =>
    subst hm
    rcases hnext : r.next d with ⟨outcome, after⟩
    have hconsult (n : Nat) := consult_eq d (done.mapVars (.raised n)).consultation (r.raised n)
    simp only [next_raised, hnext] at hconsult
    cases outcome with
    | endOfInput =>
      refine ⟨d, after.issued, .ok done.reverse, fun n => ?_⟩
      rw [hconsult n]
      simp only [Outcome.raised, Except.map, Program.consultation_reverse]
      rfl
    | sentence s =>
      have hlt : after.measure < r.measure := measure_lt_of_next hnext trivial
      obtain ⟨dialect, issued, result, hresult⟩ :=
        ih _ hlt (d.apply s).dialect after (done.addSentence s (d.apply s)) rfl
      refine ⟨dialect, issued, result, fun n => ?_⟩
      rw [hconsult n, ← hresult n, Program.consultation_addSentence, ← Dialect.apply_mapVars]
      simp only [Outcome.raised, Dialect.apply_mapVars]
      rfl
    | error e =>
      cases e with
      | malformed e =>
        have hlt : after.measure < r.measure := measure_lt_of_next hnext trivial
        obtain ⟨dialect, issued, result, hresult⟩ := ih _ hlt d after (done.addError e) rfl
        refine ⟨dialect, issued, result, fun n => ?_⟩
        rw [hconsult n, ← hresult n, Program.consultation_addError]
        rfl
      | failure reason => exact ⟨d, after.issued, .error (.failure reason), hconsult⟩
      | stuck => exact ⟨d, after.issued, .error .stuck, hconsult⟩

/-- Consulting comes to the same dialect and gives as many numbers, wherever they start. What the
program consists of is the same but for these numbers. -/
theorem Dialect.exists_consult_raised (d : Dialect) (c : Cursor) :
    ∃ dialect count, ∃ result : Except ReadError Program, ∀ n,
      d.consult n c =
        ⟨dialect, n + count, result.map fun x => (x.mapVars (.raised n)).consultation⟩ :=
  Reader.exists_consult_raised d (.ofCursor c 0) .empty

/-! ## Nothing changed -/

theorem Sentence.mapVars_id (s : Sentence) : s.mapVars id = s := by
  simp [mapVars, Term.map_id]

theorem DirectiveError.mapVars_id (e : DirectiveError) : e.mapVars id = e := by
  cases e with
  | flag e => cases e <;> simp [mapVars, FlagError.mapVars, Term.map_id]
  | _ => simp [mapVars, Term.map_id]

theorem Failure.mapVars_id (x : Failure) : x.mapVars id = x := by
  cases x <;> simp [mapVars, Sentence.mapVars_id, DirectiveError.mapVars_id]

theorem Program.mapVars_id (x : Program) : x.mapVars id = x := by
  simp [mapVars, List.map_id'' Sentence.mapVars_id, List.map_id'' Failure.mapVars_id]

/-! ## What is seen of numbers -/

/-- A variable with a higher number if it has no name of its own. -/
def Variable.raisedUnnamed (n : Nat) (v : Variable) : Variable :=
  if v.name = [] ∨ v.name = [.char '_'] then v.raised n else v

/-- Changes after which variables are written alike. -/
structure Variable.Alike (f g : Variable → Variable) : Prop where
  name : ∀ v, (f v).name = (g v).name
  text : ∀ v, (f v).text = (g v).text

theorem Variable.alike_raisedUnnamed (n : Nat) : Alike (raised n) (raisedUnnamed n) := by
  constructor <;> intro v <;> by_cases hv : v.name = [] ∨ v.name = [.char '_'] <;>
    simp [raisedUnnamed, raised, text, hv]

namespace Term

variable {f g : Variable → Variable}

theorem canonical_map_congr (h : Variable.Alike f g) (t : Term) :
    (t.map id f).canonical = (t.map id g).canonical :=
  renderAt_map_congr .whole t (fun _ => rfl) (fun v _ => h.text v) []

mutual

theorem project_map_congr (h : Variable.Alike f g) (t : Term) :
    (t.map id f).project = (t.map id g).project := by
  cases t with
  | var v => simp only [map, project, h.text]
  | compound functor args => simp only [map, project, projectAll_mapAll_congr h args]
  | cons head tail => simp only [map, project, project_map_congr h head, project_map_congr h tail]
  | _ => rfl

theorem projectAll_mapAll_congr (h : Variable.Alike f g) (ts : List Term) :
    projectAll (mapAll id f ts) = projectAll (mapAll id g ts) := by
  cases ts with
  | nil => rfl
  | cons t ts => simp only [mapAll, projectAll, project_map_congr h t, projectAll_mapAll_congr h ts]

end

end Term

section Alike

variable {f g : Variable → Variable} (h : Variable.Alike f g)

include h

theorem Sentence.toJson_congr (s : Sentence) : (s.mapVars f).toJson = (s.mapVars g).toJson := by
  simp only [toJson, mapVars, Term.toJson, Term.project_map_congr h, Term.canonical_map_congr h,
    List.map_map, Function.comp_def, h.name, h.text]

theorem DirectiveError.diagnostic_congr (e : DirectiveError) :
    (e.mapVars f).diagnostic = (e.mapVars g).diagnostic := by
  cases e with
  | unexpectedType => simp only [mapVars, diagnostic, Term.canonical_map_congr h]
  | flag e =>
    cases e <;> simp only [mapVars, FlagError.mapVars, diagnostic, FlagError.diagnostic,
      Term.canonical_map_congr h]
  | uninstantiated | operator => rfl

theorem Failure.diagnostic_congr (x : Failure) :
    (x.mapVars f).diagnostic = (x.mapVars g).diagnostic := by
  cases x with
  | malformed => rfl
  | directive s e =>
    simp only [mapVars, diagnostic, DirectiveError.inSentence, Sentence.mapVars,
      Term.canonical_map_congr h, DirectiveError.diagnostic_congr h]

theorem Program.errors_congr (x : Program) :
    (x.mapVars f).consultation.errors = (x.mapVars g).consultation.errors := by
  simp only [mapVars, consultation, List.map_map, Function.comp_def, Failure.diagnostic_congr h]

theorem Program.toJson_congr (x : Program) :
    (x.mapVars f).consultation.toJson = (x.mapVars g).consultation.toJson := by
  have herrors := errors_congr h x
  simp only [Consultation.toJson, herrors]
  simp only [mapVars, consultation, List.map_map, Function.comp_def, Sentence.toJson_congr h]

end Alike

/-! ## The service -/

namespace Service

/-- What a response says: words that are always the same, or what a program consists of. -/
inductive Answer where
  | words (x : Response)
  | program (x : Program)

namespace Answer

def response : Answer → Response
  | words x => x
  | program x =>
    .json (if x.consultation.errors.isEmpty then 200 else 422) x.consultation.toJson

def mapVars (f : Variable → Variable) : Answer → Answer
  | words x => words x
  | program x => program (x.mapVars f)

theorem mapVars_raised_zero (a : Answer) : a.mapVars (.raised 0) = a := by
  rw [show Variable.raised 0 = id from funext Variable.raised_zero]
  cases a <;> simp [mapVars, Program.mapVars_id]

theorem response_congr {f g : Variable → Variable} (h : Variable.Alike f g) (a : Answer) :
    (a.mapVars f).response = (a.mapVars g).response := by
  cases a with
  | words => rfl
  | program x => simp only [mapVars, response, Program.errors_congr h, Program.toJson_congr h]

end Answer

theorem exists_read_raised (env : Dialect) (body : Text) :
    ∃ answer : Answer, ∃ count, ∀ n,
      read env n body = ((answer.mapVars (.raised n)).response, n + count) := by
  obtain ⟨dialect, count, result, hresult⟩ :=
    env.derive.exists_consult_raised (bodyCursor body)
  cases result with
  | error e =>
    refine ⟨.words (.badRequest ("failed to read request body: " ++ e.inProgram.message)), count,
      fun n => ?_⟩
    simp only [read, hresult]
    rfl
  | ok x =>
    refine ⟨.program x, count, fun n => ?_⟩
    simp only [read, hresult]
    rfl

theorem exists_respond_raised (env : Dialect) (q : Request) :
    ∃ answer : Answer, ∃ count, ∀ n,
      respond env n q = ((answer.mapVars (.raised n)).response, n + count) := by
  have words (x : Response) : ∃ answer : Answer, ∃ count, ∀ n,
      (x, n) = ((answer.mapVars (.raised n)).response, n + count) :=
    ⟨.words x, 0, fun _ => rfl⟩
  unfold respond
  cases Target.ofText? q.target with
  | none => exact words _
  | some target =>
    simp only
    split
    · split
      · exact exists_read_raised env q.body
      · exact words _
    · split
      · split <;> exact words _
      · split
        · split <;> exact words _
        · exact words _

/-- The responses to requests that come one after the other. -/
def respondAll (env : Dialect) : Nat → List Request → List Response
  | _, [] => []
  | n, q :: qs => (respond env n q).1 :: respondAll env (respond env n q).2 qs

/-- The amount of numbers that requests use up. -/
def used (env : Dialect) : List Request → Nat
  | [] => 0
  | q :: qs => (respond env 0 q).2 + used env qs

theorem respond_issued (env : Dialect) (n : Nat) (q : Request) :
    (respond env n q).2 = n + (respond env 0 q).2 := by
  obtain ⟨answer, count, hanswer⟩ := exists_respond_raised env q
  simp [hanswer]

theorem respondAll_append (env : Dialect) (n : Nat) (before : List Request) (q : Request)
    (later : List Request) :
    (respondAll env n (before ++ q :: later))[before.length]? =
      some (respond env (n + used env before) q).1 := by
  induction before generalizing n with
  | nil => rfl
  | cons first before ih =>
    rw [used, ← Nat.add_assoc, ← respond_issued, ← ih]
    rfl

end Service

/-- Wherever the numbers of variables start, consulting a text comes to the same dialect, gives as
many numbers and finds the same clauses, directives and failures, whose variables have higher
numbers. So whatever requests came before, a response is that of a service which has just been
started, but for the numbers of variables without a name. -/
theorem consult_and_respond_renumbered :
    (∀ (d : Dialect) (c : Cursor), ∃ dialect count, ∃ result : Except ReadError Program, ∀ n,
      d.consult n c =
        ⟨dialect, n + count, result.map fun x => (x.mapVars (.raised n)).consultation⟩) ∧
    ∀ (env : Dialect) (n : Nat) (before later : List Request) (q : Request),
      ∃ answer : Service.Answer, (Service.respond env 0 q).1 = answer.response ∧
      (Service.respondAll env n (before ++ q :: later))[before.length]? =
        some (answer.mapVars (.raisedUnnamed (n + Service.used env before))).response := by
  refine ⟨Dialect.exists_consult_raised, fun env n before later q => ?_⟩
  obtain ⟨answer, count, hanswer⟩ := Service.exists_respond_raised env q
  refine ⟨answer, ?_, ?_⟩
  · rw [hanswer, Service.Answer.mapVars_raised_zero]
  · rw [Service.respondAll_append, hanswer]
    exact congrArg some (Service.Answer.response_congr (Variable.alike_raisedUnnamed _) answer)

end PrologText
