import PrologText.Proofs.Occurrences
import PrologText.Proofs.Rereading
import PrologText.Term.Projection

/-!
# Variables in output

A variable with a name is written as it was spelt, one without a name is written with its number. So
a named variable may be spelt like the text that another variable gets, and which of them occurs
where is lost. Main statement: the variables of a sentence are written differently exactly if no
name is of this kind, and then the canonical text and the projection of the term tell which
variables are the same (`Reader.shared_of_next_sentence`).
-/

namespace PrologText

/-! ## The variables of projections -/

namespace Json

mutual

/-- The texts of all members named `var`, from left to right. -/
def varNames : Json → List Text
  | array items => varNamesOfItems items
  | object members => varNamesOfMembers members
  | _ => []

def varNamesOfItems : List Json → List Text
  | [] => []
  | x :: xs => varNames x ++ varNamesOfItems xs

def varNamesOfMembers : List (String × Json) → List Text
  | [] => []
  | ("var", text name) :: xs => name :: varNamesOfMembers xs
  | (_, x) :: xs => varNames x ++ varNamesOfMembers xs

end

end Json

namespace Term

theorem varNames_listObject (items : List Json) (last : Option Json) :
    (project.listObject items last).varNames =
      Json.varNamesOfItems items ++ last.elim [] Json.varNames := by
  cases last with
  | none => simp [project.listObject, Json.varNames, Json.varNamesOfMembers]
  | some tail => simp [project.listObject, Json.varNames, Json.varNamesOfMembers]

mutual

/-- The projection of a term names its variables by their texts, from left to right, and so do its
elements and the tail. -/
theorem varNames_project (t : Term) :
    (project t).1.varNames = t.vars.map Variable.text ∧
      Json.varNamesOfItems (project t).2.1 ++ (project t).2.2.elim [] Json.varNames =
        t.vars.map Variable.text := by
  cases t with
  | compound f args =>
    have hargs := varNames_projectAll args
    simp [project, project.single, Json.varNames, Json.varNamesOfMembers, Json.varNamesOfItems,
      hargs, vars]
  | cons head tail =>
    obtain ⟨hhead, -⟩ := varNames_project head
    obtain ⟨-, htail⟩ := varNames_project tail
    simp only [project, varNames_listObject, Json.varNamesOfItems, hhead, List.append_assoc, htail,
      vars, List.map_append, and_self]
  | atom | integer | bigInteger | float | string | var | nil => exact ⟨rfl, rfl⟩

theorem varNames_projectAll (ts : List Term) :
    Json.varNamesOfItems (projectAll ts) = (varsOfAll ts).map Variable.text := by
  cases ts with
  | nil => rfl
  | cons t ts =>
    rw [projectAll, Json.varNamesOfItems, (varNames_project t).1, varNames_projectAll ts, varsOfAll,
      List.map_append]

end

mutual

theorem vars_map (f : Atom → Atom) (g : Variable → Variable) (t : Term) :
    (t.map f g).vars = t.vars.map g := by
  cases t with
  | compound functor args => rw [map, vars, vars, varsOfAll_mapAll f g args]
  | cons head tail => rw [map, vars, vars, vars_map f g head, vars_map f g tail, List.map_append]
  | atom | integer | bigInteger | float | string | var | nil => rfl

theorem varsOfAll_mapAll (f : Atom → Atom) (g : Variable → Variable) (ts : List Term) :
    varsOfAll (mapAll f g ts) = (varsOfAll ts).map g := by
  cases ts with
  | nil => rfl
  | cons t ts =>
    rw [mapAll, varsOfAll, varsOfAll, vars_map f g t, varsOfAll_mapAll f g ts, List.map_append]

end

mutual

theorem vars_mended (t : Term) : t.mended.vars = t.vars := by
  cases t with
  | bigInteger n =>
    rw [mended, ofInt]
    split <;> rfl
  | compound functor args => rw [mended, vars, vars, varsOfAll_mendedAll args]
  | cons head tail => rw [mended, vars, vars, vars_mended head, vars_mended tail]
  | atom | integer | float | string | var | nil => rfl

theorem varsOfAll_mendedAll (ts : List Term) : varsOfAll (mendedAll ts) = varsOfAll ts := by
  cases ts with
  | nil => rfl
  | cons t ts => rw [mendedAll, varsOfAll, varsOfAll, vars_mended t, varsOfAll_mendedAll ts]

end

/-- Whether labels, one for each place of a variable in the term, tell which variables are the
same. -/
def SharedBy {α : Type} (labels : List α) (t : Term) : Prop :=
  ∃ label : Variable → α, labels = t.vars.map label ∧
    ∀ v ∈ t.vars, ∀ w ∈ t.vars, label v = label w ↔ v.id = w.id

end Term

/-! ## Texts of variables -/

namespace Variable

/-- Whether a variable is written with its number. -/
def IsNumbered (v : Variable) : Prop :=
  v.name = [] ∨ v.name = anonymousName

instance (v : Variable) : Decidable v.IsNumbered :=
  inferInstanceAs (Decidable (_ ∨ _))

variable {v w : Variable}

theorem text_of_isNumbered (h : v.IsNumbered) : v.text = "_G" ++ Positional.decimal v.id :=
  if_pos h

theorem text_of_not_isNumbered (h : ¬v.IsNumbered) : v.text = v.name :=
  if_neg h

end Variable

/-- Whether no name of a variable is spelt like the text of a variable that is written with its
number. -/
def Term.NamesApart (t : Term) : Prop :=
  ∀ v ∈ t.vars, ∀ w ∈ t.vars, ¬v.IsNumbered → w.IsNumbered →
    v.name ≠ "_G" ++ Positional.decimal w.id

instance (t : Term) : Decidable t.NamesApart :=
  inferInstanceAs (Decidable (∀ v ∈ _, ∀ w ∈ _, _ → _ → _))

namespace Bindings.Records

variable {n : Nat} {t : Term} {b : Bindings} {v w : Variable}

theorem text_eq_of_id (h : Records n t.vars b) (hv : v ∈ t.vars) (hw : w ∈ t.vars)
    (hid : v.id = w.id) : v.text = w.text := by
  by_cases hvw : v = w
  · rw [hvw]
  · have hname := ((h.agree.forall hv hw hvw).1 hid).1
    rw [Variable.text, Variable.text, hid, hname]

theorem id_eq_of_text (h : Records n t.vars b) (hapart : t.NamesApart) (hv : v ∈ t.vars)
    (hw : w ∈ t.vars) (htext : v.text = w.text) : v.id = w.id := by
  by_cases hvn : v.IsNumbered <;> by_cases hwn : w.IsNumbered
  · rw [Variable.text_of_isNumbered hvn, Variable.text_of_isNumbered hwn] at htext
    exact Positional.eq_of_decimal_eq (List.append_cancel_left htext)
  · rw [Variable.text_of_isNumbered hvn, Variable.text_of_not_isNumbered hwn] at htext
    exact absurd htext.symm (hapart w hw v hv hwn hvn)
  · rw [Variable.text_of_not_isNumbered hvn, Variable.text_of_isNumbered hwn] at htext
    exact absurd htext (hapart v hv w hw hvn hwn)
  · rw [Variable.text_of_not_isNumbered hvn, Variable.text_of_not_isNumbered hwn] at htext
    rw [h.eq_of_name hv hw htext fun hname => hvn (.inr hname)]

/-- Different variables are written differently exactly if the names are apart from the texts with
numbers. -/
theorem namesApart_iff (h : Records n t.vars b) :
    t.NamesApart ↔ ∀ v ∈ t.vars, ∀ w ∈ t.vars, v.id ≠ w.id → v.text ≠ w.text := by
  constructor
  · intro hapart v hv w hw hid htext
    exact hid (h.id_eq_of_text hapart hv hw htext)
  · intro hdiffer v hv w hw hvn hwn hname
    have htext : v.text = w.text := by
      rw [Variable.text_of_not_isNumbered hvn, Variable.text_of_isNumbered hwn, hname]
    have hne : v ≠ w := fun hvw => hvn (hvw ▸ hwn)
    have hid : v.id = w.id := by_contra fun hid => hdiffer v hv w hw hid htext
    have hnames : v.name = w.name := ((h.agree.forall hv hw hne).1 hid).1
    exact hvn (by rwa [Variable.IsNumbered, hnames])

end Bindings.Records

/-! ## Sentences -/

namespace Reader

variable {d : Dialect} {r after : Reader} {s : Sentence}

theorem records_of_next_sentence (h : r.next d = (.sentence s, after)) :
    ∃ b, Bindings.Records r.issued s.term.vars b := by
  obtain ⟨start, body, last, -, hscans, -, -, hread, -⟩ :=
    @readFrom_of_next_sentence (fun _ => True) _ _ _ _ (fun _ _ => trivial) (fun _ _ => trivial) h
  exact ⟨_, hread.records fun t ht => hscans.speltAsVariable t (mem_of_mem_uncommented ht)⟩

theorem proper_of_next_sentence (hflags : d.flags = .standard)
    (hjoined : r.cursor.remaining.IsJoined) (h : r.next d = (.sentence s, after)) :
    s.term.Proper := by
  obtain ⟨start, body, last, p, hstart, hscans, -, -, hderives⟩ := derives_of_next_sentence h
  have hstarts := hjoined.of_isInfix hstart.leads.suffix.isInfix
  exact hderives.proper hflags fun t ht => hscans.proper hstarts t (mem_of_mem_uncommented ht)

end Reader

/-- The canonical text of a proper term with variables and clear names, with a full stop after it,
is read as a term with the same variables at the same places, if different variables are written
differently. -/
theorem Term.Proper.exists_shared {d : Dialect} {t : Term} (ht : t.Proper)
    (hflags : d.flags = .standard) (hminus : (d.table.prefixOperator? "-").isSome)
    (hnames : ∀ x ∈ t.names, Atom.IsClear x.1 x.2) (hne : t.vars ≠ [])
    (htexts : ∀ v ∈ t.vars, ∀ w ∈ t.vars, v.text = w.text ↔ v.id = w.id) (issued : Nat) :
    ∃ u, (SingleRead.ofText d issued (.ofBytes (t.canonical ++ " .").bytes)).result = .ok u ∧
      t.SharedBy (u.vars.map (·.id)) := by
  have hsame : t.mended.canonical = t.canonical := renderAt_mended .whole t []
  have hjoined : (t.canonical ++ (" ." : Text)).IsJoined := by
    rw [canonical, ← renderAt_append]
    exact ht.isJoined_renderAt .whole ' ' (Text.isJoined_ofString ".")
  obtain ⟨u, b, hresult, hdistinct, hu⟩ :=
    SingleRead.exists_echo hflags issued (ht.readable_mended hminus hnames) fun a ha _ => by
      -- an atom by itself has no variables
      rw [← vars_mended, ha] at hne
      exact absurd rfl hne
  obtain ⟨hknown, hmap⟩ := hu b (.refl b)
  rw [vars_mended] at hknown
  refine ⟨u, ?_, fun v => b.number v.text, ?_, ?_⟩
  · rw [show Text.ofBytes (t.canonical ++ " .").bytes = t.canonical ++ " ." from hjoined, ← hsame]
    exact hresult
  · have hvars := congrArg vars hmap
    rw [vars_map, vars_map, vars_mended, List.map_id] at hvars
    rw [hvars, List.map_map]
    rfl
  · intro v hv w hw
    rw [← htexts v hv w hw]
    exact ⟨hdistinct.eq_of_number (hknown v hv) (hknown w hw), fun heq => congrArg b.number heq⟩

namespace Reader

/-- Different variables of a sentence are written differently exactly if no name is spelt like the
text of a variable that is written with its number. If so, both outputs of the term tell which
variables are the same: the members named `var` of its projection, and its canonical text, which is
read back as a term with the same variables at the same places. -/
theorem shared_of_next_sentence {d : Dialect} {r after : Reader} {s : Sentence}
    (h : r.next d = (.sentence s, after)) :
    (s.term.NamesApart ↔
      ∀ v ∈ s.term.vars, ∀ w ∈ s.term.vars, v.id ≠ w.id → v.text ≠ w.text) ∧
    (s.term.NamesApart → s.term.SharedBy s.term.toJson.varNames ∧
      (d.flags = .standard → (d.table.prefixOperator? "-").isSome →
        r.cursor.remaining.IsJoined → (∀ x ∈ s.term.names, Atom.IsClear x.1 x.2) →
        s.term.vars ≠ [] →
        ∀ issued, ∃ u,
          (SingleRead.ofText d issued (.ofBytes (s.term.canonical ++ " .").bytes)).result = .ok u ∧
          s.term.SharedBy (u.vars.map (·.id)))) := by
  obtain ⟨b, hrecords⟩ := records_of_next_sentence h
  refine ⟨hrecords.namesApart_iff, fun hapart => ?_⟩
  have htexts : ∀ v ∈ s.term.vars, ∀ w ∈ s.term.vars, v.text = w.text ↔ v.id = w.id :=
    fun v hv w hw =>
      ⟨hrecords.id_eq_of_text hapart hv hw, hrecords.text_eq_of_id hv hw⟩
  refine ⟨⟨Variable.text, (Term.varNames_project s.term).1, htexts⟩, ?_⟩
  intro hflags hminus hjoined hnames hne issued
  have hproper : s.term.Proper := proper_of_next_sentence hflags hjoined h
  exact hproper.exists_shared hflags hminus hnames hne htexts issued

/-- A sentence that was checked is the next one. -/
theorem exists_next_of_any {d : Dialect} {r : Reader} {p : Sentence → Bool}
    (h : (r.next d).1.sentence?.any p = true) :
    ∃ s after, r.next d = (.sentence s, after) ∧ p s := by
  obtain ⟨s, hs, hp⟩ := (Option.any_eq_true _ _).1 h
  obtain ⟨s', after, hnext⟩ := exists_next_sentence (d := d) (r := r) (by simp [hs])
  rw [hnext] at hs
  cases hs
  exact ⟨s, after, hnext, hp⟩

/-- A reader before a clause with names that look like texts with numbers, but with none that the
sentence gives. -/
def beforeNumberedNames : Reader :=
  .ofCursor (.ofText "p(X, _, [_G3, _|_G]) :- q(_G12, X, _G03), r(_)." ) 7

theorem shared_of_next_beforeNumberedNames :
    ∃ s after, beforeNumberedNames.next .standard = (.sentence s, after) ∧
      s.term.NamesApart ∧
      (∀ v ∈ s.term.vars, ∀ w ∈ s.term.vars, v.id ≠ w.id → v.text ≠ w.text) ∧
      s.term.SharedBy s.term.toJson.varNames ∧
      ∃ u,
        (SingleRead.ofText .standard 0 (.ofBytes (s.term.canonical ++ " .").bytes)).result = .ok u ∧
        s.term.SharedBy (u.vars.map (·.id)) := by
  have hchecked : ((beforeNumberedNames.next .standard).1.sentence?.any fun s =>
      decide (s.term.NamesApart ∧ (∀ x ∈ s.term.names, Atom.IsClear x.1 x.2) ∧ s.term.vars ≠ [])) =
      true := by
    decide +kernel
  obtain ⟨s, after, h, hchecked⟩ := exists_next_of_any hchecked
  obtain ⟨hapart, hnames, hne⟩ := of_decide_eq_true hchecked
  obtain ⟨hiff, hshared⟩ := shared_of_next_sentence h
  obtain ⟨hjson, hreread⟩ := hshared hapart
  have hjoined : beforeNumberedNames.cursor.remaining.IsJoined := by
    rw [beforeNumberedNames, ofCursor, Cursor.remaining_ofText]
    exact Text.isJoined_ofString _
  exact ⟨s, after, h, hapart, hiff.1 hapart, hjson,
    hreread rfl (by decide +kernel) hjoined hnames hne 0⟩

/-- A reader before a sentence that gives the number in the name of its other variable. -/
def beforeClash : Reader :=
  .ofCursor (.ofText "f(_,_G1).") 0

/-- The two variables of the sentence are different, but both are written `_G1`, so they are read
back as one. -/
theorem not_shared_of_next_beforeClash :
    ∃ s after, beforeClash.next .standard = (.sentence s, after) ∧
      (∃ v ∈ s.term.vars, ∃ w ∈ s.term.vars, v.id ≠ w.id ∧ v.text = w.text) ∧
      s.term.toJson.varNames = [("_G1" : Text), ("_G1" : Text)] ∧
      ∃ u,
        (SingleRead.ofText .standard 0 (.ofBytes (s.term.canonical ++ " .").bytes)).result = .ok u ∧
        u.vars.map (·.id) = [1, 1] := by
  have hchecked : ((beforeClash.next .standard).1.sentence?.any fun s : Sentence =>
      decide ((∃ v ∈ s.term.vars, ∃ w ∈ s.term.vars, v.id ≠ w.id ∧ v.text = w.text) ∧
        s.term.toJson.varNames = [("_G1" : Text), ("_G1" : Text)]) &&
      (SingleRead.ofText .standard 0
        (.ofBytes (s.term.canonical ++ (" ." : Text)).bytes)).result.toOption.any fun u =>
        decide (u.vars.map (·.id) = [1, 1])) = true := by
    decide +kernel
  obtain ⟨s, after, h, hchecked⟩ := exists_next_of_any hchecked
  obtain ⟨hvars, hagain⟩ := (Bool.and_eq_true _ _).mp hchecked
  obtain ⟨hdifferent, hjson⟩ := of_decide_eq_true hvars
  obtain ⟨u, hu, hids⟩ := (Option.any_eq_true _ _).1 hagain
  exact ⟨s, after, h, hdifferent, hjson, u, SingleRead.eq_ok_of_toOption hu,
    of_decide_eq_true hids⟩

end Reader

end PrologText
