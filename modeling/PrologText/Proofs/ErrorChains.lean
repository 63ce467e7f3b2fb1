import Mathlib.Data.List.Nodup
import PrologText.Proofs.Numbering

/-!
# Chains of errors

A diagnostic is a chain of links. Some are tagged and carry details, and the others only say where
the cause below them arose. The details of a chain are gathered from the cause outwards, and those
of each tagged link are entered over what is there. Main statement: the JSON object of a chain holds
the tags from the first tagged link inwards, the message of that link, for every other name the
value that the outermost tagged link with this name gives, and nothing else
(`Diagnostic.toJson_merges`). All errors that consulting a program comes to are projected so
(`Dialect.merges_of_mem_errors`).
-/

namespace PrologText

/-! ## Details -/

namespace Details

def names (d : Details) : List String :=
  d.map Prod.fst

/-- Details as a tagged link carries them: they give no name twice, and none is named like the
members that the object of a chain has by itself. -/
structure Proper (d : Details) : Prop where
  distinct : d.names.Nodup
  unreserved : ∀ name ∈ d.names, name ≠ "tags" ∧ name ≠ "message"

variable {d lower upper : Details} {name : String} {value : Json}

@[simp] theorem names_nil : names [] = [] := rfl

@[simp] theorem names_cons (m : String × Json) (d : Details) : names (m :: d) = m.1 :: d.names :=
  rfl

@[simp] theorem proper_nil : Proper [] :=
  ⟨List.nodup_nil, by simp⟩

@[simp] theorem proper_cons {m : String × Json} :
    Proper (m :: d) ↔ m.1 ∉ d.names ∧ (m.1 ≠ "tags" ∧ m.1 ≠ "message") ∧ d.Proper := by
  constructor
  · rintro ⟨hdistinct, hunreserved⟩
    obtain ⟨hm, hd⟩ := List.nodup_cons.1 hdistinct
    obtain ⟨hown, hrest⟩ := List.forall_mem_cons.1 hunreserved
    exact ⟨hm, hown, hd, hrest⟩
  · rintro ⟨hm, hown, hd, hrest⟩
    exact ⟨List.nodup_cons.2 ⟨hm, hd⟩, List.forall_mem_cons.2 ⟨hown, hrest⟩⟩

theorem mem_names_of_mem (h : (name, value) ∈ d) : name ∈ d.names :=
  List.mem_map_of_mem (f := Prod.fst) h

@[simp] theorem get?_nil (name : String) : get? [] name = none := rfl

theorem get?_cons (m : String × Json) (d : Details) (name : String) :
    get? (m :: d) name = if name = m.1 then some m.2 else d.get? name := by
  obtain ⟨first, value⟩ := m
  by_cases h : name = first
  · simp [get?, h]
  · simp [get?, List.lookup_cons, h, beq_eq_false_iff_ne.2 h]

theorem get?_append (d e : Details) (name : String) :
    get? (d ++ e) name = (d.get? name).or (e.get? name) :=
  List.lookup_append

theorem get?_eq_none_iff : d.get? name = none ↔ name ∉ d.names := by
  induction d with
  | nil => simp
  | cons m d ih =>
    rw [get?_cons, names_cons, List.mem_cons, not_or, ← ih]
    by_cases h : name = m.1 <;> simp [h]

theorem get?_eq_some_iff (h : d.names.Nodup) : d.get? name = some value ↔ (name, value) ∈ d := by
  induction d with
  | nil => simp
  | cons m d ih =>
    obtain ⟨hm, hd⟩ := List.nodup_cons.1 h
    rw [get?_cons, List.mem_cons]
    by_cases hname : name = m.1
    · have hnot : (m.1, value) ∉ d := fun hmem => hm (mem_names_of_mem hmem)
      simp [hname, Prod.ext_iff, hnot, eq_comm]
    · simp [hname, Prod.ext_iff, ih hd]

/-! ### Entering details -/

theorem any_eq_true_iff : d.any (·.1 == name) = true ↔ name ∈ d.names := by
  simp [names]

theorem insert_of_mem (h : name ∈ d.names) (value : Json) :
    d.insert name value = d.map fun m => if m.1 == name then (name, value) else m :=
  if_pos (any_eq_true_iff.2 h)

theorem insert_of_not_mem (h : name ∉ d.names) (value : Json) :
    d.insert name value = d ++ [(name, value)] :=
  if_neg (any_eq_true_iff.not.2 h)

theorem names_insert_of_mem (h : name ∈ d.names) (value : Json) :
    (d.insert name value).names = d.names := by
  rw [insert_of_mem h, names, names, List.map_map]
  refine List.map_congr_left fun m _ => ?_
  by_cases hm : m.1 = name <;> simp [hm]

theorem nodup_insert (h : d.names.Nodup) (name : String) (value : Json) :
    (d.insert name value).names.Nodup := by
  by_cases hname : name ∈ d.names
  · rwa [names_insert_of_mem hname]
  · rw [insert_of_not_mem hname, names, List.map_append]
    refine h.append (List.nodup_singleton name) ?_
    exact List.disjoint_singleton.2 hname

/-- Replacing the value of a name leaves the others. -/
theorem get?_map_replace (d : Details) (name : String) (value : Json) (key : String) :
    get? (d.map fun m => if m.1 == name then (name, value) else m) key =
      if key = name then (d.get? key).map fun _ => value else d.get? key := by
  induction d with
  | nil => simp
  | cons m d ih =>
    rw [List.map_cons, get?_cons, get?_cons, ih]
    by_cases hm : m.1 = name
    · by_cases hkey : key = name <;> simp [hm, hkey]
    · by_cases hkey : key = m.1 <;> simp [hm, hkey]

/-- Entering a detail sets the value of its name and leaves the others. -/
theorem get?_insert (d : Details) (name : String) (value : Json) (key : String) :
    (d.insert name value).get? key = if key = name then some value else d.get? key := by
  by_cases h : name ∈ d.names
  · rw [insert_of_mem h, get?_map_replace]
    obtain ⟨old, hold⟩ := Option.ne_none_iff_exists'.1 fun hnone => get?_eq_none_iff.1 hnone h
    by_cases hkey : key = name
    · simp [hkey, hold]
    · simp [hkey]
  · rw [insert_of_not_mem h, get?_append, get?_cons]
    by_cases hkey : key = name
    · simp [hkey, get?_eq_none_iff.2 h]
    · simp [hkey]

theorem override_cons (lower : Details) (m : String × Json) (upper : Details) :
    lower.override (m :: upper) = (lower.insert m.1 m.2).override upper := rfl

/-- After all details have been entered, they count, and for other names what was there. -/
theorem get?_override (h : upper.names.Nodup) (lower : Details) (name : String) :
    (lower.override upper).get? name = (upper.get? name).or (lower.get? name) := by
  induction upper generalizing lower with
  | nil => rfl
  | cons m upper ih =>
    obtain ⟨hm, hupper⟩ := List.nodup_cons.1 h
    rw [override_cons, ih hupper, get?_insert, get?_cons]
    by_cases hname : name = m.1
    · -- The name does not come again, so the value entered first remains.
      have hnone : get? upper name = none := get?_eq_none_iff.2 (hname ▸ hm)
      simp [hname ▸ hnone, hname]
    · simp [hname]

theorem nodup_override (h : lower.names.Nodup) (upper : Details) :
    (lower.override upper).names.Nodup := by
  induction upper generalizing lower with
  | nil => exact h
  | cons m upper ih => exact ih (nodup_insert h m.1 m.2)

end Details

/-! ## Links -/

namespace Diagnostic

/-- The links of a chain, outermost first, each with all that lies below it. -/
def chain : Diagnostic → List Diagnostic
  | plain m => [plain m]
  | within c cause => within c cause :: cause.chain
  | tagged tag details none => [tagged tag details none]
  | tagged tag details (some cause) => tagged tag details (some cause) :: cause.chain

/-- The tag of the outermost link. -/
def tag? : Diagnostic → Option Text
  | tagged tag _ _ => some tag
  | _ => none

/-- The details that the outermost link itself carries. -/
def ownDetails : Diagnostic → Details
  | tagged _ details _ => details
  | _ => []

/-- All links of a chain carry proper details. -/
def Proper (d : Diagnostic) : Prop :=
  ∀ link ∈ d.chain, link.ownDetails.Proper

/-- `value` is what the outermost of some links that has a detail `name` gives for it. -/
def GivenOutermost (links : List Diagnostic) (name : String) (value : Json) : Prop :=
  ∃ outer link inner, links = outer ++ link :: inner ∧ (name, value) ∈ link.ownDetails ∧
    ∀ above ∈ outer, name ∉ above.ownDetails.names

/-- The members of an object that a chain whose outermost link is tagged is merged into. -/
structure Merges (first : Diagnostic) (members : Details) : Prop where
  distinct : members.names.Nodup
  /-- The tags of all tagged links, in order. -/
  tags : ("tags", Json.texts (first.chain.filterMap tag?)) ∈ members
  message : ("message", .text first.message) ∈ members
  /-- For each other name the value that is given outermost, and no members besides. -/
  others : ∀ name value, name ≠ "tags" → name ≠ "message" →
    ((name, value) ∈ members ↔ GivenOutermost first.chain name value)

variable {d first : Diagnostic} {links : List Diagnostic} {name : String} {value : Json}

theorem map_tags (d : Diagnostic) : d.tags.map Prod.fst = d.chain.filterMap tag? := by
  fun_induction chain d <;> simp_all [tags, tag?, List.filterMap_cons]

/-- A chain with a tagged link has a first one, and the links before it are not tagged. -/
theorem exists_firstTagged? (h : ∃ link ∈ d.chain, link.tag? ≠ none) :
    ∃ outer first, d.firstTagged? = some first ∧ d.chain = outer ++ first.chain ∧
      (∀ link ∈ outer, link.tag? = none) ∧ first.tag? ≠ none := by
  fun_induction chain d with
  | case1 => simp [tag?] at h
  | case2 c cause ih =>
    obtain ⟨outer, first, hfirst, hchain, houter, htag⟩ := ih (by simpa [tag?] using h)
    exact ⟨within c cause :: outer, first, hfirst, by rw [hchain, List.cons_append],
      List.forall_mem_cons.2 ⟨rfl, houter⟩, htag⟩
  | case3 tag details => exact ⟨[], _, rfl, rfl, by simp, by simp [tag?]⟩
  | case4 tag details cause => exact ⟨[], _, rfl, rfl, by simp, by simp [tag?]⟩

theorem nodup_details (d : Diagnostic) : d.details.names.Nodup := by
  have hnil : (Details.names []).Nodup := List.nodup_nil
  fun_induction chain d with
  | case1 => exact hnil
  | case2 _ _ ih => exact ih
  | case3 _ details => exact Details.nodup_override hnil details
  | case4 _ details _ ih => exact Details.nodup_override ih details

@[simp] theorem proper_plain (m : Text) : (plain m).Proper := by
  intro link hlink
  cases List.mem_singleton.1 hlink
  exact Details.proper_nil

@[simp] theorem proper_within {c : Text} : (within c d).Proper ↔ d.Proper := by
  rw [Proper, chain, List.forall_mem_cons]
  exact and_iff_right Details.proper_nil

@[simp] theorem proper_tagged {tag : Text} {details : Details} {cause? : Option Diagnostic} :
    (tagged tag details cause?).Proper ↔ details.Proper ∧ ∀ cause ∈ cause?, cause.Proper := by
  cases cause? with
  | none => simp [Proper, chain, ownDetails]
  | some cause => simp [Proper, chain, ownDetails]

/-- Gathering the details from the cause outwards finds the outermost value of each name. -/
theorem get?_details (h : d.Proper) (name : String) :
    d.details.get? name = d.chain.findSome? fun link => link.ownDetails.get? name := by
  fun_induction chain d with
  | case1 => rfl
  | case2 c cause ih => exact ih (proper_within.1 h)
  | case3 tag details =>
    obtain ⟨hown, -⟩ := proper_tagged.1 h
    calc (Details.override [] details).get? name
      _ = details.get? name := by rw [Details.get?_override hown.distinct]; simp
      _ = _ := List.findSome?_singleton.symm
  | case4 tag details cause ih =>
    obtain ⟨hown, hcause⟩ := proper_tagged.1 h
    calc (cause.details.override details).get? name
      _ = (details.get? name).or (cause.details.get? name) := Details.get?_override hown.distinct ..
      _ = (details.get? name).or (cause.chain.findSome? fun link => link.ownDetails.get? name) := by
        rw [ih (hcause cause rfl)]
      _ = _ := by
        rw [List.findSome?_cons, ownDetails]
        cases details.get? name <;> rfl

theorem givenOutermost_iff (h : ∀ link ∈ links, link.ownDetails.Proper) :
    GivenOutermost links name value ↔
      (links.findSome? fun link => link.ownDetails.get? name) = some value := by
  rw [GivenOutermost, List.findSome?_eq_some_iff]
  refine exists_congr fun outer => exists_congr fun link => exists_congr fun inner =>
    and_congr_right fun hlinks => and_congr ?_ ?_
  · have hlink : link ∈ links := hlinks ▸ List.mem_append_right _ (List.mem_cons_self ..)
    exact (Details.get?_eq_some_iff (h link hlink).distinct).symm
  · exact forall₂_congr fun above _ => Details.get?_eq_none_iff.symm

/-! ## The object of a chain -/

theorem Proper.get?_details_eq_none (h : d.Proper) (hname : name = "tags" ∨ name = "message") :
    d.details.get? name = none := by
  rw [get?_details h, List.findSome?_eq_none_iff]
  refine fun link hlink => Details.get?_eq_none_iff.2 fun hmem => ?_
  obtain ⟨htags, hmessage⟩ := (h link hlink).unreserved name hmem
  exact hname.elim htags hmessage

/-- The members of the object of a chain whose outermost link is tagged. -/
def members (d : Diagnostic) : Details :=
  Details.override [("message", .text d.message), ("tags", Json.texts (d.tags.map Prod.fst))]
    d.details

theorem nodup_members (d : Diagnostic) : d.members.names.Nodup :=
  Details.nodup_override (by simp) d.details

theorem mem_members_iff :
    (name, value) ∈ d.members ↔
      (d.details.get? name).or (Details.get?
        [("message", .text d.message), ("tags", Json.texts (d.tags.map Prod.fst))] name) =
      some value := by
  rw [← Details.get?_eq_some_iff d.nodup_members, members, Details.get?_override d.nodup_details]

theorem Proper.merges (h : d.Proper) : d.Merges d.members where
  distinct := d.nodup_members
  tags := by
    rw [mem_members_iff, h.get?_details_eq_none (.inl rfl), map_tags]
    simp [Details.get?_cons]
  message := by
    rw [mem_members_iff, h.get?_details_eq_none (.inr rfl)]
    simp [Details.get?_cons]
  others name value htags hmessage := by
    rw [mem_members_iff, givenOutermost_iff h, get?_details h]
    simp [Details.get?_cons, htags, hmessage]

theorem tags_of_firstTagged? (h : d.firstTagged? = some first) : d.tags = first.tags := by
  fun_induction chain d with
  | case1 => cases h
  | case2 _ _ ih => exact ih h
  | case3 | case4 =>
    cases h
    rfl

/-- What is said before the first tagged link does not show in the object. -/
theorem toJson_of_firstTagged? (h : d.firstTagged? = some first) :
    d.toJson = .object first.members := by
  rw [toJson, h, members, details, details, tags_of_firstTagged? h]

/-- The object of a chain that holds a tagged link is made of the chain from the first such link on:
of all tags in order, of the message of this link, and of the outermost value of each other name. -/
theorem toJson_merges (h : d.Proper) (htagged : ∃ link ∈ d.chain, link.tag? ≠ none) :
    ∃ (outer : List Diagnostic) (first : Diagnostic) (members : Details),
      d.chain = outer ++ first.chain ∧ (∀ link ∈ outer, link.tag? = none) ∧ first.tag? ≠ none ∧
      d.toJson = .object members ∧ first.Merges members := by
  obtain ⟨outer, first, hfirst, hchain, houter, htag⟩ := exists_firstTagged? htagged
  have hproper : first.Proper := fun link hlink =>
    h link (hchain ▸ List.mem_append_right outer hlink)
  exact ⟨outer, first, first.members, hchain, houter, htag, toJson_of_firstTagged? hfirst,
    hproper.merges⟩

/-- Three tagged links and two that are not. The line number and the culprit are given twice. -/
def layeredError : Diagnostic :=
  within "rules.pl" <|
    tagged "DirectiveError" [("line_number", .integer 3), ("directive", "op(a,b,c)")] <| some <|
      within "reader.Next" <|
        tagged "TypeError" [("culprit", "b"), ("type", "integer")] <| some <|
          tagged "DomainError" [("culprit", "c"), ("line_number", .integer 1)] <| some <|
            plain "out of range"

theorem toJson_layeredError_merges :
    layeredError.Proper ∧ (∃ link ∈ layeredError.chain, link.tag? ≠ none) ∧
      ∃ (outer : List Diagnostic) (first : Diagnostic) (members : Details),
        layeredError.chain = outer ++ first.chain ∧ (∀ link ∈ outer, link.tag? = none) ∧
        first.tag? ≠ none ∧ layeredError.toJson = .object members ∧ first.Merges members := by
  have hproper : layeredError.Proper := by simp [layeredError]
  have htagged : ∃ link ∈ layeredError.chain, link.tag? ≠ none := by
    simp [layeredError, chain, tag?]
  exact ⟨hproper, htagged, toJson_merges hproper htagged⟩

example :
    layeredError.toJson =
      .object
        [("message", "DirectiveError: reader.Next: TypeError: DomainError: out of range"),
          ("tags", Json.texts ["DirectiveError", "TypeError", "DomainError"]),
          ("culprit", "b"), ("line_number", .integer 3), ("type", "integer"),
          ("directive", "op(a,b,c)")] := by
  rfl

end Diagnostic

/-! ## The errors of a program -/

theorem OperatorError.proper_diagnostic (e : OperatorError) : e.diagnostic.Proper := by
  cases e <;> simp [diagnostic, forbidden]

theorem FlagError.proper_diagnostic (e : FlagError) : e.diagnostic.Proper := by
  cases e <;> simp [diagnostic]

theorem DirectiveError.proper_diagnostic (e : DirectiveError) : e.diagnostic.Proper := by
  cases e with
  | uninstantiated | unexpectedType => simp [diagnostic]
  | operator e => exact e.proper_diagnostic
  | flag e => exact e.proper_diagnostic

theorem SyntaxError.proper_diagnostic (e : SyntaxError) : e.diagnostic.Proper := by
  obtain ⟨cause, place, consumed⟩ := e
  cases consumed <;> simp [diagnostic]

theorem Failure.proper_diagnostic (f : Failure) : f.diagnostic.Proper := by
  cases f with
  | malformed e => exact e.proper_diagnostic
  | directive s e => simp [diagnostic, DirectiveError.inSentence, e.proper_diagnostic]

theorem Failure.firstTagged?_diagnostic (f : Failure) :
    f.diagnostic.firstTagged? = some f.diagnostic := by
  cases f <;> rfl

/-- The object of an error that consulting a program comes to holds the whole chain: no detail takes
the place of the tags or of the message. -/
theorem Dialect.merges_of_mem_errors {d : Dialect} {issued : Nat} {c : Cursor} {x : Consultation}
    (h : (d.consult issued c).result = .ok x) {e : Diagnostic} (he : e ∈ x.errors) :
    e.toJson = .object e.members ∧ e.Merges e.members := by
  obtain ⟨dialect, count, result, hconsult⟩ := d.exists_consult_raised c
  rw [hconsult] at h
  cases result with
  | error => cases h
  | ok program =>
    cases h
    obtain ⟨f, -, rfl⟩ := List.mem_map.1 he
    exact ⟨Diagnostic.toJson_of_firstTagged? f.firstTagged?_diagnostic, f.proper_diagnostic.merges⟩

end PrologText
