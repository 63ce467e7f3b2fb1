import PrologText.Document.Yaml.Mark

/-!
# Structure

The values that marks stand for. The columns of the marks tell which of them belong together: keys
of one mapping and dashes of one list stand in one column, and a value that stands to the left of
its key is missing. A text can have several values one after the other.
-/

namespace PrologText

/-- A value made from marks. -/
structure YamlNode where
  value : YamlValue
  column : Int
  /-- Whether it is a scalar that is text. -/
  isText : Bool

/-- A pair of a mapping; without a key, the value is merged into the mapping. -/
structure YamlPair where
  key? : Option Text
  value : YamlValue

namespace YamlPair

/-- The members that a pair adds to its mapping. -/
def members (p : YamlPair) : List (Text × YamlValue) :=
  match p.key?, p.value with
  | some key, x => [(key, x)]
  | none, .map members => members
  | none, _ => []

/-- The mapping of some pairs. -/
def mapping (ps : List YamlPair) : YamlValue :=
  .map (ps.flatMap members)

end YamlPair

namespace YamlNode

open YamlMark (Placed)

/-- The scalar that a mark is. -/
def scalar? (m : Placed) : Option YamlNode :=
  match m.mark with
  | .plain t _ => some ⟨YamlScalar.value t, m.column, YamlScalar.isText t⟩
  | .quoted t => some ⟨.text t, m.column, true⟩
  | _ => none

/-- The key that a mark is, which is none for a merge. Text that goes on over lines is no key. -/
def key? (m : Placed) : Option (Option Text) :=
  match m.mark with
  | .plain t broken => if broken && YamlScalar.isText t then none else some (some t)
  | .quoted t => some (some t)
  | .mergeKey => some none
  | _ => none

/-- Whether the value after a key in `column` is missing, `m` being the next mark: it stands to the
left, or it is text without quotes in the same column. -/
def isMissing (column : Int) (m : Placed) : Bool :=
  let closes : Bool := [.closeMap, .closeList, .comma].contains m.mark
  let isPlainText : Bool :=
    match m.mark with
    | .plain t _ => YamlScalar.isText t
    | _ => false
  closes || m.column < column || m.column = column && isPlainText

/-- Whether the value of a key in `column` can be followed by some marks. Text below its key would
be taken for another key. -/
def isComplete (column : Int) (n : YamlNode) (ms : List Placed) : Bool :=
  !(n.isText && n.column = column)
    || ms.head?.any fun m => m.mark = .colon || m.mark = .entry

mutual

/-- The value at the start of marks and the marks after it; the inner option is `none` for a mark
that starts no value, which is passed over. As many steps as there are marks, four times over, are
enough. -/
def read? : Nat → List Placed → Option (Option YamlNode × List Placed)
  | 0, _ => none
  | _, [] => some (none, [])
  | steps + 1, m :: ms =>
    let other (x : YamlValue) (ms : List Placed) : Option (Option YamlNode × List Placed) :=
      some (some ⟨x, m.column, false⟩, ms)
    if m.beforeColon then
      match pairs? steps [] (m :: ms) with
      | some (ps, ms) => other (YamlPair.mapping ps) ms
      | none => none
    else
      match scalar? m with
      | some n => some (some n, ms)
      | none =>
        match m.mark with
        | .openMap =>
          match flowMap? steps [] ms with
          | some (ps, ms) => other (YamlPair.mapping ps) ms
          | none => none
        | .openList =>
          match flowList? steps [] ms with
          | some (xs, ms) => other (.list xs) ms
          | none => none
        | .entry =>
          match blockList? steps m.column [] ms with
          | some (xs, ms) => other (.list xs) ms
          | none => none
        | .reference =>
          match read? steps ms with
          | some (some _, ms) => other .null ms
          | _ => none
        | .tag =>
          match read? steps ms with
          | some (_, ms) => other .null ms
          | none => none
        | .directive =>
          match read? steps ms with
          | some (_, ⟨.documentStart, _, _⟩ :: ms) => other .null ms
          | _ => none
        | .documentStart =>
          match read? steps ms with
          | some (_, ⟨.documentEnd, _, _⟩ :: ms) => other .null ms
          | some (_, ms) => other .null ms
          | none => none
        | _ => some (none, ms)

/-- The pairs at the start of marks whose keys stand in one column, `seen` being those before in
reverse. -/
def pairs? (steps : Nat) (seen : List YamlPair) (ms : List Placed) :
    Option (List YamlPair × List Placed) :=
  match steps, ms with
  | steps + 1, m :: _ :: ms =>
    match key? m, pairValue? steps m.column ms with
    | some key, some (x, ms) =>
      let seen := ⟨key, x⟩ :: seen
      match ms with
      | next :: ⟨.colon, c, b⟩ :: rest =>
        if next.column = m.column then
          if next.beforeColon then pairs? steps seen (next :: ⟨.colon, c, b⟩ :: rest) else none
        else some (seen.reverse, ms)
      | _ => some (seen.reverse, ms)
    | _, _ => none
  | _, _ => none

/-- The value of a key in `column`, null if it is missing. -/
def pairValue? (steps : Nat) (column : Int) (ms : List Placed) : Option (YamlValue × List Placed) :=
  match steps, ms with
  | 0, _ => none
  | _, [] => some (.null, [])
  | steps + 1, m :: rest =>
    if isMissing column m then some (.null, ms)
    else
      match read? steps (m :: rest) with
      | some (some n, ms) => if isComplete column n ms then some (n.value, ms) else none
      | some (none, ms) => some (.null, ms)
      | none => none

/-- The pairs of a mapping in flow form up to its end, one at a time. -/
def flowMap? (steps : Nat) (seen : List YamlPair) (ms : List Placed) :
    Option (List YamlPair × List Placed) :=
  match steps, ms with
  | steps + 1, m :: rest =>
    if m.mark = .closeMap then some (seen.reverse, rest)
    else if m.mark = .comma then flowMap? steps seen rest
    else
      match pairs? steps [] (m :: rest) with
      | some ([p], ms) => flowMap? steps (p :: seen) ms
      | _ => none
  | _, _ => none

/-- The items of a list in flow form up to its end or that of the text. -/
def flowList? (steps : Nat) (seen : List YamlValue) (ms : List Placed) :
    Option (List YamlValue × List Placed) :=
  match steps, ms with
  | 0, _ => none
  | _, [] => some (seen.reverse, [])
  | steps + 1, m :: rest =>
    if m.mark = .closeList then some (seen.reverse, rest)
    else if m.mark = .comma then flowList? steps seen rest
    else
      match read? steps (m :: rest) with
      | some (n, ms) => flowList? steps (((n.map (·.value)).getD .null) :: seen) ms
      | none => none

/-- The items of a list whose dashes stand in `column`, for the marks after a dash. -/
def blockList? (steps : Nat) (column : Int) (seen : List YamlValue) (ms : List Placed) :
    Option (List YamlValue × List Placed) :=
  match steps, ms with
  | steps + 1, m :: rest =>
    match read? steps (m :: rest) with
    | none => none
    | some (n, ms) =>
      let seen := ((n.map (·.value)).getD .null) :: seen
      match ms with
      | next :: rest =>
        if next.mark = .entry ∧ next.column = column then blockList? steps column seen rest
        else some (seen.reverse, ms)
      | [] => some (seen.reverse, [])
  | _, _ => none

end

/-- The values that marks stand for one after the other, `seen` being those before in reverse. -/
def readAll? : Nat → List YamlValue → List Placed → Option (List YamlValue)
  | _, seen, [] => some seen.reverse
  | 0, _, _ => none
  | steps + 1, seen, m :: ms =>
    let start := if m.mark = .documentStart ∧ !m.beforeColon then ms else m :: ms
    match read? (4 * start.length + 4) start with
    | none => none
    | some (n, rest) =>
      let rest := if start.length = ms.length ∧ isEnd rest then rest.drop 1 else rest
      readAll? steps (((n.map (·.value)).getD .null) :: seen) rest
where
  /-- Whether the next mark ends a document. -/
  isEnd (ms : List Placed) : Bool :=
    ms.head?.any fun m => m.mark = .documentEnd

/-- The values of marks. -/
def all? (ms : List Placed) : Option (List YamlValue) :=
  readAll? (ms.length + 1) [] ms

end YamlNode

end PrologText
