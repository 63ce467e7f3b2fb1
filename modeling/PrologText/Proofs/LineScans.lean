import PrologText.Proofs.ByteQuotes
import PrologText.Proofs.Endings
import PrologText.Proofs.LineLookups

/-!
# Scanning a buffer of lines

Tokens are read in a buffer that asks for its lines, from the bytes it holds, and where that fails
the buffer goes back to the start of the token. Look-ups, slices and going back can all go wrong
here. Main statement: none of them does, and what is read is what a cursor reads that has all of the
lines (`LineBuffer.Tracks.scanFrom?`). A token or a fault comes with the point where it starts, and
until lines are given up the buffer tells the place of that point (`LineScan.Matches.places`).
-/

namespace PrologText

/-- A place without the text of its line. -/
def Place.unlined (p : Place) : Place :=
  { p with text := [] }

/-- The outcome of reading one token in a buffer. -/
inductive LineScan where
  /-- A token that starts at a point. Its place is without the text of the line. -/
  | token (t : Token) (begins : Mark) (after : LineBuffer)
  | fault (e : SyntaxError) (start : LineBuffer) (exhausted : Bool)

namespace LineScan

/-- A token between a point and that of the buffer. -/
def found (kind : TokenKind) (text : List UInt8) (layout functional : Bool) (begins : Mark)
    (b : LineBuffer) : LineScan :=
  let (line, column) := b.position begins
  .token ⟨kind, .ofBytes text, layout, functional, ⟨line, column, []⟩⟩ begins b

/-- A fault of the token that starts at a point, to which the buffer goes back. -/
def faultAt? (cause : SyntaxCause) (begins : Mark) (exhausted : Bool) (b : LineBuffer) :
    Option LineScan := do
  let consumed ← b.text? begins
  let start ← b.seek begins
  let (line, column) := start.position begins
  some (.fault ⟨cause, ⟨line, column, .ofBytes (start.lineText begins)⟩, some (.ofBytes consumed)⟩
    start exhausted)

/-- The token of a name, with what follows it looked at. -/
def name? (kind : TokenKind) (text : List UInt8) (layout : Bool) (begins : Mark)
    (b : LineBuffer) : Option LineScan := do
  let (d, next) ← b.peek?
  some (found kind text layout (next = some '(') begins d)

/-- The token of a single full stop. -/
def dot? (layout : Bool) (begins : Mark) (b : LineBuffer) : Option LineScan := do
  let (d, next) ← b.peek?
  if next.all fun c => CharClass.isBlank c || c = '%' then
    some (found .stop [asciiByte '.'] layout false begins d)
  else some (found .atom [asciiByte '.'] layout (next = some '(') begins d)

/-- The token of quoted text that is complete. -/
def closed? (f : QuotedForm) (text : List UInt8) (layout : Bool) (begins : Mark)
    (b : LineBuffer) : Option LineScan :=
  if Scan.quotedKind f = .quotedAtom then name? .quotedAtom text layout begins b
  else some (found (Scan.quotedKind f) text layout false begins b)

/-- Reads quoted text from inside it; `text` is what it stands for up to here. -/
def quotedFrom? (f : QuotedForm) (layout : Bool) (begins : Mark) (text : List UInt8)
    (b : LineBuffer) : Option LineScan := do
  let (d, more) ← b.fill?
  if more then
    let rest ← d.rest?
    match ← Bytes.quoted? f rest with
    | .faulty cause => faultAt? cause begins false d
    | .closed piece n => closed? f (text ++ piece) layout begins (d.advance n)
    | .more piece n =>
      if (d.advance n).left < b.left then
        quotedFrom? f layout begins (text ++ piece) (d.advance n)
      else none
  else
    faultAt? (if f.single then .unterminatedCharCode else .unterminatedQuotedText) begins true d
termination_by b.left

/-- Reads a block comment from inside it: its text and the buffer behind it, or the fault that it
does not end. -/
def blockFrom? (begins : Mark) (text : List UInt8) (b : LineBuffer) :
    Option (Except LineScan (List UInt8 × LineBuffer)) := do
  let (d, more) ← b.fill?
  if more then
    let rest ← d.rest?
    match Bytes.commentEndFrom 0 rest with
    | some n =>
      let piece ← Bytes.slice? rest 0 n
      some (.ok (text ++ piece, d.advance n))
    | none =>
      if (d.advance rest.length).left < b.left then
        blockFrom? begins (text ++ rest) (d.advance rest.length)
      else none
  else (faultAt? .unterminatedComment begins true d).map .error
termination_by b.left

/-- The token that the rest of the line starts with. -/
def lexeme? (flags : Flags) (layout : Bool) (rest : List UInt8) (b : LineBuffer) :
    Option LineScan := do
  match ← Bytes.lexeme? rest with
  | .plain kind lead length =>
    let text ← Bytes.slice? rest lead length
    some (found kind text layout false b.mark (b.advance length))
  | .name length =>
    let text ← Bytes.slice? rest 0 length
    name? .atom text layout b.mark (b.advance length)
  | .dot => dot? layout b.mark (b.advance 1)
  | .quotedText q => quotedFrom? ⟨q, false, flags.charEscapes⟩ layout b.mark [] (b.advance 1)
  | .charCode => quotedFrom? ⟨'\'', true, flags.charEscapes⟩ layout b.mark [] (b.advance 2)
  | .unknown c => faultAt? (.illegalCharacter c) b.mark false b

end LineScan

namespace LineBuffer

/-- Reads the next token in a buffer. `layout` tells that white space or a comment has been passed
over already. -/
def scanFrom? (flags : Flags) (layout : Bool) (b : LineBuffer) : Option LineScan := do
  let (d, more) ← b.fill?
  if more then
    let rest ← d.rest?
    let blanks := Bytes.run CharClass.isBlank rest
    if 0 < blanks then
      if (d.advance blanks).left < b.left then scanFrom? flags true (d.advance blanks) else none
    else if (Bytes.rune rest).1 = '%' then
      let after := d.advance rest.length
      if flags.keepComments then
        some (.found .comment (Bytes.trimLineEnd rest) layout false d.mark after)
      else if after.left < b.left then scanFrom? flags true after
      else none
    else if Bytes.startsWith rest ['/', '*'] then
      match ← LineScan.blockFrom? d.mark [asciiByte '/', asciiByte '*'] (d.advance 2) with
      | .error fault => some fault
      | .ok (text, after) =>
        if flags.keepComments then some (.found .comment text layout false d.mark after)
        else if after.left < b.left then scanFrom? flags true after
        else none
    else LineScan.lexeme? flags layout rest d
  else some (.found .endOfFile [] layout false d.mark d)
termination_by b.left

/-- Reads the next token in a buffer. -/
def scan? (flags : Flags) (b : LineBuffer) : Option LineScan :=
  b.scanFrom? flags false

end LineBuffer

/-! ## Scans that match -/

/-- A scan of a buffer gives what a scan of a cursor gives. The buffer has given up no line since it
was `b`, and it holds the point where the token starts. -/
inductive LineScan.Matches (lines : List (List UInt8)) (b : LineBuffer) :
    LineScan → Scan → Prop where
  | token {t : Token} {start after : Cursor} {d : LineBuffer} (hstart : start.In lines)
      (hplace : t.place = start.place) (hhas : d.Has start.mark) (htracks : d.Tracks lines after)
      (hasked : d.held = [] → d.pending = []) (hgrows : b.Grows d) :
      Matches lines b (.token (t.shifted .unlined) start.mark d) (.token t after)
  | fault {e : SyntaxError} {start : Cursor} {d : LineBuffer} {exhausted : Bool}
      (hplace : e.place = start.place) (hstands : d.Stands lines start) (hgrows : b.Grows d) :
      Matches lines b (.fault e d exhausted) (.fault e start exhausted)

theorem LineScan.Matches.grows {lines : List (List UInt8)} {b b' : LineBuffer} {s : LineScan}
    {r : Scan} (h : s.Matches lines b' r) (hg : b.Grows b') : s.Matches lines b r := by
  cases h with
  | token hstart hplace hhas htracks hasked hgrows =>
    exact .token hstart hplace hhas htracks hasked (hg.trans hgrows)
  | fault hplace hstands hgrows => exact .fault hplace hstands (hg.trans hgrows)

/-- What remains at a cursor in the lines of a text goes together as the text does. -/
theorem Cursor.In.isJoined_remaining {lines : List (List UInt8)} {c : Cursor} (h : c.In lines)
    (hj : Text.IsJoined (lines.map Text.ofBytes).flatten) : Text.IsJoined c.remaining := by
  have hsplit : (lines.map Text.ofBytes).flatten =
      ((lines.take c.number).map Text.ofBytes).flatten ++ (c.whole ++ c.later.flatten) := by
    rw [h.whole, h.later, ← List.take_append_drop c.number (lines.map Text.ofBytes),
      List.flatten_append, List.map_take, ← List.map_drop]
    congr 1
    cases hd : lines.drop c.number with
    | nil =>
      have hle := List.drop_eq_nil_iff.1 hd
      simp [List.getD_eq_getElem?_getD, List.getElem?_eq_none hle,
        List.drop_eq_nil_of_le (Nat.le_succ_of_le hle), Text.ofBytes_nil]
    | cons line later =>
      have hline : lines[c.number]? = some line := by rw [← List.head?_drop, hd]; rfl
      rw [List.getD_eq_getElem?_getD, hline, ← List.drop_drop, hd]
      rfl
  rw [hsplit, ← c.take_column_append_rest, List.append_assoc] at hj
  exact hj.of_append_right.of_append_right

namespace Scan

/-- What comes of quoted text that starts at `start`, as it ends. -/
def ofQuotedEnd (f : QuotedForm) (layout : Bool) (start : Cursor) : QuotedEnd → Scan
  | .unclosed stopped =>
    unended (if f.single then .unterminatedCharCode else .unterminatedQuotedText) start stopped
  | .faulty cause stopped => faultAt cause start stopped false
  | .closed text after =>
    if quotedKind f = .quotedAtom then name (quotedKind f) text.rejoin layout start after
    else .token ⟨quotedKind f, text.rejoin, layout, false, start.place⟩ after

theorem quoted_eq (f : QuotedForm) (layout : Bool) (start inside : Cursor) :
    quoted f layout start inside = ofQuotedEnd f layout start (scanQuoted f [] inside) := by
  unfold quoted
  cases scanQuoted f [] inside <;> rfl

theorem unended_eq {stopped : Cursor} (h : stopped.ending = .endOfInput) (cause : SyntaxCause)
    (start : Cursor) : unended cause start stopped = faultAt cause start stopped true := by
  rw [unended, h]

end Scan

namespace LineBuffer

variable {lines : List (List UInt8)} {b d : LineBuffer} {start c : Cursor}

theorem Tracks.of_fill (h : d.Tracks lines c.fill) (hc : c.In lines) : d.Tracks lines c := by
  have hfilled := h.filled
  rw [← h.inside.mark_fill, c.fill_fill, hc.mark_fill] at hfilled
  exact ⟨h.of, hc, hfilled⟩

theorem Tracks.left_le {b' : LineBuffer} {c' : Cursor} (h : b.Tracks lines c)
    (h' : b'.Tracks lines c') (hc : c.Leads c') : b'.left ≤ b.left := by
  rw [h.left_eq, h'.left_eq, hc.remaining_eq, Text.bytes_append, List.length_append]
  exact Nat.le_add_left _ _

/-- Moving over something leaves less to be read. -/
theorem Tracks.left_advance_lt (h : b.Tracks lines c) (hd : d.Stands lines c.fill) {k : Nat}
    (hpos : 0 < k) (hk : k ≤ c.fill.rest.length) :
    (d.advance (c.fill.rest.width k)).left < b.left := by
  have hne : c.fill.rest.take k ≠ [] := by
    rw [Ne, List.take_eq_nil_iff]
    rintro (rfl | hnil)
    · omega
    · rw [hnil, List.length_nil] at hk
      omega
  have hsplit := congrArg Text.bytes (Cursor.leads_advance hk).remaining_eq
  rw [c.remaining_fill, Cursor.upTo_advance, Text.bytes_append] at hsplit
  rw [(hd.advance hk).tracks.left_eq, h.left_eq, hsplit, List.length_append]
  have : 0 < (Text.bytes (c.fill.rest.take k)).length :=
    List.length_pos_iff.2 (mt Text.bytes_eq_nil_iff.1 hne)
  omega

/-- A token was begun at `start`; by now the buffer `b` has become `d`, and the cursor is `c`. -/
structure Amid (lines : List (List UInt8)) (b : LineBuffer) (start : Cursor) (d : LineBuffer)
    (c : Cursor) : Prop where
  inside : start.In lines
  leads : start.Leads c
  has : d.Has start.mark
  tracks : d.Tracks lines c
  asked : d.held = [] → d.pending = []
  grows : b.Grows d

/-- Where a token begins. -/
theorem Stands.amid (h : d.Stands lines start) (hg : b.Grows d) :
    Amid lines b start d start :=
  ⟨h.inside, .refl start, h.has, h.tracks, h.asked, hg⟩

theorem opens_iff (t : Text) :
    t.head?.map Glyph.code = some '(' ↔ t.head? = some (.char '(') := by
  cases t with
  | nil => simp
  | cons g t => simpa using Text.code_eq_ascii_iff (by decide)

namespace Amid

theorem fill? (h : Amid lines b start d c) :
    ∃ d', d.fill? = some (d', decide (c.fill.rest ≠ [])) ∧ d'.Stands lines c.fill ∧
      Amid lines b start d' c.fill := by
  obtain ⟨d', hfill, hstands, hgrows⟩ := h.tracks.fill?
  exact ⟨d', hfill, hstands, h.inside, h.leads.trans c.leads_fill, h.has.grows hgrows,
    hstands.tracks, hstands.asked, h.grows.trans hgrows⟩

theorem advance (h : Amid lines b start d c) (hd : d.Stands lines c) {k : Nat}
    (hk : k ≤ c.rest.length) : Amid lines b start (d.advance (c.rest.width k)) (c.advance k) :=
  ⟨h.inside, h.leads.trans (Cursor.leads_advance hk), h.has, (hd.advance hk).tracks, h.asked,
    h.grows⟩

theorem peek? (h : Amid lines b start d c) :
    ∃ d', d.peek? = some (d', c.fill.rest.head?.map Glyph.code) ∧
      Amid lines b start d' c := by
  obtain ⟨d', hfill, hstands, hamid⟩ := h.fill?
  refine ⟨d', ?_, h.inside, h.leads, hamid.has, hamid.tracks.of_fill h.tracks.inside, hamid.asked,
    hamid.grows⟩
  cases hr : c.fill.rest with
  | nil => simp [LineBuffer.peek?, hfill, hr]
  | cons g t =>
    have hjoined := hstands.inside.isJoined_rest
    rw [hr] at hjoined
    simp [LineBuffer.peek?, hfill, hstands.rest?_eq, hr, -Text.bytes_cons, Bytes.rune_bytes hjoined]

/-- A token that is complete. -/
theorem found (h : Amid lines b start d c) {kind : TokenKind} {text : List UInt8} {u : Text}
    (htext : .ofBytes text = u) (layout functional : Bool) :
    (LineScan.found kind text layout functional start.mark d).Matches lines b
      (.token ⟨kind, u, layout, functional, start.place⟩ c) := by
  have hposition := h.tracks.of.position_mark h.inside h.has
  rw [LineScan.found, hposition, htext]
  exact .token (t := ⟨kind, u, layout, functional, start.place⟩) h.inside rfl h.has h.tracks h.asked
    h.grows

/-- What has been read of the token. -/
theorem ofBytes_text (h : Amid lines b start d c)
    (hj : Text.IsJoined (lines.map Text.ofBytes).flatten) :
    .ofBytes (d.text start.mark) = start.upTo c := by
  have hjoined := h.inside.isJoined_remaining hj
  rw [h.leads.remaining_eq] at hjoined
  rw [h.tracks.of.text_eq h.has,
    Mark.between_eq h.inside.inLine_mark (h.tracks.of.inLine h.tracks.of.mark), h.tracks.offset_eq,
    ← h.inside.bytes_upTo h.leads]
  exact hjoined.of_append_left

/-- A token that cannot be read: the point where it starts has not been given up. -/
theorem faultAt? (h : Amid lines b start d c) (hj : Text.IsJoined (lines.map Text.ofBytes).flatten)
    (cause : SyntaxCause) (exhausted : Bool) :
    ∃ s, LineScan.faultAt? cause start.mark exhausted d = some s ∧
      s.Matches lines b (.faultAt cause start c exhausted) := by
  have hstands : (d.moved start.mark).Stands lines start :=
    ⟨h.tracks.of.moved h.has, h.inside, rfl, h.asked⟩
  have hposition := hstands.of.position_mark h.inside h.has
  have hline := hstands.of.lineText_mark h.inside h.has h.asked
  refine ⟨.fault ⟨cause, start.place, some (start.upTo c)⟩ (d.moved start.mark) exhausted, ?_,
    .fault rfl hstands h.grows⟩
  rw [LineScan.faultAt?, h.tracks.of.text?_eq h.has, seek_of_has h.has]
  simp only [Option.bind_eq_bind, Option.bind_some, hposition, hline, h.ofBytes_text hj]

theorem name? (h : Amid lines b start d c) {text : List UInt8} {u : Text}
    (htext : .ofBytes text = u) (kind : TokenKind) (layout : Bool) :
    ∃ s, LineScan.name? kind text layout start.mark d = some s ∧
      s.Matches lines b (.name kind u layout start c) := by
  obtain ⟨d', hpeek, hamid⟩ := h.peek?
  have hparen := opens_iff c.fill.rest
  refine ⟨_, by rw [LineScan.name?, hpeek]; rfl, ?_⟩
  simp only [Scan.name, h.tracks.inside.peek_eq, hparen]
  exact hamid.found htext layout _

theorem dot? (h : Amid lines b start d c) (layout : Bool) :
    ∃ s, LineScan.dot? layout start.mark d = some s ∧
      s.Matches lines b (.dot layout start c) := by
  obtain ⟨d', hpeek, hamid⟩ := h.peek?
  have htext : Text.ofBytes [asciiByte '.'] = "." := by decide +kernel
  have hends : ((c.fill.rest.head?.map Glyph.code).all fun x => CharClass.isBlank x || x = '%') =
      Lexeme.endsSentence c.fill.rest.head?.toList := by
    cases c.fill.rest with
    | nil => rfl
    | cons g t =>
      have hpercent : g.code = '%' ↔ g = .char '%' := Text.code_eq_ascii_iff (by decide)
      simp [Lexeme.endsSentence, hpercent]
  have hparen := opens_iff c.fill.rest
  rw [LineScan.dot?, hpeek]
  simp only [Scan.dot, h.tracks.inside.peek_eq, Option.bind_eq_bind, Option.bind_some, hends,
    hparen]
  split
  · exact ⟨_, rfl, hamid.found htext layout false⟩
  · exact ⟨_, rfl, hamid.found htext layout _⟩

theorem closed? (h : Amid lines b start d c) {f : QuotedForm} {text : List UInt8} {whole : Text}
    (htext : Text.bytes whole = text) (layout : Bool) :
    ∃ s, LineScan.closed? f text layout start.mark d = some s ∧
      s.Matches lines b (.ofQuotedEnd f layout start (.closed whole c)) := by
  have hrejoin : Text.ofBytes text = whole.rejoin := by rw [← htext, Text.rejoin]
  simp only [LineScan.closed?, Scan.ofQuotedEnd]
  split
  · next hkind =>
    rw [hkind]
    exact h.name? hrejoin .quotedAtom layout
  · exact ⟨_, rfl, h.found hrejoin layout false⟩

/-- Quoted text, piece by piece. -/
theorem quotedFrom? (h : Amid lines b start d c)
    (hj : Text.IsJoined (lines.map Text.ofBytes).flatten) {f : QuotedForm}
    (hq : f.quote.toNat < 0x80) (hslash : f.quote ≠ '\\') {seen : Text} {text : List UInt8}
    (htext : Text.bytes seen.reverse = text) (layout : Bool) :
    ∃ s, LineScan.quotedFrom? f layout start.mark text d = some s ∧
      s.Matches lines b (.ofQuotedEnd f layout start (scanQuoted f seen c)) := by
  induction hn : d.left using Nat.strongRecOn generalizing d c seen text with
  | _ n ih =>
    subst hn
    obtain ⟨d', hfill, hstands, hamid⟩ := h.fill?
    have hrest := hstands.rest?_eq
    have hjoined := hstands.inside.isJoined_rest
    rw [LineScan.quotedFrom?, hfill]
    cases hr : c.fill.rest with
    | nil =>
      have hunclosed : scanQuoted f seen c = .unclosed c.fill := by
        rw [scanQuoted_eq, hr]
        rfl
      rw [hunclosed, Scan.ofQuotedEnd, Scan.unended_eq hstands.inside.ending]
      exact hamid.faultAt? hj _ true
    | cons g t =>
      rw [hr] at hrest hjoined
      obtain ⟨piece, hpiece, hagrees⟩ := Bytes.quoted?_bytes hq hslash hjoined
      simp only [Option.bind_eq_bind, Option.bind_some, ne_eq, reduceCtorEq, not_false_eq_true,
        decide_true, if_true, hrest, hpiece]
      cases piece with
      | faulty cause =>
        rw [hagrees seen c hr]
        exact hamid.faultAt? hj cause false
      | closed piece n =>
        obtain ⟨k, hk, rfl, hscan⟩ := hagrees
        obtain ⟨whole, hscan, hwhole⟩ := hscan seen c hr
        rw [hscan, ← hr]
        rw [← hr] at hk
        exact (hamid.advance hstands hk).closed? (by rw [hwhole, htext]) layout
      | more piece n =>
        obtain ⟨k, hk, hpos, rfl, hscan⟩ := hagrees
        obtain ⟨seen', hscan, hseen⟩ := hscan seen c hr
        rw [hscan, ← hr]
        rw [← hr] at hk
        dsimp only
        rw [if_pos (h.tracks.left_advance_lt hstands hpos hk)]
        exact ih _ (h.tracks.left_advance_lt hstands hpos hk) (hamid.advance hstands hk)
          (by rw [hseen, htext]) rfl

theorem quoted? (h : Amid lines b start d c) (hj : Text.IsJoined (lines.map Text.ofBytes).flatten)
    {q : Char} (hq : q ∈ ['\'', '"', '\x60']) (single escapes layout : Bool) :
    ∃ s, LineScan.quotedFrom? ⟨q, single, escapes⟩ layout start.mark [] d = some s ∧
      s.Matches lines b (.quoted ⟨q, single, escapes⟩ layout start c) := by
  have hspec : q.toNat < 0x80 ∧ q ≠ '\\' := by
    simp only [List.mem_cons, List.not_mem_nil, or_false] at hq
    rcases hq with rfl | rfl | rfl <;> decide
  rw [Scan.quoted_eq]
  exact h.quotedFrom? (f := ⟨q, single, escapes⟩) hj hspec.1 hspec.2
    (show Text.bytes [].reverse = [] from rfl) layout

end Amid

/-! ## Block comments -/

/-- How a block comment ends in a buffer, as it does for a cursor. Its text and what is behind it
make up `whole`. -/
inductive EndsBlock (lines : List (List UInt8)) (b : LineBuffer) (start : Cursor)
    (whole : List UInt8) : Except LineScan (List UInt8 × LineBuffer) → Option Cursor → Prop where
  | unended {s : LineScan}
      (hs : s.Matches lines b (.unended .unterminatedComment start start.toEnd)) :
      EndsBlock lines b start whole (.error s) none
  | ended {text : List UInt8} {d : LineBuffer} {after : Cursor}
      (hamid : Amid lines b start d after)
      (htext : text ++ Text.bytes after.remaining = whole) :
      EndsBlock lines b start whole (.ok (text, d)) (some after)

/-- A line without the end of a comment is passed over. -/
theorem afterComment?_toLineEnd (hc : commentLengthFrom 0 c.rest = none) (later : List Text) :
    afterComment? c later = afterComment? c.toLineEnd later := by
  have hend : commentLengthFrom 0 c.toLineEnd.rest = none := by
    simp [Cursor.toLineEnd, Cursor.advance, commentLengthFrom]
  cases later with
  | nil => rw [afterComment?, afterComment?, hc, hend]; rfl
  | cons line later => rw [afterComment?, afterComment?, hc, hend]; rfl

theorem afterComment?_of_length {n : Nat} (hc : commentLengthFrom 0 c.rest = some n)
    (later : List Text) : afterComment? c later = some (c.advance n) := by
  cases later with
  | nil => rw [afterComment?, hc]; rfl
  | cons line later => rw [afterComment?, hc]

theorem fill_of_rest_nil {line : Text} {later : List Text} (hr : c.rest = [])
    (hl : c.later = line :: later) :
    c.fill = (Cursor.atLine (c.number + 1) line later c.ending).fill := by
  rw [Cursor.fill, if_pos (by simp [hr]), hl]
  rfl

namespace Amid

/-- At the end of a line the cursor can just as well stand at the start of the next one. -/
theorem atLine (h : Amid lines b start d c) {line : Text} {later : List Text} (hr : c.rest = [])
    (hl : c.later = line :: later) :
    Amid lines b start d (.atLine (c.number + 1) line later c.ending) := by
  have hleads := Cursor.leads_atLine hl
  have hin := h.tracks.inside.of_leads hleads
  refine ⟨h.inside, h.leads.trans hleads, h.has, ⟨h.tracks.of, hin, ?_⟩, h.asked, h.grows⟩
  rw [h.tracks.filled, ← h.tracks.inside.mark_fill, fill_of_rest_nil hr hl, hin.mark_fill]

/-- Reading a block comment on from a cursor ends as it does in the buffer. -/
def ReadsBlock (lines : List (List UInt8)) (b : LineBuffer) (start : Cursor) (d : LineBuffer)
    (c : Cursor) (text : List UInt8) : Prop :=
  ∃ r, LineScan.blockFrom? start.mark text d = some r ∧
    EndsBlock lines b start (text ++ Text.bytes c.remaining) r (afterComment? c c.later)

variable {text : List UInt8}

/-- A block comment that does not end. -/
theorem readsBlock_last (h : Amid lines b start d c)
    (hj : Text.IsJoined (lines.map Text.ofBytes).flatten) (hr : c.rest = []) (hl : c.later = []) :
    ReadsBlock lines b start d c text := by
  have hremaining : c.remaining = [] := by rw [Cursor.remaining, hr, hl]; rfl
  have hnil := Cursor.fill_rest_of_remaining_nil hremaining
  obtain ⟨d', hfill, -, hamid⟩ := h.fill?
  obtain ⟨s, hs, hmatches⟩ := hamid.faultAt? hj .unterminatedComment true
  have hupTo : start.upTo c.fill = start.upTo start.toEnd := by
    have hall := hamid.leads.remaining_eq
    rw [start.leads_toEnd.remaining_eq, start.remaining_toEnd, c.remaining_fill, hremaining] at hall
    simpa using hall.symm
  have hnone : afterComment? c c.later = none := by
    rw [hl, afterComment?, hr]
    rfl
  refine ⟨.error s, ?_, hnone ▸ .unended ?_⟩
  · rw [LineScan.blockFrom?, hfill]
    simp [hnil, hs]
  · rw [Scan.unended_eq (start.leads_toEnd.ending.trans h.inside.ending), Scan.faultAt, ← hupTo]
    exact hmatches

/-- One line of a block comment: the comment ends in it, or goes on behind it. -/
theorem readsBlock_line (h : Amid lines b start d c) (hr : c.rest ≠ [])
    (hnext : ∀ d', Amid lines b start d' c.toLineEnd →
      ReadsBlock lines b start d' c.toLineEnd (text ++ Text.bytes c.rest)) :
    ReadsBlock lines b start d c text := by
  have hc : c.fill = c := by rw [Cursor.fill, if_neg (by simpa using hr)]
  obtain ⟨d', hfill, hstands, hamid⟩ := h.fill?
  have hlt := @Tracks.left_advance_lt _ _ _ _ h.tracks hstands
  rw [hc] at hfill hstands hamid hlt
  rcases Bytes.commentEndFrom_bytes h.tracks.inside.isJoined_rest 0 0 with
    ⟨hlength, hend⟩ | ⟨k, hk, hlength, hend⟩
  · have hall : text ++ Text.bytes c.rest ++ Text.bytes c.toLineEnd.remaining =
        text ++ Text.bytes c.remaining := by
      rw [c.leads_toLineEnd.remaining_eq, Cursor.toLineEnd, Cursor.upTo_advance, List.take_length,
        Text.bytes_append, List.append_assoc]
    obtain ⟨r, hread, hends⟩ := hnext _ (hamid.advance hstands (Nat.le_refl _))
    rw [hall] at hends
    refine ⟨r, ?_, by rwa [afterComment?_toLineEnd hlength]⟩
    rw [LineScan.blockFrom?, hfill]
    simp only [Option.bind_eq_bind, Option.bind_some, ne_eq, hr, not_false_eq_true, decide_true,
      if_true, hstands.rest?_eq, hend]
    rw [← Text.width_length, if_pos (hlt (List.length_pos_iff.2 hr) (Nat.le_refl _)), hread]
  · rw [Nat.zero_add] at hlength hend
    refine ⟨.ok (text ++ Text.bytes (c.rest.take k), d'.advance (c.rest.width k)), ?_, ?_⟩
    · rw [LineScan.blockFrom?, hfill]
      simp only [Option.bind_eq_bind, Option.bind_some, ne_eq, hr, not_false_eq_true, decide_true,
        if_true, hstands.rest?_eq, hend, Bytes.slice?_zero_width]
    · rw [afterComment?_of_length hlength]
      refine .ended (hamid.advance hstands hk) ?_
      rw [(Cursor.leads_advance hk).remaining_eq, Cursor.upTo_advance, Text.bytes_append,
        List.append_assoc]

/-- A block comment, line by line. -/
theorem readsBlock (h : Amid lines b start d c)
    (hj : Text.IsJoined (lines.map Text.ofBytes).flatten) :
    ReadsBlock lines b start d c text := by
  induction hl : c.later generalizing c d text with
  | nil =>
    by_cases hr : c.rest = []
    · exact h.readsBlock_last hj hr hl
    · exact h.readsBlock_line hr fun d' hd' =>
        hd'.readsBlock_last hj (by simp [Cursor.toLineEnd, Cursor.advance]) hl
  | cons line later ih =>
    -- The comment goes on at the start of the next line.
    have hend {c : Cursor} {d : LineBuffer} {text : List UInt8} (h : Amid lines b start d c)
        (hr : c.rest = []) (hl : c.later = line :: later) :
        ReadsBlock lines b start d c text := by
      obtain ⟨r, hread, hends⟩ : ReadsBlock lines b start d _ text := ih (h.atLine hr hl) rfl
      refine ⟨r, hread, ?_⟩
      have hafter : afterComment? c c.later =
          afterComment? (.atLine (c.number + 1) line later c.ending) later := by
        rw [hl, afterComment?, hr]
        rfl
      have hremaining : (Cursor.atLine (c.number + 1) line later c.ending).remaining =
          c.remaining := by
        simp [Cursor.remaining, Cursor.atLine, hr, hl]
      rw [hafter, ← hremaining]
      exact hends
    by_cases hr : c.rest = []
    · exact hend h hr hl
    · exact h.readsBlock_line hr fun d' hd' =>
        hend hd' (by simp [Cursor.toLineEnd, Cursor.advance]) hl

/-- Bytes with what is behind the cursor after them are what the cursor has passed. -/
theorem ofBytes_of_append (h : Amid lines b start d c)
    (hj : Text.IsJoined (lines.map Text.ofBytes).flatten)
    (htext : text ++ Text.bytes c.remaining = Text.bytes start.remaining) :
    .ofBytes text = start.upTo c := by
  have hjoined := h.inside.isJoined_remaining hj
  rw [h.leads.remaining_eq] at htext hjoined
  rw [Text.bytes_append] at htext
  rw [List.append_cancel_right htext]
  exact hjoined.of_append_left

end Amid

theorem width_two_of_opensComment {t : Text} (h : Lexeme.opensComment t) : t.width 2 = 2 := by
  obtain ⟨u, hu⟩ := Lexeme.opensComment_iff.1 h
  rw [← hu]
  rfl

/-- A block comment, from its opening on. -/
theorem Stands.blockFrom? (h : d.Stands lines start) (hg : b.Grows d)
    (hj : Text.IsJoined (lines.map Text.ofBytes).flatten)
    (hopen : Lexeme.opensComment start.rest) :
    Amid lines b start (d.advance 2) (start.advance 2) ∧
      ∃ r, LineScan.blockFrom? d.mark [asciiByte '/', asciiByte '*'] (d.advance 2) = some r ∧
        EndsBlock lines b start (Text.bytes start.remaining) r
          (afterComment? (start.advance 2) start.later) := by
  have hle := Lexeme.two_le_of_opensComment hopen
  have hamid := (h.amid hg).advance h hle
  have hall : [asciiByte '/', asciiByte '*'] ++ Text.bytes (start.advance 2).remaining =
      Text.bytes start.remaining := by
    obtain ⟨u, hu⟩ := Lexeme.opensComment_iff.1 hopen
    rw [(Cursor.leads_advance hle).remaining_eq, Cursor.upTo_advance, ← hu, Text.bytes_append]
    rfl
  rw [width_two_of_opensComment hopen] at hamid
  rw [h.mark, ← hall]
  exact ⟨hamid, hamid.readsBlock hj⟩

/-! ## Tokens -/

variable {g : Glyph} {t : Text}

theorem Stands.lexeme? (h : d.Stands lines start) (hg : b.Grows d)
    (hj : Text.IsJoined (lines.map Text.ofBytes).flatten) (hr : start.rest = g :: t)
    (hopens : Lexeme.opensComment (g :: t) = false) (flags : Flags) (layout : Bool) :
    ∃ s, LineScan.lexeme? flags layout (Text.bytes start.rest) d = some s ∧
      s.Matches lines b (.lexeme flags layout g.code start) := by
  have hjoined := h.inside.isJoined_rest
  have hfits := Lexeme.ofText_fits g.code (t := start.rest) (by simp [hr])
  have hamid := h.amid hg
  have hlexeme : Bytes.lexeme? (Text.bytes start.rest) =
      some (Bytes.inBytes start.rest (.ofText g.code start.rest)) := by
    rw [hr] at hjoined ⊢
    exact Bytes.lexeme?_bytes hjoined hopens
  simp only [LineScan.lexeme?, hlexeme, Option.bind_eq_bind, Option.bind_some, Scan.lexeme, h.mark]
  cases hl : Lexeme.ofText g.code start.rest with
  | plain kind lead length =>
    rw [hl] at hfits
    have htext := (hjoined.take length).drop lead
    simp only [Bytes.inBytes, Bytes.slice?_width hfits.1, Option.bind_some]
    exact ⟨_, rfl, (hamid.advance h hfits.2).found htext layout false⟩
  | name length =>
    rw [hl] at hfits
    simp only [Bytes.inBytes, Bytes.slice?_zero_width, Option.bind_some]
    exact (hamid.advance h hfits).name? (hjoined.take length) .atom layout
  | dot =>
    rw [hl] at hfits
    have hone : start.rest.width 1 = 1 := by
      rw [hr]
      exact Bytes.width_one_of_code (Lexeme.eq_dot_of_ofText hl ▸ by decide)
    have hamid := hamid.advance h hfits
    rw [show start.rest.width Lexeme.dot.length = 1 from hone] at hamid
    exact hamid.dot? layout
  | quotedText q =>
    rw [hl] at hfits
    obtain ⟨hcode, hq⟩ := Lexeme.spec_of_quotedText hl
    have hone : start.rest.width 1 = 1 := by
      rw [hr]
      refine Bytes.width_one_of_code (hcode ▸ ?_)
      simp only [List.mem_cons, List.not_mem_nil, or_false] at hq
      rcases hq with rfl | rfl | rfl <;> decide
    have hamid := hamid.advance h hfits
    rw [show start.rest.width (Lexeme.quotedText q).length = 1 from hone] at hamid
    exact hamid.quoted? hj hq false flags.charEscapes layout
  | charCode =>
    rw [hl] at hfits
    obtain ⟨u, hu⟩ := Lexeme.exists_of_charCode hl
    have htwo : start.rest.width 2 = 2 := by rw [hu]; rfl
    have hamid := hamid.advance h hfits
    rw [show start.rest.width Lexeme.charCode.length = 2 from htwo] at hamid
    exact hamid.quoted? hj (by simp) true flags.charEscapes layout
  | unknown c => exact hamid.faultAt? hj (.illegalCharacter c) false

/-- White space is passed over character by character. -/
theorem scanFrom_blank {flags : Flags} {layout : Bool} {u : Text}
    (hblank : ∀ g ∈ u, CharClass.isBlank g.code) (hne : u ≠ []) (hr : c.fill.rest = u ++ t) :
    scanFrom flags layout c = scanFrom flags true (c.fill.advance u.length) := by
  induction u generalizing c layout with
  | nil => contradiction
  | cons g u ih =>
    obtain ⟨hg, hblank⟩ := List.forall_mem_cons.1 hblank
    have hrest : (c.fill.advance 1).rest = u ++ t := by simp [Cursor.advance, hr]
    rw [scanFrom_eq, hr, List.cons_append]
    dsimp only
    rw [if_pos hg]
    cases u with
    | nil => rfl
    | cons g' u =>
      have hfill : (c.fill.advance 1).fill = c.fill.advance 1 := Cursor.fill_of_rest hrest
      rw [ih hblank (List.cons_ne_nil _ _) (by rw [hfill, hrest]), hfill, Cursor.advance_advance,
        Nat.add_comm]
      rfl

theorem scanFrom_blanks {flags : Flags} {layout : Bool}
    (hpos : 0 < Lexeme.run CharClass.isBlank c.fill.rest) :
    scanFrom flags layout c =
      scanFrom flags true (c.fill.advance (Lexeme.run CharClass.isBlank c.fill.rest)) := by
  obtain ⟨u, v, hsplit, htake, hu, -⟩ := Lexeme.exists_run CharClass.isBlank c.fill.rest
  have hrun : Lexeme.run CharClass.isBlank c.fill.rest = u.length := congrArg List.length htake
  rw [hrun] at hpos ⊢
  exact scanFrom_blank hu (List.length_pos_iff.1 hpos) hsplit

/-- Comments that are kept are tokens, others are passed over. -/
theorem Amid.comment (h : Amid lines b start d c) {text : List UInt8} {u : Text} {flags : Flags}
    {layout : Bool} {n : Nat} (htext : .ofBytes text = u) (hlt : d.left < n)
    (hnext : ∃ s, d.scanFrom? flags true = some s ∧
      s.Matches lines d (scanFrom flags true c)) :
    ∃ s, (if flags.keepComments then some (.found .comment text layout false start.mark d)
        else if d.left < n then d.scanFrom? flags true else none) = some s ∧
      s.Matches lines b (if flags.keepComments then
        .token ⟨.comment, u, layout, false, start.place⟩ c else scanFrom flags true c) := by
  rw [if_pos hlt]
  split
  · exact ⟨_, rfl, h.found htext layout false⟩
  · obtain ⟨s, hs, hmatches⟩ := hnext
    exact ⟨s, hs, hmatches.grows h.grows⟩

/-- Reading a token in a buffer, nothing goes wrong, and what is read is what a cursor reads. -/
theorem Tracks.scanFrom? (h : b.Tracks lines c)
    (hj : Text.IsJoined (lines.map Text.ofBytes).flatten) (flags : Flags) (layout : Bool) :
    ∃ s, b.scanFrom? flags layout = some s ∧ s.Matches lines b (scanFrom flags layout c) := by
  induction hn : b.left using Nat.strongRecOn generalizing b c layout with
  | _ n ih =>
    subst hn
    obtain ⟨d, hfill, hstands, hgrows⟩ := h.fill?
    have hjoined := hstands.inside.isJoined_rest
    have hamid := hstands.amid hgrows
    have hrest := hstands.rest?_eq
    rw [LineBuffer.scanFrom?, hfill]
    by_cases hnil : c.fill.rest = []
    · refine ⟨.found .endOfFile [] layout false d.mark d, by simp [hnil], ?_⟩
      rw [scanFrom_eq, hnil]
      simp only [hstands.inside.ending, hstands.mark]
      exact hamid.found Text.ofBytes_nil layout false
    obtain ⟨g, t, hr⟩ := List.exists_cons_of_ne_nil hnil
    have hrune : (Bytes.rune (Text.bytes c.fill.rest)).1 = '%' ↔ g = .char '%' := by
      rw [hr] at hjoined ⊢
      rw [Bytes.rune_bytes hjoined, Text.code_eq_ascii_iff (by decide)]
    simp only [Option.bind_eq_bind, Option.bind_some, ne_eq, hnil, not_false_eq_true, decide_true,
      if_true, hrest, Bytes.run_bytes _ hjoined, hrune, Bytes.startsWith_comment hjoined]
    by_cases hblank : CharClass.isBlank g.code
    · have hpos : 0 < Lexeme.run CharClass.isBlank c.fill.rest := hr ▸ Lexeme.run_pos hblank
      have hle := Lexeme.run_le CharClass.isBlank c.fill.rest
      have hlt := h.left_advance_lt hstands hpos hle
      obtain ⟨s, hs, hmatches⟩ := ih _ hlt (hstands.advance hle).tracks true rfl
      rw [if_pos (Nat.lt_of_lt_of_le hpos (Text.le_width hle)), if_pos hlt, scanFrom_blanks hpos]
      exact ⟨s, hs, hmatches.grows hgrows⟩
    have hrun : Lexeme.run CharClass.isBlank c.fill.rest = 0 := by simp [hr, Lexeme.run, hblank]
    rw [hrun, Text.width_zero, if_neg (Nat.lt_irrefl 0), scanFrom_eq, hr]
    dsimp only
    rw [if_neg hblank, ← hr]
    by_cases hpercent : g = .char '%'
    · have hpos := List.length_pos_iff.2 hnil
      have hlt := h.left_advance_lt hstands hpos (Nat.le_refl _)
      have hafter := hstands.advance (Nat.le_refl c.fill.rest.length)
      rw [if_pos hpercent, if_pos hpercent, ← Text.width_length, hstands.mark]
      refine (hamid.advance hstands (Nat.le_refl _)).comment ?_ hlt
        (ih _ hlt hafter.tracks true rfl)
      rw [Bytes.trimLineEnd_bytes hjoined]
      exact hjoined.of_isInfix (Text.trimLineEnd_isPrefix _).isInfix
    rw [if_neg hpercent, if_neg hpercent]
    by_cases hopen : Lexeme.opensComment c.fill.rest
    · have hlt := h.left_advance_lt hstands Nat.two_pos (Lexeme.two_le_of_opensComment hopen)
      rw [width_two_of_opensComment hopen] at hlt
      obtain ⟨hinside, r, hread, hends⟩ := hstands.blockFrom? hgrows hj hopen
      rw [if_pos hopen, if_pos hopen, hread, Option.bind_some, hstands.mark]
      generalize ha : afterComment? (c.fill.advance 2) c.fill.later = after? at hends ⊢
      cases hends with
      | unended hs => exact ⟨_, rfl, hs⟩
      | ended hafter htext =>
        have hle := hinside.tracks.left_le hafter.tracks (leads_afterComment? rfl ha)
        have hlt := Nat.lt_of_le_of_lt hle hlt
        exact hafter.comment (hafter.ofBytes_of_append hj htext) hlt
          (ih _ hlt hafter.tracks true rfl)
    · rw [if_neg hopen, if_neg hopen]
      exact hstands.lexeme? hgrows hj hr (by rw [← hr]; simpa using hopen) flags layout

/-! ## Points that are held -/

/-- A buffer holds a point, and tells its line and column and the text of its line as a place has
them. -/
structure Locates (b : LineBuffer) (m : Mark) (p : Place) : Prop where
  has : b.Has m
  position : b.position m = (p.line, p.column)
  lineText : .ofBytes (b.lineText m) = p.text

/-- A buffer locates a point whatever is done with it, until lines are given up. -/
def Keeps (lines : List (List UInt8)) (b : LineBuffer) (m : Mark) (p : Place) : Prop :=
  ∀ b' : LineBuffer, b'.Of lines → b.Grows b' → b'.Locates m p

theorem Of.keeps (h : b.Of lines) (hc : c.In lines) (hm : b.Has c.mark)
    (hasked : b.held = [] → b.pending = []) : b.Keeps lines c.mark c.place := by
  intro b' hb' hgrows
  have hm' := hm.grows hgrows
  refine ⟨hm', hb'.position_mark hc hm', hb'.lineText_mark hc hm' fun hheld' => ?_⟩
  -- If there was a line, it has been asked for by now.
  have hheld : b.held = [] := List.prefix_nil.1 (hheld' ▸ hgrows.2)
  have hlength := h.length_eq
  have hlength' := hb'.length_eq
  rw [hheld, hasked hheld] at hlength
  rw [hheld', hgrows.1] at hlength'
  exact List.length_eq_zero_iff.1 (by simp only [List.length_nil] at hlength hlength'; omega)

end LineBuffer

namespace LineScan

/-- The buffer behind a token, or at text that is none. -/
def buffer : LineScan → LineBuffer
  | token _ _ after => after
  | fault _ start _ => start

/-- A scan of a buffer gives what a scan of a cursor gives, and the buffer goes on to locate the
point where the token starts. -/
inductive Places (lines : List (List UInt8)) : LineScan → Scan → Prop where
  | token {t : Token} {m : Mark} {d : LineBuffer} {after : Cursor}
      (h : d.Keeps lines m t.place) :
      Places lines (.token (t.shifted .unlined) m d) (.token t after)
  | fault {e : SyntaxError} {d : LineBuffer} {start : Cursor} {exhausted : Bool}
      (h : d.Keeps lines d.mark e.place) :
      Places lines (.fault e d exhausted) (.fault e start exhausted)

theorem Matches.places {lines : List (List UInt8)} {b : LineBuffer} {s : LineScan} {r : Scan}
    (h : s.Matches lines b r) : s.Places lines r := by
  cases h with
  | token hstart hplace hhas htracks hasked =>
    exact .token (hplace ▸ htracks.of.keeps hstart hhas hasked)
  | fault hplace hstands =>
    refine .fault ?_
    rw [hplace, hstands.mark]
    exact hstands.of.keeps hstands.inside hstands.has hstands.asked

end LineScan

end PrologText
