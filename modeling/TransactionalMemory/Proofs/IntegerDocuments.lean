import TransactionalMemory.Proofs.Spelling
import TransactionalMemory.Toml.Records

/-! Documents in which each line gives an integer to a key of its own. Blanks, comments and line
ends may be as TOML allows them. The parser reads such a document as what its lines say, line by
line. -/
namespace TransactionalMemory.Toml

def Blank (gap : List Char) : Prop :=
  ∀ c ∈ gap, isBlank c = true

/-- A comment, or none. -/
inductive RemarkSpells : (written : List Char) → Prop where
  | absent : RemarkSpells []
  | comment {text : List Char} (printable : ∀ c ∈ text, isPrintable c = true) :
      RemarkSpells ('#' :: text)

/-- A line that gives an integer to a key, without its end. -/
inductive LineSpells (name : String) (number : Int) : (written : List Char) → Prop where
  | intro {indent spelled before after digits gap remark : List Char} (indented : Blank indent)
      (names : KeySpells name spelled) (spaced : Blank before) (spaced' : Blank after)
      (numbers : IntegerSpells number digits) (trailing : Blank gap)
      (remarks : RemarkSpells remark) :
      LineSpells name number
        (indent ++ (spelled ++ (before ++ '=' :: (after ++ (digits ++ (gap ++ remark))))))

inductive LineEnd : (written : List Char) → Prop where
  | feed : LineEnd ['\n']
  | carriage : LineEnd ['\r', '\n']

/-- A line of a document, with the key and the integer that it gives. -/
structure Row where
  name : String
  number : Int64
  written : List Char
  spells : LineSpells name number.toInt written

def Row.entry (row : Row) : String × Option Int64 :=
  (row.name, some row.number)

def Table.integers (table : Table) : List (String × Option Int64) :=
  table.map fun entry => (entry.1, entry.2.integer?)

/-- The text of a document with these lines. The last line may do without an end. -/
inductive Document : (rows : List Row) → (text : List Char) → Prop where
  | empty : Document [] []
  | last (row : Row) : Document [row] row.written
  | line (row : Row) {rows : List Row} {ending text : List Char} (ends : LineEnd ending)
      (more : Document rows text) : Document (row :: rows) (row.written ++ (ending ++ text))

/-- What stands after a line, and what is left of it behind the end of the line. -/
inductive EndsLine : (rest next : List Char) → Prop where
  | text : EndsLine [] []
  | line {ending next : List Char} (ends : LineEnd ending) : EndsLine (ending ++ next) next

section
variable {gap remark rest next : List Char}

private theorem Blank.past (blank : Blank gap) {kind : Char → Bool} (space : kind ' ' = false)
    (tab : kind '\t' = false) (past : Past kind rest) : Past kind (gap ++ rest) := by
  cases gap with
  | nil => exact past
  | cons front gap =>
    intro c member
    obtain rfl := Option.some.inj member
    have is := blank front (by simp)
    simp only [isBlank, Bool.or_eq_true, decide_eq_true_eq] at is
    rcases is with rfl | rfl
    · exact space
    · exact tab

private theorem past_cons {kind : Char → Bool} {c : Char} (other : kind c = false) :
    Past kind (c :: rest) := by
  intro front member
  obtain rfl := Option.some.inj member
  exact other

private theorem skipBlanks_append (blank : Blank gap) (past : Past isBlank rest) :
    skipBlanks (gap ++ rest) = rest :=
  dropWhile_past blank past

private theorem EndsLine.past (ends : EndsLine rest next) {kind : Char → Bool}
    (feed : kind '\n' = false) (carriage : kind '\r' = false) : Past kind rest := by
  cases ends with
  | text => simp [Past]
  | line ends =>
    cases ends with
    | feed => exact past_cons feed
    | carriage => exact past_cons carriage

private theorem RemarkSpells.past (remarks : RemarkSpells remark) (ends : EndsLine rest next)
    {kind : Char → Bool} (hash : kind '#' = false) (feed : kind '\n' = false)
    (carriage : kind '\r' = false) : Past kind (remark ++ rest) := by
  cases remarks with
  | absent => exact ends.past feed carriage
  | comment printable => exact past_cons hash

private theorem skipComment_append (remarks : RemarkSpells remark) (ends : EndsLine rest next) :
    skipComment (remark ++ rest) = rest := by
  cases remarks with
  | absent =>
    have past : Past (· = '#') rest := ends.past rfl rfl
    cases rest with
    | nil => rfl
    | cons c rest =>
      have other : c ≠ '#' := by simpa using past c rfl
      simp [skipComment, other]
  | comment printable => exact dropWhile_past printable (ends.past rfl rfl)

private theorem lineEnd_spells (blank : Blank gap) (remarks : RemarkSpells remark)
    (ends : EndsLine rest next) : lineEnd (gap ++ (remark ++ rest)) = .ok ((), next) := by
  unfold lineEnd
  rw [skipBlanks_append blank (remarks.past ends rfl rfl rfl), skipComment_append remarks ends]
  cases ends with
  | text => rfl
  | line ends => cases ends <;> rfl

end

private theorem not_blank (kind : Char → Bool) (space : kind ' ' = false) (tab : kind '\t' = false)
    {c : Char} (is : kind c = true) : isBlank c = false := by
  cases blank : isBlank c with
  | false => rfl
  | true =>
    simp only [isBlank, Bool.or_eq_true, decide_eq_true_eq] at blank
    rcases blank with rfl | rfl <;> simp_all

private theorem key_spells {name : String} {spelled before tail : List Char}
    (names : KeySpells name spelled) (spaced : Blank before) :
    key (spelled ++ (before ++ '=' :: tail)) = .ok ([name], '=' :: tail) := by
  have past : Past isBareKey (before ++ '=' :: tail) := spaced.past rfl rfl (past_cons rfl)
  have read := simpleKey_spells names past
  have after : skipBlanks (before ++ '=' :: tail) = '=' :: tail :=
    skipBlanks_append spaced (past_cons rfl)
  have front : skipBlanks (spelled ++ (before ++ '=' :: tail)) =
      spelled ++ (before ++ '=' :: tail) := by
    obtain ⟨c, rest, rfl, starts⟩ := names.starts
    simp [skipBlanks, not_blank startsKey rfl rfl starts]
  unfold key keyParts
  rw [front, read]
  simp only [bind, Except.bind, after]
  rfl

private theorem Table.assignUnder_fresh {table : Table} {name : String}
    (fresh : name ∉ table.map Prod.fst) (node : Node) :
    table.assignUnder [] [name] node = .ok (table ++ [(name, node)]) := by
  have absent : table.any (·.1 = name) = false := by
    rw [List.any_eq_false]
    intro entry member same
    exact fresh (of_decide_eq_true same ▸ List.mem_map_of_mem member)
  simp [assignUnder, change, assign, add, Table.set, absent]

section
variable {rest next : List Char} {table : Table}

private theorem assignment_spells {name : String} {number : Int64}
    {spelled before after digits gap remark : List Char} (names : KeySpells name spelled)
    (spaced : Blank before) (spaced' : Blank after) (numbers : IntegerSpells number.toInt digits)
    (trailing : Blank gap) (remarks : RemarkSpells remark) (ends : EndsLine rest next)
    (fresh : name ∉ table.map Prod.fst) :
    ∃ extent, assignment ⟨table, []⟩ (spelled ++ (before ++ '=' :: (after ++ (digits ++ (gap ++
      (remark ++ rest)))))) =
        .ok (⟨table ++ [(name, .value extent (.integer number))], []⟩, next) := by
  have ended : Ended (gap ++ (remark ++ rest)) :=
    trailing.past rfl rfl (remarks.past ends rfl rfl rfl)
  have start : skipBlanks (after ++ (digits ++ (gap ++ (remark ++ rest)))) =
      digits ++ (gap ++ (remark ++ rest)) := by
    obtain ⟨c, tail, rfl, starts⟩ := numbers.starts
    exact skipBlanks_append spaced' (past_cons (not_blank startsNumber rfl rfl starts))
  refine ⟨⟨(digits ++ (gap ++ (remark ++ rest))).length, (gap ++ (remark ++ rest)).length⟩, ?_⟩
  unfold assignment
  rw [key_spells names spaced]
  simp only [bind, Except.bind, equalsSign, start, value_spells numbers ended,
    lineEnd_spells trailing remarks ends, Table.assignUnder_fresh fresh, Int64.ofInt_toInt]
  rfl

private theorem lines_row (row : Row) (ends : EndsLine rest next)
    (fresh : row.name ∉ table.map Prod.fst) (fuel : Nat) :
    ∃ extent, lines (fuel + 1) ⟨table, []⟩ (row.written ++ rest) =
      lines fuel ⟨table ++ [(row.name, .value extent (.integer row.number))], []⟩ next := by
  obtain ⟨name, number, written, spells⟩ := row
  obtain @⟨indent, spelled, before, after, digits, gap, remark, indented, names, spaced, spaced',
    numbers, trailing, remarks⟩ := spells
  obtain ⟨extent, read⟩ :=
    assignment_spells names spaced spaced' numbers trailing remarks ends fresh
  refine ⟨extent, ?_⟩
  obtain ⟨c, tail, rfl, starts⟩ := names.starts
  have others : c ≠ '[' ∧ c ≠ '#' ∧ c ≠ '\n' ∧ c ≠ '\r' := by
    refine ⟨?_, ?_, ?_, ?_⟩ <;> rintro rfl <;> cases starts
  obtain ⟨bracket, hash, feed, carriage⟩ := others
  have start (more : List Char) : skipBlanks (indent ++ c :: more) = c :: more :=
    skipBlanks_append indented (past_cons (not_blank startsKey rfl rfl starts))
  simp only [List.append_assoc, List.cons_append] at read ⊢
  rw [lines, start]
  simp [bracket, hash, feed, carriage, afterNewline?, read, bind, Except.bind]

end

private theorem LineEnd.length_pos {ending : List Char} (ends : LineEnd ending) :
    0 < ending.length := by
  cases ends <;> simp

private theorem fresh_of_distinct {front rest : List String} {name : String}
    (distinct : (front ++ name :: rest).Nodup) : name ∉ front := by
  intro member
  exact (List.nodup_append.mp distinct).2.2 name member name (by simp) rfl

/-- The induction is over the lines; `table` is what the lines before them have given. -/
theorem lines_document {rows : List Row} {text : List Char} (document : Document rows text)
    {fuel : Nat} (enough : text.length < fuel) {table : Table}
    (distinct : (table.map Prod.fst ++ rows.map Row.name).Nodup) :
    ∃ added, lines fuel ⟨table, []⟩ text = .ok (table ++ added) ∧
      Table.integers added = rows.map Row.entry := by
  induction document generalizing fuel table with
  | empty => exact ⟨[], by cases fuel <;> simp [lines, skipBlanks], rfl⟩
  | last row =>
    obtain _ | fuel := fuel
    · cases enough
    have fresh : row.name ∉ table.map Prod.fst := fresh_of_distinct distinct
    obtain ⟨extent, read⟩ := lines_row row .text fresh fuel
    rw [List.append_nil] at read
    exact ⟨[(row.name, .value extent (.integer row.number))], by rw [read]; cases fuel <;> rfl, rfl⟩
  | @line row rows ending text ends more ih =>
    obtain _ | fuel := fuel
    · cases enough
    have fresh : row.name ∉ table.map Prod.fst := fresh_of_distinct distinct
    obtain ⟨extent, read⟩ := lines_row row (.line ends) fresh fuel
    have shorter : text.length < fuel := by
      have some := ends.length_pos
      simp only [List.length_append] at enough
      omega
    have apart : ((table ++ [(row.name, Node.value extent (.integer row.number))]).map Prod.fst ++
        rows.map Row.name).Nodup := by
      simpa using distinct
    obtain ⟨added, readMore, integers⟩ := ih shorter apart
    refine ⟨(row.name, .value extent (.integer row.number)) :: added, ?_, ?_⟩
    · rw [read, readMore]
      simp
    · rw [List.map_cons, ← integers]
      rfl

private theorem Row.past_mark (row : Row) (rest : List Char) :
    Past (· = '\uFEFF') (row.written ++ rest) := by
  obtain ⟨name, number, written, indented, names, spaced, spaced', numbers, trailing, remarks⟩ :=
    row
  obtain ⟨c, tail, rfl, starts⟩ := names.starts
  simp only [List.append_assoc, List.cons_append]
  refine indented.past rfl rfl (past_cons (decide_eq_false ?_))
  rintro rfl
  cases starts

private theorem Document.past_mark {rows : List Row} {text : List Char}
    (document : Document rows text) : Past (· = '\uFEFF') text := by
  cases document with
  | empty => simp [Past]
  | last row => simpa using row.past_mark []
  | line row ends more => exact row.past_mark _

theorem parse_document {rows : List Row} {text : List Char} (document : Document rows text)
    (distinct : (rows.map Row.name).Nodup) :
    ∃ table, parse text = .ok table ∧ table.integers = rows.map Row.entry := by
  have apart : (([] : Table).map Prod.fst ++ rows.map Row.name).Nodup := by simpa using distinct
  obtain ⟨table, read, integers⟩ := lines_document document (Nat.lt_succ_self text.length) apart
  refine ⟨table, ?_, integers⟩
  have past := document.past_mark
  unfold parse
  split
  · simp [Past] at past
  · simpa using read

end TransactionalMemory.Toml
