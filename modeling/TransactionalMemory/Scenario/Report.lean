import TransactionalMemory.Scenario.Script
import TransactionalMemory.Memory

/-! What a scenario shows: entities, memories and failures written as values. The contents of an
entity are those of a copy of it; its state is what it holds internally. -/
namespace TransactionalMemory.Scenario

def ofNat (number : Nat) : Value :=
  .number number

def ofWord (word : UInt64) : Value :=
  .number word.toNat

def ofOption : Option Value → Value
  | none => .null
  | some value => .list [value]

def ofKeys (keys : KeySet String) : Value :=
  .list (keys.toList.map .text)

def ofNumbers (keys : KeySet Nat) : Value :=
  .list (keys.toList.map ofNat)

def ofFailure (failure : Failure) : Value :=
  .record [("error", .text failure.kind), ("message", .text failure.message)]

def nonsense (reason : String) : Value :=
  .record [("error", .text "BadRequest"), ("message", .text reason)]

def ofEnding : Except Failure Bool → Value
  | .ok truth => .boolean truth
  | .error failure => ofFailure failure

def hexadecimal (word : UInt64) : String :=
  String.ofList ((List.range 16).map fun place =>
    Nat.digitChar ((word.toNat >>> (4 * (15 - place))) % 16))

def counters (tally : Tally) : List (String × Value) :=
  [("active_count", ofWord tally.active), ("total_started", ofWord tally.started),
    ("total_committed", ofWord tally.committed), ("total_rolled_back", ofWord tally.rolledBack),
    ("total_conflicts", ofWord tally.conflicts), ("total_failed", ofWord tally.failed)]

def ofTally (tally : Tally) : Value :=
  .record (counters tally ++
    [("total_completed", ofWord tally.completed),
      ("commit_rate_bits", .text (hexadecimal tally.commitRate.toBits)),
      ("conflict_rate_bits", .text (hexadecimal tally.conflictRate.toBits))])

def ofPolicy (policy : RetryPolicy) : Value :=
  .record [("max_retries", ofWord policy.maxRetries), ("base_delay_ms", ofWord policy.baseDelay),
    ("max_delay_ms", ofWord policy.maxDelay)]

def tableState {K V : Type} [Ord K] [Std.TransOrd K] (keys : KeySet K → Value) (modified : Value)
    (table : Table K V) : Value :=
  .record [("source_len", ofNat table.source.content.size), ("pending_modifications", modified),
    ("pending_deletions", keys table.deleted), ("accessed", keys table.accessed),
    ("globally_accessed", .boolean table.accessedWhole), ("cleared", .boolean table.cleared)]

def ofEntries (entries : Entries String Value) : Value :=
  .record (entries.toList.map fun entry => (entry.1, entry.2.content))

def ofSets (entries : Entries String (ValueSet String)) : Value :=
  .record (entries.toList.map fun entry => (entry.1, ofKeys entry.2.content))

def globalsState (globals : Table Nat Value) : Value :=
  tableState ofNumbers (ofNumbers globals.modified.keySet) globals

def ofRule : SlotRule → Value
  | .take => .text "Take"
  | .clean => .text "Clean"
  | .dirty => .text "Dirty"

def kindName : Entity.Kind → String
  | .cell => "ref"
  | .table => "map"
  | .multimap => "multimap"
  | .queue => "queue"
  | .bundle => "composite"
  | .snapshot => "snapshot"

def ofGlobals (globals : Table Nat Value) : Value :=
  .record (globals.entries.toList.map fun entry => (toString entry.1, entry.2.content))

def stateOf : Entity → Value
  | .cell cell => .record [("value", cell.current.content), ("accessed", .boolean cell.accessed),
      ("updated", .boolean cell.updated)]
  | .table table => tableState ofKeys (ofEntries table.modified) table
  | .multimap multimap => .record
      [("inner", tableState ofKeys (ofSets multimap.table.modified) multimap.table)]
  | .queue queue => .record [("source", .list queue.source.content),
      ("global_poll_count", ofWord queue.polledBefore), ("cursor", ofNat queue.cursor),
      ("tail", .list queue.tail), ("poll_count", ofNat queue.polled),
      ("peek_count", ofNat queue.depth)]
  | .bundle slots rule => .record [("len", ofNat slots.length),
      ("accessed", .list (slots.map fun slot => .boolean slot.accessed)),
      ("strategy", ofRule rule)]
  | .snapshot ⟨timestamp, data, _⟩ => .record
      [("timestamp", ofNat timestamp), ("data", stateOf data)]

mutual

/-- The contents of a copy, as the copy holds them. A clean copy of a bundle holds clean copies of
the accessed slots only; the others it still shares, with all that they carry. -/
def held (mode : CopyMode) : Entity → Value
  | .cell cell => (cell.copy mode).current.content
  | .table table => ofEntries (table.copy mode).entries
  | .multimap multimap => ofSets (multimap.copy mode).table.entries
  | .queue queue => .list (queue.copy mode).items
  | .bundle slots _ => .list (heldSlots mode slots)
  | .snapshot ⟨timestamp, data, globals⟩ => .record [("timestamp", ofNat timestamp),
      ("data", held mode data), ("global", ofGlobals (globals.copy mode))]

def heldSlots (mode : CopyMode) : List (Slot Entity) → List Value
  | [] => []
  | ⟨_, accessed, content⟩ :: slots =>
    .record [(kindName content.kind, held (if accessed then mode else .dirty) content)]
      :: heldSlots mode slots

end

mutual

/-- The contents of a clean or a dirty copy. A slot of a copied bundle is reached through the copy,
which copies it in the same way, and so are the slots of a bundle inside it. The data of a snapshot
are not reached but shown as the copy holds them. -/
def contentsOf (mode : CopyMode) : Entity → Value
  | .bundle slots _ => .list (contentsOfSlots mode slots)
  | entity => held mode entity

def contentsOfSlots (mode : CopyMode) : List (Slot Entity) → List Value
  | [] => []
  | ⟨_, _, content⟩ :: slots =>
    .record [(kindName content.kind, contentsOf mode content)] :: contentsOfSlots mode slots

end

end TransactionalMemory.Scenario
