import TransactionalMemory.Access
import TransactionalMemory.Proofs.EntityCopy

/-! What a body may ask. A question goes along a path to one entity and puts a request to it, or
looks at its flags. Answers are protected if nobody else's commit can make them untrue without
being noticed; alike working copies give the same protected answers. -/
namespace TransactionalMemory

inductive Query where
  | request (request : Request)
  | flags (kind : Entity.Kind)
  | timestamp

inductive Finding where
  | reply (reply : Reply)
  | flags (flags : List Bool)
  | timestamp (timestamp : Nat)

def Entity.flags : Entity → List Bool
  | .cell inner => [inner.accessed, inner.updated]
  | .table inner => [inner.accessedWhole]
  | .multimap _ => []
  | .queue _ => []
  | .bundle slots _ => slots.map (·.accessed)
  | .snapshot inner => [inner.globals.accessedWhole]

structure Question where
  path : List Hop
  query : Query

abbrev Answer := Option (Except Failure Finding)

namespace Query

def kind : Query → Entity.Kind
  | .request asked => asked.kind
  | .flags kind => kind
  | .timestamp => .snapshot

def act : Query → Identity → Entity → Option (Finding × Entity)
  | .request asked, fresh, entity =>
    (entity.perform fresh asked).map fun answer => answer.map .reply id
  | .flags kind, _, entity =>
    if entity.kind = kind then some (.flags entity.flags, entity) else none
  | .timestamp, _, .snapshot inner => some (.timestamp inner.timestamp, .snapshot inner)
  | .timestamp, _, _ => none

/-- An entity that the query does not fit stays as it is. -/
def settle (fresh : Identity) (query : Query) (entity : Entity) : Option Finding × Entity :=
  match query.act fresh entity with
  | some (finding, changed) => (some finding, changed)
  | none => (none, entity)

end Query

def Entity.ask (others : List (Slot Entity)) (seed : Identity) (question : Question)
    (entity : Entity) : Answer × Entity :=
  entity.visit others seed question.query.kind question.query.act question.path

def Request.Marked (guard : Guard) : Request → Prop
  | .cell request => request.Marked guard.value
  | .table request => request.Marked guard.value guard.clearing
  | .multimap request => request.Marked guard.clearing
  | .queue _ => True
  | .globals request => request.Marked guard.value guard.clearing

def Request.Protected : Request → Reply → Prop
  | .cell _, .object _ => True
  | .table request, .table reply => Table.Protected request reply
  | .multimap request, .multimap reply => Multimap.Protected request reply
  | .queue request, .queue reply => Queue.Protected request reply
  | .globals request, .globals reply => Table.Protected request reply
  | _, _ => False

def Query.Marked (guard : Guard) : Query → Prop
  | .request asked => asked.Marked guard
  | .flags _ => True
  | .timestamp => True

/-- Flags are about what the copy itself has done; the timestamp changes with every commit. -/
def Query.Protected : Query → Finding → Prop
  | .request asked, .reply reply => asked.Protected reply
  | .flags _, .flags _ => True
  | _, _ => False

/-- A refusal on the way depends on the layout alone, which never changes. -/
def Question.Protected (question : Question) (answer : Answer) : Prop :=
  ∀ finding, answer = some (.ok finding) → question.query.Protected finding

open Entity

private theorem Entity.Alike.flags_eq {entity other : Entity} (alike : Alike entity other) :
    other.flags = entity.flags := by
  cases entity with
  | cell inner =>
    obtain ⟨_, rfl, alike⟩ := relates_cell.mp alike
    rw [Entity.flags, Entity.flags, Cell.Alike.accessed alike, Cell.Alike.updated alike]
  | table inner =>
    obtain ⟨_, rfl, alike⟩ := relates_table.mp alike
    rw [Entity.flags, Entity.flags, Table.Alike.accessedWhole alike]
  | multimap inner =>
    obtain ⟨_, rfl, _⟩ := relates_multimap.mp alike
    rfl
  | queue inner =>
    obtain ⟨_, rfl, _⟩ := relates_queue.mp alike
    rfl
  | bundle slots rule =>
    obtain ⟨_, _, rfl, _, slots⟩ := relates_bundle.mp alike
    clear alike
    rw [Entity.flags, Entity.flags]
    induction slots with
    | nil => rfl
    | cons head tail ih => rw [List.map_cons, List.map_cons, head.1, ih]
  | snapshot inner =>
    obtain ⟨_, rfl, _, _, alike⟩ := relates_snapshot.mp alike
    rw [Entity.flags, Entity.flags, Table.Alike.accessedWhole alike]

namespace Query
variable {guard guard' : Guard} {base latest entity other : Entity} {fresh : Identity}

theorem settle_copy (query : Query) (marked : Query.Marked guard query) (named : guard.seed fresh)
    (copy : CopyOf guard base entity) :
    CopyOf guard base (query.settle fresh entity).2 ∧
      Extends entity (query.settle fresh entity).2 := by
  cases query with
  | flags kind =>
    by_cases fits : entity.kind = kind <;> simp [settle, act, fits, copy, Extends.refl]
  | timestamp =>
    have idle : CopyOf guard base entity ∧ Extends entity entity := ⟨copy, .refl entity⟩
    cases entity <;> exact idle
  | request asked =>
    have idle : CopyOf guard base entity ∧ Extends entity entity := ⟨copy, .refl entity⟩
    cases base with
    | cell inner =>
      obtain ⟨cell, rfl, copied⟩ := relates_cell.mp copy
      cases asked with
      | cell request => exact copied.perform request marked
      | _ => exact idle
    | table inner =>
      obtain ⟨table, rfl, copied⟩ := relates_table.mp copy
      cases asked with
      | table request => exact copied.perform request marked
      | _ => exact idle
    | multimap inner =>
      obtain ⟨multimap, rfl, copied⟩ := relates_multimap.mp copy
      cases asked with
      | multimap request => exact Multimap.copy_perform copied (fun _ => named) marked
      | _ => exact idle
    | queue inner =>
      obtain ⟨queue, rfl, copied⟩ := relates_queue.mp copy
      cases asked with
      | queue request => exact copied.perform request
      | _ => exact idle
    | bundle slots rule =>
      obtain ⟨_, _, rfl, _⟩ := relates_bundle.mp copy
      cases asked <;> exact idle
    | snapshot inner =>
      obtain ⟨snapshot, rfl, time, data, copied⟩ := relates_snapshot.mp copy
      cases asked with
      | globals request =>
        obtain ⟨copied, ahead⟩ := Table.CopyOf.perform copied request marked
        exact ⟨relates_snapshot.mpr ⟨_, rfl, time, data, copied⟩,
          relates_snapshot.mpr ⟨_, rfl, trivial, Extends.refl _, ahead⟩⟩
      | _ => exact idle

/-- An outcome that cannot go unnoticed if the latest entity would give another one. -/
structure Stable (guard : Guard) (latest : Entity) (query : Query)
    (outcome : Answer × Entity) : Prop where
  still : ¬guard.clearing
  shown : ∀ finding, outcome.1 = some (.ok finding) → query.Protected finding
  fits : Fits latest outcome.2

private theorem Stable.globals {inner inner' : Snapshot Entity} {fresh : Identity}
    {request : Table.Request Nat Value}
    (stable : Stable guard (.snapshot inner') (.request (.globals request))
      ((settle fresh (.request (.globals request)) (.snapshot inner)).map (Option.map .ok) id)) :
    ¬guard.clearing ∧ Table.Protected request (inner.globals.perform request).1 ∧
      inner'.globals.Fits (inner.globals.perform request).2 := by
  obtain ⟨still, shown, fits⟩ := stable
  obtain ⟨_, same, _, _, fits⟩ := relates_snapshot.mp fits
  cases same
  exact ⟨still, shown _ rfl, fits⟩

theorem Stable.slot {bases slots : List (Slot Entity)} {rule rule' : SlotRule} {query : Query}
    {answer : Answer} {after : Entity} {base reached : Slot Entity} {index : Nat}
    (stable : Stable guard (.bundle bases rule) query
      (answer, .bundle (slots.set index {reached with content := after}) rule'))
    (found : bases[index]? = some base) (bound : index < slots.length)
    (seen : reached.accessed = true) : Stable guard base.content query (answer, after) := by
  obtain ⟨still, shown, fits⟩ := stable
  obtain ⟨_, _, same, _, fits⟩ := relates_bundle.mp fits
  cases same
  exact ⟨still, shown, forall₂_get fits found (List.getElem?_set_self bound) seen⟩

theorem Stable.data {inner latest : Snapshot Entity} {query : Query} {answer : Answer}
    {after : Entity} (stable : Stable guard (.snapshot latest) query
      (answer, .snapshot {inner with data := after})) :
    Stable guard latest.data query (answer, after) := by
  obtain ⟨still, shown, fits⟩ := stable
  obtain ⟨_, same, _, fits, _⟩ := relates_snapshot.mp fits
  cases same
  exact ⟨still, shown, fits⟩

private theorem settle_flags_alike (kind : Kind) (alike : Alike entity other) :
    (settle fresh (.flags kind) other).1 = (settle fresh (.flags kind) entity).1 ∧
      Alike (settle fresh (.flags kind) entity).2 (settle fresh (.flags kind) other).2 := by
  have kinds : other.kind = entity.kind := alike.kind_eq
  have flags := alike.flags_eq
  by_cases fits : entity.kind = kind <;> simp [settle, act, kinds, flags, fits, alike]

private theorem settle_timestamp_alike (copy : CopyOf guard base entity)
    (copy' : CopyOf guard' latest other) (alike : Alike entity other)
    (safe : base = latest ∨
      Stable guard latest .timestamp ((settle fresh .timestamp entity).map (Option.map .ok) id)) :
    (settle fresh .timestamp other).1 = (settle fresh .timestamp entity).1 ∧
      Alike (settle fresh .timestamp entity).2 (settle fresh .timestamp other).2 := by
  cases entity with
  | snapshot inner =>
    obtain ⟨inner', rfl, _⟩ := relates_snapshot.mp alike
    rcases safe with rfl | stable
    · cases base with
      | snapshot base =>
        obtain ⟨_, same, time, _⟩ := relates_snapshot.mp copy
        cases same
        obtain ⟨_, same, time', _⟩ := relates_snapshot.mp copy'
        cases same
        refine ⟨?_, alike⟩
        simp only [settle, act]
        rw [time, time']
      | _ => exact copy.elim
    · exact (stable.shown _ rfl).elim
  | _ => cases other <;> first | exact ⟨rfl, alike⟩ | exact alike.elim

private theorem settle_request_alike (asked : Request) (named : guard.seed fresh)
    (copy : CopyOf guard base entity) (copy' : CopyOf guard' latest other)
    (alike : Alike entity other)
    (safe : base = latest ∨ Stable guard latest (.request asked)
      ((settle fresh (.request asked) entity).map (Option.map .ok) id)) :
    (settle fresh (.request asked) other).1 = (settle fresh (.request asked) entity).1 ∧
      Alike (settle fresh (.request asked) entity).2 (settle fresh (.request asked) other).2 := by
  have idle : (none : Option Finding) = none ∧ Alike entity other := ⟨rfl, alike⟩
  cases base with
  | cell inner =>
    obtain ⟨cell, rfl, copied⟩ := relates_cell.mp copy
    obtain ⟨cell', rfl, alike⟩ := relates_cell.mp alike
    cases latest with
    | cell inner' =>
      cases asked with
      | cell request =>
        obtain ⟨answer, alike⟩ := Cell.perform_alike copied copy' alike request (safe.imp
          Entity.cell.inj fun stable => stable.fits)
        refine ⟨?_, alike⟩
        simp only [settle, act, perform, Option.map_some, Prod.map_fst]
        rw [answer]
      | _ => exact idle
    | _ => exact copy'.elim
  | table inner =>
    obtain ⟨table, rfl, copied⟩ := relates_table.mp copy
    obtain ⟨table', rfl, alike⟩ := relates_table.mp alike
    cases latest with
    | table inner' =>
      cases asked with
      | table request =>
        obtain ⟨answer, alike⟩ := Table.perform_alike copied copy' alike request (safe.imp
          Entity.table.inj fun stable => ⟨stable.still, stable.shown _ rfl, stable.fits⟩)
        refine ⟨?_, alike⟩
        simp only [settle, act, perform, Option.map_some, Prod.map_fst]
        rw [answer]
      | _ => exact idle
    | _ => exact copy'.elim
  | multimap inner =>
    obtain ⟨multimap, rfl, copied⟩ := relates_multimap.mp copy
    obtain ⟨multimap', rfl, alike⟩ := relates_multimap.mp alike
    cases latest with
    | multimap inner' =>
      cases asked with
      | multimap request =>
        obtain ⟨answer, alike⟩ := Multimap.perform_alike copied copy' (fun _ => named) alike
          request (safe.imp (fun same => congrArg Multimap.table (Entity.multimap.inj same))
            fun stable => ⟨stable.still, stable.shown _ rfl, stable.fits⟩)
        refine ⟨?_, alike⟩
        simp only [settle, act, perform, Option.map_some, Prod.map_fst]
        rw [answer]
      | _ => exact idle
    | _ => exact copy'.elim
  | queue inner =>
    obtain ⟨queue, rfl, copied⟩ := relates_queue.mp copy
    obtain ⟨queue', rfl, alike⟩ := relates_queue.mp alike
    cases latest with
    | queue inner' =>
      cases asked with
      | queue request =>
        obtain ⟨answer, alike⟩ := Queue.perform_alike copied copy' alike request (safe.imp
          Entity.queue.inj fun stable => ⟨stable.shown _ rfl, stable.fits⟩)
        refine ⟨?_, alike⟩
        simp only [settle, act, perform, Option.map_some, Prod.map_fst]
        rw [answer]
      | _ => exact idle
    | _ => exact copy'.elim
  | bundle slots rule =>
    obtain ⟨_, _, rfl, _⟩ := relates_bundle.mp copy
    obtain ⟨_, _, rfl, _⟩ := relates_bundle.mp alike
    cases asked <;> exact idle
  | snapshot inner =>
    obtain ⟨snapshot, rfl, _, _, copied⟩ := relates_snapshot.mp copy
    obtain ⟨snapshot', rfl, time, data, alike⟩ := relates_snapshot.mp alike
    cases latest with
    | snapshot inner' =>
      obtain ⟨_, same, _, _, copied'⟩ := relates_snapshot.mp copy'
      cases same
      cases asked with
      | globals request =>
        obtain ⟨answer, alike⟩ := Table.perform_alike copied copied' alike request (safe.imp
          (fun same => congrArg Snapshot.globals (Entity.snapshot.inj same)) Stable.globals)
        refine ⟨?_, relates_snapshot.mpr ⟨_, rfl, time, data, alike⟩⟩
        simp only [settle, act, perform, Option.map_some, Prod.map_fst]
        rw [answer]
      | _ => exact idle
    | _ => exact copy'.elim

theorem settle_alike (query : Query) (named : guard.seed fresh)
    (copy : CopyOf guard base entity) (copy' : CopyOf guard' latest other)
    (alike : Alike entity other)
    (safe : base = latest ∨
      Stable guard latest query ((query.settle fresh entity).map (Option.map .ok) id)) :
    (query.settle fresh other).1 = (query.settle fresh entity).1 ∧
      Alike (query.settle fresh entity).2 (query.settle fresh other).2 := by
  cases query with
  | request asked => exact settle_request_alike asked named copy copy' alike safe
  | flags kind => exact settle_flags_alike kind alike
  | timestamp => exact settle_timestamp_alike copy copy' alike safe

end Query

def Guard.free : Guard where
  value := fun _ => True
  seed := fun _ => True
  child := fun _ _ => trivial
  clearing := True

theorem Query.marked_free (query : Query) : query.Marked .free := by
  cases query with
  | request asked =>
    cases asked with
    | cell request => cases request <;> trivial
    | table request => cases request <;> first | trivial | exact fun _ _ => trivial
    | multimap request => cases request <;> trivial
    | queue request => trivial
    | globals request => cases request <;> first | trivial | exact fun _ _ => trivial
  | flags kind => trivial
  | timestamp => trivial

end TransactionalMemory
