import TransactionalMemory.Memory

/-! Values hosted outside of the client data, in the table of globals that travels with every
snapshot. A handle names one of them by its number and fixes the kind of its value. -/
namespace TransactionalMemory

structure GlobalHandle where
  memory : Nat
  /-- A word of 64 bits, kept as a number; the two agree below 2 ^ 64. -/
  id : Nat
  kind : Value.Kind

namespace GlobalHandle

/-- A stored value of another kind is refused. -/
def cast (handle : GlobalHandle) : Option (Object Value) → Except Failure (Option Value)
  | none => .ok none
  | some object =>
    if object.content.kind = handle.kind then .ok (some object.content)
    else .error (.breach .globalSort)

def get (handle : GlobalHandle) (snapshot : Snapshot Entity) :
    Except Failure (Option Value) × Snapshot Entity :=
  (snapshot.globals.get handle.id).map handle.cast fun globals => {snapshot with globals}

def set (handle : GlobalHandle) (object : Object Value) (snapshot : Snapshot Entity) :
    Except Failure (Option Value) × Snapshot Entity :=
  (snapshot.globals.put handle.id object).map handle.cast fun globals => {snapshot with globals}

def host (id : Nat) (object : Object Value) (snapshot : Snapshot Entity) :
    Except Failure Unit × Snapshot Entity :=
  (.ok (), {snapshot with globals := (snapshot.globals.put id object).2})

def evict (id : Nat) (snapshot : Snapshot Entity) : Except Failure Unit × Snapshot Entity :=
  (.ok (), {snapshot with globals := (snapshot.globals.remove id).2})

end GlobalHandle
end TransactionalMemory
