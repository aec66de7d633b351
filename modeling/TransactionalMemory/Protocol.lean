/-! The two ways to copy an entity and the two ways to merge a copy back. -/
namespace TransactionalMemory

/-- A clean copy starts from the committed content; a dirty copy carries the log and the
pending writes along. -/
inductive CopyMode where
  | clean
  | dirty
deriving DecidableEq

/-- A merge takes over either the whole branch or only what the branch has read. -/
inductive MergeMode where
  | everything
  | readsOnly
deriving DecidableEq

end TransactionalMemory
