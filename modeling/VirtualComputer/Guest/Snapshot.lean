import VirtualComputer.Guest
import VirtualComputer.Text.Utf8

/-!
# Snapshots of guest values

Values are written to bytes and read back by the entry points `persist` and `unpersist` that the
boot program published.  What these return is not looked into, so a snapshot is only as good as
they are.
-/

namespace VirtualComputer

/-- Why a snapshot has been left empty. -/
inductive SnapshotWarning where
  | notText (kind : Kind)
  | noEntryPoint
  | failed (fault : Fault)

namespace Guest

/-- The bytes of a value, none if the guest cannot write it. -/
def persist (v : Val) (g : Guest) : Bytes × Option SnapshotWarning :=
  match g.callEntryPoint "persist" [v] with
  | .ok (some (.str text)) => (Utf8.encode text, none)
  | .ok (some v) => ([], some (.notText v.kind))
  | .ok none => ([], some .noEntryPoint)
  | .error f => ([], some (.failed f))

/-- The value of bytes; `none` if the guest has no way to read them. -/
def restore (bytes : Bytes) (g : Guest) : Except Fault (Option Val) :=
  match Utf8.decode bytes with
  | .error d => .error (.protocol ("snapshot is not text: " ++ d.message))
  | .ok text => g.callEntryPoint "unpersist" [.str text]

end Guest

end VirtualComputer
