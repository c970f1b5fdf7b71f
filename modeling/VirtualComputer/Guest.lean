import VirtualComputer.Guest.Library

/-!
# Guests

A guest is what a machine runs: the globals, the entry points that its boot program published, the
kernel coroutine, and one slot for a call that the kernel asked the world to make.  `Guest.resume`
runs the kernel to its next `yield`, `Guest.invoke` makes the call, and its result goes back with
the next resume.  `Guest.used` counts the memory in use and is kept up to date by both.
-/

namespace VirtualComputer

structure Guest where
  globals : Entries Val
  /-- What the boot program returned. -/
  entryPoints : Entries Val
  kernel : Option Val
  /-- The call that the kernel asked for, or its result once it has been made. -/
  pending : Option Val
  /-- The memory ceiling, if there is one. -/
  limit : Option Nat
  used : Nat

/-- What a resume delivers to the kernel. -/
inductive Delivery where
  | nothing
  | signal (s : Signal)
  /-- The result of the pending call. -/
  | result

/-- What the kernel asks for by the value it yields. -/
inductive Wish where
  | sleep (seconds : Float)
  /-- To make the call in the pending slot. -/
  | call
  | shutdown (reboot : Bool)
  | other

/-- What a resume of the kernel has come to. -/
inductive Progress where
  | yielded (wish : Wish)
  /-- The kernel returned. -/
  | returned
  /-- The kernel ended with an error, which may carry a text. -/
  | failed (text : Option String)
  /-- A kernel that is not guarded ended. -/
  | left

/-- The text of an error value, if it has one. -/
def Val.errorText? : Val → Option String
  | .null => none
  | .error _ message => some message
  | v => some v.shown

namespace Guest

def empty : Guest where
  globals := []
  entryPoints := []
  kernel := none
  pending := none
  limit := none
  used := 0

/-! ## Memory -/

/-- The bytes of a slot. -/
def slotFootprint (slot : Option Val) : Nat :=
  slot.elim 0 Val.footprint

/-- The bytes of everything but the kernel. -/
def baseline (g : Guest) : Nat :=
  tableFootprint g.globals + tableFootprint g.entryPoints + slotFootprint g.pending

/-- The bytes of everything. -/
def measure (g : Guest) : Nat :=
  g.baseline + slotFootprint g.kernel

/-- The guest with its memory measured anew. -/
def remeasured (g : Guest) : Guest :=
  { g with used := g.measure }

/-! ## Setting up -/

/-- Installs the library of globals. -/
def install (timeout : Float) (drivers : Entries String) (g : Guest) : Guest :=
  remeasured { g with globals := library timeout drivers }

/-- Puts a program into the kernel slot, as a guarded coroutine that has not started. -/
def load (program : Stmt) (g : Guest) : Guest :=
  { g with kernel := some (.thread (Coroutine.ofProgram program true)), pending := none }

variable {σ : Type}

/-- The table that a boot program leaves, by the outcome of its run. -/
def bootTable : Outcome → Except Fault (Entries Val)
  | .returned (.obj table) => .ok table
  | .returned .null => .ok []
  | .returned v => .error (.protocol ("boot payload returned a " ++ v.kind.name))
  | .yielded _ => .error (.protocol "boot payload yielded")
  | .threw e => .error (.runtime (e.errorText?.getD "boot failed"))

/-- Runs a boot program to its end and keeps the entry points that it returns. -/
def boot (host : Host σ) (steps : Nat) (program : Stmt) (g : Guest) (world : σ) :
    Except Fault Unit × Guest × σ :=
  let rt := Runtime.ofHost host g.globals 0 ⟨none, false⟩
  let (r, _, s) := (Coroutine.ofProgram program false).resume rt steps .null ⟨0, world⟩
  match r.bind bootTable with
  | .ok table => (.ok (), remeasured { g with entryPoints := table }, s.world)
  | .error f => (.error f, g, s.world)

/-! ## Resuming the kernel -/

/-- The value to deliver, beside the guest whose pending slot has been emptied for it. -/
def delivery (d : Delivery) (g : Guest) : Except Fault Val × Guest :=
  let emptied := { g with pending := none }
  match d with
  | .nothing => (.ok (.list []), emptied)
  | .signal s => (.ok (.list (.str s.name :: s.args.map Val.ofScalar)), emptied)
  | .result =>
    match g.pending with
    | some (.list items) => (.ok (.list items), emptied)
    | some v => (.error (.protocol ("expected a call result, found a " ++ v.kind.name)), emptied)
    | none => (.error (.internal "no call result to deliver"), emptied)

/-- What the kernel wants by a value that it yields. -/
def wish (v : Val) : Wish :=
  match v with
  | .num seconds => .sleep seconds
  | .bool reboot => .shutdown reboot
  | v => if v.isCallable then .call else .other

/-- The progress that an outcome stands for, and the guest with a call that it asks for parked in
the pending slot. -/
def progress (guarded : Bool) (o : Outcome) (g : Guest) : Progress × Guest :=
  match o with
  | .yielded v =>
    let parked := { g with used := g.used + v.footprint, pending := some v }
    (.yielded (wish v), if v.isCallable then parked else g)
  | .returned _ => (if guarded then .returned else .left, g)
  | .threw e => (if guarded then .failed e.errorText? else .left, g)

/-- Resumes a coroutine as the kernel. -/
def resumeThread (host : Host σ) (steps : Nat) (delivered : Val) (thread : Thread) (g : Guest)
    (world : σ) : Except Fault Progress × Guest × σ :=
  let base := g.baseline
  let rt := Runtime.ofHost host g.globals base ⟨g.limit, false⟩
  let (r, thread, s) := thread.resume rt steps delivered ⟨base + thread.footprint, world⟩
  let g := { g with kernel := some (.thread thread), used := base + thread.footprint }
  match r with
  | .ok o =>
    let (p, g) := progress thread.guarded o g
    (.ok p, g, s.world)
  | .error f => (.error f, g, s.world)

/-- Runs the kernel to its next `yield` or its end. -/
def resume (host : Host σ) (steps : Nat) (d : Delivery) (g : Guest) (world : σ) :
    Except Fault Progress × Guest × σ :=
  match g.delivery d with
  | (.error f, g) => (.error f, g, world)
  | (.ok delivered, g) =>
    match g.kernel with
    | some (.thread thread) => resumeThread host steps delivered thread g world
    | _ => (.error (.internal "slot 1 does not hold a coroutine"), g, world)

/-! ## The pending call -/

/-- Keeps the result of a call, which must be a list. -/
def keepResult (r : Except Val Val) (g : Guest) : Except Fault Unit × Guest :=
  match r with
  | .ok (.list items) =>
    let g := remeasured { g with pending := some (.list items) }
    (if g.limit.all (g.used ≤ ·) then .ok () else .error .allocationLimit, g)
  | .ok v => (.error (.protocol ("synchronized call returned a " ++ v.kind.name)), g)
  | .error e => (.error (.runtime (e.errorText?.getD "call failed")), g)

/-- Makes the pending call, whose result takes its place. -/
def invoke (host : Host σ) (g : Guest) (world : σ) : Except Fault Unit × Guest × σ :=
  let emptied := { g with pending := none }
  match g.pending with
  | none => (.error (.internal "no pending call"), emptied, world)
  | some v =>
    match v.callable? with
    | none =>
      (.error (.protocol ("pending call slot holds a " ++ v.kind.name)), emptied, world)
    | some (n, args) =>
      let (r, s) := n.call host ⟨g.limit, true⟩ args ⟨0, world⟩
      let (r, g) := keepResult r emptied
      (r, g, s.world)

/-! ## Entry points -/

/-- Calls an entry point without a host; `none` if there is no callable of that name. -/
def callEntryPoint (name : String) (args : List Val) (g : Guest) : Except Fault (Option Val) :=
  match (Entries.get? name g.entryPoints).bind Val.callable? with
  | none => .ok none
  | some (n, first) =>
    match n.apply (first ++ args) with
    | .ok v => .ok (some v)
    | .error m => .error (.runtime (m.toVal.errorText?.getD (name ++ " failed")))

end Guest

end VirtualComputer
