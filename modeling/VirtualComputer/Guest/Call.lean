import VirtualComputer.Guest.Mistake
import VirtualComputer.Guest.Record
import VirtualComputer.Guest.Shape

/-!
# Calling natives

Most natives depend on nothing but their arguments, and `Native.apply` calls them.  The others ask
a host, a record of services over a state of its own; `Native.call` calls any native with a host.
A native that is synchronized is refused unless the world is held still for the call.
-/

namespace VirtualComputer

/-! ## Arguments -/

namespace Native

/-- The first argument. -/
def arg1 (n : Native) : List Val → Except Mistake Val
  | v :: _ => .ok v
  | [] => .error (.missingArgs n 1 0)

/-- The first two arguments. -/
def arg2 (n : Native) : List Val → Except Mistake (Val × Val)
  | v :: w :: _ => .ok (v, w)
  | args => .error (.missingArgs n 2 args.length)

/-- The argument at a place, which must be a string. -/
def stringArg (n : Native) (args : List Val) (place : Nat) : Except Mistake String :=
  match args[place]? with
  | some (.str s) => .ok s
  | some v => .error (.wrongType n "string" v.kind)
  | none => .error (.missingArgs n (place + 1) args.length)

/-! ## Natives that need no host -/

/-- Adds numbers, joins lists, or joins the texts of two values of which one is a string. -/
def sum (args : List Val) : Except Mistake Val := do
  match ← arg2 .add args with
  | (.num x, .num y) => return .num (x + y)
  | (.list vs, .list ws) => return .list (vs ++ ws)
  | (v@(.str _), w) => return .str (v.shown ++ w.shown)
  | (v, w@(.str _)) => return .str (v.shown ++ w.shown)
  | (v, .num _) => throw (.wrongType .add "number or string" v.kind)
  | (_, w) => throw (.wrongType .add "number or string" w.kind)

/-- An operation on two numbers. -/
def arithmetic (n : Native) (args : List Val) (f : Float → Float → Except Mistake Float) :
    Except Mistake Val := do
  match ← n.arg2 args with
  | (.num x, .num y) => return .num (← f x y)
  | (.num _, w) => throw (.wrongType n "number" w.kind)
  | (v, _) => throw (.wrongType n "number" v.kind)

/-- A comparison of two numbers or of two strings. -/
def comparison (n : Native) (args : List Val) (numbers : Float → Float → Bool)
    (strings : String → String → Bool) : Except Mistake Val := do
  match ← n.arg2 args with
  | (.num x, .num y) => return .bool (numbers x y)
  | (.str s, .str t) => return .bool (strings s t)
  | (v, w) => throw (.incomparable v.kind w.kind)

/-- A callable with further arguments. -/
def deferred : List Val → Except Mistake Val
  | .native n :: args => .ok (.bound n args)
  | .bound n first :: args => .ok (.bound n (first ++ args))
  | v :: _ => .error (.wrongType .defer "function" v.kind)
  | [] => .error (.missingArgs .defer 1 0)

/-- The result of a native that needs no host; the others are not available. -/
def apply (n : Native) (args : List Val) : Except Mistake Val :=
  match n with
  | .add => sum args
  | .sub => n.arithmetic args fun x y => .ok (x - y)
  | .mul => n.arithmetic args fun x y => .ok (x * y)
  | .div => n.arithmetic args fun x y =>
    if y == 0 then .error .divisionByZero else .ok (x / y)
  | .mod => n.arithmetic args fun x y =>
    if y == 0 then .error .moduloByZero else .ok (x - (x / y).floor * y)
  | .eq => do
    let (v, w) ← n.arg2 args
    return .bool (v == w)
  | .ne => do
    let (v, w) ← n.arg2 args
    return .bool (!(v == w))
  | .lt => n.comparison args (fun x y => x < y) (fun s t => s < t)
  | .lte => n.comparison args (fun x y => x ≤ y) (fun s t => !(t < s))
  | .gt => n.comparison args (fun x y => y < x) (fun s t => t < s)
  | .gte => n.comparison args (fun x y => y ≤ x) (fun s t => !(s < t))
  | .not => do
    let v ← n.arg1 args
    return .bool !v.truthy
  | .neg => do
    match ← n.arg1 args with
    | .num x => return .num (-x)
    | v => throw (.wrongType n "number" v.kind)
  | .len => do
    match ← n.arg1 args with
    | .str s => return .num (Decimal.ofNat s.length)
    | .list items => return .num (Decimal.ofNat items.length)
    | .obj entries => return .num (Decimal.ofNat entries.length)
    | v => throw (.wrongType n "string, list or object" v.kind)
  | .str => do
    let v ← n.arg1 args
    return .str v.shown
  | .type => do
    let v ← n.arg1 args
    return .str v.kind.name
  | .push => do
    match ← n.arg2 args with
    | (.list items, v) => return .list (items ++ [v])
    | (v, _) => throw (.wrongType n "list" v.kind)
  | .error => throw (.raised ((args.head?.map Val.shown).getD "error"))
  | .defer => deferred args
  | .invoke => do
    let _ ← n.stringArg args 0
    let _ ← n.stringArg args 1
    return .bound .send args
  | .persist => do
    let v ← n.arg1 args
    return .str v.store
  | .unpersist => do
    let text ← n.stringArg args 0
    match Val.load? text with
    | some v => return v
    | none => throw (.unreadable (Stored.complaint text))
  | .clock | .time | .uptime | .freeMemory | .totalMemory | .address | .bootAddress | .print
  | .send | .peerName => throw (.unavailable n)

end Native

/-! ## Natives that ask a host -/

/-- The services of the world around a guest, over a state of its own. -/
structure Host (σ : Type) where
  /-- Seconds of processor time that the guest has used. -/
  clock : σ → Float
  /-- The time of the world, in ticks. -/
  worldTime : σ → Float
  /-- Seconds since the run started. -/
  uptime : σ → Float
  /-- The bytes that a user program may use in total. -/
  totalMemory : σ → Float
  address : σ → String
  bootAddress : σ → Option String
  /-- The name of a component, if it has one. -/
  peerName : String → σ → Option String
  print : String → σ → σ
  /-- Sends a message to a component; nothing is answered if there is no such component. -/
  send : String → String → List Scalar → σ → Option (List Scalar) × σ
  /-- The state after a native has read a time. -/
  later : Native → σ → σ := fun _ s => s

/-- The memory in use, beside the state of the world. -/
structure Session (σ : Type) where
  used : Nat
  world : σ

/-- The conditions of a call. -/
structure Conditions where
  /-- The memory ceiling, if there is one. -/
  limit : Option Nat
  /-- Whether the world is held still for the call. -/
  synchronized : Bool

namespace Native

variable {σ : Type}

/-- The bytes left under the ceiling, or the total where there is none. -/
def free (limit : Option Nat) (used : Nat) (total : Float) : Float :=
  match limit with
  | some limit => Decimal.ofNat (limit - used)
  | none => total

/-- The arguments of a message; only scalars can be sent. -/
def payload (args : List Val) : Except Mistake (List Scalar) :=
  args.mapM fun v => match v.toScalar with
    | .ok a => .ok a
    | .error k => .error (.unsendable k)

/-- A container with the results of a message, or with the reason why there are none. -/
def container : Option (List Scalar) → Val
  | some results => .list (.bool true :: results.map Val.ofScalar)
  | none => .list [.bool false, .str "no such component"]

/-- The target, method and arguments of a message. -/
def message (args : List Val) : Except Mistake (String × String × List Scalar) := do
  let target ← stringArg .send args 0
  let method ← stringArg .send args 1
  return (target, method, ← payload (args.drop 2))

/-- The error value of a mistake, beside an unchanged state. -/
def settle (r : Except Mistake Val) (s : Session σ) : Except Val Val × Session σ :=
  match r with
  | .ok v => (.ok v, s)
  | .error m => (.error m.toVal, s)

/-- A time that a native has read, beside the state after that. -/
def reading (host : Host σ) (n : Native) (time : Float) (s : Session σ) :
    Except Val Val × Session σ :=
  (.ok (.num time), { s with world := host.later n s.world })

/-- Calls a native with a host. -/
def call (host : Host σ) (c : Conditions) (n : Native) (args : List Val) (s : Session σ) :
    Except Val Val × Session σ :=
  if n.isSynchronized && !c.synchronized then (.error (Mistake.synchronizedOnly n).toVal, s)
  else match n with
    | .clock => reading host n (host.clock s.world) s
    | .time => reading host n (host.worldTime s.world) s
    | .uptime => reading host n (host.uptime s.world) s
    | .freeMemory => (.ok (.num (free c.limit s.used (host.totalMemory s.world))), s)
    | .totalMemory => (.ok (.num (host.totalMemory s.world)), s)
    | .address => (.ok (.str (host.address s.world)), s)
    | .bootAddress => (.ok ((host.bootAddress s.world).elim .null .str), s)
    | .print =>
      let text := " ".intercalate (args.map Val.shown)
      (.ok .null, { s with world := host.print text s.world })
    | .peerName =>
      settle ((n.stringArg args 0).map fun a => (host.peerName a s.world).elim .null .str) s
    | .send =>
      match message args with
      | .error m => (.error m.toVal, s)
      | .ok (target, method, payload) =>
        let (results, world) := host.send target method payload s.world
        (.ok (container results), { s with world })
    | _ => settle (n.apply args) s

end Native

end VirtualComputer
