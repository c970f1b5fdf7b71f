/-!
# Native functions

The functions that guest programs are given.  A native is known to guests and in messages by its
name, and in stored values by its tag; `Native.ofTag?` finds it again.
-/

namespace VirtualComputer

inductive Native where
  | add
  | sub
  | mul
  | div
  | mod
  | eq
  | ne
  | lt
  | lte
  | gt
  | gte
  | not
  | neg
  | len
  | str
  | type
  | push
  | error
  | defer
  | clock
  | time
  | uptime
  | freeMemory
  | totalMemory
  | address
  | bootAddress
  | print
  | invoke
  | send
  | peerName
  | persist
  | unpersist
  deriving DecidableEq, Repr

namespace Native

/-- The name that guests and messages use. -/
def name : Native → String
  | .add => "add"
  | .sub => "sub"
  | .mul => "mul"
  | .div => "div"
  | .mod => "mod"
  | .eq => "eq"
  | .ne => "ne"
  | .lt => "lt"
  | .lte => "lte"
  | .gt => "gt"
  | .gte => "gte"
  | .not => "not"
  | .neg => "neg"
  | .len => "len"
  | .str => "str"
  | .type => "type"
  | .push => "push"
  | .error => "error"
  | .defer => "defer"
  | .clock => "computer.clock"
  | .time => "computer.time"
  | .uptime => "computer.uptime"
  | .freeMemory => "computer.freeMemory"
  | .totalMemory => "computer.totalMemory"
  | .address => "computer.address"
  | .bootAddress => "computer.bootAddress"
  | .print => "print"
  | .invoke => "component.invoke"
  | .send => "component.send"
  | .peerName => "component.name"
  | .persist => "persistence.persist"
  | .unpersist => "persistence.unpersist"

/-- The name under which a native is stored. -/
def tag : Native → String
  | .add => "Add"
  | .sub => "Sub"
  | .mul => "Mul"
  | .div => "Div"
  | .mod => "Mod"
  | .eq => "Eq"
  | .ne => "Ne"
  | .lt => "Lt"
  | .lte => "Lte"
  | .gt => "Gt"
  | .gte => "Gte"
  | .not => "Not"
  | .neg => "Neg"
  | .len => "Len"
  | .str => "Str"
  | .type => "Type"
  | .push => "Push"
  | .error => "Error"
  | .defer => "Defer"
  | .clock => "ComputerClock"
  | .time => "ComputerTime"
  | .uptime => "ComputerUptime"
  | .freeMemory => "ComputerFreeMemory"
  | .totalMemory => "ComputerTotalMemory"
  | .address => "ComputerAddress"
  | .bootAddress => "ComputerBootAddress"
  | .print => "Print"
  | .invoke => "ComponentInvoke"
  | .send => "ComponentSend"
  | .peerName => "ComponentName"
  | .persist => "Persist"
  | .unpersist => "Unpersist"

/-- Every native, in the order of their declaration. -/
def all : List Native := [
  .add, .sub, .mul, .div, .mod, .eq, .ne, .lt, .lte, .gt, .gte, .not, .neg, .len, .str, .type,
  .push, .error, .defer, .clock, .time, .uptime, .freeMemory, .totalMemory, .address,
  .bootAddress, .print, .invoke, .send, .peerName, .persist, .unpersist]

/-- The native stored under a tag. -/
def ofTag? (tag : String) : Option Native :=
  all.find? fun n => n.tag = tag

/-- The native with a name. -/
def ofName? (name : String) : Option Native :=
  all.find? fun n => n.name = name

/-- Whether a native may run only while the machine is held still for it. -/
def isSynchronized : Native → Bool
  | .send => true
  | _ => false

/-- The natives that guests find under their own names. -/
def builtins : List Native := [
  .add, .sub, .mul, .div, .mod, .eq, .ne, .lt, .lte, .gt, .gte, .not, .neg, .len, .str, .type,
  .push, .error, .defer, .print]

end Native

end VirtualComputer
