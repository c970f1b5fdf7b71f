import VirtualComputer.Machine.Basic

/-!
# Messages to a machine

Changes of the network become signals while the machine runs.  The commands `computer.start`,
`computer.stop` and `computer.running` are answered by a truth value, and `computer.signal` passes
a signal on.  Other messages are ignored.
-/

namespace VirtualComputer

/-- The address that a message is about: its first datum if that is a string, else the sender. -/
def Message.peer (msg : Message) : String :=
  match msg.data with
  | .str address :: _ => address
  | _ => msg.source

namespace Machine

variable {ν : Type}

/-- Passes a change of the network on to the guest while the machine runs. -/
def relay (s : Signal) (m : Machine ν) : Option Scalar × Machine ν :=
  if m.isRunning then (none, (m.signal s).2) else (none, m)

/-- Handles a message, where `start` starts the machine. -/
def handle (start : Machine ν → Bool × Machine ν) (msg : Message) (m : Machine ν) :
    Option Scalar × Machine ν :=
  match msg.name with
  | "network.connect" => m.relay ⟨"component_added", [.str msg.peer]⟩
  | "network.disconnect" => m.relay ⟨"component_removed", [.str msg.peer]⟩
  | "network.reconnect" =>
    m.relay ⟨"component_changed", [.str msg.peer, msg.data[1]?.getD .nothing]⟩
  | "computer.signal" =>
    match msg.data with
    | .str name :: args => (none, (m.signal ⟨name, .str msg.source :: args⟩).2)
    | _ => (none, m)
  | "computer.start" =>
    let (b, m) := start m
    (some (.bool b), m)
  | "computer.stop" =>
    let (b, m) := m.stop
    (some (.bool b), m)
  | "computer.running" => (some (.bool m.isRunning), m)
  | _ => (none, m)

/-- Grants a request made during a call.  A machine that is calling is not stopped, so that it
cannot be started. -/
def grant (r : Request) (m : Machine ν) : Option Scalar × Machine ν :=
  match r with
  | .signal s =>
    let (b, m) := m.signal s
    (some (.bool b), m)
  | .receive msg => m.handle (fun m => (false, m)) msg

/-- Carries an exchange to its answer. -/
def converse : Exchange ν → Machine ν → Option (List Scalar) × Machine ν
  | .answer results outside, m => (results, { m with outside })
  | .request r next, m =>
    let (answer, m) := m.grant r
    converse (next answer) (m.tell (.requested r answer))

/-- The ledger that a guest reads.  While a worker is inside a resume, the time since that began
counts although nothing has been charged yet, and the world goes on publishing its clock. -/
def accounts (site : Site ν) (m : Machine ν) : Ledger :=
  if m.inside.isSome then
    { m.ledger.spend (site.elapsed m.outside) with
      worldTime := site.published m.ledger.worldTime m.outside }
  else m.ledger

/-- What a guest finds around it: the services of its machine.  Time goes on only while a worker is
inside a resume; the machine waits for boot programs, for the first resume of a kernel and for
synchronized calls. -/
def host (site : Site ν) : Host (Machine ν) where
  clock m := (accounts site m).clock
  worldTime m := Decimal.ofInt (accounts site m).worldTime
  uptime m := (accounts site m).uptime site.settings.ticksPerSecond
  later n m := if m.inside.isSome then { m with outside := site.later n m.outside } else m
  totalMemory _ := Decimal.ofNat site.settings.memoryBudget
  address _ := site.address
  bootAddress m := m.catalog.address
  peerName address m := site.nodeName address m.outside
  print text m := m.tell (.printed text)
  send target method args m :=
    converse (site.call target method args m.outside) (m.tell (.called target method args))

end Machine

end VirtualComputer
