import VirtualComputer.Machine.Pool

/-!
# The console

A machine is driven from the console for a number of ticks, on a network with one node, which
answers every call with its arguments.  A tick lasts as long as the settings say, on a clock that
begins with the run.
-/

namespace VirtualComputer

/-- The world around a machine that is driven from the console. -/
structure Console where
  /-- The time of the world, in ticks. -/
  ticks : Int
  /-- The milliseconds since the begin. -/
  clock : Int

namespace Console

/-- The address of the node that echoes. -/
def echoAddress : String := "loopback"

/-- The number of columns of the display. -/
def width : Nat := 50

/-- The site of a machine with an address. -/
def site (address : String) (settings : MachineSettings) (steps : Nat) : Site Console where
  address
  settings
  steps
  worldTime c := c.ticks
  now c := c.clock
  elapsed _ := 10000
  peers _ := [echoAddress]
  nodeName a _ := if a = echoAddress then some "echo" else none
  call target _ args c := .answer (if target = echoAddress then some args else none) c
  displays _ := [width]

/-- The milliseconds of a tick. -/
def tickLength (settings : MachineSettings) : Int :=
  1000 / max 1 (settings.ticksPerSecond : Int)

/-- A pool of one machine, which has not run yet. -/
def pool (site : Site Console) (catalog : Catalog) : Pool Console :=
  ⟨[(site, .fresh site catalog ⟨0, 0⟩)], [], []⟩

/-- Changes the one machine of a pool. -/
def change (f : Site Console → Machine Console → Machine Console) (p : Pool Console) :
    Pool Console :=
  (p.operate 0 fun site m => ((), f site m)).2

/-- The machine begins a tick with the next time of the world. -/
def beginTick (site : Site Console) (m : Machine Console) : Machine Console :=
  { m with outside := { m.outside with ticks := m.outside.ticks + 1 } }.update site

/-- The clock at the end of a tick. -/
def endTick (site : Site Console) (m : Machine Console) : Machine Console :=
  { m with outside := { m.outside with clock := m.outside.clock + tickLength site.settings } }

/-- Drives the machine for one tick, and queues signals for it. -/
def tick (signals : List Signal) (p : Pool Console) : Pool Console :=
  let p := change beginTick p
  let p := signals.foldl (fun p s => change (fun _ m => (m.signal s).2) p) p
  change endTick p.settle

/-- Drives the machine for a number of ticks, with signals in the first of them. -/
def drive (signals : List Signal) : Nat → Pool Console → Pool Console
  | 0, p => p
  | n + 1, p => drive [] n (tick signals p)

end Console

end VirtualComputer
