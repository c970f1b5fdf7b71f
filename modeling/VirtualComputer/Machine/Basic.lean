import VirtualComputer.Machine.Catalog
import VirtualComputer.Machine.Ledger
import VirtualComputer.Machine.Queue
import VirtualComputer.Machine.Site

/-!
# Machines

A machine binds a guest to its lifecycle state, its queue of signals and its accounts.  The world
drives it by updates; the guest is resumed by tasks that wait for a worker.  Every teardown begins
a new epoch, and a task that was queued in an older one is void.
-/

namespace VirtualComputer

structure Machine (ν : Type) where
  state : State
  guest : Option Guest
  /-- Whether a resume is outstanding: queued, or under way. -/
  task : Bool
  epoch : Nat
  /-- The epochs of the tasks that wait for a worker. -/
  waiting : List Nat
  /-- What a worker is about to deliver to the guest, while it is inside a resume. -/
  inside : Option Delivery
  queue : SignalQueue
  ledger : Ledger
  catalog : Catalog
  /-- The wall clock at the latest update. -/
  lastUpdate : Int
  /-- When a sleep ends, if it ends by itself. -/
  wakeAt : Option Int
  /-- Whether there has been an update since the run began. -/
  updated : Bool
  /-- Whether a run has begun whose end has not been announced. -/
  announced : Bool
  /-- The text of a failure that has not been shown yet. -/
  message : Option String
  /-- The state of the world around the machine. -/
  outside : ν
  /-- What the machine has told the world, in order. -/
  told : List Event

namespace Machine

variable {ν : Type}

/-- A machine that has never run. -/
def fresh (site : Site ν) (catalog : Catalog) (outside : ν) : Machine ν where
  state := .stopped
  guest := none
  task := false
  epoch := 0
  waiting := []
  inside := none
  queue := .empty site.settings.queueCapacity
  ledger := .empty
  catalog
  lastUpdate := site.now outside
  wakeAt := none
  updated := false
  announced := false
  message := none
  outside
  told := []

/-- The machine after it has told the world something. -/
def tell (e : Event) (m : Machine ν) : Machine ν :=
  { m with told := m.told ++ [e] }

/-- The machine after it has told the world several things. -/
def tellAll (es : List Event) (m : Machine ν) : Machine ν :=
  { m with told := m.told ++ es }

/-! ## Tasks and teardown -/

/-- Moves to a state and queues a resume.  There is never more than one outstanding. -/
def schedule (next : State) (m : Machine ν) : Machine ν :=
  if m.task then m.tell (.noticed .resumeOutstanding)
  else { m with
    wakeAt := none
    state := next
    task := true
    waiting := m.waiting ++ [m.epoch] }

/-- Releases the guest and begins a new epoch. -/
def close (m : Machine ν) : Machine ν :=
  let m := { m with epoch := m.epoch + 1 }
  if m.state = .stopped && m.guest.isNone then m
  else { m with
    guest := none
    ledger := m.ledger.reset
    queue := m.queue.clear
    task := false
    state := .stopped
    wakeAt := none }

/-- Ends the run with a message for the displays. -/
def crash (message : String) (m : Machine ν) : Machine ν :=
  { m with message := some message }.close.tell .marked

/-! ## Operations that never wait for the guest -/

/-- Whether a run has begun and been updated since. -/
def isRunning (m : Machine ν) : Bool :=
  m.state ≠ .stopped && m.updated

/-- Queues a signal, and whether it was accepted. -/
def signal (s : Signal) (m : Machine ν) : Bool × Machine ν :=
  if m.state = .stopped || m.state = .stopping then (false, m)
  else
    let (accepted, queue) := m.queue.push s
    (accepted, { m with queue })

/-- Stops the run, and whether there was one.  A resume that is outstanding finishes first. -/
def stop (m : Machine ν) : Bool × Machine ν :=
  if m.state = .stopped then (false, m)
  else if m.state = .stopping then (true, m)
  else if m.state = .running || m.task then (true, { m with state := .stopping })
  else (true, m.close)

end Machine

end VirtualComputer
