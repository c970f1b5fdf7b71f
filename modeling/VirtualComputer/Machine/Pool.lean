import VirtualComputer.Machine.Update

/-!
# Machines that share a worker

Tasks of several machines wait for one worker, in the order in which they were queued.  The pool
keeps what its machines tell the world in one order as well.
-/

namespace VirtualComputer

structure Pool (ν : Type) where
  machines : List (Site ν × Machine ν)
  /-- The places of the machines whose tasks wait, in the order of the tasks. -/
  order : List Nat
  /-- What the machines have told the world, with their places. -/
  told : List (Nat × Event)

namespace Pool

variable {ν : Type}

/-- Puts a machine back: takes over what it has told, and lines up the tasks that it has queued
beside those it had. -/
def putBack (place had : Nat) (site : Site ν) (m : Machine ν) (p : Pool ν) : Pool ν where
  machines := p.machines.set place (site, { m with told := [] })
  order := p.order ++ List.replicate (m.waiting.length - had) place
  told := p.told ++ m.told.map fun e => (place, e)

/-- Operates one machine; `none` if there is no such machine. -/
def operate {α : Type} (place : Nat) (f : Site ν → Machine ν → α × Machine ν) (p : Pool ν) :
    Option α × Pool ν :=
  match p.machines[place]? with
  | none => (none, p)
  | some (site, m) =>
    let (a, m') := f site m
    (some a, p.putBack place m.waiting.length site m')

/-- Runs the first task in line. -/
def work (p : Pool ν) : Pool ν :=
  match p.order with
  | [] => p
  | place :: order =>
    match p.machines[place]? with
    | none => { p with order }
    | some (site, m) => { p with order }.putBack place (m.waiting.length - 1) site (m.work site)

/-- Runs tasks while any wait, at most a given number. -/
def workFor : Nat → Pool ν → Pool ν
  | 0, p => p
  | n + 1, p => if p.order.isEmpty then p else workFor n p.work

/-- Runs tasks until none wait.  A task queues another one only to deliver a signal, so that there
are no more of them than waiting tasks and signals. -/
def settle (p : Pool ν) : Pool ν :=
  let signals := (p.machines.flatMap fun (_, m) => m.queue.signals).length
  workFor (p.order.length + signals) p

end Pool

end VirtualComputer
