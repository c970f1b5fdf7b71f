import VirtualComputer.Machine.Event
import VirtualComputer.Settings

/-!
# Sites

The site of a machine is everything around it: its address and settings, and services over a state
of their own.  A node that is called may make requests of the calling machine before it answers,
so a call is an exchange.
-/

namespace VirtualComputer

/-- What a called node does: it answers, or makes a request and goes on with the reply to it. -/
inductive Exchange (ν : Type) where
  /-- The results of the call; none if there is no such node. -/
  | answer (results : Option (List Scalar)) (outside : ν)
  | request (r : Request) (next : Option Scalar → Exchange ν)

structure Site (ν : Type) where
  address : String
  settings : MachineSettings
  /-- A bound on the steps of one resume. -/
  steps : Nat
  /-- The time of the world, in ticks. -/
  worldTime : ν → Int
  /-- The wall clock, in milliseconds. -/
  now : ν → Int
  /-- The nanoseconds since the resume that is under way began. -/
  elapsed : ν → Nat
  /-- The world after a native has read a time during a resume, which goes on meanwhile. -/
  later : Native → ν → ν := fun _ outside => outside
  /-- The world time that is read during a resume; updates may have published others since the
  last one that the machine has noted. -/
  published : Int → ν → Int := fun noted _ => noted
  /-- The addresses of the nodes that the machine is connected to. -/
  peers : ν → List String
  /-- The name of a node, if it can be reached. -/
  nodeName : String → ν → Option String
  /-- Calls a method of a node. -/
  call : (target method : String) → List Scalar → ν → Exchange ν
  /-- The widths of the displays. -/
  displays : ν → List Nat

end VirtualComputer
