import VirtualComputer.Machine.Start
import VirtualComputer.Machine.Task

/-!
# Updates

The world updates a machine once per tick.  An update announces the end of a run, shows the
message of a failure, and moves the run on: it queues a resume, makes the call that the kernel
asked for, or starts again after a reboot.
-/

namespace VirtualComputer

namespace Machine

variable {ν : Type} (site : Site ν)

/-! ## Synchronized calls -/

/-- Goes on after a call that did not succeed. -/
def failCall (f : Fault) (m : Machine ν) : Machine ν :=
  match f with
  | .allocationLimit => (m.tell (.noticed .callOutOfMemory)).crash notEnoughMemory
  | .runtime text => (m.tell (.noticed (.callFailed text))).crash text
  | f => (m.tell (.noticed (.callBroke f))).crash protocolError

/-- Makes the pending call of the guest. -/
def invokePending (m : Machine ν) : Except Fault Unit × Machine ν :=
  match m.guest with
  | none => (.error (.internal "no interpreter for synchronized call"), m)
  | some g =>
    let (r, g, m) := g.invoke (host site) m
    (r, { m with guest := some g })

/-- Makes the call that the kernel asked for and queues the resume that returns its result.  A
machine that is stopped by the call itself is torn down after it. -/
def synchronize (m : Machine ν) : Machine ν :=
  if m.inside.isSome then m
  else
    let (r, m) := invokePending site { m with state := .running }
    if m.state = .stopping then m.close.tell .marked
    else match r with
      | .ok () => m.schedule .synchronizedReturn
      | .error f => m.failCall f

/-! ## Updates -/

/-- What an update does after the displays are up to date. -/
inductive Action where
  | nothing
  | reboot
  | call
  deriving DecidableEq, Repr

/-- Whether a sleep is over. -/
def isAwake (m : Machine ν) : Bool :=
  m.wakeAt.any (· ≤ m.lastUpdate) || !m.queue.signals.isEmpty

/-- Moves the state on, or says what is to be done for that. -/
def advance (m : Machine ν) : Action × Machine ν :=
  match m.state with
  | .rebooting => (.reboot, { m with state := .stopped })
  | .suspended =>
    (.nothing, if m.queue.signals.isEmpty then m else m.schedule .yielded)
  | .sleeping => (.nothing, if m.isAwake then m.schedule .yielded else m)
  | .paused => (.nothing, m.schedule .yielded)
  | .synchronizedReturnPaused => (.nothing, m.schedule .synchronizedReturn)
  | .synchronizedCall => (.call, m)
  | _ => (.nothing, m)

/-- The message of a failure, which is shown once the machine is stopped. -/
def takeMessage (m : Machine ν) : Option String × Machine ν :=
  if m.state = .stopped then (m.message, { m with message := none }) else (none, m)

/-- Announces the end of a run. -/
def announceEnd (ended : Bool) (m : Machine ν) : Machine ν :=
  if ended then
    m.tellAll (.announced .stopped ::
      (site.displays m.outside).mapIdx fun i _ => .displayed i .clear)
  else m

/-- Shows a message on all displays. -/
def showMessage (message : Option String) (m : Machine ν) : Machine ν :=
  match message with
  | none => m
  | some text =>
    m.tellAll ((site.displays m.outside).mapIdx fun i width =>
      (DisplayCall.render width text).map (.displayed i)).flatten

/-- Does what remains to be done. -/
def perform (a : Action) (m : Machine ν) : Machine ν :=
  match a with
  | .nothing => m
  | .reboot => (start site m.close).2
  | .call => synchronize site m

/-- One tick of the world. -/
def update (m : Machine ν) : Machine ν :=
  let ended := m.announced && (m.state = .stopped || m.state = .rebooting)
  let (action, m) := advance { m with
    ledger := { m.ledger with worldTime := site.worldTime m.outside }
    lastUpdate := site.now m.outside
    updated := m.updated || m.state ≠ .stopped
    announced := m.announced && !ended }
  let (message, m) := m.takeMessage
  perform site action (showMessage site message (announceEnd site ended m))

end Machine

end VirtualComputer
