import VirtualComputer.Machine.Inbox

/-!
# Tasks

A task resumes the guest once.  It begins by choosing what to deliver, and a worker is then inside
the resume until the task finishes; meanwhile the machine may be asked to stop, and take signals.
-/

namespace VirtualComputer

/-- The wall clock at which a sleep of some seconds ends; one that is not finite never ends. -/
def wakeTime (now : Int) (seconds : Float) : Option Int :=
  if seconds.isFinite then
    let millis := ((if seconds < 0 then 0 else seconds) * 1000).round
    some (min (now + millis.toInt64.toInt) Word.signed64.greatest)
  else none

namespace Machine

variable {ν : Type} (site : Site ν)

/-! ## Beginning -/

/-- Defers a resume because the world is stalled. -/
def park (m : Machine ν) : Machine ν :=
  { m with
    state := if m.state = .synchronizedReturn then .synchronizedReturnPaused else .paused
    task := false }

/-- Whether the world has not updated the machine for longer than it tolerates. -/
def isStalled (m : Machine ν) : Bool :=
  m.lastUpdate + site.settings.pauseThreshold < site.now m.outside

/-- Enters a resume that delivers something. -/
def enter (d : Delivery) (m : Machine ν) : Machine ν :=
  if m.guest.isSome then { m with state := .running, inside := some d }
  else (m.tell (.noticed .nothingToResume)).close

/-- Begins a task that was queued in an epoch. -/
def beginTask (epoch : Nat) (m : Machine ν) : Machine ν :=
  if m.epoch ≠ epoch then m
  else if m.state = .stopping then m.close
  else if isStalled site m then m.park
  else match m.state with
    | .yielded =>
      let (s, queue) := m.queue.pop
      { m with queue }.enter (s.elim .nothing .signal)
    | .synchronizedReturn => m.enter .result
    | s => (m.tell (.noticed (.resumeFrom s))).close

/-! ## Finishing -/

/-- Resumes at once if signals wait, and rests otherwise. -/
def orResume (rest : Machine ν) (m : Machine ν) : Machine ν :=
  if m.queue.signals.isEmpty then rest else m.schedule .yielded

/-- Does what the kernel wants. -/
def grantWish (w : Wish) (m : Machine ν) : Machine ν :=
  match w with
  | .sleep seconds =>
    let wakeAt := wakeTime (site.now m.outside) seconds
    orResume { m with state := .sleeping, wakeAt } m
  | .call => { m with state := .synchronizedCall }
  | .shutdown reboot =>
    let m := m.close
    if reboot then { m with state := .rebooting } else m
  | .other =>
    orResume { m with state := .suspended } m

/-- What a fault puts on the displays. -/
def faultText : Fault → String
  | .allocationLimit => notEnoughMemory
  | .runtime _ | .outOfSteps => kernelPanic
  | .internal _ | .protocol _ => protocolError

/-- Whether a fault is one of the machine itself. -/
def isInner : Fault → Bool
  | .internal _ | .protocol _ => true
  | _ => false

/-- Ends the run because of a fault. -/
def fail (f : Fault) (m : Machine ν) : Machine ν :=
  let m := if isInner f then m.tell (.noticed (.resumeFailed f)) else m
  (m.tell (.noticed (.crashed f))).crash (faultText f)

/-- Goes on after a resume. -/
def react (r : Except Fault Progress) (m : Machine ν) : Machine ν :=
  match r with
  | .ok (.yielded w) => if m.state = .stopping then m.close else (grantWish site w m).tell .marked
  | .ok .returned => m.close.tell .marked
  | .ok (.failed text) => m.crash (text.getD unknownError)
  | .ok .left => (m.tell (.noticed .leftGuard)).close.tell .marked
  | .error f => m.fail f

/-- Runs the guest of a resume that is under way. -/
def runGuest (d : Delivery) (m : Machine ν) : Except Fault Progress × Machine ν :=
  match m.guest with
  | none => (.error (.internal "interpreter released mid-resume"), m)
  | some g =>
    let (r, g, m) := g.resume (host site) site.steps d m
    (r, { m with guest := some g })

/-- Finishes the resume that a worker is inside of, if there is one. -/
def finishTask (m : Machine ν) : Machine ν :=
  match m.inside with
  | none => m
  | some d =>
    let (r, m) := runGuest site d m
    react site r { m with
      ledger := m.ledger.charge (site.elapsed m.outside)
      task := false
      inside := none }

/-- Runs the first task that waits for a worker. -/
def work (m : Machine ν) : Machine ν :=
  match m.waiting with
  | [] => m
  | epoch :: waiting => finishTask site (beginTask site epoch { m with waiting })

end Machine

end VirtualComputer
