import VirtualComputer.Guest.Library

/-!
# Resumes

What `Coroutine.resume` does, by the status of the coroutine: only a fresh or suspended one runs
(`resume_fresh`, `resume_suspended`), and any other is left as it is (`resume_dead`, `resume_running`).  One that hands
a value out is suspended then (`resume_yielded`).
-/

namespace VirtualComputer

/-- A host around which nothing happens. -/
def silentHost : Host Unit where
  clock _ := 0
  worldTime _ := 0
  uptime _ := 0
  totalMemory _ := 0
  address _ := ""
  bootAddress _ := none
  peerName _ _ := none
  print _ _ := ()
  send _ _ _ _ := (none, ())

namespace Coroutine

variable {τ : Type}

/-- What a resume makes of the end of its run. -/
def conclude : StepResult τ → Except Fault Outcome × Thread × τ
  | .done co s => (.ok (outcome co).1, (outcome co).2, s)
  | .fault f co s => (.error f, { co with status := .dead }, s)
  | .next co s => (.error .outOfSteps, { co with status := .dead }, s)

variable {rt : Runtime τ} {steps : Nat} {d : Val} {co : Thread} {s : τ}

/-- A fresh coroutine runs, whatever is delivered. -/
theorem resume_fresh (h : co.status = .fresh) :
    co.resume rt steps d s = conclude (run rt steps { co with status := .running } s) := by
  simp only [resume, h]
  cases run rt steps { co with status := .running } s <;> rfl

/-- A suspended coroutine runs with what is delivered. -/
theorem resume_suspended (h : co.status = .suspended) :
    co.resume rt steps d s =
      conclude (run rt steps { co with delivered := some d, status := .running } s) := by
  simp only [resume, h]
  cases run rt steps { co with delivered := some d, status := .running } s <;> rfl

theorem resume_dead (h : co.status = .dead) :
    co.resume rt steps d s = (.error (.runtime "cannot resume dead coroutine"), co, s) := by
  simp only [resume, h]

theorem resume_running (h : co.status = .running) :
    co.resume rt steps d s = (.error (.internal "coroutine is already running"), co, s) := by
  simp only [resume, h]

/-- With a value to be handed out, the coroutine is suspended. -/
theorem outcome_suspend {v : Val} (h : co.control = .suspend v) :
    outcome co = (.yielded v, { co with control := .none, delivered := none, status := .suspended }) := by
  rw [outcome, h]

/-- A coroutine that hands a value out is suspended and has nothing pending. -/
theorem outcome_yielded {v : Val} (h : (outcome co).1 = .yielded v) :
    co.control = .suspend v ∧
      (outcome co).2 = { co with control := .none, delivered := none, status := .suspended } := by
  rw [outcome] at h ⊢
  split at h <;> cases h
  exact ⟨‹_›, rfl⟩

/-- A resume that hands a value out leaves the coroutine suspended. -/
theorem resume_yielded {v : Val} (h : (co.resume rt steps d s).1 = .ok (.yielded v)) :
    (co.resume rt steps d s).2.1.status = .suspended := by
  have hconclude (r : StepResult τ) (hr : (conclude r).1 = .ok (.yielded v)) :
      (conclude r).2.1.status = .suspended := by
    cases r with
    | next co s | fault f co s => cases hr
    | done co s =>
      rw [conclude, (outcome_yielded (Except.ok.inj hr)).2]
  cases hs : co.status with
  | fresh =>
    rw [resume_fresh hs] at h ⊢
    exact hconclude _ h
  | suspended =>
    rw [resume_suspended hs] at h ⊢
    exact hconclude _ h
  | running =>
    rw [resume_running hs] at h
    cases h
  | dead =>
    rw [resume_dead hs] at h
    cases h

end Coroutine

end VirtualComputer
