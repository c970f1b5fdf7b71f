import VirtualComputer.Proofs.Guest.Resume

/-!
# Stages of coroutines

The coroutine of a program rests before its first resume and whenever a resume has suspended it (`Coroutine.Rests`).
Each resume takes it through stages, one after every step (`Coroutine.Stage`); whichever way a resume ends without a
fault, it ends with a step from one of them (`Rests.last_step`).  What the start has and every step keeps, holds of all
stages (`Coroutine.Keeps`, `Keeps.rests`, `Keeps.stage`).
-/

namespace VirtualComputer

namespace Coroutine

variable {τ : Type}

/-- What a resume runs that delivers a value. -/
def begun (d : Val) (co : Thread) : Thread :=
  match co.status with
  | .suspended => { co with delivered := some d, status := .running }
  | _ => { co with status := .running }

/-- A coroutine of a program before its first resume, or suspended by one.  The runtime may be another one for every
resume, as long as it is allowed, and so may the state outside. -/
inductive Rests (allowed : Runtime τ → Prop) (program : Stmt) (guarded : Bool) : Thread → Prop
  | fresh : Rests allowed program guarded (ofProgram program guarded)
  | yielded {co : Thread} {rt : Runtime τ} {steps : Nat} {d v : Val} {s : τ} (h : Rests allowed program guarded co)
      (hrt : allowed rt) (hy : (co.resume rt steps d s).1 = .ok (.yielded v)) :
      Rests allowed program guarded (co.resume rt steps d s).2.1

/-- A coroutine of a program in the course of a resume, beside the state outside. -/
inductive Stage (allowed : Runtime τ → Prop) (program : Stmt) (guarded : Bool) (rt : Runtime τ) : Thread → τ → Prop
  | begun {co : Thread} (h : Rests allowed program guarded co) (hrt : allowed rt) (d : Val) (s : τ) :
      Stage allowed program guarded rt (co.begun d) s
  | next {co co' : Thread} {s s' : τ} (h : Stage allowed program guarded rt co s) (hs : step rt co s = .next co' s') :
      Stage allowed program guarded rt co' s'

/-- The coroutine has not been resumed yet, or has been suspended. -/
theorem Rests.status {allowed : Runtime τ → Prop} {program : Stmt} {guarded : Bool} {co : Thread}
    (h : Rests allowed program guarded co) : co.status = .fresh ∨ co.status = .suspended := by
  cases h with
  | fresh => exact .inl rfl
  | yielded _ _ hy => exact .inr (resume_yielded hy)

/-- A resume of such a coroutine runs it. -/
theorem resume_begun {co : Thread} (h : co.status = .fresh ∨ co.status = .suspended) (rt : Runtime τ) (steps : Nat)
    (d : Val) (s : τ) : co.resume rt steps d s = conclude (run rt steps (co.begun d) s) := by
  rcases h with hs | hs
  · rw [resume_fresh hs, begun, hs]
  · rw [resume_suspended hs, begun, hs]

/-- A resume that has an outcome has run the coroutine to an end. -/
theorem run_of_resume {rt : Runtime τ} {steps : Nat} {d : Val} {co : Thread} {s : τ} {o : Outcome}
    (h : (co.resume rt steps d s).1 = .ok o) : ∃ co' s', run rt steps (co.begun d) s = .done co' s' ∧
      o = (outcome co').1 ∧ (co.resume rt steps d s).2 = ((outcome co').2, s') := by
  have hconclude {r : StepResult τ} (hr : (conclude r).1 = .ok o) : ∃ co' s', r = .done co' s' ∧
      o = (outcome co').1 ∧ (conclude r).2 = ((outcome co').2, s') := by
    cases r with
    | next co s => cases hr
    | fault f co s => cases hr
    | done co s =>
      cases hr
      exact ⟨co, s, rfl, rfl, rfl⟩
  cases hs : co.status with
  | fresh =>
    rw [resume_fresh hs] at h ⊢
    simpa only [begun, hs] using hconclude h
  | suspended =>
    rw [resume_suspended hs] at h ⊢
    simpa only [begun, hs] using hconclude h
  | running =>
    rw [resume_running hs] at h
    cases h
  | dead =>
    rw [resume_dead hs] at h
    cases h

section

variable {allowed : Runtime τ → Prop} {program : Stmt} {guarded : Bool} {rt : Runtime τ} {co co' : Thread} {s s' : τ}

theorem Stage.runtime (h : Stage allowed program guarded rt co s) : allowed rt := by
  induction h with
  | begun _ hrt _ _ => exact hrt
  | next _ _ ih => exact ih

/-- A run from a stage stops at a stage, or with a step from one. -/
theorem Stage.run_ends (h : Stage allowed program guarded rt co s) (n : Nat) :
    (∃ co' s', Stage allowed program guarded rt co' s' ∧ run rt n co s = .next co' s') ∨
      ∃ co₁ s₁, Stage allowed program guarded rt co₁ s₁ ∧ run rt n co s = step rt co₁ s₁ := by
  induction n generalizing co s with
  | zero => exact .inl ⟨co, s, h, rfl⟩
  | succ n ih =>
    rw [run]
    cases hs : step rt co s with
    | next co₁ s₁ => exact ih (.next h hs)
    | done co₁ s₁ | fault f co₁ s₁ => exact .inr ⟨co, s, h, hs.symm⟩

/-- A run from a stage that comes to an end does so with a step from a stage. -/
theorem Stage.last_step {n : Nat} (h : Stage allowed program guarded rt co s) (hr : run rt n co s = .done co' s') :
    ∃ co₁ s₁, Stage allowed program guarded rt co₁ s₁ ∧ step rt co₁ s₁ = .done co' s' := by
  rcases h.run_ends n with ⟨co₁, s₁, -, hnext⟩ | ⟨co₁, s₁, hstage, hs⟩
  · cases hnext.symm.trans hr
  · exact ⟨co₁, s₁, hstage, hs.symm.trans hr⟩

/-- A resume that has an outcome ends with a step from a stage. -/
theorem Rests.last_step {steps : Nat} {d : Val} {o : Outcome} (h : Rests allowed program guarded co) (hrt : allowed rt)
    (ho : (co.resume rt steps d s).1 = .ok o) : ∃ co₁ s₁ co₂ s₂, Stage allowed program guarded rt co₁ s₁ ∧
      step rt co₁ s₁ = .done co₂ s₂ ∧ o = (outcome co₂).1 ∧ (co.resume rt steps d s).2 = ((outcome co₂).2, s₂) := by
  obtain ⟨co₂, s₂, hr, ho, hco⟩ := run_of_resume ho
  obtain ⟨co₁, s₁, hstage, hs⟩ := (Stage.begun h hrt d s).last_step hr
  exact ⟨co₁, s₁, co₂, s₂, hstage, hs, ho, hco⟩

end

/-! ## Invariants -/

/-- A property at rest and one at stages that start and steps keep. -/
structure Keeps (allowed : Runtime τ → Prop) (program : Stmt) (guarded : Bool) (Rest Run : Thread → Prop) : Prop where
  fresh : Rest (ofProgram program guarded)
  begun : ∀ {co : Thread} (d : Val), Rest co → Run (co.begun d)
  next : ∀ {rt : Runtime τ} {co co' : Thread} {s s' : τ}, allowed rt → Run co → step rt co s = .next co' s' → Run co'
  yielded : ∀ {rt : Runtime τ} {co co' : Thread} {s s' : τ} {v : Val}, allowed rt → Run co →
    step rt co s = .done co' s' → co'.control = .suspend v → Rest (outcome co').2

namespace Keeps

variable {allowed : Runtime τ → Prop} {program : Stmt} {guarded : Bool} {Rest Run : Thread → Prop}
  (h : Keeps allowed program guarded Rest Run) {rt : Runtime τ} {co co' : Thread} {s s' : τ}
include h

theorem run_yielded {n : Nat} {v : Val} (hrt : allowed rt) (hco : Run co) (hr : run rt n co s = .done co' s')
    (hv : co'.control = .suspend v) : Rest (outcome co').2 := by
  induction n generalizing co s with
  | zero => cases hr
  | succ n ih =>
    rw [run] at hr
    cases hs : step rt co s with
    | next co₁ s₁ =>
      rw [hs] at hr
      exact ih (h.next hrt hco hs) hr
    | done co₁ s₁ =>
      rw [hs] at hr
      cases hr
      exact h.yielded hrt hco hs hv
    | fault f co₁ s₁ =>
      rw [hs] at hr
      cases hr

/-- It holds whenever the coroutine rests. -/
theorem rests (hco : Rests allowed program guarded co) : Rest co := by
  induction hco with
  | fresh => exact h.fresh
  | @yielded co rt steps d v s _ hrt hy ih =>
    obtain ⟨co', s', hr, ho, hleft⟩ := run_of_resume hy
    rw [hleft]
    exact h.run_yielded hrt (h.begun d ih) hr (outcome_yielded ho.symm).1

/-- It holds at every stage. -/
theorem stage (hco : Stage allowed program guarded rt co s) : Run co := by
  induction hco with
  | begun hrest _ d _ => exact h.begun d (h.rests hrest)
  | next hstage hs ih => exact h.next hstage.runtime ih hs

end Keeps

end Coroutine

end VirtualComputer
