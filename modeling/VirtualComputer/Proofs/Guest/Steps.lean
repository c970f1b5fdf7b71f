import VirtualComputer.Guest.Execution

/-!
# What steps lead to

The closure principles of steps: what an evaluation and a measurement lead to if what follows them leads there
(`evaluating_leads`, `measured_leads`), where a step comes from (`step_next_cases`, `step_done_cases`), which steps are
the last ones (`execute_pauses`, `step_done`), and where an exit goes on that has been stopped (`exit_next`).
-/

namespace VirtualComputer

/-- With this control the statement of the topmost frame still is where the coroutine is. -/
def Control.stays : Control Val → Bool
  | .none | .throw _ | .suspend _ => true
  | .break | .continue | .return _ => false

/-- What a step leads to has a property, unless the step is a fault. -/
def StepResult.Leads {τ : Type} (P : Thread → Prop) : StepResult τ → Prop
  | .next co _ | .done co _ => P co
  | .fault .. => True

namespace StepResult.Leads

variable {τ : Type} {P Q : Thread → Prop} {r : StepResult τ} {co : Thread} {s : τ}

theorem mono (h : r.Leads P) (hPQ : ∀ co, P co → Q co) : r.Leads Q := by
  cases r with
  | next co s | done co s => exact hPQ co h
  | fault x co s => trivial

theorem next (h : r.Leads P) (hr : r = .next co s) : P co := by
  rw [hr] at h
  exact h

theorem done (h : r.Leads P) (hr : r = .done co s) : P co := by
  rw [hr] at h
  exact h

end StepResult.Leads

namespace Coroutine

variable {τ α : Type} {P : Thread → Prop} {co : Thread}

/-- An evaluation that is interrupted stays at its statement with something pending. -/
theorem evaluating_leads {s : τ} {m : Evaluation τ α} {k : α → Thread → τ → StepResult τ}
    (hstay : ∀ d c, c.stays → isPending c → P { co with delivered := d, control := c })
    (hk : ∀ a d t, (k a { co with delivered := d } t).Leads P) : (evaluating co s m k).Leads P := by
  unfold evaluating
  rcases m ⟨co.delivered, s⟩ with ⟨(v | e) | a, t⟩
  · exact hstay _ _ rfl rfl
  · exact hstay _ _ rfl rfl
  · exact hk a _ _

theorem measured_leads (rt : Runtime τ) (h : P co) (s : τ) : (measured rt co s).Leads P := by
  unfold measured
  rcases rt.admits co s with ⟨_ | _, t⟩
  · trivial
  · exact h

/-! ## Exits -/

/-- A pending exit remains unless a frame stops it. -/
theorem unwind_control (c : Control Val) (fs : List Frame) (env : List (String × Val)) :
    (unwind c fs env).2.2 = .none ∨ (unwind c fs env).2.2 = c := by
  induction fs generalizing env with
  | nil => exact .inr rfl
  | cons f fs ih =>
    unfold unwind
    dsimp only
    split
    · exact .inl rfl
    · exact .inl rfl
    · exact .inl rfl
    · exact ih _

/-- An exit that is not stopped pops all frames, and adds no variables. -/
theorem unwind_unstopped (c : Control Val) (fs : List Frame) (env : List (String × Val)) :
    (unwind c fs env).2.2 = .none ∨ (unwind c fs env).1 = [] ∧ (unwind c fs env).2.1 <:+ env := by
  induction fs generalizing env with
  | nil => exact .inr ⟨rfl, List.suffix_rfl⟩
  | cons f fs ih =>
    unfold unwind
    dsimp only
    split
    · exact .inl rfl
    · exact .inl rfl
    · exact .inl rfl
    · refine (ih _).imp_right fun ⟨hf, henv⟩ => ⟨hf, henv.trans ?_⟩
      exact List.drop_suffix _ _

/-- Going on after an exit has been stopped. -/
theorem exit_next {co' : Thread} {s s' : τ} (h : exit co s = .next co' s') : ∃ fs env,
    unwind co.control co.frames co.env = (fs, env, .none) ∧
      co' = { co with frames := fs, env, control := .none } ∧ s' = s := by
  unfold exit at h
  rcases hu : unwind co.control co.frames co.env with ⟨fs, env, c⟩
  rw [hu] at h
  dsimp only at h
  split at h
  · cases h
  · next hpending =>
    cases h
    cases c with
    | none => exact ⟨fs, env, rfl, rfl, rfl⟩
    | _ => exact absurd rfl hpending

/-- An exit that is not stopped remains pending. -/
theorem exit_done {co' : Thread} {s s' : τ} (h : exit co s = .done co' s') : co'.control = co.control := by
  unfold exit at h
  dsimp only at h
  split at h
  · next hpending =>
    cases h
    refine (unwind_control co.control co.frames co.env).resolve_left fun hn => ?_
    rw [hn] at hpending
    cases hpending
  · cases h

/-- Nor does it leave frames or new variables. -/
theorem exit_ended {co' : Thread} {s s' : τ} (h : exit co s = .done co' s') :
    co'.frames = [] ∧ co'.env <:+ co.env := by
  unfold exit at h
  dsimp only at h
  split at h
  · next hpending =>
    cases h
    refine (unwind_unstopped co.control co.frames co.env).resolve_left fun hn => ?_
    rw [hn] at hpending
    cases hpending
  · cases h

/-! ## Steps -/

/-- A step goes on where that of the topmost frame does, or after an exit that has been stopped. -/
theorem step_next_cases {rt : Runtime τ} {co' : Thread} {s s' : τ} (h : step rt co s = .next co' s') :
    (∃ f fs, co.control = .none ∧ co.frames = f :: fs ∧ execute rt f fs co s = .next co' s') ∨
      co.control ≠ .none ∧ exit co s = .next co' s' := by
  unfold step at h
  split at h
  · cases h
  · cases h
  · next f fs hc hf => exact .inl ⟨f, fs, hc, hf, h⟩
  · next _ hended htop =>
    refine .inr ⟨fun hc => ?_, h⟩
    cases hf : co.frames with
    | nil => exact hended hc hf
    | cons f fs => exact htop f fs hc hf

/-- A step is the last one if there was no more to do, if that of the topmost frame is, or if no frame stops an exit. -/
theorem step_done_cases {rt : Runtime τ} {co' : Thread} {s s' : τ} (h : step rt co s = .done co' s') :
    co' = co ∨ (∃ f fs, co.control = .none ∧ co.frames = f :: fs ∧ execute rt f fs co s = .done co' s') ∨
      (∀ v, co.control ≠ .suspend v) ∧ exit co s = .done co' s' := by
  unfold step at h
  split at h
  · cases h
    exact .inl rfl
  · cases h
    exact .inl rfl
  · next f fs hc hf => exact .inr (.inl ⟨f, fs, hc, hf, h⟩)
  · next hc _ _ => exact .inr (.inr ⟨hc, h⟩)

/-- A measurement either goes on with the coroutine or fails, as the runtime decides. -/
theorem measured_cases (rt : Runtime τ) (co : Thread) (s : τ) : ∃ t,
    rt.admits co s = (true, t) ∧ measured rt co s = .next co t ∨
      rt.admits co s = (false, t) ∧ measured rt co s = .fault .allocationLimit co t := by
  unfold measured
  rcases rt.admits co s with ⟨_ | _, t⟩
  · exact ⟨t, .inr ⟨rfl, rfl⟩⟩
  · exact ⟨t, .inl ⟨rfl, rfl⟩⟩

/-- Only a step of the topmost frame faults. -/
theorem step_fault_cases {rt : Runtime τ} {co' : Thread} {s s' : τ} {x : Fault} (h : step rt co s = .fault x co' s') :
    ∃ f fs, co.control = .none ∧ co.frames = f :: fs ∧ execute rt f fs co s = .fault x co' s' := by
  unfold step at h
  split at h
  · cases h
  · cases h
  · next f fs hc hf => exact ⟨f, fs, hc, hf, h⟩
  · unfold exit at h
    dsimp only at h
    split at h <;> cases h

/-- The last step before a value is handed out is that of the topmost frame. -/
theorem step_suspend_cases {rt : Runtime τ} {co' : Thread} {s s' : τ} {v : Val} (h : step rt co s = .done co' s')
    (hv : co'.control = .suspend v) :
    co' = co ∨ ∃ f fs, co.control = .none ∧ co.frames = f :: fs ∧ execute rt f fs co s = .done co' s' := by
  rcases step_done_cases h with hended | htop | ⟨hc, he⟩
  · exact .inl hended
  · exact .inr htop
  · exact absurd ((exit_done he).symm.trans hv) (hc v)

/-! ## Last steps -/

/-- If the step is the last one it hands a value out, and otherwise it does not. -/
def Pauses (co : Thread) : StepResult τ → Prop
  | .next co' _ => ∀ v, co'.control ≠ .suspend v
  | .done co' _ => ∃ d v, co' = { co with delivered := d, control := .suspend v }
  | .fault .. => True

theorem pauses_next {co co' : Thread} {s : τ} (h : co'.control = .none) : Pauses co (.next co' s) := by
  intro v hv
  cases h.symm.trans hv

theorem evaluating_pauses {s : τ} {m : Evaluation τ α} {k : α → Thread → τ → StepResult τ}
    (hk : ∀ a d t, Pauses co (k a { co with delivered := d } t)) : Pauses co (evaluating co s m k) := by
  unfold evaluating
  rcases m ⟨co.delivered, s⟩ with ⟨(v | e) | a, t⟩
  · exact ⟨t.delivered, v, rfl⟩
  · exact nofun
  · exact hk a _ _

theorem measured_pauses (rt : Runtime τ) {co co' : Thread} (h : co'.control = .none) (s : τ) :
    Pauses co (measured rt co' s) := by
  unfold measured
  rcases rt.admits co' s with ⟨_ | _, t⟩
  · trivial
  · exact pauses_next h

theorem execute_pauses (rt : Runtime τ) (f : Frame) (fs : List Frame) (hc : co.control = .none) (s : τ) :
    Pauses co (execute rt f fs co s) := by
  unfold execute
  split
  · split
    · exact pauses_next hc
    · exact pauses_next hc
  · refine evaluating_pauses fun v d t => measured_pauses rt ?_ t
    exact hc
  · refine evaluating_pauses fun ⟨v, ks⟩ d t => ?_
    dsimp only
    split
    · exact nofun
    · refine measured_pauses rt ?_ t
      exact hc
  · refine evaluating_pauses fun v d t => ?_
    dsimp only
    split
    · exact pauses_next hc
    · split
      · exact pauses_next hc
      · exact pauses_next hc
  · refine evaluating_pauses fun v d t => ?_
    split
    · exact pauses_next hc
    · exact pauses_next hc
  · exact evaluating_pauses fun v d t => nofun
  · exact pauses_next hc
  · exact pauses_next hc
  · exact evaluating_pauses fun v d t => pauses_next hc
  · exact nofun
  · exact nofun
  · trivial

/-- A step that is the last one hands a value out, or leaves what is pending, if anything is. -/
theorem step_done {rt : Runtime τ} {co' : Thread} {s s' : τ} (h : step rt co s = .done co' s') :
    (∃ v, co'.control = .suspend v) ∨ co'.control = co.control := by
  rcases step_done_cases h with rfl | ⟨f, fs, hc, -, hs⟩ | ⟨-, he⟩
  · exact .inr rfl
  · have hpauses := execute_pauses rt f fs hc s
    rw [hs] at hpauses
    obtain ⟨d, v, rfl⟩ := hpauses
    exact .inl ⟨v, rfl⟩
  · exact .inr (exit_done he)

/-- Going on, nothing is handed out. -/
theorem step_next {rt : Runtime τ} {co' : Thread} {s s' : τ} (h : step rt co s = .next co' s') (v : Val) :
    co'.control ≠ .suspend v := by
  rcases step_next_cases h with ⟨f, fs, hc, -, hs⟩ | ⟨-, he⟩
  · have hpauses := execute_pauses rt f fs hc s
    rw [hs] at hpauses
    exact hpauses v
  · obtain ⟨fs, env, -, rfl, -⟩ := exit_next he
    exact nofun

end Coroutine

end VirtualComputer
