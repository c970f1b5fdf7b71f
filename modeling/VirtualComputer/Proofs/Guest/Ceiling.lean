import VirtualComputer.Proofs.Guest.Writes

/-!
# The memory ceiling

A declaration or an assignment that is carried out leaves the coroutine within the memory ceiling, and otherwise ends
the resume (`Coroutine.Stage.capped`).  Two writes are not measured, after which the coroutine may be larger: the
variable that a handler gets for its error (`Coroutine.Catches`), and what an assignment had written before its path
turned out to fit nothing (`Coroutine.Misassigned`).
-/

namespace VirtualComputer

namespace Coroutine

variable {τ σ : Type}

/-- A `try` has caught the pending error, for which its handler has a variable. -/
def Catches (co co' : Thread) : Prop :=
  ∃ gs f fs body x handler span e rest, co.frames = gs ++ f :: fs ∧ f.kind = .attempt .body ∧
    f.node = .attempt body x handler span ∧ co.control = .throw e ∧ co'.env = (x, e) :: rest ∧ rest <:+ co.env

/-- How far a step from this coroutine heeds the memory ceiling. -/
structure Capped (baseline limit : ℕ) (co : Thread) (r : StepResult τ) : Prop where
  /-- A write that a statement has carried out is within the ceiling. -/
  written : ∀ f fs co' s, co.control = .none → co.frames = f :: fs → f.node.writes → r = .next co' s →
    co'.control = .none → baseline + co'.footprint ≤ limit
  /-- Nothing but such a write beyond the ceiling is refused. -/
  refused : ∀ x co' s, r = .fault x co' s → x = .allocationLimit ∧ limit < baseline + co'.footprint ∧
    ∃ f fs, co.control = .none ∧ co.frames = f :: fs ∧ f.node.writes
  /-- A step after which there are new variables, or others, and the coroutine may be beyond the ceiling. -/
  unmeasured : ∀ co' s, r = .next co' s → ¬ co'.env <:+ co.env → limit < baseline + co'.footprint →
    co.Catches co' ∨ ∃ f fs, co.control = .none ∧ co.frames = f :: fs ∧ Misassigned f co co'
  ended : ∀ co' s, r = .done co' s → co'.env <:+ co.env

/-- A pending exit writes no variable but that of a handler. -/
theorem unwind_writes (c : Control Val) (fs : List Frame) (env : List (String × Val)) :
    (unwind c fs env).2.1 <:+ env ∨ ∃ gs f fs' body x handler span e rest, fs = gs ++ f :: fs' ∧
      f.kind = .attempt .body ∧ f.node = .attempt body x handler span ∧ c = .throw e ∧
      (unwind c fs env).2.1 = (x, e) :: rest ∧ rest <:+ env := by
  induction fs generalizing env with
  | nil => exact .inl List.suffix_rfl
  | cons f fs ih =>
    have hdropped : outermost f.base env <:+ env := List.drop_suffix _ _
    unfold unwind
    dsimp only
    split
    · exact .inl hdropped
    · exact .inl hdropped
    · next e body x handler span hkind hnode =>
      exact .inr ⟨[], f, fs, body, x, handler, span, e, _, rfl, hkind, hnode, rfl, rfl, hdropped⟩
    · rcases ih (outermost f.base env) with henv | ⟨gs, g, fs', body, x, handler, span, e, rest, hfs, hk, hn, hc, hw, hr⟩
      · exact .inl (henv.trans hdropped)
      · exact .inr ⟨f :: gs, g, fs', body, x, handler, span, e, rest, by rw [hfs]; rfl, hk, hn, hc, hw, hr.trans hdropped⟩

variable {co co' : Thread}

/-- So does a step while an exit is pending. -/
theorem exit_writes {s s' : τ} (h : exit co s = .next co' s') : co'.env <:+ co.env ∨ co.Catches co' := by
  obtain ⟨fs, env, hu, rfl, -⟩ := exit_next h
  have hwrites := unwind_writes co.control co.frames co.env
  rw [hu] at hwrites
  exact hwrites

variable {host : Host σ} {globals : Entries Val} {baseline limit : ℕ} {synchronized : Bool} {s s' : Session σ}

/-- A measurement compares the footprint with the ceiling. -/
theorem admits_within {b : Bool}
    (h : (Runtime.ofHost host globals baseline ⟨some limit, synchronized⟩).admits co s = (b, s')) :
    b = decide (baseline + co.footprint ≤ limit) := by
  cases h
  rfl

/-- At every stage of a coroutine under a ceiling: a declaration or assignment that is carried out leaves the coroutine
within the ceiling, or is refused as beyond it; after any other step the coroutine may be beyond it, with a variable
that a handler has got for its error, or with what a failed assignment has left. -/
theorem Stage.capped {allowed : Runtime (Session σ) → Prop} {program : Stmt} {guarded : Bool}
    (h : Stage allowed program guarded (.ofHost host globals baseline ⟨some limit, synchronized⟩) co s) :
    Capped baseline limit co (step (.ofHost host globals baseline ⟨some limit, synchronized⟩) co s) := by
  have hwritten {f : Frame} {fs : List Frame} (hc : co.control = .none) (hf : co.frames = f :: fs) :
      Written _ f fs co (execute (.ofHost host globals baseline ⟨some limit, synchronized⟩) f fs co s) :=
    execute_written _ s hf hc (h.top_bound (by rw [hc]; rfl) hf).1
  refine ⟨?_, ?_, ?_, ?_⟩
  · intro f fs co' s' hc hf hw hs hc'
    rw [step, hc, hf] at hs
    rcases (hwritten hc hf).next hs with ⟨-, t, hadmits⟩ | ⟨-, hinterrupted⟩ | hfailed
    · exact of_decide_eq_true (admits_within hadmits).symm
    · exact absurd hc' (hinterrupted hw)
    · obtain ⟨_, _, _, _, _, _, _, _, _, hthrown⟩ := hfailed.failed
      cases hc'.symm.trans hthrown
  · intro x co' s' hs
    obtain ⟨f, fs, hc, hf, he⟩ := step_fault_cases hs
    obtain ⟨hx, hwrote, t, hadmits⟩ := (hwritten hc hf).fault he
    exact ⟨hx, Nat.lt_of_not_le (of_decide_eq_false (admits_within hadmits).symm), f, fs, hc, hf, hwrote.writes⟩
  · intro co' s' hs henv hover
    rcases step_next_cases hs with ⟨f, fs, hc, hf, he⟩ | ⟨-, he⟩
    · rcases (hwritten hc hf).next he with ⟨-, t, hadmits⟩ | ⟨hkept, -⟩ | hfailed
      · exact absurd (of_decide_eq_true (admits_within hadmits).symm) (Nat.not_le_of_lt hover)
      · exact absurd hkept henv
      · exact .inr ⟨f, fs, hc, hf, hfailed⟩
    · exact .inl ((exit_writes he).resolve_left henv)
  · intro co' s' hs
    rcases step_done_cases hs with rfl | ⟨f, fs, hc, hf, he⟩ | ⟨-, he⟩
    · exact List.suffix_rfl
    · exact ⟨[], (hwritten hc hf).done he⟩
    · exact (exit_ended he).2

end Coroutine

/-- A program that catches the error of a call. -/
def catchingCall : Stmt :=
  .attempt (.expr (.call (.bool true .none) [] .none) .none) "e" (.block [] .none) .none

/-- Where nothing fits under the ceiling, the error is caught and has a variable all the same. -/
theorem catching_capped : ∃ co co' : Thread, Coroutine.Capped 0 0 co (.next co' (⟨0, ()⟩ : Session Unit)) ∧
    co.Catches co' ∧ ¬ co'.env <:+ co.env ∧ 0 < co'.footprint := by
  let rt : Runtime (Session Unit) := .ofHost silentHost [] 0 ⟨some 0, false⟩
  let e : Val := (Mistake.notCallable (Val.bool true).kind).toVal
  let co : Thread := ⟨[⟨.expr, 0, .expr (.call (.bool true .none) [] .none) .none⟩, ⟨.attempt .body, 0, catchingCall⟩],
    [], .throw e, none, .running, true⟩
  let co' : Thread := ⟨[⟨.block 0, 1, .block [] .none⟩, ⟨.attempt .handler, 0, catchingCall⟩], [("e", e)], .none, none,
    .running, true⟩
  have hstage : Coroutine.Stage (fun _ => True) catchingCall true rt co ⟨0, ()⟩ :=
    .next (.next (.begun .fresh trivial .null ⟨0, ()⟩) rfl) rfl
  have hcapped : Coroutine.Capped 0 0 co (.next co' (⟨0, ()⟩ : Session Unit)) := hstage.capped
  have hadded : ¬ co'.env <:+ co.env := fun h => by cases h.length_le
  have hbeyond : 0 < co'.footprint := by decide
  refine ⟨co, co', hcapped, ?_, hadded, hbeyond⟩
  rcases hcapped.unmeasured co' ⟨0, ()⟩ rfl hadded (by rw [Nat.zero_add]; exact hbeyond) with hcatches | hfailed
  · exact hcatches
  · obtain ⟨_, _, hc, _⟩ := hfailed
    cases hc

end VirtualComputer
