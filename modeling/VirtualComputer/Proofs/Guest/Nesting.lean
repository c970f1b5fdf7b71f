import Mathlib.Data.List.Chain
import VirtualComputer.Proofs.Guest.Deliveries
import VirtualComputer.Proofs.Guest.Writes

/-!
# Frames are nested

The frames of a coroutine are those of statements one inside the other (`Nested`): each is of the kind of its
statement, runs the one above it, and knows of no more variables than that one does.  This holds at rest and after
every step of a resume (`Coroutine.Stage.nested`), so no step ever meets a frame of the wrong kind, and every resume
leaves its coroutine suspended or dead (`Coroutine.Resumed.nested`).
-/

namespace VirtualComputer

/-- A statement reaches itself and whatever branches choose from there. -/
inductive Stmt.Reaches (s : Stmt) : Stmt → Prop
  | refl : Reaches s s
  | branch {t u : Stmt} {slot : Slot} (h : Reaches s t) (ht : t.isBranch) (hu : t.part? slot = some u) : Reaches s u

/-- The frame runs the statement in the slot that it is at, or one that branches have chosen from there. -/
def Frame.Runs (f : Frame) (s : Stmt) : Prop :=
  ∃ slot t, f.kind.slot? = some slot ∧ f.node.part? slot = some t ∧ t.Reaches s

/-- The frames, topmost first, are nested in a program while there are so many variables. -/
structure Nested (program : Stmt) (fs : List Frame) (height : ℕ) : Prop where
  matched : ∀ f ∈ fs, f.matched
  bottom : ∀ f, fs.getLast? = some f → program.Reaches f.node
  chain : fs.IsChain fun g f => f.Runs g.node ∧ f.base ≤ g.base
  top : ∀ f, fs.head? = some f → f.base ≤ height

/-- The statement may run above these frames. -/
def Carries (program : Stmt) : List Frame → Stmt → Prop
  | [], s => program.Reaches s
  | f :: _, s => f.Runs s

section Nesting

variable {program s t : Stmt} {f : Frame} {fs : List Frame} {height height' : ℕ} {slot : Slot}

theorem Carries.branch (h : Carries program fs s) (hs : s.isBranch) (ht : s.part? slot = some t) :
    Carries program fs t := by
  cases fs with
  | nil => exact .branch h hs ht
  | cons f fs =>
    obtain ⟨slot', u, hk, hu, hreaches⟩ := h
    exact ⟨slot', u, hk, hu, .branch hreaches hs ht⟩

namespace Nested

theorem nil : Nested program [] height :=
  ⟨nofun, nofun, .nil, nofun⟩

/-- More variables do no harm. -/
theorem mono (h : Nested program fs height) (hle : height ≤ height') : Nested program fs height' :=
  { h with top := fun f hf => (h.top f hf).trans hle }

/-- One more frame on top. -/
theorem cons (h : Nested program fs f.base) (hcarries : Carries program fs f.node) (hf : f.matched)
    (hle : f.base ≤ height) : Nested program (f :: fs) height where
  matched := List.forall_mem_cons.2 ⟨hf, h.matched⟩
  bottom g hg := by
    cases fs with
    | nil =>
      cases hg
      exact hcarries
    | cons f' fs => exact h.bottom g hg
  chain := by
    rw [List.isChain_cons]
    refine ⟨fun g hg => ?_, h.chain⟩
    cases fs with
    | nil => cases hg
    | cons f' fs =>
      cases hg
      exact ⟨hcarries, h.top _ rfl⟩
  top g hg := by
    cases hg
    exact hle

end Nested

/-! ## Frames that follow the program -/

theorem Above.nested {names : List String} {around : Enclosing} (h : Above program fs names around s) :
    Nested program fs names.length ∧ Carries program fs s := by
  induction h with
  | program => exact ⟨.nil, .refl⟩
  | branch _ hs ht ih => exact ⟨ih.1, ih.2.branch hs ht⟩
  | @frame f fs names around t slot _ hb hk ht _ ih =>
    obtain ⟨hnested, hcarries⟩ := ih
    have hfits : f.Fits := .inr ⟨slot, t, hk, ht⟩
    rw [length_rtake, Nat.min_eq_left hb] at hnested
    exact ⟨hnested.cons hcarries hfits.matched hb, slot, t, hk, ht, .refl⟩

/-- The frames below the topmost one, and with it. -/
theorem OnTop.nested {names : List String} {around : Enclosing} (h : OnTop program f fs names around) :
    Nested program fs f.base ∧ Nested program (f :: fs) names.length := by
  obtain ⟨hnested, hcarries⟩ := h.above.nested
  rw [length_rtake, Nat.min_eq_left h.base_le] at hnested
  exact ⟨hnested, hnested.cons hcarries h.fits.matched h.base_le⟩

theorem Placed.nested {names : List String} {c : Control Val} {around : Enclosing}
    (h : Placed program fs names c around) : Nested program fs names.length := by
  cases h with
  | ended => exact .nil
  | top _ htop => exact htop.nested.2
  | exit _ habove => exact habove.nested.1

namespace Coroutine

variable {τ : Type} {rt : Runtime τ} {co co' : Thread} {u u' : τ} {guarded : Bool}

theorem Standing.nested (h : co.Standing program) : Nested program co.frames co.env.length := by
  obtain ⟨around, hplaced⟩ := h
  simpa only [List.length_map] using hplaced.nested

/-- A step that faults has been refused a write, which leaves the frames below nested. -/
theorem Standing.fault {x : Fault} (h : co.Standing program) (hs : step rt co u = .fault x co' u') :
    x = .allocationLimit ∧ Nested program co'.frames co'.env.length := by
  obtain ⟨f, fs, hc, hf, he⟩ := step_fault_cases hs
  obtain ⟨around, h⟩ := h
  rw [hc, hf] at h
  cases h with
  | top _ htop =>
    obtain ⟨hlimit, hwrote, -⟩ := (execute_written rt u hf hc htop.fits).fault he
    refine ⟨hlimit, ?_⟩
    rw [hwrote.frames]
    have hgrown := hwrote.names.length_le
    rw [List.length_map, List.length_map] at hgrown
    have hbase := htop.base_le
    rw [List.length_map] at hbase
    exact htop.nested.1.mono (hbase.trans hgrown)
  | exit hs _ => cases hs

/-- Whichever way a step goes, the frames are nested. -/
theorem Standing.step_nested (h : co.Standing program) (rt : Runtime τ) (u : τ) :
    Nested program (step rt co u).thread.frames (step rt co u).thread.env.length := by
  cases hs : step rt co u with
  | next co' u' => exact (step_standing h hs).nested
  | fault x co' u' => exact (h.fault hs).2
  | done co' u' =>
    rcases step_done_cases hs with rfl | ⟨f, fs, hc, hf, he⟩ | ⟨-, he⟩
    · exact h.nested
    · exact ((execute_standing rt u h hf hc).done he).nested
    · rw [StepResult.thread, (exit_ended he).1]
      exact .nil

theorem Stage.standing {allowed : Runtime τ → Prop} (h : Stage allowed program guarded rt co u) :
    co.Standing program :=
  (standing_keeps allowed program guarded).stage h

/-- However far a run has come, the frames are nested, and it has failed for no other reason than a refused write. -/
theorem Stage.run_nested {allowed : Runtime τ → Prop} (h : Stage allowed program guarded rt co u) (n : ℕ) :
    Nested program (run rt n co u).thread.frames (run rt n co u).thread.env.length ∧
      ∀ x co' u', run rt n co u = .fault x co' u' → x = .allocationLimit := by
  rcases h.run_ends n with ⟨co₁, u₁, hstage, hr⟩ | ⟨co₁, u₁, hstage, hr⟩
  · rw [hr]
    exact ⟨hstage.standing.nested, nofun⟩
  · rw [hr]
    exact ⟨hstage.standing.step_nested rt u₁, fun x co' u' hx => (hstage.standing.fault hx).1⟩

/-! ## Resumes -/

/-- How a resume may end, and what it leaves. -/
inductive Settles : Except Fault Outcome → Thread → Prop
  | yielded {v : Val} {co : Thread} (hs : co.status = .suspended) (hc : co.control = .none)
      (hd : co.delivered = none) : Settles (.ok (.yielded v)) co
  | returned {v : Val} {co : Thread} (hs : co.status = .dead) : Settles (.ok (.returned v)) co
  | threw {e : Val} {co : Thread} (hs : co.status = .dead) : Settles (.ok (.threw e)) co
  | fault {x : Fault} {co : Thread} (hs : co.status = .dead) (hx : ∀ text, x ≠ .internal text) :
      Settles (.error x) co

/-- The coroutine of a program after any number of resumes, each with a runtime of its own. -/
inductive Resumed (τ : Type) (program : Stmt) (guarded : Bool) : Thread → Prop
  | fresh : Resumed τ program guarded (ofProgram program guarded)
  | resume {co : Thread} (h : Resumed τ program guarded co) (rt : Runtime τ) (steps : ℕ) (d : Val) (u : τ) :
      Resumed τ program guarded (co.resume rt steps d u).2.1

theorem outcome_settles (co : Thread) : Settles (.ok (outcome co).1) (outcome co).2 := by
  unfold outcome
  dsimp only
  split
  · exact .yielded rfl rfl rfl
  · exact .returned rfl
  · exact .returned rfl
  · exact .threw rfl
  · exact .threw rfl
  · exact .threw rfl

theorem conclude_settles {r : StepResult τ} (h : ∀ x co u, r = .fault x co u → x = .allocationLimit) :
    Settles (conclude r).1 (conclude r).2.1 := by
  cases r with
  | next co u => exact .fault rfl nofun
  | done co u => exact outcome_settles co
  | fault x co u =>
    obtain rfl := h x co u rfl
    exact .fault rfl nofun

theorem conclude_nested {r : StepResult τ} (h : Nested program r.thread.frames r.thread.env.length) :
    Nested program (conclude r).2.1.frames (conclude r).2.1.env.length := by
  cases r with
  | next co u | fault x co u => exact h
  | done co u =>
    show Nested program (outcome co).2.frames (outcome co).2.env.length
    unfold outcome
    dsimp only
    split
    · exact h
    all_goals exact .nil

/-- A resume settles the coroutine, with its frames nested. -/
theorem Rests.resume {allowed : Runtime τ → Prop} (h : Rests allowed program guarded co) (rt : Runtime τ)
    (hrt : allowed rt) (steps : ℕ) (d : Val) (u : τ) : Settles (co.resume rt steps d u).1 (co.resume rt steps d u).2.1 ∧
      Nested program (co.resume rt steps d u).2.1.frames (co.resume rt steps d u).2.1.env.length := by
  obtain ⟨hnested, hfault⟩ := (Stage.begun h hrt d u).run_nested steps
  rw [resume_begun h.status]
  exact ⟨conclude_settles hfault, conclude_nested hnested⟩

/-- After any number of resumes the coroutine can go on, or is dead for good. -/
theorem Resumed.rests_or_dead (h : Resumed τ program guarded co) :
    Rests (fun _ : Runtime τ => True) program guarded co ∨
      co.status = .dead ∧ Nested program co.frames co.env.length := by
  induction h with
  | fresh => exact .inl .fresh
  | @resume co _ rt steps d u ih =>
    rcases ih with hrests | ⟨hdead, hnested⟩
    · obtain ⟨hsettles, hnested⟩ := hrests.resume rt trivial steps d u
      cases hr : (co.resume rt steps d u).1 with
      | ok o =>
        rw [hr] at hsettles
        cases hsettles with
        | yielded _ _ _ => exact .inl (.yielded hrests trivial hr)
        | returned hs | threw hs => exact .inr ⟨hs, hnested⟩
      | error x =>
        rw [hr] at hsettles
        cases hsettles with
        | fault hs _ => exact .inr ⟨hs, hnested⟩
    · rw [resume_dead hdead]
      exact .inr ⟨hdead, hnested⟩

/-- After any number of resumes of the coroutine of a program its frames are nested, and it is not running.  While it
is not dead, they are nested however far the next resume has come.  Every resume settles the coroutine: one that hands
a value out leaves it suspended with nothing pending, and after any other it is dead; no resume fails with an internal
fault.  A dead coroutine stays as it is. -/
theorem Resumed.nested_frames (h : Resumed τ program guarded co) :
    Nested program co.frames co.env.length ∧ co.status ≠ .running ∧
      (∀ (rt : Runtime τ) steps d u, Settles (co.resume rt steps d u).1 (co.resume rt steps d u).2.1) ∧
      (co.status ≠ .dead → ∀ (rt : Runtime τ) n d u,
        Nested program (run rt n (co.begun d) u).thread.frames (run rt n (co.begun d) u).thread.env.length) ∧
      (co.status = .dead → ∀ (rt : Runtime τ) steps d u,
        co.resume rt steps d u = (.error (.runtime "cannot resume dead coroutine"), co, u)) := by
  rcases h.rests_or_dead with hrests | ⟨hdead, hnested⟩
  · refine ⟨?_, ?_, ?_, ?_, ?_⟩
    · exact ((standing_keeps _ program guarded).rests hrests).nested
    · rcases hrests.status with hs | hs <;> rw [hs] <;> exact nofun
    · intro rt steps d u
      exact (hrests.resume rt trivial steps d u).1
    · intro _ rt n d u
      have hstage : Stage _ program guarded rt (co.begun d) u := .begun hrests trivial d u
      exact (hstage.run_nested n).1
    · intro hdead
      rcases hrests.status with hs | hs <;> cases hs.symm.trans hdead
  · refine ⟨hnested, ?_, ?_, fun halive => absurd hdead halive, fun _ _ _ _ _ => resume_dead hdead⟩
    · rw [hdead]
      exact nofun
    · intro rt steps d u
      rw [resume_dead hdead]
      exact .fault hdead nofun

end Coroutine

end Nesting

/-- A loop whose body is a branch that waits. -/
def waitingLoop : Stmt :=
  .loop (.bool true .none) (.branch (.bool true .none) (.expr (.yield none .none) .none) none .none) .none

/-- It waits with the frame of the chosen branch right above that of the loop, and goes on without an internal
fault. -/
theorem waiting_nested : Nested waitingLoop
      [⟨.expr, 0, .expr (.yield none .none) .none⟩, ⟨.loop, 0, waitingLoop⟩] 0 ∧
    Coroutine.Settles (.ok (.yielded .null))
      ⟨[⟨.expr, 0, .expr (.yield none .none) .none⟩, ⟨.loop, 0, waitingLoop⟩], [], .none, none, .suspended, true⟩ := by
  have hresumed : Coroutine.Resumed (Session Unit) waitingLoop true
      ⟨[⟨.expr, 0, .expr (.yield none .none) .none⟩, ⟨.loop, 0, waitingLoop⟩], [], .none, none, .suspended, true⟩ :=
    .resume .fresh (.ofHost silentHost [] 0 ⟨none, false⟩) 9 .null ⟨0, ()⟩
  obtain ⟨hnested, -, hsettles, -, -⟩ := hresumed.nested_frames
  exact ⟨hnested, hsettles (.ofHost silentHost [] 0 ⟨none, false⟩) 9 .null ⟨0, ()⟩⟩

end VirtualComputer
