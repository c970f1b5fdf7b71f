import VirtualComputer.Proofs.Guest.DirectStmt
import VirtualComputer.Proofs.Guest.Raising
import VirtualComputer.Proofs.Validation.Scopes

/-!
# Loop control reaches its loop

In a program in which no stray loop control is reported, a pending `break` or `continue` is always stopped, and by the
innermost loop around its statement (`control_reaches_loop`): that loop has a frame, the frames above it are no loops,
and the step pops them and no more.  So no resume ends with the error of stray loop control.
-/

namespace VirtualComputer

/-- Natives are those of some host. -/
def Runtime.OverHost {σ : Type} (rt : Runtime (Session σ)) : Prop :=
  ∃ host globals baseline conditions, rt = .ofHost host globals baseline conditions

/-! ## Frames of loops -/

/-- Of the frames that have a statement above them, those of loops are the ones of the kind. -/
theorem loop_iff {f : Frame} {slot : Slot} {t : Stmt} (hk : f.kind.slot? = some slot)
    (ht : f.node.part? slot = some t) : f.kind = .loop ↔ f.node.isLoop := by
  constructor
  · intro hkind
    rw [hkind] at hk
    cases hk
    cases hn : f.node with
    | loop _ _ _ => rfl
    | _ =>
      rw [hn] at ht
      cases ht
  · intro hloop
    cases hn : f.node with
    | loop _ _ _ =>
      rw [hn] at ht
      unfold FrameKind.slot? at hk
      split at hk
      · cases hk
        cases ht
      · assumption
      · cases hk
        cases ht
      · cases hk
        cases ht
      · cases hk
    | _ =>
      rw [hn] at hloop
      cases hloop

/-- The innermost loop around a statement has a frame, and the frames above it are no loops. -/
theorem Above.loop {program : Stmt} {fs : List Frame} {names : List String} {around : Enclosing} {s l : Stmt}
    (h : Above program fs names around s) (hl : around.loop? = some l) : ∃ gs f rest, fs = gs ++ f :: rest ∧
      f.kind = .loop ∧ f.node = l ∧ f.base ≤ names.length ∧ ∀ g ∈ gs, g.kind ≠ .loop ∧ f.base ≤ g.base := by
  induction h with
  | program => cases hl
  | @branch fs names around s t slot _ hs _ ih =>
    have hloop : s.isLoop = false := by
      cases s with
      | loop _ _ _ => cases hs
      | _ => rfl
    rw [Enclosing.loop_cons hloop] at hl
    exact ih hl
  | @frame f fs names around t slot h hb hk ht _ ih =>
    cases hloop : f.node.isLoop with
    | true =>
      rw [Enclosing.loop_cons_of_loop hloop] at hl
      exact ⟨[], f, fs, rfl, (loop_iff hk ht).2 hloop, Option.some.inj hl, hb, nofun⟩
    | false =>
      rw [Enclosing.loop_cons hloop] at hl
      obtain ⟨gs, f', rest, rfl, hkind, hnode, hbase, hgs⟩ := ih hl
      rw [length_rtake] at hbase
      refine ⟨f :: gs, f', rest, rfl, hkind, hnode, by omega, List.forall_mem_cons.2 ⟨⟨?_, by omega⟩, hgs⟩⟩
      rw [ne_eq, loop_iff hk ht, hloop]
      exact Bool.false_ne_true

namespace Coroutine

/-- The frames after a loop has stopped loop control: it is left, or goes on. -/
def afterLoop (c : Control Val) (f : Frame) (fs : List Frame) : List Frame :=
  match c with
  | .continue => f :: fs
  | _ => fs

theorem lets_of_ne_loop {c : Control Val} (hc : c = .break ∨ c = .continue) {kind : FrameKind} (hk : kind ≠ .loop) :
    kind.lets c := by
  rcases hc with rfl | rfl
  · cases kind with
    | loop => exact absurd rfl hk
    | _ => rfl
  · cases kind with
    | loop => exact absurd rfl hk
    | _ => rfl

/-- Loop control pops the frames above the innermost loop. -/
theorem unwind_loop {c : Control Val} (hc : c = .break ∨ c = .continue) {gs : List Frame} {f : Frame} (fs : List Frame)
    (hk : f.kind = .loop) (hgs : ∀ g ∈ gs, g.kind ≠ .loop ∧ f.base ≤ g.base) (env : List (String × Val)) :
    unwind c (gs ++ f :: fs) env = (afterLoop c f fs, outermost f.base env, .none) := by
  have hlets : Lets c f.base gs := fun g hg => ⟨lets_of_ne_loop hc (hgs g hg).1, (hgs g hg).2⟩
  rw [unwind_lets hlets]
  rcases hc with rfl | rfl
  · simp only [unwind, hk, afterLoop]
  · simp only [unwind, hk, afterLoop]

end Coroutine

/-! ## Stages -/

section

variable {σ : Type} {program : Stmt} {guarded : Bool} {rt : Runtime (Session σ)} {co : Thread} {s : Session σ}

/-- Pending loop control is that of a statement in a loop, and a step pops the frames above the innermost one. -/
theorem loop_reached {allowed : Runtime (Session σ) → Prop}
    (h : ∀ p ∈ program.problems, p.rule ≠ Rule.loopControl.id)
    (hco : Coroutine.Stage allowed program guarded rt co s) (hc : co.control = .break ∨ co.control = .continue) :
    ∃ around exiting gs f fs, program.Over co.frames around exiting ∧ exiting.Exits co.control ∧
      around.loop? = some f.node ∧ co.frames = gs ++ f :: fs ∧ f.kind = .loop ∧ (∀ g ∈ gs, g.kind ≠ .loop) ∧
      Coroutine.step rt co s = .next { co with
        frames := Coroutine.afterLoop co.control f fs
        env := outermost f.base co.env
        control := .none } s := by
  have hrule := (unreported_iff program .loopControl).1 h
  obtain ⟨around, hplaced⟩ := (Coroutine.standing_keeps allowed program guarded).stage hco
  obtain ⟨exiting, hexits, habove⟩ := hplaced.exiting (by rcases hc with hc | hc <;> rw [hc] <;> rfl)
  have hloop : ∃ l, around.loop? = some l := by
    rcases hc with hc | hc
    · rw [hc] at hexits
      cases hexits
      exact LoopControl.loop_of_break hrule habove.inside
    · rw [hc] at hexits
      cases hexits
      exact LoopControl.loop_of_continue hrule habove.inside
  obtain ⟨l, hl⟩ := hloop
  obtain ⟨gs, f, fs, hf, hk, rfl, -, hgs⟩ := habove.loop hl
  refine ⟨around, exiting, gs, f, fs, habove.place, hexits, hl, hf, hk, fun g hg => (hgs g hg).1, ?_⟩
  have hunwind := Coroutine.unwind_loop hc fs hk hgs co.env
  have hstep : Coroutine.step rt co s = Coroutine.exit co s := by
    rcases hc with hc | hc
    · simp only [Coroutine.step, hc]
    · simp only [Coroutine.step, hc]
  rw [hstep, Coroutine.exit, hf, hunwind]
  rfl

/-- No resume ends with the error of stray loop control. -/
theorem resume_not_stray (h : ∀ p ∈ program.problems, p.rule ≠ Rule.loopControl.id)
    (hco : Coroutine.Rests (Runtime.OverHost (σ := σ)) program guarded co) (hrt : rt.OverHost) {steps : Nat}
    {d e : Val} (he : (co.resume rt steps d s).1 = .ok (.threw e)) : e.code? ≠ some "BAD_CONTROL" := by
  obtain ⟨co₁, s₁, co₂, s₂, hstage, hs, ho, -⟩ := hco.last_step hrt he
  have hraises : co₁.Raises fun e => e.code? ≠ some "BAD_CONTROL" := by
    have hthrows (rt : Runtime (Session σ)) (hrt : rt.OverHost) : rt.Throws fun e => e.code? ≠ some "BAD_CONTROL" := by
      obtain ⟨host, globals, baseline, conditions, rfl⟩ := hrt
      exact ofHost_throws (fun _ hm => code_of_ne_stray (ne_stray_of_ordinary hm)) host globals baseline conditions
    exact (Coroutine.raises_keeps hthrows (fun _ => code_of_ne_stray) program guarded).stage hstage
  have hpending : co₂.control = co₁.control := by
    rcases Coroutine.step_done hs with ⟨v, hv⟩ | hpending
    · rw [Coroutine.outcome, hv] at ho
      cases ho
    · exact hpending
  unfold Coroutine.outcome at ho
  split at ho
  · cases ho
  · cases ho
  · cases ho
  · next e' hthrow =>
    cases ho
    exact hraises e (hpending.symm.trans hthrow)
  · next hbreak =>
    obtain ⟨_, _, _, _, _, _, _, _, _, _, _, hnext⟩ := loop_reached h hstage (.inl (hpending.symm.trans hbreak))
    cases hs.symm.trans hnext
  · next hcontinue =>
    obtain ⟨_, _, _, _, _, _, _, _, _, _, _, hnext⟩ := loop_reached h hstage (.inr (hpending.symm.trans hcontinue))
    cases hs.symm.trans hnext

end

/-- In a program in which no stray loop control is reported, loop control is stopped by the innermost loop around its
statement, whose frame is there: a step pops the frames above it, and that of the loop itself after `break`.  No resume
ends with the error of stray loop control. -/
theorem control_reaches_loop {σ : Type} {program : Stmt} {guarded : Bool}
    (h : ∀ p ∈ program.problems, p.rule ≠ Rule.loopControl.id) :
    (∀ {rt : Runtime (Session σ)} {co : Thread} {s : Session σ},
      Coroutine.Stage Runtime.OverHost program guarded rt co s → co.control = .break ∨ co.control = .continue →
      ∃ around exiting gs f fs, program.Over co.frames around exiting ∧ exiting.Exits co.control ∧
        around.loop? = some f.node ∧ co.frames = gs ++ f :: fs ∧ f.kind = .loop ∧ (∀ g ∈ gs, g.kind ≠ .loop) ∧
        Coroutine.step rt co s = .next { co with
          frames := Coroutine.afterLoop co.control f fs
          env := outermost f.base co.env
          control := .none } s) ∧
    ∀ {rt : Runtime (Session σ)} {co : Thread} {steps : Nat} {d e : Val} {s : Session σ},
      Coroutine.Rests (Runtime.OverHost (σ := σ)) program guarded co → rt.OverHost →
      (co.resume rt steps d s).1 = .ok (.threw e) → e.code? ≠ some "BAD_CONTROL" := by
  constructor
  · intro rt co s hco hc
    exact loop_reached h hco hc
  · intro rt co steps d e s hco hrt he
    exact resume_not_stray h hco hrt he

/-- A `try` that breaks from inside of a loop. -/
def leavingLoop : Stmt :=
  .loop (.bool true .none) (.attempt (.break .none) "e" (.block [] .none) .none) .none

/-- That loop, and then a call that fails. -/
def leavingProgram : Stmt :=
  .block [leavingLoop, .expr (.call (.bool true .none) [] .none) .none] .none

/-- The loop is left from inside of the `try`, and the program ends with the error of the call. -/
theorem leaving_reached : (∃ gs f fs, [⟨.attempt .body, 0, .attempt (.break .none) "e" (.block [] .none) .none⟩,
        ⟨.loop, 0, leavingLoop⟩, ⟨.block 1, 0, leavingProgram⟩] = gs ++ f :: fs ∧ f.kind = .loop ∧
      Coroutine.step (.ofHost silentHost [] 0 ⟨none, false⟩) ⟨gs ++ f :: fs, [], .break, none, .running, true⟩ ⟨0, ()⟩ =
        .next ⟨fs, outermost f.base [], .none, none, .running, true⟩ ⟨0, ()⟩) ∧
    ∃ e, ((Coroutine.ofProgram leavingProgram true).resume (.ofHost silentHost [] 0 ⟨none, false⟩) 9 .null ⟨0, ()⟩).1 =
      .ok (.threw e) ∧ e.code? ≠ some "BAD_CONTROL" := by
  have hrule : ∀ p ∈ leavingProgram.problems, p.rule ≠ Rule.loopControl.id :=
    (unreported_iff leavingProgram .loopControl).2 rfl
  have hrt : (Runtime.ofHost silentHost [] 0 ⟨none, false⟩).OverHost := ⟨_, _, _, _, rfl⟩
  obtain ⟨hloop, hstray⟩ := control_reaches_loop (σ := Unit) hrule
  constructor
  · have hco : Coroutine.Stage Runtime.OverHost leavingProgram true (.ofHost silentHost [] 0 ⟨none, false⟩)
        ⟨[⟨.attempt .body, 0, .attempt (.break .none) "e" (.block [] .none) .none⟩, ⟨.loop, 0, leavingLoop⟩,
          ⟨.block 1, 0, leavingProgram⟩], [], .break, none, .running, true⟩ ⟨0, ()⟩ :=
      .next (.next (.next (.next (.begun .fresh hrt .null ⟨0, ()⟩) rfl) rfl) rfl) rfl
    obtain ⟨_, _, gs, f, fs, _, _, _, hf, hk, _, hs⟩ := hloop hco (.inl rfl)
    exact ⟨gs, f, fs, hf, hk, hf ▸ hs⟩
  · have he : ((Coroutine.ofProgram leavingProgram true).resume (.ofHost silentHost [] 0 ⟨none, false⟩) 9 .null
        ⟨0, ()⟩).1 = .ok (.threw (Mistake.notCallable (Val.bool true).kind).toVal) := rfl
    exact ⟨_, he, hstray .fresh hrt he⟩

end VirtualComputer
