import VirtualComputer.Proofs.Guest.Nesting

/-!
# Programs without loops stop

Every statement of a program without loops is started at most once, and a handler only when an error has ended the body
before it.  So what the frames of a coroutine are still due (`Coroutine.due`) decreases with every step:

- with a step of the topmost frame (`execute_due`), whatever it evaluates, and with an exit that a handler stops
  (`exit_due`);
- a `yield` leaves it as it is (`yield_due`).

At the start it is three for every statement of the program, which bounds all steps of the coroutine's life but those
in which it yields (`loopless_ends`).
-/

namespace VirtualComputer

/-! ## Sizes -/

mutual

/-- The number of statements in a statement, itself included. -/
def Stmt.size : Stmt → Nat
  | .block body _ => Stmt.sizeAll body + 1
  | .branch _ yes no _ => yes.size + Stmt.sizeOption no + 1
  | .loop _ body _ => body.size + 1
  | .attempt body _ handler _ => body.size + handler.size + 1
  | .declare .. | .assign .. | .return .. | .expr .. | .break _ | .continue _ => 1

def Stmt.sizeAll : List Stmt → Nat
  | [] => 0
  | s :: body => s.size + Stmt.sizeAll body

def Stmt.sizeOption : Option Stmt → Nat
  | none => 0
  | some s => s.size

end

theorem Stmt.size_pos (s : Stmt) : 0 < s.size := by
  cases s <;> simp [size]

/-- A program that contains no loop. -/
def Stmt.Loopless (program : Stmt) : Prop :=
  ∀ around s, program.Inside around s → s.isLoop = false

/-! ## What is due -/

/-- A bound for the steps that a frame is still due, and those above it that it has yet to start. -/
def Frame.due (f : Frame) : Nat :=
  match f.kind, f.node with
  | .block next, .block body _ => 3 * Stmt.sizeAll (body.drop next) + 2
  -- the error has to be raised and the handler to be found, before it starts
  | .attempt .body, .attempt _ _ handler _ => 3 * handler.size + 2
  | .attempt .handler, _ => 1
  | _, s => 3 * s.size - 1

/-- The same for some frames. -/
def framesDue (fs : List Frame) : Nat :=
  (fs.map Frame.due).sum

@[simp] theorem framesDue_cons (f : Frame) (fs : List Frame) : framesDue (f :: fs) = f.due + framesDue fs := by
  simp [framesDue]

/-- The statement that starts is due all of its steps. -/
@[simp] theorem due_frame (s : Stmt) (env : List (String × Val)) : (s.frame env).due = 3 * s.size - 1 := by
  cases s with
  | block body span =>
    show 3 * Stmt.sizeAll body + 2 = 3 * (Stmt.sizeAll body + 1) - 1
    omega
  | _ => rfl

theorem sizeAll_drop {body : List Stmt} {n : Nat} {child : Stmt} (h : body[n]? = some child) :
    Stmt.sizeAll (body.drop n) = child.size + Stmt.sizeAll (body.drop (n + 1)) := by
  obtain ⟨hn, rfl⟩ := List.getElem?_eq_some_iff.1 h
  rw [List.drop_eq_getElem_cons hn, Stmt.sizeAll]

theorem due_pos (f : Frame) : 0 < f.due := by
  have := f.node.size_pos
  unfold Frame.due
  split <;> omega

namespace Coroutine

/-- A bound for the steps that a coroutine is still due. -/
def due (co : Thread) : Nat :=
  framesDue co.frames + if isPending co.control then 0 else 1

variable {τ : Type} {rt : Runtime τ} {co co' : Thread} {s s' : τ} {f : Frame} {fs : List Frame}

/-! ## Steps -/

/-- By the cases of a step; a statement that stays leaves an exit pending, which costs the last bit. -/
theorem execute_due (rt : Runtime τ) (s : τ) (hf : co.frames = f :: fs) (hc : co.control = .none)
    (hloop : f.node.isLoop = false) : (execute rt f fs co s).Leads fun co' => co'.due < co.due := by
  obtain ⟨frames, env, control, delivered, status, guarded⟩ := co
  obtain rfl : frames = f :: fs := hf
  obtain rfl : control = .none := hc
  have hstart : due ⟨f :: fs, env, .none, delivered, status, guarded⟩ = f.due + framesDue fs + 1 := by
    simp [due, isPending]
  have hstay (env' : List (String × Val)) (d : Option Val) (c : Control Val) (hc : isPending c) :
      due ⟨f :: fs, env', c, d, status, guarded⟩ < f.due + framesDue fs + 1 := by
    simp [due, hc]
  have hover (env' : List (String × Val)) (d : Option Val) (c : Control Val) :
      due ⟨fs, env', c, d, status, guarded⟩ < f.due + framesDue fs + 1 := by
    have := due_pos f
    unfold due
    dsimp only
    split <;> omega
  have heval {α : Type} (m : Evaluation τ α) (k : α → Thread → τ → StepResult τ)
      (hk : ∀ a d t, (k a ⟨f :: fs, env, .none, d, status, guarded⟩ t).Leads fun co' =>
        co'.due < f.due + framesDue fs + 1) :
      (evaluating ⟨f :: fs, env, .none, delivered, status, guarded⟩ s m k).Leads fun co' =>
        co'.due < f.due + framesDue fs + 1 :=
    evaluating_leads (fun d c _ hc => hstay env d c hc) hk
  rw [hstart]
  unfold execute
  split
  · next next body span hkind hnode =>
    split
    · exact hover _ _ _
    · next child hchild =>
      have hdue : f.due = 3 * Stmt.sizeAll (body.drop next) + 2 := by rw [Frame.due, hkind, hnode]
      have hsize := child.size_pos
      simp only [StepResult.Leads, push, due, framesDue_cons, due_frame, isPending]
      rw [hdue, sizeAll_drop hchild, Frame.due, hnode]
      simp only [Bool.false_eq_true, if_false]
      omega
  · exact heval _ _ fun v d t => measured_leads rt (hover _ _ _) t
  · refine heval _ _ fun ⟨v, ks⟩ d t => ?_
    dsimp only
    split
    · exact hstay _ _ _ rfl
    · exact measured_leads rt (hover _ _ _) t
  · next test yes no span hkind hnode =>
    refine heval _ _ fun v d t => ?_
    have hdue : f.due = 3 * (yes.size + Stmt.sizeOption no + 1) - 1 := by
      rw [Frame.due, hkind, hnode]
      rfl
    dsimp only
    split
    · have hsize := yes.size_pos
      simp only [StepResult.Leads, push, due, framesDue_cons, due_frame, isPending, Bool.false_eq_true, if_false]
      omega
    · split
      · next no =>
        have hsize := yes.size_pos
        rw [Stmt.sizeOption] at hdue
        simp only [StepResult.Leads, push, due, framesDue_cons, due_frame, isPending, Bool.false_eq_true, if_false]
        omega
      · exact hover _ _ _
  · next hnode =>
    rw [hnode] at hloop
    cases hloop
  · exact heval _ _ fun v d t => hover _ _ _
  · next body x handler span hkind hnode =>
    have hdue : f.due = 3 * (body.size + handler.size + 1) - 1 := by
      rw [Frame.due, hkind, hnode]
      rfl
    have hsize := body.size_pos
    simp only [StepResult.Leads, push, due, framesDue_cons, due_frame, isPending]
    rw [hdue, Frame.due, hnode]
    simp only [Bool.false_eq_true, if_false]
    omega
  · exact hover _ _ _
  · exact heval _ _ fun v d t => hover _ _ _
  · exact hover _ _ _
  · exact hover _ _ _
  · trivial

/-- An exit that is stopped, although not by a loop, goes on with a handler. -/
theorem unwind_due {c : Control Val} (hc : c ≠ .none) {fs fs' : List Frame} (hloop : ∀ f ∈ fs, f.kind ≠ .loop)
    {env env' : List (String × Val)} (hu : unwind c fs env = (fs', env', .none)) :
    framesDue fs' + 1 < framesDue fs := by
  induction fs generalizing env with
  | nil => exact absurd (congrArg (·.2.2) hu) hc
  | cons f fs ih =>
    obtain ⟨hf, hloop⟩ := List.forall_mem_cons.1 hloop
    unfold unwind at hu
    dsimp only at hu
    split at hu
    · exact absurd ‹_› hf
    · exact absurd ‹_› hf
    · next e body x handler span hkind hnode =>
      cases hu
      have hdue : f.due = 3 * handler.size + 2 := by rw [Frame.due, hkind, hnode]
      have hsize := handler.size_pos
      simp only [framesDue_cons, due_frame, hdue]
      simp only [Frame.due]
      omega
    · have hlater := ih hloop hu
      have hpos := due_pos f
      rw [framesDue_cons]
      omega

theorem exit_due (hc : co.control ≠ .none) (hloop : ∀ f ∈ co.frames, f.kind ≠ .loop)
    (he : exit co s = .next co' s') : co'.due < co.due := by
  obtain ⟨fs, env, hu, rfl, -⟩ := exit_next he
  have hless := unwind_due hc hloop hu
  unfold due
  dsimp only [isPending]
  simp only [Bool.false_eq_true, if_false]
  omega

end Coroutine

/-! ## Frames of programs without loops -/

/-- A frame that stops as a loop is one of a loop. -/
theorem Frame.Fits.isLoop {f : Frame} (h : f.Fits) (hk : f.kind = .loop) : f.node.isLoop := by
  rcases h with h | ⟨slot, t, hslot, ht⟩
  · cases hn : f.node with
    | loop test body span => rfl
    | _ =>
      rw [hn, hk] at h
      cases h
  · rw [hk] at hslot
    cases hslot
    cases hn : f.node with
    | loop test body span => rfl
    | _ =>
      rw [hn] at ht
      cases ht

theorem Above.frames_fit {program : Stmt} {fs : List Frame} {names : List String} {around : Enclosing} {s : Stmt}
    (h : Above program fs names around s) : ∀ f ∈ fs, f.Fits := by
  induction h with
  | program => exact nofun
  | branch _ _ _ ih => exact ih
  | frame _ _ hk ht _ ih => exact List.forall_mem_cons.2 ⟨.inr ⟨_, _, hk, ht⟩, ih⟩

theorem Placed.frames_fit {program : Stmt} {fs : List Frame} {names : List String} {c : Control Val}
    {around : Enclosing} (h : Placed program fs names c around) : ∀ f ∈ fs, f.Fits := by
  cases h with
  | ended => exact nofun
  | top _ h => exact List.forall_mem_cons.2 ⟨h.fits, h.above.frames_fit⟩
  | exit _ h => exact h.frames_fit

namespace Coroutine

variable {τ : Type} {rt : Runtime τ} {program : Stmt} {guarded : Bool} {co co' : Thread} {s s' : τ}

/-- In a program without loops no frame is one of a loop. -/
theorem Standing.loopless (h : co.Standing program) (hp : program.Loopless) :
    ∀ f ∈ co.frames, f.kind ≠ .loop ∧ f.node.isLoop = false := by
  intro f hf
  obtain ⟨around, h⟩ := h
  obtain ⟨inside, hinside⟩ := h.frames_inside f hf
  have hnode := hp _ _ hinside
  exact ⟨fun hk => Bool.false_ne_true (hnode.symm.trans ((h.frames_fit f hf).isLoop hk)), hnode⟩

/-- Every step that goes on takes something off. -/
theorem step_due (hp : program.Loopless) (h : co.Standing program) (hs : step rt co s = .next co' s') :
    co'.due < co.due := by
  have hloopless := h.loopless hp
  rcases step_next_cases hs with ⟨f, fs, hc, hf, ht⟩ | ⟨hc, he⟩
  · have hnode := (hloopless f (hf ▸ List.mem_cons_self)).2
    exact (execute_due rt s hf hc hnode).next ht
  · exact exit_due hc (fun f hf => (hloopless f hf).1) he

/-- A step that hands a value out adds nothing. -/
theorem yield_due (hp : program.Loopless) (h : co.Standing program) (hco : ∀ v, co.control ≠ .suspend v)
    (hs : step rt co s = .done co' s') {v : Val} (hv : co'.control = .suspend v) : (outcome co').2.due ≤ co.due := by
  rcases step_suspend_cases hs hv with rfl | ⟨f, fs, hc, hf, ht⟩
  · exact absurd hv (hco v)
  · have hnode := (h.loopless hp f (hf ▸ List.mem_cons_self)).2
    have hless := (execute_due rt s hf hc hnode).done ht
    have hleft : (outcome co').2.due = co'.due + 1 := by
      rw [outcome_suspend hv]
      simp [due, hv, isPending]
    omega

/-! ## Whole lives -/

/-- A coroutine whose frames follow the program and that is handing nothing out, while what it is still due and the
steps that it has taken do not exceed what the program was due. -/
structure Solvent (program : Stmt) (taken : Nat) (co : Thread) : Prop where
  standing : co.Standing program
  unsuspended : ∀ v, co.control ≠ .suspend v
  paid : taken + co.due ≤ 3 * program.size

namespace Solvent

variable {n : Nat} {v : Val}

theorem fresh (program : Stmt) (guarded : Bool) : Solvent program 0 (ofProgram program guarded) where
  standing := (standing_keeps (τ := Unit) (fun _ => True) program guarded).fresh
  unsuspended v := nofun
  paid := by
    have hsize := program.size_pos
    simp [ofProgram, due, framesDue, isPending]
    omega

theorem begun (h : Solvent program n co) (d : Val) : Solvent program n (co.begun d) := by
  unfold Coroutine.begun
  split
  · exact ⟨h.standing, h.unsuspended, h.paid⟩
  · exact ⟨h.standing, h.unsuspended, h.paid⟩

variable (hp : program.Loopless)
include hp

theorem next (h : Solvent program n co) (hs : step rt co s = .next co' s') : Solvent program (n + 1) co' where
  standing := step_standing h.standing hs
  unsuspended := step_next hs
  paid := by
    have hless := step_due hp h.standing hs
    have hpaid := h.paid
    omega

theorem yielded (h : Solvent program n co) (hs : step rt co s = .done co' s') (hv : co'.control = .suspend v) :
    Solvent program n (outcome co').2 where
  standing := (standing_keeps (τ := τ) (fun _ => True) program false).yielded trivial h.standing hs hv
  unsuspended w := by
    rw [outcome_suspend hv]
    exact nofun
  paid := (Nat.add_le_add_left (yield_due hp h.standing h.unsuspended hs hv) n).trans h.paid

end Solvent

/-- A coroutine never is due more than its program was. -/
theorem solvent_keeps (allowed : Runtime τ → Prop) (guarded : Bool) (hp : program.Loopless) :
    Keeps allowed program guarded (Solvent program 0) (Solvent program 0) where
  fresh := .fresh program guarded
  begun d h := h.begun d
  next _ h hs :=
    have hnext := h.next hp hs
    ⟨hnext.standing, hnext.unsuspended, (Nat.add_le_add_right (Nat.zero_le _) _).trans hnext.paid⟩
  yielded _ h hs hv := h.yielded hp hs hv

/-- The life of a coroutine of a program, in which runtimes and resume values may be any, up to a stage or to its end,
with the number of steps until then that do not end in a `yield`. -/
inductive Lives (τ : Type) (program : Stmt) (guarded : Bool) : Option Thread → Nat → Prop
  | start (d : Val) : Lives τ program guarded (some ((ofProgram program guarded).begun d)) 0
  | next {rt : Runtime τ} {co co' : Thread} {s s' : τ} {n : Nat} (h : Lives τ program guarded (some co) n)
      (hs : step rt co s = .next co' s') : Lives τ program guarded (some co') (n + 1)
  | yield {rt : Runtime τ} {co co' : Thread} {s s' : τ} {n : Nat} {v : Val} (h : Lives τ program guarded (some co) n)
      (hs : step rt co s = .done co' s') (hv : co'.control = .suspend v) (d : Val) :
      Lives τ program guarded (some ((outcome co').2.begun d)) n
  | ended {rt : Runtime τ} {co co' : Thread} {s s' : τ} {n : Nat} (h : Lives τ program guarded (some co) n)
      (hs : step rt co s = .done co' s') (hv : ∀ v, co'.control ≠ .suspend v) : Lives τ program guarded none (n + 1)
  | failed {rt : Runtime τ} {co co' : Thread} {s s' : τ} {n : Nat} {x : Fault} (h : Lives τ program guarded (some co) n)
      (hs : step rt co s = .fault x co' s') : Lives τ program guarded none (n + 1)

/-- By induction on the life; only its last step need not be paid for. -/
theorem Lives.solvent {o : Option Thread} {n : Nat} (h : Lives τ program guarded o n) (hp : program.Loopless) :
    (∀ co, o = some co → Solvent program n co) ∧ n ≤ 3 * program.size + 1 := by
  have hstage {co : Thread} {n : Nat} (h : Solvent program n co) :
      (∀ co', some co = some co' → Solvent program n co') ∧ n ≤ 3 * program.size + 1 := by
    refine ⟨fun co' he => Option.some.inj he ▸ h, ?_⟩
    have hpaid := h.paid
    omega
  have hend {co : Thread} {n : Nat} (h : Solvent program n co) :
      (∀ co', none = some co' → Solvent program (n + 1) co') ∧ n + 1 ≤ 3 * program.size + 1 := by
    refine ⟨nofun, ?_⟩
    have hpaid := h.paid
    omega
  induction h with
  | start d => exact hstage ((Solvent.fresh program guarded).begun d)
  | next _ hs ih => exact hstage ((ih.1 _ rfl).next hp hs)
  | yield _ hs hv d ih => exact hstage (((ih.1 _ rfl).yielded hp hs hv).begun d)
  | ended _ _ _ ih => exact hend (ih.1 _ rfl)
  | failed _ _ ih => exact hend (ih.1 _ rfl)

/-- A run that goes on has used up what it was allowed. -/
theorem run_due (hp : program.Loopless) {n : Nat} (h : co.Standing program) (hr : run rt n co s = .next co' s') :
    n + co'.due ≤ co.due := by
  induction n generalizing co s with
  | zero =>
    cases hr
    exact (Nat.zero_add _).le
  | succ n ih =>
    rw [run] at hr
    cases hs : step rt co s with
    | next co₁ s₁ =>
      rw [hs] at hr
      have hless := step_due hp h hs
      have hrest := ih (step_standing h hs) hr
      omega
    | done co₁ s₁ | fault x co₁ s₁ =>
      rw [hs] at hr
      cases hr

/-- A resume that is allowed more steps than the program was due comes to an end. -/
theorem Rests.resume_ends {allowed : Runtime τ → Prop} (h : Rests allowed program guarded co) (hp : program.Loopless)
    (hrt : allowed rt) {steps : Nat} (hsteps : 3 * program.size < steps) (d : Val) (s : τ) :
    (∃ o, (co.resume rt steps d s).1 = .ok o) ∨ (co.resume rt steps d s).1 = .error .allocationLimit := by
  have hbegun := ((solvent_keeps allowed guarded hp).rests h).begun d
  rw [resume_begun h.status]
  cases hr : run rt steps (co.begun d) s with
  | next co' s' =>
    have hdue := run_due hp hbegun.standing hr
    have hpaid := hbegun.paid
    omega
  | done co' s' => exact .inl ⟨_, rfl⟩
  | fault x co' s' =>
    rcases (Stage.begun h hrt d s).run_ends steps with ⟨_, _, -, hnext⟩ | ⟨co₁, s₁, hstage, hlast⟩
    · cases hnext.symm.trans hr
    · have hstanding := (standing_keeps allowed program guarded).stage hstage
      rw [(hstanding.fault (hlast.symm.trans hr)).1]
      exact .inr rfl

end Coroutine

/-! ## The main result -/

/-- In its whole life the coroutine of a program without loops takes at most three steps for every statement of the
program and one more, those that end in a `yield` apart; and each of its resumes ends within so many steps, with a
`yield`, a result, an error or for lack of memory. -/
theorem loopless_ends {τ : Type} {program : Stmt} (hp : program.Loopless) (guarded : Bool) :
    (∀ o n, Coroutine.Lives τ program guarded o n → n ≤ 3 * program.size + 1) ∧
      ∀ co, Coroutine.Rests (fun _ : Runtime τ => True) program guarded co → ∀ (rt : Runtime τ) steps d s,
        3 * program.size < steps →
          (∃ o, (co.resume rt steps d s).1 = .ok o) ∨ (co.resume rt steps d s).1 = .error .allocationLimit :=
  ⟨fun _ _ h => (h.solvent hp).2, fun _ h _ _ d s hsteps => h.resume_ends hp trivial hsteps d s⟩

/-- A program that catches an error of its own. -/
def catchingProgram : Stmt :=
  .attempt (.expr (.ident "nothing" .none) .none) "e" (.expr (.yield (some (.ident "e" .none)) .none) .none) .none

theorem catchingProgram_loopless : catchingProgram.Loopless := by
  have hinside {around : Enclosing} {s : Stmt} (h : catchingProgram.Inside around s) :
      s = catchingProgram ∨ s.isLoop = false ∧ ∀ slot, s.part? slot = none := by
    induction h with
    | program => exact .inl rfl
    | @part _ _ _ slot _ ht ih =>
      rcases ih with rfl | ⟨-, hnone⟩
      · rcases slot with n | _ | _ | _ | _ | _ <;> cases ht <;> exact .inr ⟨rfl, fun _ => rfl⟩
      · cases (hnone slot).symm.trans ht
  intro around s h
  rcases hinside h with rfl | ⟨hloop, -⟩
  · rfl
  · exact hloop

/-- It has three statements, and yields within ten steps. -/
theorem catchingProgram_ends : catchingProgram.Loopless ∧
    ((∃ o, ((Coroutine.ofProgram catchingProgram false).resume
        (.ofHost silentHost [] 0 ⟨none, false⟩ : Runtime (Session Unit)) 10 .null ⟨0, ()⟩).1 = .ok o) ∨
      ((Coroutine.ofProgram catchingProgram false).resume
        (.ofHost silentHost [] 0 ⟨none, false⟩ : Runtime (Session Unit)) 10 .null ⟨0, ()⟩).1 =
          .error .allocationLimit) ∧
    ∀ o n, Coroutine.Lives (Session Unit) catchingProgram false o n → n ≤ 10 := by
  obtain ⟨hlife, hresume⟩ := loopless_ends (τ := Session Unit) catchingProgram_loopless false
  exact ⟨catchingProgram_loopless, hresume _ .fresh _ _ _ _ (by decide), hlife⟩

end VirtualComputer
