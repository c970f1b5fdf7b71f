import VirtualComputer.Proofs.Guest.DirectExpr

/-!
# Direct evaluation of statements agrees with that of coroutines

A statement on top of some frames runs to where its direct evaluation ends (`Arrives`): with those frames left, or
with an exit pending above them that the frames in between let through (`unwind_lets`), at a `yield` that is not
answered, or on the way for as many steps as loops may be repeated (`stmt_arrives`).
-/

namespace VirtualComputer

open Direct (Happening Exit)

/-! ## Variables -/

theorem length_outermost (b : Nat) (env : List (String × Val)) :
    (outermost b env).length = min b env.length := by
  rw [outermost, List.length_drop]
  omega

theorem outermost_outermost {a b : Nat} (h : a ≤ b) (env : List (String × Val)) :
    outermost a (outermost b env) = outermost a env := by
  rw [outermost, length_outermost, outermost, List.drop_drop, outermost]
  congr 1
  omega

theorem length_writeVariable (x : String) (ks : List Val) (v : Val) :
    ∀ env, (writeVariable x ks v env).1.length = env.length
  | [] => rfl
  | (y, w) :: env => by
    rw [writeVariable]
    split
    · rfl
    · exact congrArg (· + 1) (length_writeVariable x ks v env)

/-! ## Pending exits -/

/-- Whether frames of a kind let a pending control through. -/
def FrameKind.lets : Control Val → FrameKind → Bool
  | .break, .loop | .continue, .loop | .throw _, .attempt .body => false
  | _, _ => true

/-- Frames that let a control through, each pushed when there were at least so many variables. -/
def Lets (control : Control Val) (base : Nat) (gs : List Frame) : Prop :=
  ∀ g ∈ gs, g.kind.lets control ∧ base ≤ g.base

theorem Lets.nil (control : Control Val) (base : Nat) : Lets control base [] :=
  fun _ hg => absurd hg List.not_mem_nil

namespace Coroutine

variable {control : Control Val}

/-- A frame that lets a control through is popped. -/
theorem unwind_cons {f : Frame} (h : f.kind.lets control) (fs : List Frame) (env : List (String × Val)) :
    unwind control (f :: fs) env = unwind control fs (outermost f.base env) := by
  rw [unwind.eq_def]
  dsimp only
  split
  · rename_i hk; rw [hk] at h; cases h
  · rename_i hk; rw [hk] at h; cases h
  · rename_i hk _; rw [hk] at h; cases h
  · rfl

/-- Variables that the topmost frame drops make no difference. -/
theorem unwind_outermost {f : Frame} {b : Nat} (h : f.base ≤ b) (fs : List Frame) (env : List (String × Val)) :
    unwind control (f :: fs) (outermost b env) = unwind control (f :: fs) env := by
  simp only [unwind, outermost_outermost h]

/-- Frames that let a control through are popped without a trace, as the frame below drops their variables. -/
theorem unwind_lets {f : Frame} {gs : List Frame} (h : Lets control f.base gs) (fs : List Frame)
    (env : List (String × Val)) :
    unwind control (gs ++ f :: fs) env = unwind control (f :: fs) env := by
  induction gs generalizing env with
  | nil => rfl
  | cons g gs ih =>
    obtain ⟨⟨hg, hb⟩, hgs⟩ := List.forall_mem_cons.1 h
    rw [List.cons_append, unwind_cons hg, ih hgs, unwind_outermost hb]

/-- A control that all frames let through remains. -/
theorem unwind_all {b : Nat} {gs : List Frame} (h : Lets control b gs) (env : List (String × Val)) :
    (unwind control gs env).2.2 = control := by
  induction gs generalizing env with
  | nil => rfl
  | cons g gs ih =>
    obtain ⟨⟨hg, -⟩, hgs⟩ := List.forall_mem_cons.1 h
    rw [unwind_cons hg, ih hgs]

end Coroutine

/-- The control that is pending in a coroutine after an exit that frames can stop. -/
def Direct.Exit.control? : Exit → Option (Control Val)
  | .break => some .break
  | .continue => some .continue
  | .return v => some (.return v)
  | .throw e => some (.throw e)
  | .waiting | .exhausted => none

/-! ## Configurations between steps -/

variable {σ : Type}

/-- The configuration of a coroutine with some frames and a control, with the variables, the inputs and the rest of
a store. -/
def Conf.point (guarded : Bool) (frames : List Frame) (control : Control Val) (t : Direct.Store σ) (used : Nat) :
    Conf (Session σ) :=
  ⟨⟨frames, t.env, control, none, .running, guarded⟩, t.inputs, t.noted, ⟨used, t.world⟩⟩

namespace Conf

variable {τ : Type}

theorem turn_of_next {rt : Runtime τ} {c : Conf τ} {co : Thread} {s : List Happening × τ}
    (h : Coroutine.step rt.noting c.co (c.noted, c.outside) = .next co s) :
    turn rt c = .inl ⟨co, c.inputs, s.1, s.2⟩ := by
  rw [turn, h]

theorem after_one {rt : Runtime τ} {c d : Conf τ} (h : turn rt c = .inl d) : after rt 1 c = some d :=
  after_succ h 0

variable {rt : Runtime (Session σ)} {guarded : Bool} {x : Exit} {control : Control Val} {t : Direct.Store σ}
  {used : Nat}

/-- A step that changes no more than the coroutine. -/
theorem turn_to {frames frames' : List Frame} {control' : Control Val} {env : List (String × Val)}
    (h : Coroutine.step rt.noting ⟨frames, t.env, control, none, .running, guarded⟩ (t.noted, ⟨used, t.world⟩) =
      .next ⟨frames', env, control', none, .running, guarded⟩ (t.noted, ⟨used, t.world⟩)) :
    turn rt (point guarded frames control t used) = .inl (point guarded frames' control' { t with env } used) :=
  turn_of_next (s := (t.noted, (⟨used, t.world⟩ : Session σ))) h

/-- The step of a pending exit. -/
theorem step_exit (hx : x.control? = some control) (frames : List Frame) :
    Coroutine.step rt.noting (point guarded frames control t used).co (t.noted, ⟨used, t.world⟩) =
      Coroutine.exit (point guarded frames control t used).co (t.noted, ⟨used, t.world⟩) := by
  cases x <;> cases hx <;> rfl

theorem pending_of_exit (hx : x.control? = some control) : Coroutine.isPending control = true := by
  cases x <;> cases hx <;> rfl

/-- A frame that stops a pending exit. -/
theorem turn_of_stopped (hx : x.control? = some control) {frames frames' : List Frame} {env : List (String × Val)}
    (h : Coroutine.unwind control frames t.env = (frames', env, .none)) :
    turn rt (point guarded frames control t used) =
      .inl (point guarded frames' .none { t with env } used) := by
  refine turn_of_next (s := (t.noted, ⟨used, t.world⟩)) ((step_exit hx frames).trans ?_)
  have h : Coroutine.unwind (point guarded frames control t used).co.control
      (point guarded frames control t used).co.frames (point guarded frames control t used).co.env =
      (frames', env, .none) := h
  rw [Coroutine.exit, h]
  rfl

/-- No frame stops a pending exit: the coroutine comes to its outcome. -/
theorem turn_of_escaped (hx : x.control? = some control) {frames : List Frame} {b : Nat} (h : Lets control b frames) :
    turn rt (point guarded frames control t used) =
      answer t.inputs (Coroutine.outcome ⟨[], [], control, none, .running, guarded⟩)
        (t.noted, (⟨used, t.world⟩ : Session σ)) := by
  have hu : (Coroutine.unwind (point guarded frames control t used).co.control
      (point guarded frames control t used).co.frames (point guarded frames control t used).co.env).2.2 = control :=
    Coroutine.unwind_all h t.env
  have hs : ∃ fs env, Coroutine.step rt.noting (point guarded frames control t used).co (t.noted, ⟨used, t.world⟩) =
      .done ⟨fs, env, control, none, .running, guarded⟩ (t.noted, ⟨used, t.world⟩) := by
    rw [step_exit hx, Coroutine.exit]
    rcases h : Coroutine.unwind (point guarded frames control t used).co.control
      (point guarded frames control t used).co.frames (point guarded frames control t used).co.env with ⟨fs, env, c⟩
    rw [h] at hu
    obtain rfl : c = control := hu
    exact ⟨fs, env, by simp only [pending_of_exit hx]; rfl⟩
  obtain ⟨fs, env, hs⟩ := hs
  rw [turn]
  dsimp only [point] at hs ⊢
  rw [hs]
  cases x <;> cases hx <;> rfl

end Conf

/-! ## Where a statement comes to -/

namespace Direct

open Conf

/-- Where a run from the configuration `c` comes to when the direct evaluation of a statement above the frames `fs`,
begun with `base` variables, ends in some way; an exhausted one may be followed for `fuel` steps. -/
inductive Arrives (rt : Runtime (Session σ)) (guarded : Bool) (fuel : Nat) (fs : List Frame) (base : Nat)
    (c : Conf (Session σ)) : Except Exit Unit × Store σ → Prop
  | ok {t : Store σ} {n used : Nat} (h : after rt n c = some (point guarded fs .none t used))
      (hb : base ≤ t.env.length) : Arrives rt guarded fuel fs base c (.ok (), t)
  | exit {x : Exit} {control : Control Val} {t : Store σ} {n used : Nat} (gs : List Frame)
      (hx : x.control? = some control) (hgs : Lets control base gs)
      (h : after rt n c = some (point guarded (gs ++ fs) control t used))
      (hb : base ≤ t.env.length) : Arrives rt guarded fuel fs base c (.error x, t)
  | waiting {t : Store σ} {n used : Nat} {d : Conf (Session σ)} (h : after rt n c = some d)
      (hd : turn rt d = .inr (.ok .waiting, t.noted, ⟨used, t.world⟩)) :
      Arrives rt guarded fuel fs base c (.error .waiting, t)
  | exhausted {t : Store σ} {n : Nat} {d : Conf (Session σ)} (h : after rt n c = some d) (hn : fuel ≤ n)
      (hd : d.noted = t.noted) : Arrives rt guarded fuel fs base c (.error .exhausted, t)

namespace Arrives

variable {rt : Runtime (Session σ)} {guarded : Bool} {fuel base : Nat} {f : Frame} {fs : List Frame}
  {c d : Conf (Session σ)} {r : Except Exit Unit × Store σ}

/-- Where a run comes to, it comes to from earlier. -/
theorem of_after {n : Nat} (h : after rt n c = some d) (hd : Arrives rt guarded fuel fs base d r) :
    Arrives rt guarded (n + fuel) fs base c r := by
  cases hd with
  | ok h' hb => exact .ok (after_trans h h') hb
  | exit gs hx hgs h' hb => exact .exit gs hx hgs (after_trans h h') hb
  | waiting h' hd => exact .waiting (after_trans h h') hd
  | exhausted h' hn hd => exact .exhausted (after_trans h h') (by omega) hd

theorem fewer {fuel' : Nat} (h : fuel' ≤ fuel) (hc : Arrives rt guarded fuel fs base c r) :
    Arrives rt guarded fuel' fs base c r := by
  cases hc with
  | ok h' hb => exact .ok h' hb
  | exit gs hx hgs h' hb => exact .exit gs hx hgs h' hb
  | waiting h' hd => exact .waiting h' hd
  | exhausted h' hn hd => exact .exhausted h' (by omega) hd

theorem of_turn (h : turn rt c = .inl d) (hd : Arrives rt guarded fuel fs base d r) :
    Arrives rt guarded fuel fs base c r :=
  (of_after (after_one h) hd).fewer (by omega)

/-- An exit passes a frame that lets it through. -/
theorem below {x : Exit} {t : Store σ} (hc : Arrives rt guarded fuel (f :: fs) base c (.error x, t))
    (hf : ∀ control, x.control? = some control → f.kind.lets control) {base' : Nat} (h : base' ≤ base)
    (hb : base' ≤ f.base) : Arrives rt guarded fuel fs base' c (.error x, t) := by
  cases hc with
  | exit gs hx hgs h' hb' =>
    refine .exit (gs ++ [f]) hx ?_ (by rwa [List.append_assoc]) (by omega)
    intro g hg
    rcases List.mem_append.1 hg with hg | hg
    · exact ⟨(hgs g hg).1, Nat.le_trans h (hgs g hg).2⟩
    · obtain rfl := List.mem_singleton.1 hg
      exact ⟨hf _ hx, hb⟩
  | waiting h' hd => exact .waiting h' hd
  | exhausted h' hn hd => exact .exhausted h' hn hd

/-- A loop or `try` above some frames stops an exit in one step. -/
theorem stopped {x : Exit} {control : Control Val} (hx : x.control? = some control) {t : Store σ}
    (hc : Arrives rt guarded fuel (f :: fs) base c (.error x, t)) (hb : f.base ≤ base) :
    ∃ n used, base ≤ t.env.length ∧ ∀ frames env, Coroutine.unwind control (f :: fs) t.env = (frames, env, .none) →
      after rt n c = some (point guarded frames .none { t with env } used) := by
  cases hc with
  | @exit _ control' _ n used gs hx' hgs h hb' =>
    obtain rfl : control' = control := Option.some.inj (hx'.symm.trans hx)
    refine ⟨n + 1, used, hb', fun frames env hu => after_trans h (after_one (turn_of_stopped hx ?_))⟩
    rw [Coroutine.unwind_lets (fun g hg => ⟨(hgs g hg).1, Nat.le_trans hb (hgs g hg).2⟩), hu]
  | waiting => cases hx
  | exhausted => cases hx

end Arrives

/-! ## Values of statements in runs -/

section Values

variable {α : Type} {rt : Runtime (Session σ)} {guarded : Bool} {fuel base : Nat} {f : Frame} {fs : List Frame}
  {env : List (String × Val)} {m : Evaluating σ α} {κ : α → Thread → List Happening × Session σ → StepResult _}
  {k' : α → Eval σ Unit}

/-- A statement whose frame is on top, of which only the evaluation `m` is left that `κ` goes on with, and what the
direct evaluation `k'` comes to from the value. -/
structure GoesOn (rt : Runtime (Session σ)) (guarded : Bool) (fuel base : Nat) (f : Frame) (fs : List Frame)
    (env : List (String × Val)) (used : Nat) (m : Evaluating σ α)
    (κ : α → Thread → List Happening × Session σ → StepResult (List Happening × Session σ)) (k' : α → Eval σ Unit) :
    Prop where
  step : ∀ d s, Coroutine.step rt.noting ⟨f :: fs, env, .none, d, .running, guarded⟩ s =
    Coroutine.evaluating ⟨f :: fs, env, .none, d, .running, guarded⟩ s m κ
  lets : ∀ e, f.kind.lets (.throw e)
  base_le : base ≤ f.base
  length_le : base ≤ env.length
  next : ∀ a inputs noted world, ∃ co used',
    κ a ⟨f :: fs, env, .none, none, .running, guarded⟩ (noted, ⟨used, world⟩) =
      .next co (noted, ⟨used', world⟩) ∧
    Arrives rt guarded fuel fs base ⟨co, inputs, noted, ⟨used', world⟩⟩ (k' a ⟨env, inputs, noted, world⟩)

variable {used : Nat}

/-- The step with which an evaluation ends in a value or an error. -/
theorem GoesOn.settle (hg : GoesOn rt guarded fuel base f fs env used m κ k') {d : Option Val}
    {noted noted' : List Happening} {world world' : σ} {r : Except Val α} (inputs : List Val)
    (hm : m ⟨d, noted, used, world⟩ = (r.mapError .throw, ⟨none, noted', used, world'⟩)) :
    Arrives rt guarded (fuel + 1) fs base
      ⟨⟨f :: fs, env, .none, d, .running, guarded⟩, inputs, noted, ⟨used, world⟩⟩
      (match r with
        | .ok a => k' a ⟨env, inputs, noted', world'⟩
        | .error e => (.error (.throw e), ⟨env, inputs, noted', world'⟩)) := by
  have hs := hg.step d (noted, ⟨used, world⟩)
  rw [Coroutine.evaluating, hm] at hs
  cases r with
  | error e =>
    have ht : turn rt ⟨⟨f :: fs, env, .none, d, .running, guarded⟩, inputs, noted, ⟨used, world⟩⟩ =
        .inl (point guarded ([f] ++ fs) (.throw e) ⟨env, inputs, noted', world'⟩ used) :=
      turn_of_next (s := (noted', (⟨used, world'⟩ : Session σ))) hs
    refine .exit (x := .throw e) [f] rfl ?_ (after_one ht) hg.length_le
    intro g h
    obtain rfl := List.mem_singleton.1 h
    exact ⟨hg.lets e, hg.base_le⟩
  | ok a =>
    obtain ⟨co, used', hκ, hc⟩ := hg.next a inputs noted' world'
    exact (Arrives.of_after (after_one (turn_of_next (hs.trans hκ))) hc).fewer (by omega)

/-- The value of a statement takes a step, or two when it is a `yield` that is answered. -/
theorem GoesOn.arrives (hg : GoesOn rt guarded fuel base f fs env used m κ k') {k : Eval σ α}
    (hr : Resumable env m k) (inputs : List Val) (noted : List Happening) (world : σ) :
    Arrives rt guarded (fuel + 1) fs base (point guarded (f :: fs) .none ⟨env, inputs, noted, world⟩ used)
      ((k >>= k') ⟨env, inputs, noted, world⟩) := by
  cases hr with
  | whole h =>
    obtain ⟨r, noted', world', hm, hk⟩ := h none inputs noted used world
    rw [eval_bind, hk]
    have hc := hg.settle inputs hm
    cases r <;> exact hc
  | @parted op op' after after' hop hafter hout hin hk =>
    obtain ⟨r, noted', world', hm, hk'⟩ := hop none inputs noted used world
    rw [eval_bind, hk, eval_bind, hk']
    have ho := hout (noted, ⟨used, world⟩)
    rw [evaluation_bind, hm] at ho
    cases r with
    | error e => exact hg.settle (r := .error e) inputs ho
    | ok v =>
      have hs := hg.step none (noted, ⟨used, world⟩)
      rw [Coroutine.evaluating, ho] at hs
      rw [show (Except.ok v : Except Val Val).mapError Exit.throw = .ok v by rfl]
      simp only [eval_bind, Eval.exchange]
      cases inputs with
      | nil =>
        have ht : turn rt (point guarded (f :: fs) .none ⟨env, [], noted, world⟩ used) =
            .inr (.ok .waiting, noted' ++ [.yielded v], ⟨used, world'⟩) := by
          rw [turn]
          dsimp only [point]
          rw [hs]
          rfl
        exact .waiting (n := 0) rfl ht
      | cons d inputs =>
        -- the frame is still there, so that the statement is evaluated once more
        obtain ⟨r, noted'', world'', hm, hk⟩ := hafter d none inputs (noted' ++ [.yielded v]) used world'
        have ht : turn rt (point guarded (f :: fs) .none ⟨env, d :: inputs, noted, world⟩ used) =
            .inl ⟨⟨f :: fs, env, .none, some d, .running, guarded⟩, inputs, noted' ++ [.yielded v],
              ⟨used, world'⟩⟩ := by
          rw [turn]
          dsimp only [point]
          rw [hs]
          rfl
        refine Arrives.of_turn ht ?_
        dsimp only
        rw [hk]
        have hc := hg.settle inputs ((hin d _).trans hm)
        cases r <;> exact hc

end Values

/-! ## Statements -/

theorem eval_assoc {α β γ : Type} (k : Eval σ α) (g : α → Eval σ β) (h : β → Eval σ γ) :
    k >>= g >>= h = k >>= fun a => g a >>= h := by
  funext s
  simp only [eval_bind]
  rcases k s with ⟨_ | _, _⟩ <;> rfl

section Statements

variable (host : Host σ) (globals : Entries Val) (baseline : Nat) (synchronized guarded : Bool) (fuel : Nat)

/-- A statement arrives where its direct evaluation ends, whatever is below it. -/
def StmtArrives (s : Stmt) : Prop :=
  ∀ (fs : List Frame) (t : Store σ) (used : Nat),
    Arrives (unlimited host globals baseline synchronized) guarded fuel fs t.env.length
      (point guarded (s.frame t.env :: fs) .none t used) (stmt host globals synchronized fuel s t)

variable {host globals baseline synchronized guarded fuel}

/-- A loop arrives if its body does: by induction on how often it may still be repeated, each time in a step or
more. -/
theorem loop_arrives {test : Expr} {body : Stmt} {span : Span} {base : Nat} {fs : List Frame}
    (ht : NestedYield.inExpr test = [])
    (hbody : StmtArrives host globals baseline synchronized guarded fuel body) :
    ∀ (n : Nat), n ≤ fuel → ∀ (t : Store σ) (used : Nat), base ≤ t.env.length →
      Arrives (unlimited host globals baseline synchronized) guarded n fs base
        (point guarded (⟨.loop, base, .loop test body span⟩ :: fs) .none t used)
        (Eval.loop base (expr host globals synchronized test) (stmt host globals synchronized fuel body) n t)
  | 0, _, _, _, _ => .exhausted (n := 0) rfl (Nat.le_refl 0) rfl
  | n + 1, hn, ⟨env, inputs, noted, world⟩, used, hb => by
    have hstep d s : Coroutine.step (unlimited host globals baseline synchronized).noting
        ⟨⟨.loop, base, .loop test body span⟩ :: fs, env, .none, d, .running, guarded⟩ s =
          Coroutine.evaluating ⟨⟨.loop, base, .loop test body span⟩ :: fs, env, .none, d, .running, guarded⟩ s
            (test.eval (unlimited host globals baseline synchronized).noting env) fun v co s =>
              if v.truthy then .next (Coroutine.push body co) s else .next { co with frames := fs } s := rfl
    refine GoesOn.arrives ⟨hstep, fun _ => rfl, Nat.le_refl base,
      hb, fun v inputs noted world => ?_⟩ (.whole (expr_agrees host globals baseline synchronized test ht))
      inputs noted world
    cases hv : v.truthy with
    | false =>
      refine ⟨_, used, rfl, ?_⟩
      exact .ok (n := 0) (t := ⟨env, inputs, noted, world⟩) rfl hb
    | true =>
      refine ⟨_, used, rfl, ?_⟩
      have hc := hbody (⟨.loop, base, .loop test body span⟩ :: fs) ⟨env, inputs, noted, world⟩ used
      have hn' : n ≤ fuel := by omega
      rw [if_pos rfl, Eval.turn]
      rcases hr : stmt host globals synchronized fuel body ⟨env, inputs, noted, world⟩ with ⟨x | _, t⟩ <;>
        rw [hr] at hc
      · cases x with
        | «break» =>
          obtain ⟨m, used, hb', hs⟩ := hc.stopped rfl hb
          refine .ok (hs _ _ rfl) ?_
          rw [length_outermost]
          exact Nat.le_min.2 ⟨Nat.le_refl base, Nat.le_trans hb hb'⟩
        | «continue» =>
          obtain ⟨m, used, hb', hs⟩ := hc.stopped rfl hb
          refine (Arrives.of_after (hs _ _ rfl) (loop_arrives ht hbody n hn' _ used ?_)).fewer (by omega)
          rw [length_outermost]
          exact Nat.le_min.2 ⟨Nat.le_refl base, Nat.le_trans hb hb'⟩
        | «return» v => exact (hc.below (fun _ hx => by cases hx; rfl) hb (Nat.le_refl base)).fewer hn'
        | throw e => exact (hc.below (fun _ hx => by cases hx; rfl) hb (Nat.le_refl base)).fewer hn'
        | waiting => exact (hc.below (fun _ hx => by cases hx) hb (Nat.le_refl base)).fewer hn'
        | exhausted => exact (hc.below (fun _ hx => by cases hx) hb (Nat.le_refl base)).fewer hn'
      · cases hc with
        | ok h hb' =>
          exact (Arrives.of_after h (loop_arrives ht hbody n hn' t _ (Nat.le_trans hb hb'))).fewer (by omega)

/-- A `try` arrives if its body and its handler do. -/
theorem attempt_arrives {body handler : Stmt} {x : String} {span : Span}
    (hbody : StmtArrives host globals baseline synchronized guarded fuel body)
    (hhandler : StmtArrives host globals baseline synchronized guarded fuel handler) :
    StmtArrives host globals baseline synchronized guarded fuel (.attempt body x handler span) := by
  rintro fs ⟨env, inputs, noted, world⟩ used
  have hc := hbody (⟨.attempt .body, env.length, .attempt body x handler span⟩ :: fs) ⟨env, inputs, noted, world⟩ used
  refine Arrives.of_turn (turn_to rfl) ?_
  simp only [stmt, Eval.within, Eval.catching]
  rcases hr : stmt host globals synchronized fuel body ⟨env, inputs, noted, world⟩ with ⟨e | _, t⟩ <;>
    rw [hr] at hc
  · cases e with
    | throw e =>
      obtain ⟨m, used, hb, hs⟩ := hc.stopped rfl (Nat.le_refl _)
      have hlen : (outermost env.length t.env).length = env.length := by
        rw [length_outermost]
        exact Nat.min_eq_left hb
      refine (Arrives.of_after (hs _ _ rfl) ?_).fewer (Nat.le_add_left fuel m)
      have hc' := hhandler (⟨.attempt .handler, env.length, .attempt body x handler span⟩ :: fs)
        { t with env := (x, e) :: outermost env.length t.env } used
      dsimp only at hc' ⊢
      rcases hr' : stmt host globals synchronized fuel handler { t with env := (x, e) :: outermost env.length t.env }
        with ⟨e' | _, u⟩ <;> rw [hr'] at hc'
      · exact hc'.below (fun c _ => by cases c <;> rfl) (by rw [List.length_cons, hlen]; omega) (Nat.le_refl _)
      · cases hc' with
        | ok h hb' =>
          refine .ok (after_trans h (after_one (turn_to rfl))) ?_
          rw [List.length_cons, hlen] at hb'
          rw [length_outermost]
          exact Nat.le_min.2 ⟨Nat.le_refl _, by omega⟩
    | «break» => exact hc.below (fun _ hx => by cases hx; rfl) (Nat.le_refl _) (Nat.le_refl _)
    | «continue» => exact hc.below (fun _ hx => by cases hx; rfl) (Nat.le_refl _) (Nat.le_refl _)
    | «return» v => exact hc.below (fun _ hx => by cases hx; rfl) (Nat.le_refl _) (Nat.le_refl _)
    | waiting => exact hc.below (fun _ hx => by cases hx) (Nat.le_refl _) (Nat.le_refl _)
    | exhausted => exact hc.below (fun _ hx => by cases hx) (Nat.le_refl _) (Nat.le_refl _)
  · cases hc with
    | ok h hb =>
      refine .ok (after_trans h (after_one (turn_to rfl))) ?_
      rw [length_outermost]
      exact Nat.le_min.2 ⟨Nat.le_refl _, hb⟩

/-- A statement that ends with an exit in one step. -/
theorem exit_arrives {s : Stmt} {x : Exit} {control : Control Val} (hx : x.control? = some control)
    (hs : ∀ t : Store σ, stmt host globals synchronized fuel s t = (.error x, t))
    (hstep : ∀ (fs : List Frame) (t : Store σ) (used : Nat),
      Coroutine.step (unlimited host globals baseline synchronized).noting
          ⟨s.frame t.env :: fs, t.env, .none, none, .running, guarded⟩ (t.noted, ⟨used, t.world⟩) =
        .next ⟨fs, t.env, control, none, .running, guarded⟩ (t.noted, ⟨used, t.world⟩)) :
    StmtArrives host globals baseline synchronized guarded fuel s := by
  intro fs t used
  rw [hs]
  exact .exit [] hx (Lets.nil _ _) (after_one (turn_to (hstep fs t used))) (Nat.le_refl _)

theorem declare_arrives (x : String) (init : Option Expr) (span : Span) (h : NestedYield.inOptionValue init = []) :
    StmtArrives host globals baseline synchronized guarded fuel (.declare x init span) := by
  rintro fs ⟨env, inputs, noted, world⟩ used
  have hstep d s : Coroutine.step (unlimited host globals baseline synchronized).noting
      ⟨⟨.declare, env.length, .declare x init span⟩ :: fs, env, .none, d, .running, guarded⟩ s =
        Coroutine.evaluating ⟨⟨.declare, env.length, .declare x init span⟩ :: fs, env, .none, d, .running, guarded⟩ s
          (Expr.evalOption (unlimited host globals baseline synchronized).noting env init) fun v co s =>
            Coroutine.measured (unlimited host globals baseline synchronized).noting
              { co with frames := fs, env := (x, v) :: co.env } s := rfl
  refine Arrives.fewer (Nat.le_succ fuel) (GoesOn.arrives ⟨hstep, fun _ => rfl, Nat.le_refl _, Nat.le_refl _,
    fun v inputs noted world => ⟨_, _, rfl, ?_⟩⟩
    (optionValue_resumable host globals baseline synchronized init h) inputs noted world)
  exact .ok (n := 0) (t := ⟨(x, v) :: env, inputs, noted, world⟩) rfl (Nat.le_succ _)

theorem return_arrives (value : Option Expr) (span : Span) (h : NestedYield.inOptionValue value = []) :
    StmtArrives host globals baseline synchronized guarded fuel (.return value span) := by
  rintro fs ⟨env, inputs, noted, world⟩ used
  have hstep d s : Coroutine.step (unlimited host globals baseline synchronized).noting
      ⟨⟨.return, env.length, .return value span⟩ :: fs, env, .none, d, .running, guarded⟩ s =
        Coroutine.evaluating ⟨⟨.return, env.length, .return value span⟩ :: fs, env, .none, d, .running, guarded⟩ s
          (Expr.evalOption (unlimited host globals baseline synchronized).noting env value) fun v co s =>
            .next { co with frames := fs, control := .return v } s := rfl
  refine Arrives.fewer (Nat.le_succ fuel) (GoesOn.arrives ⟨hstep, fun _ => rfl, Nat.le_refl _, Nat.le_refl _,
    fun v inputs noted world => ⟨_, _, rfl, ?_⟩⟩
    (optionValue_resumable host globals baseline synchronized value h) inputs noted world)
  exact .exit (x := .return v) (n := 0) (t := ⟨env, inputs, noted, world⟩) [] rfl (Lets.nil _ _) rfl (Nat.le_refl _)

theorem expr_arrives (e : Expr) (span : Span) (h : NestedYield.inValue e = []) :
    StmtArrives host globals baseline synchronized guarded fuel (.expr e span) := by
  rintro fs ⟨env, inputs, noted, world⟩ used
  have hstep d s : Coroutine.step (unlimited host globals baseline synchronized).noting
      ⟨⟨.expr, env.length, .expr e span⟩ :: fs, env, .none, d, .running, guarded⟩ s =
        Coroutine.evaluating ⟨⟨.expr, env.length, .expr e span⟩ :: fs, env, .none, d, .running, guarded⟩ s
          (e.eval (unlimited host globals baseline synchronized).noting env) fun _ co s =>
            .next { co with frames := fs } s := rfl
  refine Arrives.fewer (Nat.le_succ fuel) (GoesOn.arrives ⟨hstep, fun _ => rfl, Nat.le_refl _, Nat.le_refl _,
    fun v inputs noted world => ⟨_, _, rfl, ?_⟩⟩
    (value_resumable host globals baseline synchronized e h) inputs noted world)
  exact .ok (n := 0) (t := ⟨env, inputs, noted, world⟩) rfl (Nat.le_refl _)

/-- What follows an assignment in a coroutine when its variable has been written, or why it was not. -/
def assigned {τ : Type} (rt : Runtime τ) (fs : List Frame) (co : Thread) (s : τ) :
    List (String × Val) × Option Mistake → StepResult τ
  | (env, some m) => .next { co with env, control := .throw m.toVal } s
  | (env, none) => Coroutine.measured rt { co with env, frames := fs } s

/-- The value of an assignment comes before its keys, and may be a `yield`; both are one evaluation. -/
theorem assign_arrives (x : String) (path : List Segment) (value : Expr) (span : Span)
    (hpath : path.flatMap NestedYield.inSegment = []) (hvalue : NestedYield.inValue value = []) :
    StmtArrives host globals baseline synchronized guarded fuel (.assign x path value span) := by
  rintro fs ⟨env, inputs, noted, world⟩ used
  have hstep d s : Coroutine.step (unlimited host globals baseline synchronized).noting
      ⟨⟨.assign, env.length, .assign x path value span⟩ :: fs, env, .none, d, .running, guarded⟩ s =
        Coroutine.evaluating
          ⟨⟨.assign, env.length, .assign x path value span⟩ :: fs, env, .none, d, .running, guarded⟩ s
          (Expr.eval (unlimited host globals baseline synchronized).noting env value >>= fun v =>
            Segment.evalAll (unlimited host globals baseline synchronized).noting env path >>= fun ks =>
              Evaluation.give (v, ks))
          fun p co s => assigned (unlimited host globals baseline synchronized).noting fs co s
            (writeVariable x p.2 p.1 co.env) :=
    rfl
  have hr := (value_resumable host globals baseline synchronized value hvalue : Resumable env _ _).bind fun v =>
    agrees_bind (keys_agree host globals baseline synchronized path hpath) fun ks => agrees_give (v, ks)
  have hdirect : stmt host globals synchronized fuel (.assign x path value span) =
      (expr host globals synchronized value >>= fun v => keys host globals synchronized path >>= fun ks =>
        Eval.give (v, ks)) >>= fun p => write x p.2 p.1 := by
    simp only [eval_assoc]
    rfl
  rw [hdirect]
  refine Arrives.fewer (Nat.le_succ fuel) (GoesOn.arrives ⟨hstep, fun _ => rfl, Nat.le_refl _, Nat.le_refl _,
    fun p inputs noted world => ?_⟩ hr inputs noted world)
  have hlen := length_writeVariable x p.2 p.1 env
  simp only [write]
  rcases hw : writeVariable x p.2 p.1 env with ⟨env', _ | m⟩ <;> rw [hw] at hlen
  · exact ⟨_, _, rfl, .ok (n := 0) (t := ⟨env', inputs, noted, world⟩) rfl (Nat.le_of_eq hlen.symm)⟩
  · refine ⟨_, _, rfl, .exit (x := .throw m.toVal) (n := 0) (t := ⟨env', inputs, noted, world⟩)
      [⟨.assign, env.length, .assign x path value span⟩] rfl ?_ rfl (Nat.le_of_eq hlen.symm)⟩
    intro g hg
    obtain rfl := List.mem_singleton.1 hg
    exact ⟨rfl, Nat.le_refl _⟩

theorem branch_arrives (test : Expr) (yes : Stmt) (no : Option Stmt) (span : Span)
    (h : NestedYield.inExpr test = []) (hyes : StmtArrives host globals baseline synchronized guarded fuel yes)
    (hno : ∀ s, no = some s → StmtArrives host globals baseline synchronized guarded fuel s) :
    StmtArrives host globals baseline synchronized guarded fuel (.branch test yes no span) := by
  rintro fs ⟨env, inputs, noted, world⟩ used
  have hstep d s : Coroutine.step (unlimited host globals baseline synchronized).noting
      ⟨⟨.branch, env.length, .branch test yes no span⟩ :: fs, env, .none, d, .running, guarded⟩ s =
        Coroutine.evaluating
          ⟨⟨.branch, env.length, .branch test yes no span⟩ :: fs, env, .none, d, .running, guarded⟩ s
          (test.eval (unlimited host globals baseline synchronized).noting env) fun v co s =>
            if v.truthy then .next (Coroutine.push yes { co with frames := fs }) s
            else no.elim (.next { co with frames := fs } s) fun no =>
              .next (Coroutine.push no { co with frames := fs }) s := by
    cases no <;> rfl
  refine Arrives.fewer (Nat.le_succ fuel) (GoesOn.arrives ⟨hstep, fun _ => rfl, Nat.le_refl _, Nat.le_refl _,
    fun v inputs noted world => ?_⟩
    (.whole (expr_agrees host globals baseline synchronized test h)) inputs noted world)
  cases v.truthy with
  | true => exact ⟨_, _, rfl, hyes fs ⟨env, inputs, noted, world⟩ used⟩
  | false =>
    cases no with
    | some no => exact ⟨_, _, rfl, hno no rfl fs ⟨env, inputs, noted, world⟩ used⟩
    | none => exact ⟨_, _, rfl, .ok (n := 0) (t := ⟨env, inputs, noted, world⟩) rfl (Nat.le_refl _)⟩

mutual

/-- Every statement without nested `yield` arrives where its direct evaluation ends. -/
theorem stmt_arrives : ∀ s : Stmt, NestedYield.inStmt s = [] →
    StmtArrives host globals baseline synchronized guarded fuel s
  | .block body span, h => fun fs t used =>
    body_arrives body h body 0 rfl span fs t.env.length t used (Nat.le_refl _)
  | .declare x init span, h => declare_arrives x init span h
  | .assign x path value span, h => by
    obtain ⟨hpath, hvalue⟩ := List.append_eq_nil_iff.1 h
    exact assign_arrives x path value span hpath hvalue
  | .branch test yes no span, h => by
    obtain ⟨h, hno⟩ := List.append_eq_nil_iff.1 h
    obtain ⟨htest, hyes⟩ := List.append_eq_nil_iff.1 h
    exact branch_arrives test yes no span htest (stmt_arrives yes hyes) (optionStmt_arrives no hno)
  | .loop test body span, h => by
    obtain ⟨htest, hbody⟩ := List.append_eq_nil_iff.1 h
    intro fs t used
    exact loop_arrives htest (stmt_arrives body hbody) fuel (Nat.le_refl _) t used (Nat.le_refl _)
  | .return value span, h => return_arrives value span h
  | .attempt body x handler span, h => by
    obtain ⟨hbody, hhandler⟩ := List.append_eq_nil_iff.1 h
    exact attempt_arrives (stmt_arrives body hbody) (stmt_arrives handler hhandler)
  | .expr e span, h => expr_arrives e span h
  | .break _, _ => exit_arrives (x := .break) rfl (fun _ => rfl) fun _ _ _ => rfl
  | .continue _, _ => exit_arrives (x := .continue) rfl (fun _ => rfl) fun _ _ _ => rfl

/-- The frame of a block whose remaining statements are `rest`. -/
theorem body_arrives : ∀ rest : List Stmt, NestedYield.inBody rest = [] →
    ∀ (body : List Stmt) (i : Nat), body.drop i = rest → ∀ (span : Span) (fs : List Frame) (base : Nat)
      (t : Store σ) (used : Nat), base ≤ t.env.length →
      Arrives (unlimited host globals baseline synchronized) guarded fuel fs base
        (point guarded (⟨.block i, base, .block body span⟩ :: fs) .none t used)
        (Eval.within base (stmts host globals synchronized fuel rest) t)
  | [], _, body, i, hi, span, fs, base, t, used, hb => by
    have hget : body[i]? = none := by
      rw [List.getElem?_eq_none_iff]
      exact List.drop_eq_nil_iff.1 hi
    refine .ok (after_one (turn_to ?_)) ?_
    · simp only [Coroutine.step, Coroutine.execute, hget]
    · rw [length_outermost]
      exact Nat.le_min.2 ⟨Nat.le_refl _, hb⟩
  | s :: rest, h, body, i, hi, span, fs, base, t, used, hb => by
    obtain ⟨hs, hrest⟩ := List.append_eq_nil_iff.1 h
    have hget : body[i]? = some s := by
      rw [← List.head?_drop, hi]
      rfl
    have hi' : body.drop (i + 1) = rest := by
      rw [← List.tail_drop, hi]
      rfl
    have hc := stmt_arrives s hs (⟨.block (i + 1), base, .block body span⟩ :: fs) t used
    refine Arrives.of_turn (turn_to (by simp only [Coroutine.step, Coroutine.execute, hget]; rfl)) ?_
    simp only [Eval.within, stmts, eval_bind]
    rcases hr : stmt host globals synchronized fuel s t with ⟨x | _, u⟩ <;> rw [hr] at hc
    · exact hc.below (fun c _ => by cases c <;> rfl) hb (Nat.le_refl _)
    · cases hc with
      | ok h hb' =>
        exact (Arrives.of_after h (body_arrives rest hrest body (i + 1) hi' span fs base u _
          (Nat.le_trans hb hb'))).fewer (Nat.le_add_left _ _)

theorem optionStmt_arrives : ∀ o : Option Stmt, NestedYield.inOptionStmt o = [] →
    ∀ s, o = some s → StmtArrives host globals baseline synchronized guarded fuel s
  | none, _, _, hs => by cases hs
  | some s, h, _, rfl => stmt_arrives s h

end

end Statements

end Direct

end VirtualComputer
