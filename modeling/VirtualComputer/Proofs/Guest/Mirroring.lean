import VirtualComputer.Guest
import VirtualComputer.Proofs.Guest.Resume

/-!
# What a coroutine sees of the world

A coroutine knows the world outside only by what its natives give.  If a map of worlds commutes with the natives and the
measurements of two runtimes (`Runtime.Mirrors`), then it commutes with every evaluation, step and resume under them
(`eval_mirrors`, `step_mirrors`, `resume_mirrors`), and so it does with guests that boot and are resumed in worlds that
look alike (`Guest.boot_mirrors`, `Guest.resume_mirrors`).
-/

namespace VirtualComputer

variable {τ υ α β : Type}

/-- A map of states outside takes the calls and the measurements of one runtime to those of another. -/
structure Runtime.Mirrors (rt : Runtime τ) (rt' : Runtime υ) (f : τ → υ) : Prop where
  globals : rt'.globals = rt.globals
  call : ∀ n args s, rt'.call n args (f s) = ((rt.call n args s).1, f (rt.call n args s).2)
  admits : ∀ co s, rt'.admits co (f s) = ((rt.admits co s).1, f (rt.admits co s).2)

/-! ## Evaluations -/

def Scratch.map (f : τ → υ) (s : Scratch τ) : Scratch υ :=
  ⟨s.delivered, f s.outside⟩

/-- A map of states outside takes one evaluation to another. -/
def Evaluation.Mirrors (f : τ → υ) (m : Evaluation τ α) (m' : Evaluation υ α) : Prop :=
  ∀ s, m' (s.map f) = ((m s).1, (m s).2.map f)

section Evaluations

variable {f : τ → υ}

theorem give_mirrors (a : α) : Evaluation.Mirrors f (Evaluation.give a) (Evaluation.give a) := fun _ => rfl

theorem throw_mirrors (m : Mistake) :
    Evaluation.Mirrors f (Evaluation.throw (α := α) m) (Evaluation.throw m) := fun _ => rfl

theorem andThen_mirrors {m : Evaluation τ α} {m' : Evaluation υ α} {k : α → Evaluation τ β} {k' : α → Evaluation υ β}
    (hm : m.Mirrors f m') (hk : ∀ a, (k a).Mirrors f (k' a)) : Evaluation.Mirrors f (m >>= k) (m' >>= k') := by
  intro s
  show Evaluation.andThen m' k' (s.map f) = _
  have hs := hm s
  rw [Evaluation.andThen, hs]
  show _ = ((Evaluation.andThen m k s).1, (Evaluation.andThen m k s).2.map f)
  rw [Evaluation.andThen]
  rcases m s with ⟨i | a, t⟩
  · rfl
  · exact hk a t

theorem ofExcept_mirrors (r : Except Mistake Val) :
    Evaluation.Mirrors f (Evaluation.ofExcept r) (Evaluation.ofExcept r) := by
  cases r with
  | ok v => exact give_mirrors v
  | error m => exact throw_mirrors m

variable {rt : Runtime τ} {rt' : Runtime υ} {env : List (String × Val)}

theorem call_mirrors (h : rt.Mirrors rt' f) (n : Native) (args : List Val) :
    Evaluation.Mirrors f (Evaluation.call rt n args) (Evaluation.call rt' n args) := by
  intro s
  have hcall : rt'.call n args (s.map f).outside = _ := h.call n args s.outside
  rw [Evaluation.call, Evaluation.call, hcall]
  rcases rt.call n args s.outside with ⟨e | v, t⟩ <;> rfl

theorem invoke_mirrors (h : rt.Mirrors rt' f) (v : Val) (args : List Val) :
    Evaluation.Mirrors f (v.invoke rt args) (v.invoke rt' args) := by
  rw [Val.invoke, Val.invoke]
  cases v.callable? with
  | none => exact throw_mirrors _
  | some c => exact call_mirrors h _ _

mutual

theorem eval_mirrors (h : rt.Mirrors rt' f) : ∀ e : Expr, Evaluation.Mirrors f (e.eval rt env) (e.eval rt' env)
  | .bool .. | .num .. | .str .. | .null _ => give_mirrors _
  | .ident x _ => by
    rw [Expr.eval, Expr.eval, h.globals]
    cases lookup rt.globals env x with
    | none => exact throw_mirrors _
    | some v => exact give_mirrors v
  | .list es _ => andThen_mirrors (evalAll_mirrors h es) fun _ => give_mirrors _
  | .object ps _ => andThen_mirrors (evalProperties_mirrors h ps) fun _ => give_mirrors _
  | .member e _ _ => andThen_mirrors (eval_mirrors h e) fun _ => ofExcept_mirrors _
  | .index e k _ => andThen_mirrors (eval_mirrors h e) fun _ => andThen_mirrors (eval_mirrors h k) fun _ =>
      ofExcept_mirrors _
  | .call e es _ => andThen_mirrors (eval_mirrors h e) fun _ => andThen_mirrors (evalAll_mirrors h es) fun _ =>
      invoke_mirrors h _ _
  | .yield operand _ => by
    refine andThen_mirrors (m := Evaluation.take) (fun _ => rfl) fun d => ?_
    cases d with
    | some v => exact give_mirrors v
    | none => exact andThen_mirrors (evalOption_mirrors h operand) fun _ _ => rfl
  | .logic op l r _ => by
    refine andThen_mirrors (eval_mirrors h l) fun v => ?_
    cases op <;> cases v.truthy
    · exact give_mirrors v
    · exact eval_mirrors h r
    · exact eval_mirrors h r
    · exact give_mirrors v

theorem evalAll_mirrors (h : rt.Mirrors rt' f) : ∀ es : List Expr,
    Evaluation.Mirrors f (Expr.evalAll rt env es) (Expr.evalAll rt' env es)
  | [] => give_mirrors _
  | e :: es => andThen_mirrors (eval_mirrors h e) fun _ => andThen_mirrors (evalAll_mirrors h es) fun _ =>
      give_mirrors _

theorem evalProperties_mirrors (h : rt.Mirrors rt' f) : ∀ ps : List (String × Expr),
    Evaluation.Mirrors f (Expr.evalProperties rt env ps) (Expr.evalProperties rt' env ps)
  | [] => give_mirrors _
  | (_, e) :: ps => andThen_mirrors (eval_mirrors h e) fun _ => andThen_mirrors (evalProperties_mirrors h ps) fun _ =>
      give_mirrors _

theorem evalOption_mirrors (h : rt.Mirrors rt' f) : ∀ o : Option Expr,
    Evaluation.Mirrors f (Expr.evalOption rt env o) (Expr.evalOption rt' env o)
  | none => give_mirrors _
  | some e => eval_mirrors h e

end

theorem segments_mirror (h : rt.Mirrors rt' f) : ∀ path : List Segment,
    Evaluation.Mirrors f (Segment.evalAll rt env path) (Segment.evalAll rt' env path)
  | [] => give_mirrors _
  | .property .. :: path => andThen_mirrors (segments_mirror h path) fun _ => give_mirrors _
  | .key e _ :: path => andThen_mirrors (eval_mirrors h e) fun _ => andThen_mirrors (segments_mirror h path) fun _ =>
      give_mirrors _

end Evaluations

/-! ## Steps -/

/-- The step in another world. -/
def StepResult.map (f : τ → υ) : StepResult τ → StepResult υ
  | .next co s => .next co (f s)
  | .done co s => .done co (f s)
  | .fault x co s => .fault x co (f s)

namespace Coroutine

variable {f : τ → υ} {rt : Runtime τ} {rt' : Runtime υ}

theorem exit_mirrors (co : Thread) (s : τ) : exit co (f s) = (exit co s).map f := by
  rw [exit, exit]
  dsimp only
  split <;> rfl

theorem evaluating_mirrors {co : Thread} {s : τ} {m : Evaluation τ α} {m' : Evaluation υ α}
    {k : α → Thread → τ → StepResult τ} {k' : α → Thread → υ → StepResult υ} (hm : m.Mirrors f m')
    (hk : ∀ a co t, k' a co (f t) = (k a co t).map f) :
    evaluating co (f s) m' k' = (evaluating co s m k).map f := by
  have hs : m' ⟨co.delivered, f s⟩ = _ := hm ⟨co.delivered, s⟩
  rw [evaluating, evaluating, hs]
  rcases m ⟨co.delivered, s⟩ with ⟨(v | e) | a, t⟩
  · rfl
  · rfl
  · exact hk a _ _

theorem conclude_mirrors (r : StepResult τ) :
    conclude (r.map f) = ((conclude r).1, (conclude r).2.1, f (conclude r).2.2) := by
  cases r <;> rfl

variable (h : rt.Mirrors rt' f)
include h

theorem measured_mirrors (co : Thread) (s : τ) : measured rt' co (f s) = (measured rt co s).map f := by
  rw [measured, measured, h.admits]
  rcases rt.admits co s with ⟨_ | _, t⟩ <;> rfl

theorem execute_mirrors (g : Frame) (fs : List Frame) (co : Thread) (s : τ) :
    execute rt' g fs co (f s) = (execute rt g fs co s).map f := by
  unfold execute
  split
  · split <;> rfl
  · exact evaluating_mirrors (evalOption_mirrors h _) fun _ _ _ => measured_mirrors h _ _
  · refine evaluating_mirrors (andThen_mirrors (eval_mirrors h _) fun _ =>
      andThen_mirrors (segments_mirror h _) fun _ => give_mirrors _) fun ⟨_, _⟩ _ _ => ?_
    dsimp only
    split
    · rfl
    · exact measured_mirrors h _ _
  · refine evaluating_mirrors (eval_mirrors h _) fun _ _ _ => ?_
    dsimp only
    split
    · rfl
    · split <;> rfl
  · refine evaluating_mirrors (eval_mirrors h _) fun _ _ _ => ?_
    split <;> rfl
  · exact evaluating_mirrors (evalOption_mirrors h _) fun _ _ _ => rfl
  · rfl
  · rfl
  · exact evaluating_mirrors (eval_mirrors h _) fun _ _ _ => rfl
  all_goals rfl

theorem step_mirrors (co : Thread) (s : τ) : step rt' co (f s) = (step rt co s).map f := by
  unfold step
  split
  · rfl
  · rfl
  · exact execute_mirrors h _ _ co s
  · exact exit_mirrors co s

theorem run_mirrors : ∀ (n : Nat) (co : Thread) (s : τ), run rt' n co (f s) = (run rt n co s).map f
  | 0, _, _ => rfl
  | n + 1, co, s => by
    rw [run, run, step_mirrors h]
    cases step rt co s with
    | next co' s' => exact run_mirrors n co' s'
    | done co' s' => rfl
    | fault x co' s' => rfl

theorem resume_mirrors (n : Nat) (d : Val) (co : Thread) (s : τ) :
    co.resume rt' n d (f s) = ((co.resume rt n d s).1, (co.resume rt n d s).2.1, f (co.resume rt n d s).2.2) := by
  cases hs : co.status with
  | fresh => rw [resume_fresh hs, resume_fresh hs, run_mirrors h, conclude_mirrors]
  | suspended => rw [resume_suspended hs, resume_suspended hs, run_mirrors h, conclude_mirrors]
  | running => rw [resume_running hs, resume_running hs]
  | dead => rw [resume_dead hs, resume_dead hs]

end Coroutine

/-! ## Worlds -/

variable {σ ρ : Type}

/-- Worlds look alike from inside a coroutine, and go on alike.  How messages are sent makes no difference to it. -/
structure Host.Mirrors (host : Host σ) (host' : Host ρ) (f : σ → ρ) : Prop where
  clock : ∀ s, host'.clock (f s) = host.clock s
  worldTime : ∀ s, host'.worldTime (f s) = host.worldTime s
  uptime : ∀ s, host'.uptime (f s) = host.uptime s
  totalMemory : ∀ s, host'.totalMemory (f s) = host.totalMemory s
  address : ∀ s, host'.address (f s) = host.address s
  bootAddress : ∀ s, host'.bootAddress (f s) = host.bootAddress s
  peerName : ∀ name s, host'.peerName name (f s) = host.peerName name s
  print : ∀ text s, host'.print text (f s) = f (host.print text s)
  later : ∀ n s, host'.later n (f s) = f (host.later n s)

def Session.map (f : σ → ρ) (s : Session σ) : Session ρ :=
  ⟨s.used, f s.world⟩

section Worlds

variable {host : Host σ} {host' : Host ρ} {f : σ → ρ}

theorem Native.settle_mirrors (r : Except Mistake Val) (s : Session σ) :
    settle r (s.map f) = ((settle r s).1, (settle r s).2.map f) := by
  cases r <;> rfl

variable (h : host.Mirrors host' f)
include h

theorem Native.reading_mirrors (n : Native) (time : Float) (s : Session σ) :
    reading host' n time (s.map f) = ((reading host n time s).1, (reading host n time s).2.map f) := by
  have hlater : host'.later n (s.map f).world = f (host.later n s.world) := h.later n s.world
  unfold reading
  rw [hlater]
  rfl

theorem Native.call_mirrors (limit : Option Nat) (n : Native) (args : List Val) (s : Session σ) :
    n.call host' ⟨limit, false⟩ args (s.map f) =
      ((n.call host ⟨limit, false⟩ args s).1, (n.call host ⟨limit, false⟩ args s).2.map f) := by
  have hworld : (s.map f).world = f s.world := rfl
  have hused : (s.map f).used = s.used := rfl
  unfold call
  split
  · rfl
  · next hsync =>
    rw [hworld, hused]
    split
    · rw [h.clock]
      exact reading_mirrors h _ _ s
    · rw [h.worldTime]
      exact reading_mirrors h _ _ s
    · rw [h.uptime]
      exact reading_mirrors h _ _ s
    · rw [h.totalMemory]
    · rw [h.totalMemory]
    · rw [h.address]
    · rw [h.bootAddress]
    · dsimp only
      rw [h.print]
      rfl
    · have hname (name : String) : (host'.peerName name (f s.world)).elim Val.null .str =
          (host.peerName name s.world).elim Val.null .str := by rw [h.peerName]
      simp only [hname]
      exact settle_mirrors _ s
    · exact absurd rfl hsync
    · exact settle_mirrors _ s

theorem ofHost_mirrors (globals : Entries Val) (baseline : Nat) (limit : Option Nat) :
    (Runtime.ofHost host globals baseline ⟨limit, false⟩).Mirrors
      (Runtime.ofHost host' globals baseline ⟨limit, false⟩) (Session.map f) where
  globals := rfl
  call n args s := Native.call_mirrors h limit n args s
  admits _ _ := rfl

namespace Guest

theorem boot_mirrors (g : Guest) (steps : Nat) (program : Stmt) (world : σ) :
    g.boot host' steps program (f world) =
      ((g.boot host steps program world).1, (g.boot host steps program world).2.1,
        f (g.boot host steps program world).2.2) := by
  have hresume := Coroutine.resume_mirrors (ofHost_mirrors h g.globals 0 none) steps .null
    (Coroutine.ofProgram program false) ⟨0, world⟩
  unfold boot
  dsimp only
  rw [show (⟨0, f world⟩ : Session ρ) = Session.map f ⟨0, world⟩ from rfl, hresume]
  dsimp only
  split <;> rfl

theorem resume_mirrors (g : Guest) (steps : Nat) (d : Delivery) (world : σ) :
    g.resume host' steps d (f world) =
      ((g.resume host steps d world).1, (g.resume host steps d world).2.1, f (g.resume host steps d world).2.2) := by
  unfold resume
  split
  · rfl
  · next v g _ =>
    split
    · next co _ =>
      have hresume := Coroutine.resume_mirrors (ofHost_mirrors h g.globals g.baseline g.limit) steps v co
        ⟨g.baseline + co.footprint, world⟩
      unfold resumeThread
      dsimp only
      rw [show (⟨g.baseline + co.footprint, f world⟩ : Session ρ) =
        Session.map f ⟨g.baseline + co.footprint, world⟩ from rfl, hresume]
      dsimp only
      split <;> rfl
    · rfl

end Guest

end Worlds

end VirtualComputer
