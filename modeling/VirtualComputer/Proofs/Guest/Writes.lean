import VirtualComputer.Proofs.Guest.Frames

/-!
# Which steps write variables

A step of the topmost frame writes a variable if its statement is a declaration or an assignment (`Stmt.writes`), and
then the coroutine is measured, unless an operand is interrupted or the path of the assignment fits nothing
(`execute_written`).  No other step fails to go on: what a fault leaves has just been measured (`step_fault_cases`).
-/

namespace VirtualComputer

/-- Whether a statement writes a variable itself. -/
def Stmt.writes : Stmt → Bool
  | .declare .. | .assign .. => true
  | _ => false

/-! ## Kinds of frames -/

/-- Whether the kind of a frame is one for its statement. -/
def Frame.matched (f : Frame) : Bool :=
  match f.kind, f.node with
  | .block _, .block .. | .declare, .declare .. | .assign, .assign .. | .branch, .branch .. | .loop, .loop ..
  | .return, .return .. | .attempt _, .attempt .. | .expr, .expr .. | .break, .break _ | .continue, .continue _ => true
  | _, _ => false

theorem Frame.Fits.matched {f : Frame} (h : f.Fits) : f.matched := by
  obtain ⟨kind, base, node⟩ := f
  rcases h with hkind | ⟨slot, t, hk, ht⟩
  · obtain rfl : kind = node.frameKind := hkind
    cases node <;> rfl
  · -- a statement has parts in the slots of its own kinds of frames only
    change kind.slot? = some slot at hk
    change node.part? slot = some t at ht
    unfold FrameKind.slot? at hk
    split at hk <;> cases hk <;> cases node <;> first | rfl | cases ht

/-! ## Steps of the topmost frame -/

namespace Coroutine

/-- Before this step `f` was the topmost frame, with an assignment whose path has turned out to fit nothing: what had
been written by then stays. -/
structure Misassigned (f : Frame) (co co' : Thread) : Prop where
  frames : co'.frames = co.frames
  failed : ∃ x path value span ks v m, f.node = .assign x path value span ∧
    writeVariable x ks v co.env = (co'.env, some m) ∧ co'.control = .throw m.toVal

/-- The statement of the topmost frame `f` has written its variable, and is over. -/
structure Wrote (f : Frame) (fs : List Frame) (co co' : Thread) : Prop where
  writes : f.node.writes
  frames : co'.frames = fs
  control : co'.control = .none
  names : co.env.map Prod.fst <:+ co'.env.map Prod.fst

variable {τ α : Type}

/-- What a step of the topmost frame `f` does to variables. -/
inductive Written (rt : Runtime τ) (f : Frame) (fs : List Frame) (co : Thread) : StepResult τ → Prop
  /-- It writes none, but may drop some. -/
  | dropped {co' : Thread} {s : τ} (henv : co'.env <:+ co.env) (hw : f.node.writes → co'.control ≠ .none) :
      Written rt f fs co (.next co' s)
  | paused {co' : Thread} {s : τ} (henv : co'.env = co.env) : Written rt f fs co (.done co' s)
  | measured {co' : Thread} {s : τ} (h : Wrote f fs co co') : Written rt f fs co (Coroutine.measured rt co' s)
  | failed {co' : Thread} {s : τ} (h : Misassigned f co co') : Written rt f fs co (.next co' s)

variable {rt : Runtime τ} {f : Frame} {fs : List Frame} {co co' : Thread} {s s' : τ} {x : Fault}

/-- An operand that is interrupted leaves all variables as they are. -/
theorem evaluating_written {m : Evaluation τ α} {k : α → Thread → τ → StepResult τ}
    (hk : ∀ a d t, Written rt f fs co (k a { co with delivered := d } t)) :
    Written rt f fs co (evaluating co s m k) := by
  unfold evaluating
  rcases m ⟨co.delivered, s⟩ with ⟨(v | e) | a, t⟩
  · exact .paused rfl
  · exact .dropped List.suffix_rfl (fun _ => nofun)
  · exact hk a _ _

/-- A step of a frame that fits its statement. -/
theorem execute_written (rt : Runtime τ) (s : τ) (hf : co.frames = f :: fs) (hc : co.control = .none) (hfits : f.Fits) :
    Written rt f fs co (execute rt f fs co s) := by
  obtain ⟨kind, base, node⟩ := f
  have hpopped {co' : Thread} {t : τ} (henv : co'.env <:+ co.env) (hw : node.writes = false) :
      Written rt ⟨kind, base, node⟩ fs co (.next co' t) := by
    refine .dropped henv fun hwrites => ?_
    cases hw.symm.trans hwrites
  have hdropped : outermost base co.env <:+ co.env := List.drop_suffix _ _
  have hsame : co.env <:+ co.env := List.suffix_rfl
  unfold execute
  dsimp only
  split
  · split
    · exact hpopped hdropped rfl
    · exact hpopped hsame rfl
  · refine evaluating_written fun v d t => .measured ⟨rfl, rfl, hc, ?_⟩
    exact List.suffix_cons _ _
  · next y path value span =>
    refine evaluating_written fun ⟨v, ks⟩ d t => ?_
    dsimp only
    split
    · next env m hw => exact .failed ⟨rfl, y, path, value, span, ks, v, m, rfl, hw, rfl⟩
    · next env hw =>
      have hnames := names_writeVariable y ks v co.env
      rw [hw] at hnames
      exact .measured ⟨rfl, rfl, hc, hnames ▸ List.suffix_rfl⟩
  · refine evaluating_written fun v d t => ?_
    dsimp only
    split
    · exact hpopped hsame rfl
    · split
      · exact hpopped hsame rfl
      · exact hpopped hsame rfl
  · refine evaluating_written fun v d t => ?_
    split
    · exact hpopped hsame rfl
    · exact hpopped hsame rfl
  · exact evaluating_written fun v d t => hpopped hsame rfl
  · exact hpopped hsame rfl
  · exact hpopped hdropped rfl
  · exact evaluating_written fun v d t => hpopped hsame rfl
  · exact hpopped hsame rfl
  · exact hpopped hsame rfl
  · -- a frame that does not match its statement
    next hnone =>
    have hmatched := hfits.matched
    unfold Frame.matched at hmatched
    dsimp only at hmatched
    clear hpopped
    split at hmatched <;> grind

/-- A step of the topmost frame that faults has written its variable, and been refused. -/
theorem Written.fault {r : StepResult τ} (h : Written rt f fs co r) (hr : r = .fault x co' s') :
    x = .allocationLimit ∧ Wrote f fs co co' ∧ ∃ t, rt.admits co' t = (false, s') := by
  cases h with
  | dropped _ _ | paused _ | failed _ => cases hr
  | @measured co₁ t h =>
    obtain ⟨u, ⟨-, hgoes⟩ | ⟨hrefused, hfault⟩⟩ := measured_cases rt co₁ t
    · cases hgoes.symm.trans hr
    · cases hfault.symm.trans hr
      exact ⟨rfl, h, t, hrefused⟩

/-- One that is the last step writes no variable. -/
theorem Written.done {r : StepResult τ} (h : Written rt f fs co r) (hr : r = .done co' s') : co'.env = co.env := by
  cases h with
  | dropped _ _ | failed _ => cases hr
  | paused henv =>
    cases hr
    exact henv
  | @measured co₁ t _ =>
    obtain ⟨u, ⟨-, hgoes⟩ | ⟨-, hfault⟩⟩ := measured_cases rt co₁ t
    · cases hgoes.symm.trans hr
    · cases hfault.symm.trans hr

/-- A step of the topmost frame that goes on has written its variable and been measured, or has written none, or has
failed to assign. -/
theorem Written.next {r : StepResult τ} (h : Written rt f fs co r) (hr : r = .next co' s') :
    (Wrote f fs co co' ∧ ∃ t, rt.admits co' t = (true, s')) ∨
      (co'.env <:+ co.env ∧ (f.node.writes → co'.control ≠ .none)) ∨ Misassigned f co co' := by
  cases h with
  | dropped henv hw =>
    cases hr
    exact .inr (.inl ⟨henv, hw⟩)
  | paused _ => cases hr
  | @measured co₁ t h =>
    obtain ⟨u, ⟨hadmitted, hgoes⟩ | ⟨-, hfault⟩⟩ := measured_cases rt co₁ t
    · cases hgoes.symm.trans hr
      exact .inl ⟨h, t, hadmitted⟩
    · cases hfault.symm.trans hr
  | failed h =>
    cases hr
    exact .inr (.inr h)

end Coroutine

end VirtualComputer
