import VirtualComputer.Guest.Snapshot
import VirtualComputer.Machine.Start
import VirtualComputer.Proofs.Guest.Exactness
import VirtualComputer.Proofs.Guest.Resume
import VirtualComputer.Proofs.Text.Utf8

/-!
# The library's own entry points

A guest is standard if snapshots of it are taken and read by the library's own natives.  The default boot program
makes guests standard (`boot_publishes`), and a coroutine that standard guests write and read back keeps its frames and
its status (`restore_thread`).
-/

namespace VirtualComputer

open Json Coroutine

/-- Snapshots are taken and read by the library's own natives. -/
structure Guest.Standard (g : Guest) : Prop where
  persist : Entries.get? "persist" g.entryPoints = some (.native .persist)
  unpersist : Entries.get? "unpersist" g.entryPoints = some (.native .unpersist)

/-! ## Snapshots of coroutines -/

/-- What a coroutine that has been read has of the one that was stored, whatever values they hold. -/
structure Coroutine.Reread (co co' : Thread) : Prop where
  frames : co'.frames = co.frames.map Frame.bare
  status : co'.status = co.status
  control : co.control = .none → co'.control = .none
  delivered : co.delivered = none → co'.delivered = none

section

variable {decode : Pace → Json → Option Val} {n r : ℕ} {p : Pace} {co : Thread}

/-- The frames and the status of a coroutine are read as they were stored. -/
theorem yields_reread (hr : r ≤ n) : Yields co.Reread (Coroutine.ofJsonWith? n decode p (settled r co.toJson)) := by
  obtain ⟨frames, env, control, delivered, status, guarded⟩ := co
  cases r with
  | zero => exact .none
  | succ r =>
    have hframes := Reads.yields (reads_list fun s (hs : s < r) f (_ : f ∈ frames.reverse) =>
      Frame.reads (show s ≤ n by omega) p f)
    have hcontrol : Yields (fun c => control = .none → c = .none)
        (control? decode p (settled r (Val.toJsonControl control))) := by
      rintro c hc rfl
      exact Reads.yields (reads_control (c := .none) fun _ _ v hv => by rcases hv with h | h | h <;> cases h) c hc
    have hdelivered : Yields (fun d => delivered = none → d = none)
        (optional? (decode p) (some (settled r (Val.toJsonOption delivered)))) := by
      rintro d hd rfl
      cases r <;> cases hd <;> rfl
    rw [Coroutine.toJson_eq]
    -- The variables may be anything, or unreadable.
    cases status <;> exact hframes.bind fun _ hfs => (yields_any _).bind fun _ _ => hcontrol.bind fun _ hc =>
      hdelivered.bind fun _ hd => .pure ⟨by rw [hfs, List.map_reverse, List.reverse_reverse], rfl, hc, hd⟩

theorem load_thread : Yields (fun v => ∃ co', v = .thread co' ∧ co.Reread co') (Val.load? (Val.thread co).store) := by
  rw [Val.load?, Val.store, read_text]
  have hreread : Yields co.Reread
      (Coroutine.ofJsonWith? 126 (Val.ofJson? 126) .passing (settled 126 co.toJson)) := yields_reread (Nat.le_refl _)
  exact hreread.bind fun co' h => .pure ⟨co', rfl, h⟩

end

theorem persist_standard {g : Guest} (hg : g.Standard) (v : Val) : g.persist v = (Utf8.encode v.store, none) := by
  unfold Guest.persist Guest.callEntryPoint
  rw [hg.persist]
  rfl

theorem restore_standard {g : Guest} (hg : g.Standard) {text : String} {v : Val}
    (h : g.restore (Utf8.encode text) = .ok (some v)) : Val.load? text = some v := by
  unfold Guest.restore Guest.callEntryPoint at h
  rw [Utf8.decode_encode, hg.unpersist] at h
  dsimp only [Option.bind_some, Val.callable?] at h
  rw [List.nil_append] at h
  cases hv : Native.unpersist.apply [.str text] with
  | error m =>
    rw [hv] at h
    cases h
  | ok w =>
    rw [hv] at h
    cases h
    exact unpersist_iff.1 hv

/-- A coroutine keeps its frames and its status on the way through bytes. -/
theorem restore_thread {g : Guest} (hg : g.Standard) {co : Thread} {v : Val}
    (h : g.restore (Utf8.encode (Val.thread co).store) = .ok (some v)) : ∃ co', v = .thread co' ∧ co.Reread co' :=
  load_thread v (restore_standard hg h)

/-! ## The default boot program -/

/-- Whether a program returns the library's own entry points. -/
def Stmt.publishes : Stmt → Bool
  | .block [.return (some (.object [("persist", .member (.ident "persistence" _) "persist" _),
      ("unpersist", .member (.ident "persistence" _) "unpersist" _)] _)) _] _ => true
  | _ => false

theorem publishes_defaultBoot :
    (match Grammar.parse Catalog.defaultBoot with
      | .ok program => program.publishes && (program.problems.find? Problem.isError).isNone
      | .error _ => false) = true := by
  decide +kernel

theorem compile_defaultBoot (what : String) :
    ∃ program, compile what Catalog.defaultBoot = .ok program ∧ program.publishes := by
  have hparse := publishes_defaultBoot
  unfold compile
  cases hp : Grammar.parse Catalog.defaultBoot with
  | error e =>
    rw [hp] at hparse
    cases hparse
  | ok program =>
    rw [hp] at hparse
    obtain ⟨hpublishes, hproblems⟩ := (Bool.and_eq_true _ _).mp hparse
    refine ⟨program, ?_, hpublishes⟩
    dsimp only
    rw [Option.isNone_iff_eq_none.1 hproblems]

/-- The library's own entry points under the names that snapshots look for. -/
def ownEntryPoints : Entries Val :=
  [("persist", .native .persist), ("unpersist", .native .unpersist)]

theorem library_persistence (timeout : Float) (drivers : Entries String) :
    Entries.get? "persistence" (library timeout drivers) = some (.obj ownEntryPoints) := by
  rfl

section

variable {τ : Type} {rt : Runtime τ} (hg : Entries.get? "persistence" rt.globals = some (.obj ownEntryPoints))
include hg

theorem eval_persistence {k : String} (a b : Span) : Expr.eval rt [] (.member (.ident "persistence" a) k b) =
    Evaluation.give ((Entries.get? k ownEntryPoints).getD .null) := by
  have hident : Expr.eval rt [] (.ident "persistence" a) = Evaluation.give (.obj ownEntryPoints) := by
    unfold Expr.eval lookup
    rw [List.find?_nil, hg]
  rw [Expr.eval, hident]
  rfl

variable {program : Stmt} (hp : program.publishes)
include hp

/-- The program ends with the third step: the block pushes its statement, which returns the table, and the return leaves
the block. -/
theorem run_publishes (n : Nat) (s : τ) :
    if n < 3 then ∃ co s', run rt n { ofProgram program false with status := .running } s = .next co s'
    else run rt n { ofProgram program false with status := .running } s =
      .done ⟨[], [], .return (.obj ownEntryPoints), none, .running, false⟩ s := by
  unfold Stmt.publishes at hp
  split at hp
  · next a b c d e f g =>
    have heval : Expr.eval rt [] (.object [("persist", .member (.ident "persistence" a) "persist" b),
        ("unpersist", .member (.ident "persistence" c) "unpersist" d)] e) = Evaluation.give (.obj ownEntryPoints) := by
      rw [Expr.eval, Expr.evalProperties, Expr.evalProperties, Expr.evalProperties, eval_persistence hg,
        eval_persistence hg]
      rfl
    rcases n with _ | _ | _ | n
    · exact ⟨_, _, rfl⟩
    · exact ⟨_, _, rfl⟩
    · rw [run]
      simp only [ofProgram, step, execute, Stmt.frame, Stmt.frameKind, push, List.getElem?_cons_zero]
      rw [run]
      simp only [step, execute, Expr.evalOption, heval]
      exact ⟨_, _, rfl⟩
    · rw [if_neg (by omega), run]
      simp only [ofProgram, step, execute, Stmt.frame, Stmt.frameKind, push, List.getElem?_cons_zero]
      rw [run]
      simp only [step, execute, Expr.evalOption, heval]
      rfl
  · cases hp

/-- The program returns the table unless it is allowed too few steps. -/
theorem resume_publishes (steps : Nat) (d : Val) (s : τ) : ((ofProgram program false).resume rt steps d s).1 =
    if steps < 3 then .error .outOfSteps else .ok (.returned (.obj ownEntryPoints)) := by
  have hrun := run_publishes hg hp steps s
  rw [resume_fresh rfl]
  split at hrun
  · next hs =>
    obtain ⟨co, s', hr⟩ := hrun
    rw [hr, if_pos hs]
    rfl
  · next hs =>
    rw [hrun, if_neg hs]
    rfl

end

section

variable {σ : Type} {host : Host σ} {steps : Nat} {program : Stmt} {g : Guest}
  (hg : Entries.get? "persistence" g.globals = some (.obj ownEntryPoints)) (hp : program.publishes) (world : σ)
include hg hp

/-- A boot with the default boot program makes the entry points the library's own. -/
theorem boot_publishes (hs : 3 ≤ steps) : ∃ world', g.boot host steps program world =
    (.ok (), Guest.remeasured { g with entryPoints := ownEntryPoints }, world') := by
  have hrun := @resume_publishes _ (Runtime.ofHost host g.globals 0 ⟨none, false⟩) hg program hp steps .null ⟨0, world⟩
  rw [if_neg (Nat.not_lt.2 hs)] at hrun
  unfold Guest.boot
  dsimp only
  rw [hrun]
  exact ⟨_, rfl⟩

theorem boot_early (hs : steps < 3) : (g.boot host steps program world).1 = .error .outOfSteps := by
  have hrun := @resume_publishes _ (Runtime.ofHost host g.globals 0 ⟨none, false⟩) hg program hp steps .null ⟨0, world⟩
  rw [if_pos hs] at hrun
  unfold Guest.boot
  dsimp only
  rw [hrun]
  rfl

end

end VirtualComputer
