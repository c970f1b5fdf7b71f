import VirtualComputer.Proofs.Guest.DirectStmt
import VirtualComputer.Proofs.Guest.Keeping
import VirtualComputer.Proofs.Validation.Rules

/-!
# Coroutines refine direct evaluation

A coroutine of a program without nested `yield`, driven with any resume values and without a memory ceiling, comes
to the same end as direct evaluation, with the same calls and values handed out in the same order and the same
world (`drive_refines_direct`).  What happens is only ever added to (`after_noted`), so that a run without end is
matched as far as it has been followed.
-/

namespace VirtualComputer

open Direct (Happening Ending Exit)

/-! ## What has happened stays -/

section Noted

variable {τ : Type} {rt : Runtime τ}

theorem noting_keeps (rt : Runtime τ) : rt.noting.Keeps fun s t => s.1 <+: t.1 where
  refl _ := List.prefix_refl _
  trans h h' := h.trans h'
  call _ _ s := List.prefix_append s.1 _
  admits _ _ := List.prefix_refl _

/-- Answering a coroutine adds what it has handed out. -/
theorem Conf.answer_noted (inputs : List Val) (o : Outcome × Thread) (s : List Happening × τ) :
    match answer inputs o s with
    | .inl d => s.1 <+: d.noted
    | .inr r => s.1 <+: r.2.1 := by
  rcases o with ⟨v | v | e, co⟩
  · cases inputs <;> exact List.prefix_append s.1 _
  · exact List.prefix_refl _
  · exact List.prefix_refl _

/-- What has happened before a step has happened after it. -/
theorem Conf.turn_noted (rt : Runtime τ) (c : Conf τ) :
    match turn rt c with
    | .inl d => c.noted <+: d.noted
    | .inr r => c.noted <+: r.2.1 := by
  have h := Coroutine.step_keeps (noting_keeps rt) c.co (c.noted, c.outside)
  rw [turn]
  cases hs : Coroutine.step rt.noting c.co (c.noted, c.outside) with
  | next co s => rw [hs] at h; exact h
  | fault f co s => rw [hs] at h; exact h
  | done co s =>
    rw [hs] at h
    have ha := answer_noted c.inputs (Coroutine.outcome co) s
    dsimp only
    cases hr : answer c.inputs (Coroutine.outcome co) s with
    | inl d => rw [hr] at ha; exact h.trans ha
    | inr r => rw [hr] at ha; exact h.trans ha

theorem Conf.noted_of_stop {c : Conf τ} {r : Course τ} (h : turn rt c = .inr r) : c.noted <+: r.2.1 := by
  have hn := turn_noted rt c
  rwa [h] at hn

theorem Conf.after_noted {n : Nat} {c d : Conf τ} (h : after rt n c = some d) : c.noted <+: d.noted := by
  induction n generalizing c with
  | zero => cases h; exact List.prefix_refl _
  | succ n ih =>
    obtain ⟨c', ht, h⟩ := turn_of_after h
    have hn := turn_noted rt c
    rw [ht] at hn
    exact hn.trans (ih h)

/-- The rest of a longer run. -/
theorem Conf.after_of_le {m n : Nat} {c d e : Conf τ} (hd : after rt m c = some d) (he : after rt n c = some e)
    (h : m ≤ n) : after rt (n - m) d = some e := by
  induction m generalizing c n with
  | zero => cases hd; exact he
  | succ m ih =>
    obtain ⟨n, rfl⟩ := Nat.exists_eq_add_one_of_ne_zero (Nat.ne_zero_of_lt h)
    obtain ⟨c', ht, hd⟩ := turn_of_after hd
    rw [after_succ ht] at he
    rw [Nat.add_sub_add_right]
    exact ih hd he (Nat.le_of_succ_le_succ h)

/-- Along one run, more has happened later. -/
theorem Conf.noted_of_le {m n : Nat} {c d e : Conf τ} (hd : after rt m c = some d) (he : after rt n c = some e)
    (h : m ≤ n) : d.noted <+: e.noted :=
  after_noted (after_of_le hd he h)

end Noted

/-! ## Whole programs -/

namespace Direct

variable {σ : Type} (host : Host σ) (globals : Entries Val) (baseline : Nat) (synchronized guarded : Bool)
  {program : Stmt} (inputs : List Val) (used : Nat) (world : σ)

/-- A run of a program stops where direct evaluation ends, or is as long as that has been followed. -/
theorem program_arrives (h : NestedYield.inStmt program = []) (fuel : Nat) :
    ∃ n d, Conf.after (unlimited host globals baseline synchronized) n
        (.initial program guarded inputs ⟨used, world⟩) = some d ∧
      match run host globals synchronized fuel program inputs world with
      | (some e, trace, world) => ∃ used,
          Conf.turn (unlimited host globals baseline synchronized) d = .inr (.ok e, trace, ⟨used, world⟩)
      | (none, trace, _) => fuel ≤ n ∧ d.noted = trace := by
  have hs : StmtArrives host globals baseline synchronized guarded fuel program := stmt_arrives program h
  have hc := hs [] ⟨[], inputs, [], world⟩ used
  rw [run]
  rcases hr : stmt host globals synchronized fuel program ⟨[], inputs, [], world⟩ with ⟨r, t⟩
  rw [hr] at hc
  cases hc with
  | ok h _ => exact ⟨_, _, h, _, rfl⟩
  | waiting h hd => exact ⟨_, _, h, _, hd⟩
  | exhausted h hn hd => exact ⟨_, _, h, hn, hd⟩
  | @exit x control _ _ used gs hx hgs h _ =>
    have hgs : Lets control 0 (gs ++ []) := by rw [List.append_nil]; exact hgs
    refine ⟨_, _, h, ?_⟩
    cases x with
    | «break» => cases hx; exact ⟨used, Conf.turn_of_escaped (x := .break) rfl hgs⟩
    | «continue» => cases hx; exact ⟨used, Conf.turn_of_escaped (x := .continue) rfl hgs⟩
    | «return» v => cases hx; exact ⟨used, Conf.turn_of_escaped (x := .return v) rfl hgs⟩
    | throw e => cases hx; exact ⟨used, Conf.turn_of_escaped (x := .throw e) rfl hgs⟩
    | waiting => cases hx
    | exhausted => cases hx

variable {host globals baseline synchronized guarded inputs used world}

/-- A run that stops, stops as direct evaluation with more loops than it has steps ends. -/
theorem run_of_stop (h : NestedYield.inStmt program = []) {n : Nat} {d : Conf (Session σ)} {r : Course (Session σ)}
    (hd : Conf.after (unlimited host globals baseline synchronized) n
      (.initial program guarded inputs ⟨used, world⟩) = some d)
    (hr : Conf.turn (unlimited host globals baseline synchronized) d = .inr r) :
    ∃ e trace world' used', r = (.ok e, trace, ⟨used', world'⟩) ∧
      run host globals synchronized (n + 1) program inputs world = (some e, trace, world') := by
  obtain ⟨m, d', hd', hm⟩ :=
    program_arrives host globals baseline synchronized guarded inputs used world h (n + 1)
  rcases hrun : run host globals synchronized (n + 1) program inputs world with ⟨_ | e, trace, world'⟩ <;>
    rw [hrun] at hm
  · have hle : m ≤ n := Conf.le_of_stop hd hr hd'
    omega
  · obtain ⟨used', hm⟩ := hm
    exact ⟨e, trace, world', used', Conf.stop_unique hd hr hd' hm, rfl⟩

/-- Driving a program ends as direct evaluation does. -/
theorem drive_ends_iff (h : NestedYield.inStmt program = []) (first : Val) (e : Ending) (trace : List Happening)
    (world' : σ) :
    (∃ steps used', driveProgram (unlimited host globals baseline synchronized) steps program guarded first inputs
        ⟨used, world⟩ = (.ok e, trace, ⟨used', world'⟩)) ↔
      ∃ fuel, run host globals synchronized fuel program inputs world = (some e, trace, world') := by
  constructor
  · rintro ⟨steps, used', hr⟩
    obtain ⟨n, d, hd, ht⟩ := after_of_drive (unlimited host globals baseline synchronized) steps program guarded first
      inputs ⟨used, world⟩
    rw [hr] at ht
    rcases ht with ht | ⟨-, ht⟩
    · obtain ⟨e', trace', world'', used'', heq, hrun⟩ := run_of_stop h hd ht
      cases heq
      exact ⟨n + 1, hrun⟩
    · cases ht
  · rintro ⟨fuel, hrun⟩
    obtain ⟨n, d, hd, hm⟩ := program_arrives host globals baseline synchronized guarded inputs used world h fuel
    rw [hrun] at hm
    obtain ⟨used', hm⟩ := hm
    exact ⟨n + 1, used', drive_of_after hd hm (Nat.lt_succ_self n)⟩

/-- Driving a program fails only for want of steps. -/
theorem drive_fault (h : NestedYield.inStmt program = []) {first : Val} {steps : Nat} {f : Fault}
    (hf : (driveProgram (unlimited host globals baseline synchronized) steps program guarded first inputs
      ⟨used, world⟩).1 = .error f) : f = .outOfSteps := by
  obtain ⟨n, d, hd, ht | ⟨-, ht⟩⟩ := after_of_drive (unlimited host globals baseline synchronized) steps program guarded
    first inputs ⟨used, world⟩
  · obtain ⟨e, trace, world', used', heq, -⟩ := run_of_stop h hd ht
    rw [heq] at hf
    cases hf
  · rw [ht] at hf
    cases hf
    rfl

/-- What happens while a program is driven, happens in its direct evaluation. -/
theorem trace_of_drive (h : NestedYield.inStmt program = []) (first : Val) (steps : Nat) :
    ∃ fuel, (driveProgram (unlimited host globals baseline synchronized) steps program guarded first inputs
      ⟨used, world⟩).2.1 <+: (run host globals synchronized fuel program inputs world).2.1 := by
  obtain ⟨n, d, hd, ht | ⟨-, ht⟩⟩ := after_of_drive (unlimited host globals baseline synchronized) steps program guarded
    first inputs ⟨used, world⟩
  · obtain ⟨e, trace, world', used', heq, hrun⟩ := run_of_stop h hd ht
    refine ⟨n + 1, ?_⟩
    rewrite [heq, hrun]
    exact List.prefix_refl _
  · obtain ⟨m, d', hd', hm⟩ :=
      program_arrives host globals baseline synchronized guarded inputs used world h (n + 1)
    refine ⟨n + 1, ?_⟩
    rw [ht]
    rcases hrun : run host globals synchronized (n + 1) program inputs world with ⟨_ | e, trace, world'⟩ <;>
      rw [hrun] at hm
    · obtain ⟨hle, rfl⟩ := hm
      exact Conf.noted_of_le hd hd' (by omega)
    · obtain ⟨used', hm⟩ := hm
      exact (Conf.noted_of_le hd hd' (Conf.le_of_stop hd' hm hd)).trans (Conf.noted_of_stop hm)

/-- What happens in the direct evaluation of a program, happens while it is driven. -/
theorem trace_of_run (h : NestedYield.inStmt program = []) (first : Val) (fuel : Nat) :
    ∃ steps, (run host globals synchronized fuel program inputs world).2.1 <+:
      (driveProgram (unlimited host globals baseline synchronized) steps program guarded first inputs
        ⟨used, world⟩).2.1 := by
  obtain ⟨m, d', hd', hm⟩ := program_arrives host globals baseline synchronized guarded inputs used world h fuel
  refine ⟨m + 1, ?_⟩
  rcases hrun : run host globals synchronized fuel program inputs world with ⟨_ | e, trace, world'⟩ <;> rw [hrun] at hm
  · obtain ⟨-, rfl⟩ := hm
    obtain ⟨n, d, hd, ht | ⟨hle, ht⟩⟩ := after_of_drive (unlimited host globals baseline synchronized) (m + 1) program
      guarded first inputs ⟨used, world⟩
    · exact (Conf.noted_of_le hd' hd (Conf.le_of_stop hd ht hd')).trans (Conf.noted_of_stop ht)
    · rw [ht]
      exact Conf.noted_of_le hd' hd (by omega)
  · obtain ⟨used', hm⟩ := hm
    rewrite [drive_of_after hd' hm (Nat.lt_succ_self m)]
    exact List.prefix_refl _

end Direct

/-! ## Refinement -/

/-- A coroutine of a program in which the rules find no nested `yield` refines direct evaluation, for every host and
library, all resume values and no memory ceiling.  It ends in just the ways and after just the calls and yielded
values, and with just the worlds, that direct evaluation ends in; it fails only for want of steps; and as far as
either has been followed, the other does the same. -/
theorem drive_refines_direct {σ : Type} (host : Host σ) (globals : Entries Val) (baseline : Nat)
    (synchronized guarded : Bool) (program : Stmt) (h : ∀ p ∈ program.problems, p.rule ≠ Rule.nestedYield.id)
    (first : Val) (inputs : List Val) (used : Nat) (world : σ) :
    let rt := Runtime.ofHost host globals baseline ⟨none, synchronized⟩
    let driven steps := driveProgram rt steps program guarded first inputs ⟨used, world⟩
    let direct fuel := Direct.run host globals synchronized fuel program inputs world
    (∀ e trace world', (∃ steps used', driven steps = (.ok e, trace, ⟨used', world'⟩)) ↔
      ∃ fuel, direct fuel = (some e, trace, world')) ∧
    (∀ steps f, (driven steps).1 = .error f → f = .outOfSteps) ∧
    (∀ steps, ∃ fuel, (driven steps).2.1 <+: (direct fuel).2.1) ∧
    ∀ fuel, ∃ steps, (direct fuel).2.1 <+: (driven steps).2.1 := by
  have hn : NestedYield.inStmt program = [] := (unreported_iff program .nestedYield).1 h
  exact ⟨Direct.drive_ends_iff hn first, fun _ _ => Direct.drive_fault hn, Direct.trace_of_drive hn first,
    Direct.trace_of_run hn first⟩

/-- `let x = yield "name?"; while (x) { try { x(); } catch (e) { break; } } return x;` -/
def asking : Stmt :=
  .block [
    .declare "x" (some (.yield (some (.str "name?" .none)) .none)) .none,
    .loop (.ident "x" .none)
      (.attempt (.block [.expr (.call (.ident "x" .none) [] .none) .none] .none) "e" (.block [.break .none] .none)
        .none)
      .none,
    .return (some (.ident "x" .none)) .none] .none

/-- Driven with a value that cannot be called, the program leaves its loop through the handler. -/
theorem asking_driven : ∃ steps used, driveProgram (Runtime.ofHost silentHost [] 0 ⟨none, false⟩) steps asking false
    .null [.bool true] ⟨0, ()⟩ =
      (.ok (.returned (.bool true)), [.yielded (.str "name?")], ⟨used, ()⟩) :=
  ((drive_refines_direct silentHost [] 0 false false asking ((unreported_iff asking .nestedYield).2 rfl) .null
    [.bool true] 0 ()).1 _ _ _).2 ⟨1, rfl⟩

end VirtualComputer
