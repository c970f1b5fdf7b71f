import VirtualComputer.Proofs.Guest.Direct
import VirtualComputer.Proofs.Guest.Resume

/-!
# Driving a coroutine

`Coroutine.drive` resumes a coroutine with one value after the other and notes what it calls and hands out.  The
single steps of all these resumes form one run of configurations (`Conf.turn`, `Conf.after`), in which a `yield`
that is answered is a step like any other:

- a run that stops gives the result of driving with any larger bound (`drive_of_after`);
- the result of driving with a bound is that of a run that stops, or the bound has been used up
  (`after_of_drive`).
-/

namespace VirtualComputer

open Direct (Happening Ending)

variable {τ : Type}

/-- A runtime that notes the calls of natives that it makes. -/
def Runtime.noting (rt : Runtime τ) : Runtime (List Happening × τ) where
  globals := rt.globals
  call n args s :=
    let (r, outside) := rt.call n args s.2
    (r, s.1 ++ [.called n args], outside)
  admits co s :=
    let (ok, outside) := rt.admits co s.2
    (ok, s.1, outside)

/-- What driving a coroutine comes to: how it ends, what has happened, and the state outside. -/
abbrev Course (τ : Type) : Type :=
  Except Fault Ending × List Happening × τ

/-- Resumes a coroutine with a value, and with each of the inputs in turn for as long as it yields.  Every resume
may take the given number of steps. -/
def Coroutine.drive (rt : Runtime τ) (steps : Nat) :
    List Val → Val → Thread → List Happening × τ → Course τ
  | inputs, delivery, co, s =>
    match co.resume rt.noting steps delivery s with
    | (.error f, _, s) => (.error f, s)
    | (.ok (.returned v), _, s) => (.ok (.returned v), s)
    | (.ok (.threw e), _, s) => (.ok (.threw e), s)
    | (.ok (.yielded v), co, noted, outside) =>
      let s := (noted ++ [Happening.yielded v], outside)
      match inputs with
      | [] => (.ok .waiting, s)
      | d :: inputs => drive rt steps inputs d co s

/-! ## Configurations -/

/-- A running coroutine with the resume values still to come. -/
structure Conf (τ : Type) where
  co : Thread
  inputs : List Val
  noted : List Happening
  outside : τ

namespace Conf

variable (rt : Runtime τ)

/-- Goes on after a coroutine has come to an outcome: with the next input, or no more. -/
def answer (inputs : List Val) : Outcome × Thread → List Happening × τ → Conf τ ⊕ Course τ
  | (.returned v, _), s => .inr (.ok (.returned v), s)
  | (.threw e, _), s => .inr (.ok (.threw e), s)
  | (.yielded v, co), s =>
    let noted := s.1 ++ [Happening.yielded v]
    match inputs with
    | [] => .inr (.ok .waiting, noted, s.2)
    | d :: inputs => .inl ⟨{ co with delivered := some d, status := .running }, inputs, noted, s.2⟩

/-- One step of a configuration: to another one, or to the end. -/
def turn (c : Conf τ) : Conf τ ⊕ Course τ :=
  match Coroutine.step rt.noting c.co (c.noted, c.outside) with
  | .next co s => .inl ⟨co, c.inputs, s.1, s.2⟩
  | .done co s => answer c.inputs (Coroutine.outcome co) s
  | .fault f _ s => .inr (.error f, s)

/-- The configuration after some steps, if there are so many. -/
def after : Nat → Conf τ → Option (Conf τ)
  | 0, c => some c
  | n + 1, c =>
    match turn rt c with
    | .inl c => after n c
    | .inr _ => none

variable {rt}

/-! ## Runs -/

theorem after_succ {c d : Conf τ} (h : turn rt c = .inl d) (n : Nat) :
    after rt (n + 1) c = after rt n d := by
  rw [after, h]

theorem after_succ_of_stop {c : Conf τ} {r : Course τ} (h : turn rt c = .inr r) (n : Nat) :
    after rt (n + 1) c = none := by
  rw [after, h]

/-- The first of some steps. -/
theorem turn_of_after {c d : Conf τ} {n : Nat} (h : after rt (n + 1) c = some d) :
    ∃ c', turn rt c = .inl c' ∧ after rt n c' = some d := by
  cases ht : turn rt c with
  | inl c' => exact ⟨c', rfl, by rwa [after_succ ht] at h⟩
  | inr r => rw [after_succ_of_stop ht] at h; cases h

/-- Runs compose. -/
theorem after_trans {c d e : Conf τ} {m n : Nat} (h : after rt m c = some d) (h' : after rt n d = some e) :
    after rt (m + n) c = some e := by
  induction m generalizing c with
  | zero => cases h; rwa [Nat.zero_add]
  | succ m ih =>
    obtain ⟨c', ht, hc⟩ := turn_of_after h
    rw [Nat.succ_add, after_succ ht, ih hc]

/-- No run is longer than one that stops. -/
theorem le_of_stop {c d e : Conf τ} {m n : Nat} {r : Course τ} (hd : after rt m c = some d)
    (hr : turn rt d = .inr r) (he : after rt n c = some e) : n ≤ m := by
  induction m generalizing c n with
  | zero =>
    cases hd
    cases n with
    | zero => exact Nat.le_refl 0
    | succ n => rw [after_succ_of_stop hr] at he; cases he
  | succ m ih =>
    cases n with
    | zero => exact Nat.zero_le _
    | succ n =>
      obtain ⟨c', ht, hd⟩ := turn_of_after hd
      rw [after_succ ht] at he
      exact Nat.succ_le_succ (ih hd he)

/-- A run stops with one result only. -/
theorem stop_unique {c d e : Conf τ} {m n : Nat} {r r' : Course τ} (hd : after rt m c = some d)
    (hr : turn rt d = .inr r) (he : after rt n c = some e) (hr' : turn rt e = .inr r') : r = r' := by
  obtain rfl : m = n := Nat.le_antisymm (le_of_stop he hr' hd) (le_of_stop hd hr he)
  rw [hd] at he
  cases he
  rw [hr] at hr'
  cases hr'
  rfl

/-! ## Running and driving -/

/-- Goes on driving from the middle of a resume that may take `left` more steps. -/
def rest (rt : Runtime τ) (steps left : Nat) (c : Conf τ) : Course τ :=
  match Coroutine.run rt.noting left c.co (c.noted, c.outside) with
  | .next _ s => (.error .outOfSteps, s)
  | .fault f _ s => (.error f, s)
  | .done co s =>
    match Coroutine.outcome co with
    | (.returned v, _) => (.ok (.returned v), s)
    | (.threw e, _) => (.ok (.threw e), s)
    | (.yielded v, co) =>
      let s := (s.1 ++ [Happening.yielded v], s.2)
      match c.inputs with
      | [] => (.ok .waiting, s)
      | d :: inputs => Coroutine.drive rt steps inputs d co s

/-- Driving a coroutine that may be resumed. -/
theorem drive_eq_rest {steps : Nat} {inputs : List Val} {d : Val} {co co' : Thread}
    {noted : List Happening} {s : τ}
    (h : co.status = .fresh ∧ co' = { co with status := .running } ∨
      co.status = .suspended ∧ co' = { co with delivered := some d, status := .running }) :
    Coroutine.drive rt steps inputs d co (noted, s) = rest rt steps steps ⟨co', inputs, noted, s⟩ := by
  have hr : co.resume rt.noting steps d (noted, s) =
      Coroutine.conclude (Coroutine.run rt.noting steps co' (noted, s)) := by
    rcases h with ⟨h, rfl⟩ | ⟨h, rfl⟩
    · exact Coroutine.resume_fresh h
    · exact Coroutine.resume_suspended h
  rw [Coroutine.drive.eq_def, rest]
  dsimp only
  rw [hr]
  cases Coroutine.run rt.noting steps co' (noted, s) with
  | next co s => rfl
  | fault f co s => rfl
  | done co s =>
    simp only [Coroutine.conclude]
    rcases Coroutine.outcome co with ⟨o, co⟩
    cases o with
    | yielded v => cases inputs <;> rfl
    | returned v => rfl
    | threw e => rfl

theorem rest_zero {steps : Nat} {c : Conf τ} :
    rest rt steps 0 c = (.error .outOfSteps, c.noted, c.outside) := rfl

/-- The last step before a stop. -/
theorem rest_of_stop {steps left : Nat} {c : Conf τ} {r : Course τ} (h : turn rt c = .inr r) :
    rest rt steps (left + 1) c = r := by
  rw [turn] at h
  rw [rest, Coroutine.run]
  cases hs : Coroutine.step rt.noting c.co (c.noted, c.outside) with
  | next co s => rw [hs] at h; cases h
  | fault f co s => rw [hs] at h; cases h; rfl
  | done co s =>
    rw [hs] at h
    dsimp only at h ⊢
    rcases ho : Coroutine.outcome co with ⟨o, co⟩
    rw [ho] at h
    cases o with
    | returned v => cases h; rfl
    | threw e => cases h; rfl
    | yielded v =>
      cases hi : c.inputs with
      | nil => rw [hi] at h; cases h; rfl
      | cons d inputs => rw [hi] at h; cases h

/-- A step that is not the last: it is taken off the bound, or an input is used up and the bound is renewed. -/
theorem rest_of_turn (steps left : Nat) {c d : Conf τ} (h : turn rt c = .inl d) :
    (rest rt steps (left + 1) c = rest rt steps left d ∧ d.inputs = c.inputs) ∨
    (rest rt steps (left + 1) c = rest rt steps steps d ∧ c.inputs.length = d.inputs.length + 1) := by
  rw [turn] at h
  rw [rest, Coroutine.run]
  cases hs : Coroutine.step rt.noting c.co (c.noted, c.outside) with
  | next co s => rw [hs] at h; cases h; exact .inl ⟨rfl, rfl⟩
  | fault f co s => rw [hs] at h; cases h
  | done co s =>
    rw [hs] at h
    dsimp only at h ⊢
    rcases ho : Coroutine.outcome co with ⟨o, co'⟩
    rw [ho] at h
    cases o with
    | returned v => cases h
    | threw e => cases h
    | yielded v =>
      cases hi : c.inputs with
      | nil => rw [hi] at h; cases h
      | cons e inputs =>
        rw [hi] at h
        cases h
        refine .inr ⟨?_, rfl⟩
        -- only a pending `yield` gives this outcome, and it leaves the coroutine suspended
        have hco : co'.status = .suspended := by
          rw [Coroutine.outcome] at ho
          split at ho <;> cases ho
          rfl
        exact drive_eq_rest (.inr ⟨hco, rfl⟩)

/-- A run that stops gives the result of driving on with larger bounds. -/
theorem rest_of_after {steps : Nat} {d : Conf τ} {r : Course τ} (hr : turn rt d = .inr r) :
    ∀ {n left : Nat} {c : Conf τ}, after rt n c = some d → n < left → n < steps → rest rt steps left c = r
  | 0, left, c, h, hl, _ => by
    cases h
    obtain ⟨left, rfl⟩ := Nat.exists_eq_add_one_of_ne_zero (Nat.ne_of_gt hl)
    exact rest_of_stop hr
  | n + 1, left, c, h, hl, hs => by
    obtain ⟨c', ht, h⟩ := turn_of_after h
    obtain ⟨left, rfl⟩ := Nat.exists_eq_add_one_of_ne_zero (Nat.ne_zero_of_lt hl)
    rcases rest_of_turn steps left ht with ⟨he, -⟩ | ⟨he, -⟩
    · rw [he]; exact rest_of_after hr h (by omega) (by omega)
    · rw [he]; exact rest_of_after hr h (by omega) (by omega)

/-- What driving with a bound comes to: a run stops with it, or has used up the bound. -/
def Accounts (rt : Runtime τ) (bound : Nat) (c : Conf τ) (r : Course τ) : Prop :=
  ∃ n d, after rt n c = some d ∧
    (turn rt d = .inr r ∨ bound ≤ n ∧ r = (.error .outOfSteps, d.noted, d.outside))

theorem Accounts.step {bound : Nat} {c d : Conf τ} {r : Course τ} (h : turn rt c = .inl d)
    (hd : Accounts rt bound d r) : Accounts rt (bound + 1) c r := by
  obtain ⟨n, e, he, hr⟩ := hd
  refine ⟨n + 1, e, by rwa [after_succ h], hr.imp_right ?_⟩
  rintro ⟨hn, hr⟩
  exact ⟨by omega, hr⟩

theorem Accounts.mono {a b : Nat} {c : Conf τ} {r : Course τ} (hab : a ≤ b) (h : Accounts rt b c r) :
    Accounts rt a c r := by
  obtain ⟨n, d, hd, hr⟩ := h
  refine ⟨n, d, hd, hr.imp_right ?_⟩
  rintro ⟨hn, hr⟩
  exact ⟨by omega, hr⟩

/-- Driving on accounts for the smaller of its bounds: by induction on the inputs still to come, each of which
renews the bound of a resume, and on that bound. -/
theorem accounts_rest (steps : Nat) : ∀ (k left : Nat) (c : Conf τ), c.inputs.length = k →
    Accounts rt (min left steps) c (rest rt steps left c) := by
  intro k
  induction k using Nat.strongRecOn with
  | ind k ihk =>
    intro left
    induction left with
    | zero =>
      intro c _
      exact ⟨0, c, rfl, .inr ⟨by omega, rest_zero⟩⟩
    | succ left ihl =>
      intro c hc
      cases ht : turn rt c with
      | inr r => exact ⟨0, c, rfl, .inl (by rw [rest_of_stop ht, ht])⟩
      | inl d =>
        rcases rest_of_turn steps left ht with ⟨he, hi⟩ | ⟨he, hi⟩
        · rw [he]
          exact ((ihl d (by rw [hi, hc])).step ht).mono (by omega)
        · rw [he]
          exact ((ihk d.inputs.length (by omega) steps d rfl).step ht).mono (by omega)

end Conf

/-! ## Driving a program -/

/-- The configuration in which a program starts. -/
def Conf.initial (program : Stmt) (guarded : Bool) (inputs : List Val) (s : τ) : Conf τ :=
  ⟨{ Coroutine.ofProgram program guarded with status := .running }, inputs, [], s⟩

/-- What driving a fresh coroutine of a program comes to. -/
def driveProgram (rt : Runtime τ) (steps : Nat) (program : Stmt) (guarded : Bool) (first : Val)
    (inputs : List Val) (s : τ) : Course τ :=
  (Coroutine.ofProgram program guarded).drive rt steps inputs first ([], s)

section Program

variable {rt : Runtime τ} {program : Stmt} {guarded : Bool} {first : Val} {inputs : List Val} {s : τ}

theorem driveProgram_eq_rest {steps : Nat} : driveProgram rt steps program guarded first inputs s =
    Conf.rest rt steps steps (.initial program guarded inputs s) :=
  Conf.drive_eq_rest (.inl ⟨rfl, rfl⟩)

/-- A run of a program that stops gives the result of driving it with a larger bound. -/
theorem drive_of_after {n steps : Nat} {d : Conf τ} {r : Course τ}
    (h : Conf.after rt n (.initial program guarded inputs s) = some d) (hr : Conf.turn rt d = .inr r)
    (hn : n < steps) : driveProgram rt steps program guarded first inputs s = r := by
  rw [driveProgram_eq_rest]
  exact Conf.rest_of_after hr h hn hn

/-- Driving a program comes to the end of a run, or uses up its bound. -/
theorem after_of_drive (rt : Runtime τ) (steps : Nat) (program : Stmt) (guarded : Bool) (first : Val)
    (inputs : List Val) (s : τ) : Conf.Accounts rt steps (.initial program guarded inputs s)
    (driveProgram rt steps program guarded first inputs s) := by
  rw [driveProgram_eq_rest]
  exact (Conf.accounts_rest steps _ steps _ rfl).mono (by omega)

end Program

end VirtualComputer
