import VirtualComputer.Proofs.Guest.Clean
import VirtualComputer.Proofs.Guest.Positions

/-!
# Snapshots make no difference

While a coroutine is suspended, it may be stored and replaced by what is read from its text (`Snapshot`).
`Coroutine.replay` resumes a coroutine again and again, with such replacements, and reports what can be seen of it after
every resume.  For the coroutine of any program the reports are the same whatever replacements are made
(`snapshots_transparent`): a coroutine that is read lacks the positions in its frames and nothing else
(`restore_stripped`), and it does not depend on them.
-/

namespace VirtualComputer

open Json

/-! ## Snapshots -/

/-- How a coroutine is stored. -/
inductive Snapshot where
  | alone
  /-- As one of the values that programs store. -/
  | asValue

/-- The coroutine that is read from the text stored for one. -/
def Snapshot.restore? : Snapshot → Thread → Option Thread
  | .alone, co => Coroutine.load? co.toJson.text
  | .asValue, co =>
    match Val.load? (Val.thread co).store with
    | some (.thread co) => some co
    | _ => none

/-- A coroutine that is replaced by a snapshot of it while it is suspended, if one is taken and can be read. -/
def Coroutine.replaced (snapshot : Option Snapshot) (co : Thread) : Thread :=
  if co.status = .suspended then (snapshot.bind (·.restore? co)).getD co else co

/-! ## Replays -/

/-- What can be seen of a coroutine after a resume. -/
structure Report (σ : Type) where
  result : Except Fault Outcome
  status : Status
  bindings : List (String × Val)
  frames : Nat
  footprint : Nat
  /-- The memory in use and the state of the world, in which prints and messages have left their traces. -/
  session : Session σ

variable {σ : Type}

/-- What can be seen of a coroutine that a resume has come to. -/
def Report.of (r : Except Fault Outcome × Thread × Session σ) : Report σ :=
  ⟨r.1, r.2.1.status, r.2.1.env, r.2.1.frames.length, r.2.1.footprint, r.2.2⟩

/-- Resumes a coroutine with each of the values, after the snapshot that is taken before it, if any. -/
def Coroutine.replay (host : Host σ) (globals : Entries Val) (baseline : Nat) (c : Conditions) (steps : Nat) :
    List (Option Snapshot × Val) → Thread → σ → List (Report σ)
  | [], _, _ => []
  | (snapshot, delivered) :: inputs, co, world =>
    let co := co.replaced snapshot
    let rt := Runtime.ofHost host globals baseline c
    let r := co.resume rt steps delivered ⟨baseline + co.footprint, world⟩
    .of r :: replay host globals baseline c steps inputs r.2.1 r.2.2.world

mutual

/-- Whether a value is made of null, booleans, numbers, strings and lists. -/
def Val.isPlain : Val → Bool
  | .null | .bool _ | .num _ | .str _ => true
  | .list items => Val.arePlain items
  | _ => false

def Val.arePlain : List Val → Bool
  | [] => true
  | v :: vs => v.isPlain && Val.arePlain vs

end

mutual

theorem clean_of_plain : ∀ v : Val, v.isPlain → v.Clean
  | .null, _ => clean_null
  | .bool b, _ => clean_bool b
  | .num x, _ => clean_num x
  | .str s, _ => clean_str s
  | .list items, h => clean_list.2 (allClean_of_plain items h)

theorem allClean_of_plain : ∀ vs : List Val, Val.arePlain vs → AllClean vs
  | [], _ => nofun
  | v :: vs, h => by
    rw [Val.arePlain, Bool.and_eq_true] at h
    exact List.forall_mem_cons.2 ⟨clean_of_plain v h.1, allClean_of_plain vs h.2⟩

end

/-! ## What is read of a coroutine -/

theorem Frame.bare_bare (f : Frame) : f.bare.bare = f.bare := by
  rw [Frame.bare, Frame.bare, f.node.bare_bare]

theorem stripped_stripped (co : Thread) : co.stripped.stripped = co.stripped := by
  rw [Coroutine.stripped, Coroutine.stripped, List.map_map, List.map_congr_left fun f _ => f.bare_bare]

/-- Of a coroutine that keeps clean values only its frames lose positions. -/
theorem bare_eq_stripped {co : Thread} (h : co.Clean) : co.bare = co.stripped := by
  obtain ⟨frames, env, control, delivered, status, guarded⟩ := co
  have henv : Val.bareEntries env = env := bareEntries_eq_self.2 fun e he => (h.env e he).bare
  have hcontrol : Val.bareControl control = control := by
    have hc := h.control
    cases control with
    | «return» v => exact congrArg Control.return hc.bare
    | throw v => exact congrArg Control.throw hc.bare
    | suspend v => exact congrArg Control.suspend hc.bare
    | _ => rfl
  have hdelivered : Val.bareOption delivered = delivered := by
    cases delivered with
    | none => rfl
    | some v => exact congrArg some (h.delivered v rfl).bare
  rw [Coroutine.bare, Val.bareThread, henv, hcontrol, hdelivered]
  rfl

theorem ordered_of_clean {co : Thread} (h : co.Clean) : Val.OrderedThread co := by
  obtain ⟨frames, env, control, delivered, status, guarded⟩ := co
  refine ⟨Val.orderedEntries_iff.2 fun e he => (h.env e he).ordered, ?_, ?_⟩
  · have hc := h.control
    cases control with
    | «return» v | throw v | suspend v => exact hc.ordered
    | _ => trivial
  · cases delivered with
    | none => trivial
    | some v => exact (h.delivered v rfl).ordered

/-- A coroutine that is read from its text lacks the positions in its frames and nothing else. -/
theorem restore_stripped {snapshot : Snapshot} {co co' : Thread} (h : co.Clean) (hr : snapshot.restore? co = some co') :
    co' = co.stripped := by
  have ho := ordered_of_clean h
  rw [← bare_eq_stripped h]
  cases snapshot with
  | alone =>
    rw [Snapshot.restore?, Coroutine.load?, read_text, Option.bind_some] at hr
    have hreads := reads_coroutine (p := .passing) (le_refl nestingLimit) ho fun s hs v hv =>
      Val.reads nestingLimit s (by omega) .passing v hv
    exact (hreads.some_iff.1 hr).2.symm
  | asValue =>
    rw [Snapshot.restore?] at hr
    split at hr
    · next co₁ hl =>
      cases hr
      have hv := ((Val.load_store (v := .thread co) ho).some_iff.1 hl).2
      exact (Val.thread.inj hv).symm
    · cases hr

theorem replaced_stripped (snapshot : Option Snapshot) {co : Thread} (h : co.Clean) :
    (co.replaced snapshot).stripped = co.stripped := by
  unfold Coroutine.replaced
  split
  · cases hr : snapshot.bind (·.restore? co) with
    | none => rfl
    | some co' =>
      obtain ⟨s, -, hs⟩ := Option.bind_eq_some_iff.1 hr
      rw [Option.getD_some, restore_stripped h hs, stripped_stripped]
  · rfl

/-- Forgetting positions in frames touches no value. -/
theorem clean_stripped {co : Thread} : co.stripped.Clean ↔ co.Clean :=
  ⟨fun h => ⟨h.env, h.control, h.delivered⟩, fun h => ⟨h.env, h.control, h.delivered⟩⟩

theorem replaced_clean (snapshot : Option Snapshot) {co : Thread} (h : co.Clean) : (co.replaced snapshot).Clean := by
  rw [← clean_stripped, replaced_stripped snapshot h, clean_stripped]
  exact h

/-! ## Runs with snapshots -/

theorem clean_nativeTable (entries : List (String × Native)) : (nativeTable entries).Clean := by
  refine clean_ofList fun e he => ?_
  obtain ⟨_, -, rfl⟩ := List.mem_map.1 he
  exact clean_native _

/-- The globals of a program are clean if the drivers are in order. -/
theorem clean_library (timeout : Float) {drivers : Entries String} (hd : drivers.Ordered) :
    EntriesClean (library timeout drivers) := by
  intro e he
  rcases List.mem_append.1 (Entries.mem_ofList he) with he | he
  · obtain ⟨n, -, rfl⟩ := List.mem_map.1 he
    exact clean_native n
  · have hdrivers : (Val.obj (drivers.map fun d => (d.1, .str d.2))).Clean := by
      refine clean_obj.2 ⟨List.pairwise_map.2 hd, fun e he => ?_⟩
      obtain ⟨_, -, rfl⟩ := List.mem_map.1 he
      exact clean_str _
    simp only [List.mem_cons, List.not_mem_nil, or_false] at he
    rcases he with rfl | rfl | rfl | rfl | rfl
    · exact clean_nativeTable _
    · exact clean_nativeTable _
    · exact clean_nativeTable _
    · exact clean_obj.2 ⟨List.pairwise_singleton _ _, List.forall_mem_singleton.2 (clean_num _)⟩
    · exact hdrivers

theorem clean_ofHost (host : Host σ) {globals : Entries Val} (hg : EntriesClean globals) (baseline : Nat)
    (c : Conditions) : (Runtime.ofHost host globals baseline c).Clean :=
  ⟨hg, fun n _ s h => call_clean host c n h s⟩

section

variable {host : Host σ} {globals : Entries Val} {baseline : Nat} {c : Conditions} {steps : Nat}

/-- What is reported does not depend on positions. -/
theorem Report.of_alike {r r' : Except Fault Outcome × Thread × Session σ} (hr : r.1 = r'.1)
    (hc : r.2.1.stripped = r'.2.1.stripped) (hs : r.2.2 = r'.2.2) : Report.of r = Report.of r' := by
  have hstatus : r.2.1.status = r'.2.1.status := by
    have h := congrArg Coroutine.status hc
    exact h
  have henv : r.2.1.env = r'.2.1.env := by
    have h := congrArg Coroutine.env hc
    exact h
  have hframes : r.2.1.frames.length = r'.2.1.frames.length := by
    have h := congrArg (·.frames.length) hc
    simpa only [Coroutine.stripped, List.length_map] using h
  have hfoot : r.2.1.footprint = r'.2.1.footprint := by
    rw [← footprint_stripped, hc, footprint_stripped]
  rw [Report.of, Report.of, hr, hstatus, henv, hframes, hfoot, hs]

/-- Resumes of coroutines that differ in positions alone. -/
theorem resume_alike {τ : Type} {rt : Runtime τ} (hb : rt.Blind) {a b : Thread}
    (h : a.stripped = b.stripped) (steps : Nat) (d : Val) (s : τ) :
    (a.resume rt steps d s).1 = (b.resume rt steps d s).1 ∧
      (a.resume rt steps d s).2.1.stripped = (b.resume rt steps d s).2.1.stripped ∧
      (a.resume rt steps d s).2.2 = (b.resume rt steps d s).2.2 := by
  have ha := Coroutine.resume_stripped hb steps d a s
  rw [h, Coroutine.resume_stripped hb steps d b s] at ha
  simp only [Prod.mk.injEq] at ha
  exact ⟨ha.1.symm, ha.2.1.symm, ha.2.2.symm⟩

/-- Coroutines that differ in positions alone are reported alike, whatever snapshots are taken: by induction on the
resumes, each of which keeps them alike. -/
theorem replay_stripped (hg : EntriesClean globals) : ∀ (inputs : List (Option Snapshot × Val))
    (_ : ∀ i ∈ inputs, i.2.isPlain) {co co' : Thread} (_ : co.Clean) (_ : co'.Clean) (_ : co.stripped = co'.stripped)
    (world : σ), co.replay host globals baseline c steps inputs world =
      co'.replay host globals baseline c steps (inputs.map fun i => (none, i.2)) world
  | [], _, _, _, _, _, _, _ => rfl
  | (snapshot, delivered) :: inputs, hp, co, co', hco, hco', hs, world => by
    obtain ⟨hd, hp⟩ := List.forall_mem_cons.1 hp
    have hrt := clean_ofHost host hg baseline c
    have hb := blind_ofHost host globals baseline c
    have hr : (co.replaced snapshot).stripped = (co'.replaced none).stripped := by
      rw [replaced_stripped snapshot hco, replaced_stripped none hco', hs]
    have hrc := replaced_clean snapshot hco
    have hrc' := replaced_clean none hco'
    obtain ⟨a, ha⟩ : ∃ a, co.replaced snapshot = a := ⟨_, rfl⟩
    obtain ⟨b, hb'⟩ : ∃ b, co'.replaced none = b := ⟨_, rfl⟩
    rw [ha] at hr hrc
    rw [hb'] at hr hrc'
    have hfoot : a.footprint = b.footprint := by
      rw [← footprint_stripped a, hr, footprint_stripped]
    rw [List.map_cons, Coroutine.replay, Coroutine.replay]
    dsimp only
    rw [ha, hb', ← hfoot]
    have hca := Coroutine.resume_clean hrt steps (clean_of_plain _ hd) hrc ⟨baseline + a.footprint, world⟩
    have hcb := Coroutine.resume_clean hrt steps (clean_of_plain _ hd) hrc' ⟨baseline + a.footprint, world⟩
    obtain ⟨hresult, hthread, hsession⟩ := resume_alike hb hr steps delivered ⟨baseline + a.footprint, world⟩
    rw [Report.of_alike hresult hthread hsession, hsession, replay_stripped hg inputs hp hca hcb hthread]

end

/-- The coroutine of a program is reported alike whatever snapshots replace it. -/
theorem snapshots_transparent (host : Host σ) (timeout : Float) (drivers : Entries String) (hd : drivers.Ordered)
    (baseline : Nat) (c : Conditions) (steps : Nat) (program : Stmt) (guarded : Bool)
    (inputs : List (Option Snapshot × Val)) (hp : ∀ i ∈ inputs, i.2.isPlain) (world : σ) :
    (Coroutine.ofProgram program guarded).replay host (library timeout drivers) baseline c steps inputs world =
      (Coroutine.ofProgram program guarded).replay host (library timeout drivers) baseline c steps
        (inputs.map fun i => (none, i.2)) world :=
  have hco : (Coroutine.ofProgram program guarded).Clean := ⟨nofun, trivial, nofun⟩
  replay_stripped (clean_library timeout hd) inputs hp hco hco rfl world

/-- `let x = yield 1; print(x); return yield [x];` -/
def relaying : Stmt :=
  .block [
    .declare "x" (some (.yield (some (.num 1 ⟨14, 15, 0, 14⟩)) ⟨8, 15, 0, 8⟩)) ⟨0, 16, 0, 0⟩,
    .expr (.call (.ident "print" ⟨17, 22, 0, 17⟩) [.ident "x" ⟨23, 24, 0, 23⟩] ⟨17, 25, 0, 17⟩) ⟨17, 26, 0, 17⟩,
    .return (some (.yield (some (.list [.ident "x" ⟨41, 42, 0, 41⟩] ⟨40, 43, 0, 40⟩)) ⟨34, 43, 0, 34⟩)) ⟨27, 44, 0, 27⟩]
    ⟨0, 44, 0, 0⟩

/-- The program is reported alike when it is read anew at each of its suspensions. -/
theorem relaying_replayed :
    (Coroutine.ofProgram relaying true).replay silentHost (library 5 [("keyboard", "")]) 0 ⟨some 4096, false⟩ 100
      [(none, .null), (some .alone, .str "a"), (some .asValue, .list [.bool true])] () =
    (Coroutine.ofProgram relaying true).replay silentHost (library 5 [("keyboard", "")]) 0 ⟨some 4096, false⟩ 100
      [(none, .null), (none, .str "a"), (none, .list [.bool true])] () :=
  snapshots_transparent silentHost 5 [("keyboard", "")] (List.pairwise_singleton _ _) 0 ⟨some 4096, false⟩ 100 relaying
    true [(none, .null), (some .alone, .str "a"), (some .asValue, .list [.bool true])] (by decide) ()

end VirtualComputer
