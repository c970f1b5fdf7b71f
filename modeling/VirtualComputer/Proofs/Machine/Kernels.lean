import VirtualComputer.Proofs.Guest.Yields
import VirtualComputer.Proofs.Machine.Steps

/-!
# Kernels wait at their yields

What a resume of a guest adds to the history is a run of its kernel (`resume_ran`).  Whatever has happened, the kernel
of a guest waits at a `yield` (`Step.atYield`), also after it has been stored and read back, so that what it is resumed
with becomes the value of that `yield`.
-/

namespace VirtualComputer

open Guest Machine

/-! ## Resumes of guests -/

namespace Guest

variable {σ : Type} {host : Host σ} {steps : Nat} {d : Delivery} {g : Guest} {world : σ} {co : Thread} {v : Val}

/-- A resume of a guest has run its kernel, of which `left` remains. -/
structure Ran (host : Host σ) (steps : Nat) (d : Delivery) (g : Guest) (world : σ) (v : Val) (co : Thread)
    (r : Except Fault Outcome) (left : Thread) : Prop where
  runs : ∃ baseline s t, co.resume (Runtime.ofHost host g.globals baseline ⟨g.limit, false⟩) steps v s = (r, left, t)
  log : g.resumption host steps d world = [.resumed d v co r left]
  kernel : (g.resume host steps d world).2.1.kernel = some (.thread left)
  /-- All else is as it was, but for the pending slot, which holds what the kernel has yielded, if anything. -/
  rest : ∃ pending used, (g.resume host steps d world).2.1 =
    { g with kernel := some (.thread left), pending, used } ∧ ∀ c, pending = some c → r = .ok (.yielded c)
  /-- A callable that the kernel yields is left in the pending slot. -/
  yielded : ∀ w, (g.resume host steps d world).1 = .ok (.yielded w) → ∃ c, r = .ok (.yielded c) ∧ w = wish c ∧
    (c.isCallable → (g.resume host steps d world).2.1.pending = some c)

theorem delivery_emptied (hd : (g.delivery d).1 = .ok v) : g.delivery d = (.ok v, { g with pending := none }) := by
  unfold delivery at hd ⊢
  cases d with
  | nothing | signal s =>
    cases hd
    rfl
  | result =>
    dsimp only at hd ⊢
    split at hd
    · cases hd
      rfl
    · cases hd
    · cases hd

theorem progress_rest (guarded : Bool) (o : Outcome) (hp : g.pending = none) :
    ∃ pending used, (progress guarded o g).2 = { g with pending, used } ∧ ∀ c, pending = some c → o = .yielded c := by
  cases o with
  | returned v | threw v => exact ⟨g.pending, g.used, rfl, fun c hc => by cases hp.symm.trans hc⟩
  | yielded v =>
    rw [progress]
    cases v.isCallable
    · exact ⟨g.pending, g.used, rfl, fun c hc => by cases hp.symm.trans hc⟩
    · exact ⟨some v, _, rfl, fun c hc => by cases hc; rfl⟩

/-- What can be delivered to a kernel that is a coroutine runs it. -/
theorem resume_ran (host : Host σ) (steps : Nat) (world : σ) (hk : g.kernel = some (.thread co))
    (hd : (g.delivery d).1 = .ok v) : ∃ r left, Ran host steps d g world v co r left := by
  rcases g with ⟨globals, entryPoints, kernel, pending, limit, used⟩
  obtain rfl : kernel = some (.thread co) := hk
  have hemptied := delivery_emptied hd
  obtain ⟨baseline, hb⟩ :
      ∃ n, n = baseline ⟨globals, entryPoints, some (.thread co), none, limit, used⟩ := ⟨_, rfl⟩
  obtain ⟨⟨r, left, t⟩, hout⟩ : ∃ out, co.resume (Runtime.ofHost host globals baseline ⟨limit, false⟩) steps v
      ⟨baseline + co.footprint, world⟩ = out := ⟨_, rfl⟩
  have hresume : resume host steps d ⟨globals, entryPoints, some (.thread co), pending, limit, used⟩ world =
      resumeThread host steps v co ⟨globals, entryPoints, some (.thread co), none, limit, used⟩ world := by
    rw [resume, hemptied]
  have hlog : resumption host steps d ⟨globals, entryPoints, some (.thread co), pending, limit, used⟩ world =
      [.resumed d v co r left] := by
    rw [resumption, hemptied]
    dsimp only
    rw [← hb, hout]
  have hrest : ∃ slot n, (resumeThread host steps v co
      ⟨globals, entryPoints, some (.thread co), none, limit, used⟩ world).2.1 =
        ⟨globals, entryPoints, some (.thread left), slot, limit, n⟩ ∧
      ∀ c, slot = some c → r = .ok (.yielded c) := by
    rw [resumeThread]
    dsimp only
    rw [← hb, hout]
    cases r with
    | error f => exact ⟨none, _, rfl, nofun⟩
    | ok o =>
      obtain ⟨slot, n, hrest, hp⟩ := progress_rest (g := ⟨globals, entryPoints, some (.thread left), none, limit,
        baseline + left.footprint⟩) left.guarded o rfl
      exact ⟨slot, n, hrest, fun c hc => congrArg Except.ok (hp c hc)⟩
  refine ⟨r, left, ⟨baseline, _, t, hout⟩, hlog, ?_, ?_, ?_⟩ <;> rw [hresume]
  · obtain ⟨slot, n, hguest, -⟩ := hrest
    rw [hguest]
  · exact hrest
  · rw [resumeThread]
    dsimp only
    rw [← hb, hout]
    intro w hw
    cases r with
    | error f => cases hw
    | ok o =>
      obtain ⟨c, rfl, hwish, -, -⟩ := progress_yielded (Except.ok.inj hw)
      refine ⟨c, rfl, hwish, fun hc => ?_⟩
      dsimp only [progress]
      rw [if_pos hc]

theorem wish_call : wish v = .call ↔ v.isCallable := by
  cases v <;> simp [wish, Val.isCallable]

/-- Nothing runs if there is nothing to deliver. -/
theorem resume_undelivered {f : Fault} (hd : (g.delivery d).1 = .error f) :
    g.resumption host steps d world = [] ∧ (g.resume host steps d world).1 = .error f := by
  unfold resumption resume
  rcases hg : g.delivery d with ⟨r, g'⟩
  rw [hg] at hd
  cases hd
  exact ⟨rfl, rfl⟩

end Guest

/-! ## Kernels -/

/-- The kernel waits at a `yield`, in a program without nested ones. -/
def Guest.AtYield (g : Guest) : Prop :=
  ∃ co, g.kernel = some (.thread co) ∧ co.AtYield

def Situation.AtYield (c : Situation) : Prop :=
  ∀ g, c.guest = some g → g.AtYield

/-- If a record is of a run, it is of a kernel that waits at a `yield`. -/
def MachineRecord.AtYield (r : MachineRecord) : Prop :=
  ∀ s : State, r.state = s.code → s.Collapsed →
    ∃ co, r.kernel = some (Utf8.encode (Val.thread co).store) ∧ co.AtYield

section

variable {ν : Type} {site : Site ν} {m : Machine ν} {g g' : Guest} {r : MachineRecord}

namespace Machine

/-- What a machine without a run saves is not of a run, and otherwise it is of the run that there is. -/
theorem save_run (h : m.Sound) (hi : m.inside = none) (hr : m.save.1 = .ok r) {s : State} (hc : r.state = s.code)
    (hs : s.Collapsed) : ∃ g, m.guest = some g ∧ s = m.state.collapsed ∧ r = (m.recordRun s g).1 := by
  have hcode {s' : State} (h : (s'.code : Int) = s.code) : s' = s :=
    Option.some.inj ((State.ofCode_code s').symm.trans ((congrArg State.ofCode? h).trans (State.ofCode_code s)))
  have hnone {s' : State} (h : r = .ofState s'.code) (hs' : s' = .stopped ∨ s' = .rebooting) : False := by
    subst h
    cases hcode hc
    rcases hs' with rfl | rfl <;> rcases hs with h | h | h | h <;> cases h
  rcases m with ⟨state, guest, task, epoch, waiting, inside, _⟩
  have hrun {s' : State} {g : Guest} {m : Machine ν} (hr : r = (m.recordRun s' g).1) : s' = s :=
    hcode (Eq.trans (by rw [hr]; rfl) hc)
  cases h with
  | empty hs' hw =>
    rcases hs' with rfl | rfl
    · exact (hnone (Except.ok.inj hr).symm (.inl rfl)).elim
    · exact (hnone (Except.ok.inj hr).symm (.inr rfl)).elim
  | resting hs' hg hp hw =>
    rcases hs' with rfl | rfl | rfl | rfl | rfl <;>
      (obtain rfl := hrun (Except.ok.inj hr).symm; exact ⟨_, rfl, rfl, (Except.ok.inj hr).symm⟩)
  | queued hs' hg hp hw =>
    rcases hs' with rfl | rfl | rfl
    · obtain rfl := hrun (Except.ok.inj hr).symm
      exact ⟨_, rfl, rfl, (Except.ok.inj hr).symm⟩
    · obtain rfl := hrun (Except.ok.inj hr).symm
      exact ⟨_, rfl, rfl, (Except.ok.inj hr).symm⟩
    · exact (hnone (Except.ok.inj hr).symm (.inl rfl)).elim
  | busy hs' hw => cases hi

theorem firstYield_ok {p : Except Fault Progress} (h : firstYield p = .ok ()) : ∃ w, p = .ok (.yielded w) := by
  unfold firstYield at h
  split at h
  · exact ⟨_, rfl⟩
  · cases h
  · cases h

/-- A kernel that has booted has been resumed once, in a guest whose boot program has run. -/
theorem bootKernel_ok (h : (bootKernel site m).1 = .ok g) : ∃ g₀ m₀ program w, (bootGuest site m).1 = .ok g₀ ∧
    compile "kernel" m.catalog.kernel = .ok program ∧
    ((g₀.load program).resume (host site) site.steps .nothing m₀).1 = .ok (.yielded w) ∧
      g = { ((g₀.load program).resume (host site) site.steps .nothing m₀).2.1.remeasured with
        limit := some ((bootKernel site m).2.ledger.ceiling site.settings.memoryBudget) } ∧
      (bootKernel site m).2.ledger.kernelMemory =
        (g.used - g₀.measure + site.settings.kernelOverhead) % 0x10000000000000000 := by
  obtain ⟨⟨r, m₀⟩, hb⟩ : ∃ b, bootGuest site m = b := ⟨_, rfl⟩
  have hkernel : m₀.catalog.kernel = m.catalog.kernel := by
    have hboot := bootGuest_told site m
    rw [hb] at hboot
    obtain ⟨told, outside, -, rfl⟩ := hboot
    rfl
  unfold bootKernel at h ⊢
  rw [hb] at h ⊢
  cases r with
  | error f => cases h
  | ok g₀ =>
    dsimp only at h ⊢
    cases hc : compile "kernel" m₀.catalog.kernel with
    | error f =>
      rw [hc] at h
      cases h
    | ok program =>
      rw [hc] at h
      obtain ⟨⟨p, g₁, m₁⟩, hr⟩ : ∃ b, (g₀.load program).resume (host site) site.steps .nothing m₀ = b := ⟨_, rfl⟩
      dsimp only at h ⊢
      rw [hr] at h ⊢
      dsimp only at h ⊢
      cases hy : firstYield p with
      | error f =>
        rw [hy] at h
        cases h
      | ok u =>
        rw [hy] at h
        obtain ⟨w, rfl⟩ := firstYield_ok hy
        obtain rfl := Except.ok.inj h
        refine ⟨g₀, m₀, program, w, rfl, hkernel ▸ hc, ?_, ?_, Word.wrap_unsigned64 _⟩ <;> rw [hr]

end Machine

/-- A resume that comes to a `yield` leaves the kernel there. -/
theorem Guest.Ran.atYield {σ : Type} {host : Host σ} {steps : Nat} {d : Delivery} {world : σ} {v c : Val}
    {co left : Thread} {r : Except Fault Outcome} (h : g.Ran host steps d world v co r left)
    (hn : ∀ f ∈ co.frames, NestedYield.inStmt f.node = []) (hc : co.control = .none) (hr : r = .ok (.yielded c)) :
    left.AtYield := by
  obtain ⟨baseline, s, t, hrun⟩ := h.runs
  have hleft := @Coroutine.resume_atYield _ (Runtime.ofHost host g.globals baseline ⟨g.limit, false⟩) steps v c co s hn
    hc
  rw [hrun] at hleft
  exact hleft hr

theorem Guest.AtYield.resume {σ : Type} {host : Host σ} {steps : Nat} {d : Delivery} {world : σ} {w : Wish}
    (h : g.AtYield) (hr : (g.resume host steps d world).1 = .ok (.yielded w)) :
    (g.resume host steps d world).2.1.AtYield := by
  obtain ⟨co, hk, hco⟩ := h
  obtain ⟨f, fs, hw⟩ := hco.waits
  rcases hd : (g.delivery d).1 with f | v
  · cases (resume_undelivered hd).2.symm.trans hr
  · obtain ⟨r, left, hran⟩ := resume_ran host steps world hk hd
    obtain ⟨c, hc, -⟩ := hran.yielded w hr
    exact ⟨left, hran.kernel, hran.atYield hco.nodes hw.control hc⟩

theorem Machine.bootKernel_atYield (h : (bootKernel site m).1 = .ok g) : g.AtYield := by
  obtain ⟨g₀, m₀, program, w, -, hc, hr, rfl, -⟩ := bootKernel_ok h
  have hk : (g₀.load program).kernel = some (.thread (Coroutine.ofProgram program true)) := rfl
  obtain ⟨r, left, hran⟩ := resume_ran (host site) site.steps m₀ (d := .nothing) hk rfl
  obtain ⟨c, hy, -⟩ := hran.yielded w hr
  exact ⟨left, hran.kernel, hran.atYield (List.forall_mem_singleton.2 (compile_whole hc)) rfl hy⟩

/-- A run that is restored goes on from where the record was saved. -/
theorem MachineRecord.AtYield.restore (h : r.AtYield) {s : State} (hc : r.state = s.code) (hs : s.Collapsed)
    (hst : g'.Standard) (hr : restoreGuest s g r = .ok g') : g'.AtYield := by
  obtain ⟨co, hkernel, hco⟩ := h s hc hs
  obtain ⟨co', slot, hpart, -, rfl⟩ := restoreGuest_ok hr
  obtain ⟨bytes, hbytes, hrestore⟩ := restorePart_ok hpart
  cases hkernel.symm.trans hbytes
  obtain ⟨co'', hco'', hreread⟩ := restore_thread (g := g) ⟨hst.persist, hst.unpersist⟩ hrestore
  cases hco''
  exact ⟨co', rfl, hco.reread hreread⟩

variable {R : MachineRecord → Prop} {a b : Situation} {l : List Occurrence}

/-- A step leaves the kernel at a `yield`. -/
theorem Step.atYield (h : Step site R a l b) (hR : ∀ r, R r → r.AtYield) (ha : a.AtYield) : b.AtYield := by
  cases h with
  | accepted | refused | updated | passed | idle | parked | beganSignal | beganResult | calling => exact ha
  | started hs hg hi hm hb =>
    rintro _ ⟨⟩
    exact bootKernel_atYield hb
  | yielded hs hi hg hr hn =>
    rintro _ ⟨⟩
    exact (ha _ hg).resume hr
  | ended | failed | closed => nofun
  | returned hs hi hg hr =>
    rintro _ ⟨⟩
    obtain ⟨co, hk, hco⟩ := ha _ hg
    exact ⟨co, Guest.invoke_kernel.trans hk, hco⟩
  | loaded hr hs hg hi hm hb hcode hrun hrest hst hl =>
    rintro _ ⟨⟩
    have hg' := (hR _ hr).restore hcode hrun hst hrest
    exact hg'

theorem Step.mono {R' : MachineRecord → Prop} (h : Step site R a l b) (hR : ∀ r, R r → R' r) : Step site R' a l b := by
  cases h with
  | accepted hs hr => exact .accepted hs hr
  | refused => exact .refused
  | updated hc hr => exact .updated hc hr
  | passed hs => exact .passed hs
  | idle hg hi hn hc => exact .idle hg hi hn hc
  | started hs hg hi hm hb => exact .started hs hg hi hm hb
  | parked hi hs => exact .parked hi hs
  | beganSignal hs hi => exact .beganSignal hs hi
  | beganResult hs hi => exact .beganResult hs hi
  | yielded hs hi hg hr hn => exact .yielded hs hi hg hr hn
  | ended hi hg => exact .ended hi hg
  | calling hs hi => exact .calling hs hi
  | returned hs hi hg hr => exact .returned hs hi hg hr
  | failed hs hi hg => exact .failed hs hi hg
  | closed hs hi => exact .closed hs hi
  | loaded hr hs hg hi hm hb hcode hrun hrest hst hl =>
    exact .loaded (hR _ hr) hs hg hi hm hb hcode hrun hrest hst hl

/-- A machine whose kernel waits at a `yield` saves it there. -/
theorem Kept.atYield {P : {ν : Type} → Site ν → Situation → List Occurrence → Prop}
    (hP : ∀ {ν : Type} {site : Site ν} {c : Situation} {log : List Occurrence}, P site c log → c.AtYield)
    (h : Kept P r) : r.AtYield := by
  intro s hc hs
  obtain ⟨μ, origin, saved, log, hkept, hsound, hi, hst, hr⟩ := h
  obtain ⟨g, hg, -, hrecord⟩ := save_run hsound hi hr hc hs
  obtain ⟨co, hk, hco⟩ := hP hkept g hg
  refine ⟨co, ?_, hco⟩
  rw [hrecord, (recordRun_fields (hst g hg) s (.thread co) hk saved).2]

end

/-- What holds of new machines and is kept by every step, of a kernel that waits at a `yield`, holds in all histories.
-/
theorem History.invariant_atYield (P : {ν : Type} → Site ν → Situation → List Occurrence → Prop)
    (hfresh : ∀ {ν : Type} (site : Site ν) (catalog : Catalog) (outside : ν),
      P site (Machine.fresh site catalog outside).situation [])
    (hstep : ∀ {ν : Type} {site : Site ν} {a b : Situation} {log l : List Occurrence}, P site a log → a.AtYield →
      b.AtYield → Step site MachineRecord.AtYield a l b → P site b (log ++ l))
    {ν : Type} {site : Site ν} {m : Machine ν} {log : List Occurrence} (h : History site m log) :
    P site m.situation log ∧ m.situation.AtYield := by
  refine h.invariant (fun site c log => P site c log ∧ c.AtYield)
    (fun site catalog outside => ⟨hfresh site catalog outside, nofun⟩) fun ⟨hP, ha⟩ hs => ?_
  have hR (r : MachineRecord) (hr : Kept (fun site c log => P site c log ∧ c.AtYield) r) : r.AtYield :=
    hr.atYield fun h => h.2
  have hb := hs.atYield hR ha
  exact ⟨hstep hP ha hb (hs.mono hR), hb⟩

end VirtualComputer
