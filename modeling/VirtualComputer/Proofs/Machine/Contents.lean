import VirtualComputer.Proofs.Guest.Snapshots
import VirtualComputer.Proofs.Machine.Kernels

/-!
# What guests hold

A guest that has booted with the default boot program has the globals of the library, the library's own entry points
and nothing in its slots (`bootGuest_booted`).  Whatever has happened since, its globals, its entry points and its
memory ceiling are the same, and all values in its slots are clean (`Step.furnished`).
-/

namespace VirtualComputer

open Guest Machine

/-! ## Values that are read -/

theorem clean_thread {co : Thread} (h : (Val.thread co).Clean) : co.Clean := by
  obtain ⟨frames, env, control, delivered, status, guarded⟩ := co
  obtain ⟨hb, ho⟩ := h
  obtain ⟨henv, hcontrol, hdelivered⟩ := ho
  simp only [Val.bare, Val.bareThread, Val.thread.injEq, Coroutine.mk.injEq] at hb
  obtain ⟨-, hbenv, hbcontrol, hbdelivered, -, -⟩ := hb
  refine ⟨fun e he => ⟨bareEntries_eq_self.1 hbenv e he, Val.orderedEntries_iff.1 henv e he⟩, ?_, ?_⟩
  · cases control with
    | «return» v => exact ⟨Control.return.inj hbcontrol, hcontrol⟩
    | throw v => exact ⟨Control.throw.inj hbcontrol, hcontrol⟩
    | suspend v => exact ⟨Control.suspend.inj hbcontrol, hcontrol⟩
    | _ => trivial
  · rintro v rfl
    exact ⟨Option.some.inj hbdelivered, hdelivered⟩

section

variable {g g' : Guest} {v : Val}

/-- What a standard guest reads is clean. -/
theorem restore_clean (hg : g.Standard) {bytes : Bytes} (h : g.restore bytes = .ok (some v)) : v.Clean := by
  unfold Guest.restore Guest.callEntryPoint at h
  split at h
  · cases h
  · next text _ =>
    rw [hg.unpersist] at h
    dsimp only [Option.bind_some, Val.callable?] at h
    rw [List.nil_append] at h
    cases hv : Native.unpersist.apply [.str text] with
    | error m =>
      rw [hv] at h
      cases h
    | ok w =>
      rw [hv] at h
      cases h
      exact clean_loaded (unpersist_iff.1 hv)

/-! ## Guests -/

/-- The program's values in the slots of a guest are clean. -/
structure Guest.Clean (g : Guest) : Prop where
  kernel : ∀ co, g.kernel = some (.thread co) → co.Clean
  pending : ∀ v, g.pending = some v → v.Clean

/-- What does not change from the boot to the end of a run. -/
structure Guest.Booted (timeout : Float) (drivers : Entries String) (limit : Option Nat) (g : Guest) : Prop where
  globals : g.globals = library timeout drivers
  entryPoints : g.entryPoints = ownEntryPoints
  limit : g.limit = limit

theorem Guest.Booted.standard {timeout : Float} {drivers : Entries String} {limit : Option Nat}
    (h : g.Booted timeout drivers limit) : g.Standard :=
  ⟨by rw [h.entryPoints]; rfl, by rw [h.entryPoints]; rfl⟩

theorem delivery_clean (h : g.Clean) {d : Delivery} (hd : (g.delivery d).1 = .ok v) : v.Clean := by
  cases d with
  | nothing =>
    cases hd
    exact clean_list.2 (List.forall_mem_nil _)
  | signal s =>
    cases hd
    refine clean_list.2 (List.forall_mem_cons.2 ⟨clean_str _, fun v hv => ?_⟩)
    obtain ⟨a, -, rfl⟩ := List.mem_map.1 hv
    exact clean_ofScalar a
  | result =>
    unfold delivery at hd
    dsimp only at hd
    split at hd
    · next items hp =>
      cases hd
      exact h.pending _ hp
    · cases hd
    · cases hd

/-- A resume leaves clean values in the slots. -/
theorem Guest.Clean.resume (h : g.Clean) (hg : EntriesClean g.globals) {σ : Type} {host : Host σ} {steps : Nat}
    {d : Delivery} {world : σ} {co left : Thread} {r : Except Fault Outcome} (hk : g.kernel = some (.thread co))
    (hd : (g.delivery d).1 = .ok v) (hran : g.Ran host steps d world v co r left) :
    (g.resume host steps d world).2.1.Clean := by
  obtain ⟨baseline, s, t, hrun⟩ := hran.runs
  obtain ⟨pending, used, hrest, hp⟩ := hran.rest
  have hrt := clean_ofHost host hg baseline ⟨g.limit, false⟩
  have hv := delivery_clean h hd
  have hco := h.kernel co hk
  have hleft := Coroutine.resume_clean hrt steps hv hco s
  have hresult := fun o ho => Coroutine.resume_outcome_clean hrt steps hv hco s (o := o) ho
  rw [hrun] at hleft hresult
  rw [hrest]
  refine ⟨fun co' hco' => ?_, fun c hc => ?_⟩
  · cases hco'
    exact hleft
  · exact hresult (.yielded c) (hp c hc)

/-- So does a call. -/
theorem Guest.Clean.invoke (h : g.Clean) {σ : Type} (host : Host σ) (world : σ) :
    (g.invoke host world).2.1.Clean := by
  refine ⟨fun co hco => h.kernel co (invoke_kernel.symm.trans hco), fun v hv => ?_⟩
  unfold Guest.invoke at hv
  dsimp only at hv
  split at hv
  · cases hv
  · next c hp =>
    split at hv
    · cases hv
    · next n args hcall =>
      have hargs : AllClean args := by
        have hc := h.pending c hp
        cases c <;> cases hcall
        · exact List.forall_mem_nil _
        · exact clean_bound.1 hc
      have hresult := call_clean host ⟨g.limit, true⟩ n hargs ⟨0, world⟩
      dsimp only at hv
      unfold keepResult at hv
      split at hv
      · next items hi =>
        cases hv
        rw [hi] at hresult
        exact hresult
      · cases hv
      · cases hv

end

/-! ## Booting -/

section

variable {ν : Type} {site : Site ν} {m : Machine ν} {g : Guest}

theorem bootGuest_booted (h : (bootGuest site m).1 = .ok g) (hb : m.catalog.boot = Catalog.defaultBoot) :
    3 ≤ site.steps ∧
      ∃ used, g = ⟨library site.settings.timeout m.catalog.drivers, ownEntryPoints, none, none, none, used⟩ := by
  have hdefault := bootGuest_default site hb
  split at hdefault
  · obtain ⟨f, hf⟩ := hdefault
    cases hf.symm.trans h
  · next hs =>
    obtain ⟨used, hg⟩ := hdefault
    exact ⟨Nat.not_lt.1 hs, used, Except.ok.inj (h.symm.trans hg)⟩

/-- What a guest of a machine holds, if the catalog has the default boot program. -/
structure Guest.Furnished (site : Site ν) (drivers : Entries String) (kernelMemory : Nat) (g : Guest) : Prop extends
    g.Booted site.settings.timeout drivers
      (some (min (kernelMemory + site.settings.memoryBudget) Word.unsigned64.greatest.toNat)), g.Clean where
  /-- The boot program has had the steps that it takes. -/
  steps : 3 ≤ site.steps

def Situation.Furnished (site : Site ν) (c : Situation) : Prop :=
  c.catalog.boot = Catalog.defaultBoot → c.catalog.drivers.Ordered →
    ∀ g, c.guest = some g → g.Furnished site c.catalog.drivers c.kernelMemory

variable {R : MachineRecord → Prop} {a b : Situation} {l : List Occurrence}

/-- A resume leaves a guest with what it has booted with, and with clean values. -/
theorem Guest.Furnished.resume {drivers : Entries String} {kernelMemory : Nat}
    (h : g.Furnished site drivers kernelMemory) (hd : drivers.Ordered) (hy : g.AtYield) {d : Delivery} {w : Wish}
    (hr : (g.resume (host site) site.steps d m).1 = .ok (.yielded w)) :
    (g.resume (host site) site.steps d m).2.1.Furnished site drivers kernelMemory := by
  obtain ⟨co, hk, -⟩ := hy
  rcases hv : (g.delivery d).1 with f | v
  · cases (resume_undelivered hv).2.symm.trans hr
  · obtain ⟨r, left, hran⟩ := resume_ran (host site) site.steps m hk hv
    have hglobals : EntriesClean g.globals := by
      rw [h.globals]
      exact clean_library _ hd
    have hclean := h.toClean.resume hglobals hk hv hran
    obtain ⟨pending, used, hrest, -⟩ := hran.rest
    rw [hrest] at hclean ⊢
    exact ⟨⟨h.globals, h.entryPoints, h.limit⟩, hclean, h.steps⟩

theorem bootKernel_furnished (h : (bootKernel site m).1 = .ok g) (hb : m.catalog.boot = Catalog.defaultBoot)
    (hd : m.catalog.drivers.Ordered) :
    g.Furnished site m.catalog.drivers (bootKernel site m).2.ledger.kernelMemory := by
  obtain ⟨g₀, m₀, program, w, hg₀, -, -, hg, -⟩ := bootKernel_ok h
  obtain ⟨hsteps, used, rfl⟩ := bootGuest_booted hg₀ hb
  obtain ⟨limit, hlimit⟩ : ∃ n, n = (bootKernel site m).2.ledger.ceiling site.settings.memoryBudget := ⟨_, rfl⟩
  have hclean : Guest.Clean (Guest.load program
      ⟨library site.settings.timeout m.catalog.drivers, ownEntryPoints, none, none, none, used⟩) := by
    refine ⟨fun co hco => ?_, nofun⟩
    cases hco
    exact ⟨List.forall_mem_nil _, trivial, nofun⟩
  obtain ⟨r, left, hran⟩ := resume_ran (host site) site.steps m₀ (d := .nothing)
    (g := Guest.load program
      ⟨library site.settings.timeout m.catalog.drivers, ownEntryPoints, none, none, none, used⟩) rfl rfl
  have hleft := hclean.resume (clean_library _ hd) rfl rfl hran
  obtain ⟨slot, n, hrest, -⟩ := hran.rest
  rw [← hlimit, hrest] at hg
  rw [hrest] at hleft
  subst hg
  exact ⟨⟨rfl, rfl, congrArg some hlimit⟩, ⟨hleft.kernel, hleft.pending⟩, hsteps⟩

theorem restorePending_clean {s : State} {r : MachineRecord} {slot : Option Val} (hg : g.Standard)
    (h : restorePending s g r = .ok slot) : ∀ v, slot = some v → v.Clean := by
  rintro v rfl
  have hpart {v : Val} (h : restorePart g .stack r.stack = .ok v) : v.Clean := by
    obtain ⟨bytes, -, hb⟩ := restorePart_ok h
    exact restore_clean hg hb
  unfold restorePending at h
  split at h
  · cases hp : restorePart g .stack r.stack with
    | error c =>
      rw [hp] at h
      cases h
    | ok w =>
      rw [hp] at h
      by_cases hw : w.isCallable
      · obtain rfl := Option.some.inj (Except.ok.inj ((if_pos hw).symm.trans h))
        exact hpart hp
      · cases (if_neg hw).symm.trans h
  · cases hp : restorePart g .stack r.stack with
    | error c =>
      rw [hp] at h
      cases h
    | ok w =>
      rw [hp] at h
      cases w <;> cases h
      exact hpart hp
  · cases h

/-- Every step leaves the guest with what it has booted with, and with clean values. -/
theorem Step.furnished (h : Step site R a l b) (hy : a.AtYield) (ha : a.Furnished site) : b.Furnished site := by
  cases h with
  | accepted | refused | updated | passed | parked | beganSignal | beganResult | calling => exact ha
  | idle hg => exact fun _ _ g hg' => nomatch hg.symm.trans hg'
  | started hs hg hi hm hb =>
    intro hboot hd g hg'
    obtain rfl := Option.some.inj hg'
    rw [← hm] at hboot hd
    have hguest := bootKernel_furnished hb hboot hd
    rw [hm] at hguest
    dsimp only
    exact hguest
  | yielded hs hi hg hr hn =>
    intro hboot hd g hg'
    cases hg'
    exact (ha hboot hd _ hg).resume hd (hy _ hg) hr
  | ended | failed | closed => exact fun _ _ => nofun
  | @returned m g hs hi hg hr =>
    intro hboot hd g' hg'
    cases hg'
    have hguest := ha hboot hd g hg
    have hclean := hguest.toClean.invoke (host site) m
    obtain ⟨pending, used, hrest⟩ := invoke_rest (host site) g m
    rw [hrest] at hclean ⊢
    exact ⟨⟨hguest.globals, hguest.entryPoints, hguest.limit⟩, hclean, hguest.steps⟩
  | @loaded m r s g g' ledger hr hs hg hi hm hb hcode hrun hrest hst hl =>
    intro hboot hd g' hg'
    obtain rfl := Option.some.inj hg'
    dsimp only at hboot hd ⊢
    rw [← hm] at hboot hd ⊢
    obtain ⟨hsteps, used, rfl⟩ := bootGuest_booted hb hboot
    have hstandard : Guest.Standard
        ⟨library site.settings.timeout m.catalog.drivers, ownEntryPoints, none, none, none, used⟩ := ⟨rfl, rfl⟩
    obtain ⟨co, slot, hkernel, hslot, rfl⟩ := restoreGuest_ok hrest
    obtain ⟨bytes, -, hbytes⟩ := restorePart_ok hkernel
    refine ⟨⟨rfl, rfl, rfl⟩, ⟨fun co' hco' => ?_, fun v hv => ?_⟩, hsteps⟩
    · cases hco'
      exact clean_thread (restore_clean hstandard hbytes)
    · exact restorePending_clean hstandard hslot v (Option.or_none.symm.trans hv)

/-- The guests of all machines hold what they have booted with, and clean values. -/
theorem History.furnished {log : List Occurrence} (h : History site m log) : m.situation.Furnished site :=
  (h.invariant_atYield (fun site c _ => c.Furnished site) (fun _ _ _ _ _ => nofun)
    fun hP ha _ hs => hs.furnished ha hP).1

end

end VirtualComputer
