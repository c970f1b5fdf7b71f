import VirtualComputer.Proofs.Machine.Kernels

/-!
# The memory in use

The memory in use is kept up to date piece by piece: a resume adds the coroutine that is left to what was there before,
then the call that it asks for, and a call is measured with its result.  Each of them comes to what measuring everything
anew would (`resume_measured`, `invoke_measured`), so the guest of a machine is measured at all times
(`History.measured`).
-/

namespace VirtualComputer

open Guest Machine

/-! ## Guests -/

namespace Guest

variable {σ : Type} {host : Host σ} {steps : ℕ} {d : Delivery} {g : Guest} {world : σ} {co : Thread} {v : Val}

/-- What is in use is what would be measured. -/
def Measured (g : Guest) : Prop :=
  g.used = g.measure

/-- With the pending slot empty, a call that is parked in it is added. -/
theorem progress_measured {guarded : Bool} {o : Outcome} (hg : g.Measured) (hp : g.pending = none) :
    (progress guarded o g).2.Measured := by
  cases o with
  | returned v | threw v => exact hg
  | yielded v =>
    rw [progress]
    cases v.isCallable with
    | false => exact hg
    | true =>
      have hslot : slotFootprint g.pending = 0 := by
        rw [hp]
        rfl
      rw [Measured, measure, baseline, hslot] at hg
      show g.used + v.footprint =
        tableFootprint g.globals + tableFootprint g.entryPoints + v.footprint + slotFootprint g.kernel
      omega

theorem resumeThread_measured (hp : g.pending = none) : (resumeThread host steps v co g world).2.1.Measured := by
  unfold resumeThread
  dsimp only
  obtain ⟨⟨r, left, s⟩, hr⟩ : ∃ out, co.resume (Runtime.ofHost host g.globals g.baseline ⟨g.limit, false⟩) steps v
      ⟨g.baseline + co.footprint, world⟩ = out := ⟨_, rfl⟩
  rw [hr]
  -- The rest has been measured before the resume, which leaves it alone.
  have hleft : Measured { g with kernel := some (.thread left), used := g.baseline + left.footprint } := rfl
  cases r with
  | error f => exact hleft
  | ok o => exact progress_measured hleft hp

/-- Whatever a resume comes to, its kernel has been measured if it has run. -/
theorem resume_measured (host : Host σ) (steps : ℕ) (world : σ) (hd : (g.delivery d).1 = .ok v)
    (hk : g.kernel = some (.thread co)) : (g.resume host steps d world).2.1.Measured := by
  have hresume : g.resume host steps d world = resumeThread host steps v co { g with pending := none } world := by
    rw [resume, delivery_emptied hd]
    dsimp only
    rw [hk]
  rw [hresume]
  exact resumeThread_measured rfl

/-- What comes to a `yield` has run. -/
theorem resume_yielded_measured {w : Wish} (h : (g.resume host steps d world).1 = .ok (.yielded w)) :
    (g.resume host steps d world).2.1.Measured := by
  cases hd : (g.delivery d).1 with
  | error f => cases (resume_undelivered hd).2.symm.trans h
  | ok v =>
    have hk : ∃ co, g.kernel = some (.thread co) := by
      rw [resume, delivery_emptied hd] at h
      dsimp only at h
      split at h
      · exact ⟨_, ‹_›⟩
      · cases h
    obtain ⟨co, hk⟩ := hk
    exact resume_measured host steps world hd hk

/-- A slot that was empty holds a result only after everything has been measured. -/
theorem keepResult_measured {r : Except Val Val} (hp : g.pending = none) (hs : (keepResult r g).2.pending = some v) :
    (keepResult r g).2.Measured := by
  unfold keepResult at hs ⊢
  split at hs
  · exact rfl
  · cases hp.symm.trans hs
  · cases hp.symm.trans hs

theorem invoke_measured (hs : (g.invoke host world).2.1.pending = some v) : (g.invoke host world).2.1.Measured := by
  unfold invoke at hs ⊢
  dsimp only at hs ⊢
  split at hs
  · cases hs
  · split at hs
    · cases hs
    · exact keepResult_measured rfl hs

theorem keepResult_within {r : Except Val Val} {limit : ℕ} (hl : g.limit = some limit)
    (h : (keepResult r g).1 = .ok ()) : (keepResult r g).2.used ≤ limit := by
  unfold keepResult at h ⊢
  split at h
  · next items =>
    have hfits : g.limit.all ((remeasured { g with pending := some (.list items) }).used ≤ ·) := by
      by_contra hfits
      cases (if_neg hfits).symm.trans h
    rw [hl] at hfits
    exact of_decide_eq_true hfits
  · cases h
  · cases h

/-- A call that succeeds stays under the ceiling. -/
theorem invoke_within {limit : ℕ} (hl : g.limit = some limit) (h : (g.invoke host world).1 = .ok ()) :
    (g.invoke host world).2.1.used ≤ limit := by
  unfold invoke at h ⊢
  dsimp only at h ⊢
  split at h
  · cases h
  · split at h
    · cases h
    · exact keepResult_within hl h

/-- After every resume that runs the kernel, whatever it comes to, and after every call that leaves a result, the memory
in use is what measuring everything anew finds; after a call that succeeds it is within the ceiling. -/
theorem used_remeasured (host : Host σ) (steps : ℕ) (g : Guest) (world : σ) :
    (∀ d v co, (g.delivery d).1 = .ok v → g.kernel = some (.thread co) →
      (g.resume host steps d world).2.1.used = (g.resume host steps d world).2.1.remeasured.used) ∧
    (∀ v, (g.invoke host world).2.1.pending = some v →
      (g.invoke host world).2.1.used = (g.invoke host world).2.1.remeasured.used) ∧
    ∀ limit, g.limit = some limit → (g.invoke host world).1 = .ok () → (g.invoke host world).2.1.used ≤ limit :=
  ⟨fun _ _ _ hd hk => resume_measured host steps world hd hk, fun _ hs => invoke_measured hs,
    fun _ hl h => invoke_within hl h⟩

/-- A guest whose kernel asks for a call, and which has a call to make. -/
def asking : Guest where
  globals := [("push", .native .push)]
  entryPoints := []
  kernel := some (.thread (.ofProgram (.expr (.yield (some (.ident "push" .none)) .none) .none) true))
  pending := some (.bound .push [.list [], .bool true])
  limit := some 4096
  used := 0

/-- The callable that it yields is counted, and so is the result of the call. -/
theorem asking_remeasured :
    ((asking.resume silentHost 9 .nothing ()).2.1.pending = some (.native .push) ∧
      (asking.resume silentHost 9 .nothing ()).2.1.used =
        (asking.resume silentHost 9 .nothing ()).2.1.remeasured.used) ∧
    ((asking.invoke silentHost ()).2.1.pending = some (.list [.bool true]) ∧
      (asking.invoke silentHost ()).2.1.used = (asking.invoke silentHost ()).2.1.remeasured.used) ∧
    (asking.invoke silentHost ()).2.1.used ≤ 4096 := by
  obtain ⟨hresume, hinvoke, hlimit⟩ := used_remeasured silentHost 9 asking ()
  exact ⟨⟨rfl, hresume .nothing _ _ rfl rfl⟩, ⟨rfl, hinvoke _ rfl⟩, hlimit 4096 rfl rfl⟩

end Guest

/-! ## Machines -/

/-- The guest of a machine is measured. -/
def Situation.Measured (c : Situation) : Prop :=
  ∀ g, c.guest = some g → g.Measured

section

variable {ν : Type} {site : Site ν} {m : Machine ν} {g : Guest} {R : MachineRecord → Prop} {a b : Situation}
  {l log : List Occurrence}

theorem Machine.bootKernel_measured (h : (bootKernel site m).1 = .ok g) : g.Measured := by
  obtain ⟨g₀, m₀, program, w, -, -, -, rfl, -⟩ := bootKernel_ok h
  rfl

theorem Step.measured (h : Step site R a l b) (ha : a.Measured) : b.Measured := by
  cases h with
  | accepted | refused | updated | passed | idle | parked | beganSignal | beganResult | calling => exact ha
  | started hs hg hi hm hb =>
    rintro _ ⟨⟩
    exact bootKernel_measured hb
  | yielded hs hi hg hr hn =>
    rintro _ ⟨⟩
    exact resume_yielded_measured hr
  | ended | failed | closed => nofun
  | returned hs hi hg hr =>
    rintro _ ⟨⟩
    obtain ⟨items, hp⟩ := invoke_ok hr
    exact invoke_measured hp
  | loaded =>
    rintro _ ⟨⟩
    rfl

/-- Whatever has happened, the memory in use of the guest of a machine is what measuring it finds. -/
theorem History.measured (h : History site m log) (hg : m.guest = some g) : g.Measured :=
  h.invariant (fun _ c _ => c.Measured) (fun _ _ _ => nofun) (fun ha hs => hs.measured ha) g hg

end

end VirtualComputer
