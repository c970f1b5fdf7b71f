import VirtualComputer.Proofs.Guest.EntryPoints
import VirtualComputer.Proofs.Machine.Regular

/-!
# Machines with the default boot program

The entry points of a guest come from the boot program and stay as they are (`resume_entryPoints`,
`Guest.invoke_entryPoints`), so a machine whose catalog has the default boot program has no guest but a standard one, and
all operations and tasks keep it so.
-/

namespace VirtualComputer

/-! ## Entry points stay -/

namespace Guest

variable {σ : Type} {host : Host σ}

theorem delivery_entryPoints (d : Delivery) (g : Guest) : (g.delivery d).2.entryPoints = g.entryPoints := by
  unfold delivery
  cases d with
  | nothing | signal s => rfl
  | result =>
    dsimp only
    split <;> rfl

theorem progress_entryPoints (guarded : Bool) (o : Outcome) (g : Guest) :
    (progress guarded o g).2.entryPoints = g.entryPoints := by
  cases o with
  | returned v | threw v => rfl
  | yielded v =>
    rw [progress]
    cases v.isCallable <;> rfl

theorem resume_entryPoints (steps : Nat) (d : Delivery) (g : Guest) (world : σ) :
    (g.resume host steps d world).2.1.entryPoints = g.entryPoints := by
  have hdelivery := delivery_entryPoints d g
  unfold resume
  rcases hd : g.delivery d with ⟨f | v, g'⟩ <;> rw [hd] at hdelivery <;> dsimp only
  · exact hdelivery
  · split
    · next co _ =>
      unfold resumeThread
      dsimp only
      split
      · exact (progress_entryPoints _ _ _).trans hdelivery
      · exact hdelivery
    · exact hdelivery

theorem Standard.of_entryPoints {g g' : Guest} (h : g.Standard) (he : g'.entryPoints = g.entryPoints) : g'.Standard :=
  ⟨by rw [he]; exact h.persist, by rw [he]; exact h.unpersist⟩

end Guest

namespace Machine

variable {ν : Type} {site : Site ν} {m m' : Machine ν}

/-- If the catalog has the default boot program, then the guest is standard. -/
def Standard (m : Machine ν) : Prop :=
  ∀ g, m.guest = some g → m.catalog.boot = Catalog.defaultBoot → g.Standard

theorem Told.standard (h : m.Told m') (hm : m.Standard) : m'.Standard := by
  obtain ⟨told, outside, -, rfl⟩ := h
  exact hm

theorem Standard.close (h : m.Standard) : m.close.Standard := by
  unfold Machine.close
  dsimp only
  split
  · exact h
  · nofun

theorem Standard.schedule (next : State) (h : m.Standard) : (m.schedule next).Standard := by
  unfold Machine.schedule
  split <;> exact h

theorem Standard.signal (s : Signal) (h : m.Standard) : (m.signal s).2.Standard := by
  unfold Machine.signal
  split <;> exact h

theorem Standard.stop (h : m.Standard) : m.stop.2.Standard := by
  rcases stop_leaves m with hs | hs | hs <;> rw [hs]
  · exact h
  · exact h
  · exact h.close

/-! ## Messages and calls -/

theorem Standard.handle (h : m.Standard) {start : Machine ν → Bool × Machine ν} (hstart : (start m).2.Standard)
    (msg : Message) : (m.handle start msg).2.Standard :=
  handle_of msg h (fun s => h.signal s) hstart h.stop

theorem Standard.grant (r : Request) (h : m.Standard) : (m.grant r).2.Standard := by
  cases r with
  | signal s => exact h.signal s
  | receive msg => exact h.handle h msg

theorem Standard.converse : ∀ (x : Exchange ν) {m : Machine ν}, m.Standard → (converse x m).2.Standard
  | .answer _ _, _, h => h
  | .request r next, m, h => by
    have hg := h.grant r
    rw [Machine.converse]
    obtain ⟨answer, hr⟩ : ∃ a, m.grant r = a := ⟨_, rfl⟩
    rw [hr] at hg ⊢
    exact Standard.converse (next answer.1) hg

theorem Standard.of_reaches {n : Nat} (hr : (host site).Reaches m n m') (h : m.Standard) : m'.Standard := by
  induction hr with
  | refl => exact h
  | print _ text ih => exact ih
  | @send n v _ target method payload ih => exact Standard.converse _ (m := v.tell (.called target method payload)) ih
  | later _ reader ih => exact (later_printed site reader _).told.standard ih

/-! ## Tasks -/

theorem Standard.crash (message : String) (h : m.Standard) : (m.crash message).Standard :=
  Standard.close (m := { m with message := some message }) h

theorem Granted.standard {w : Wish} (hm : m.Granted w m') (h : m.Standard) : m'.Standard := by
  cases hm with
  | asleep | idle | calls => exact h
  | resumed => exact h.schedule .yielded
  | closed | reboots => exact h.close

theorem Reacted.standard {r : Except Fault Progress} (hm : m.Reacted r m') (h : m.Standard) : m'.Standard := by
  cases hm with
  | stopped => exact h.close
  | granted _ hgranted => exact hgranted.standard h
  | ended _ notices message => exact Standard.close (m := { m.tellAll (notices.map .noticed) with message }) h

theorem Standard.finishTask (hm : m.Regular) (h : m.Standard) : (finishTask site m).Standard := by
  cases hi : m.inside with
  | none =>
    rw [finishTask_idle site hi]
    exact h
  | some d =>
    obtain ⟨-, -, g, hg⟩ := hm.resuming hi
    obtain ⟨texts, outside, hf⟩ := finishTask_resumed site hi hg
    rw [hf]
    refine (react_reacted site _ _).standard ?_
    rintro _ ⟨⟩ hb
    exact (h g hg hb).of_entryPoints (Guest.resume_entryPoints site.steps d g m)

theorem Taken.standard (hm : m.Taken m') (h : m.Standard) : m'.Standard := by
  cases hm with
  | void | parked | entered => exact h
  | closed => exact h.close
  | refused n queue => exact Standard.close (m := tell (.noticed n) { m with queue }) h

/-! ## Starts -/

/-- What the default boot program makes of an empty guest, for which it takes three steps. -/
theorem bootGuest_default (site : Site ν) (hb : m.catalog.boot = Catalog.defaultBoot) :
    if site.steps < 3 then ∃ f, (bootGuest site m).1 = .error f
    else ∃ used, (bootGuest site m).1 =
      .ok ⟨library site.settings.timeout m.catalog.drivers, ownEntryPoints, none, none, none, used⟩ := by
  obtain ⟨program, hc, hp⟩ := compile_defaultBoot "boot payload"
  have hg : Entries.get? "persistence" (Guest.empty.install site.settings.timeout m.catalog.drivers).globals =
    some (.obj ownEntryPoints) := library_persistence _ _
  unfold bootGuest
  rw [hb, hc]
  dsimp only
  split
  · next hs =>
    have hearly := @boot_early _ (host site) site.steps program _ hg hp m hs
    rcases hboot : Guest.boot (host site) site.steps program
      (Guest.empty.install site.settings.timeout m.catalog.drivers) m with ⟨r, g, m'⟩
    rw [hboot] at hearly
    cases hearly
    exact ⟨_, rfl⟩
  · next hs =>
    obtain ⟨m', hboot⟩ := @boot_publishes _ (host site) site.steps program _ hg hp m (Nat.not_lt.1 hs)
    rw [hboot]
    exact ⟨_, rfl⟩

/-- A guest that boots with the default boot program is standard. -/
theorem bootGuest_standard {g : Guest} (h : (bootGuest site m).1 = .ok g) (hb : m.catalog.boot = Catalog.defaultBoot) :
    g.Standard := by
  have hdefault := bootGuest_default site hb
  split at hdefault
  · obtain ⟨f, hf⟩ := hdefault
    cases hf.symm.trans h
  · obtain ⟨used, hg⟩ := hdefault
    cases hg.symm.trans h
    exact ⟨rfl, rfl⟩

theorem bootKernel_standard {g : Guest} (h : (bootKernel site m).1 = .ok g)
    (hb : m.catalog.boot = Catalog.defaultBoot) : g.Standard := by
  unfold bootKernel at h
  split at h
  · cases h
  · next g' m' hg' =>
    have hstandard : g'.Standard := bootGuest_standard (by rw [hg']) hb
    dsimp only at h
    split at h
    · cases h
    · next program _ =>
      split at h
      · cases h
      · cases h
        exact hstandard.of_entryPoints (Guest.resume_entryPoints site.steps .nothing (g'.load program) m')

theorem Standard.start (h : m.Standard) : (start site m).2.Standard := by
  unfold Machine.start
  split
  · exact h
  · obtain ⟨told, ledger, outside, -, hboot⟩ := bootKernel_told site { m with ledger := { m.ledger with
      worldTime := site.worldTime m.outside, started := site.worldTime m.outside } }
    dsimp only
    split
    · next g m' hg =>
      have hstandard := bootKernel_standard (congrArg Prod.fst hg)
      rw [hg] at hboot
      subst hboot
      rintro _ ⟨⟩ hb
      exact hstandard hb
    · next f m' hg =>
      rw [hg] at hboot
      subst hboot
      exact h

/-! ## Updates -/

theorem Standard.invoke (g : Guest) (h : m.Standard) : (g.invoke (host site) m).2.2.Standard := by
  obtain ⟨n, -, hreaches⟩ := g.invoke_reaches (host site) m
  exact .of_reaches hreaches h

theorem Standard.invokePending (site : Site ν) (h : m.Standard) (hs : m.state = .running) :
    (invokePending site m).2.Standard := by
  unfold Machine.invokePending
  cases hg : m.guest with
  | none => exact h
  | some g =>
    -- The call has left the guest in its place, where it is standard.
    have hplace : (g.invoke (host site) m).2.2.guest = some g := by
      rcases invoke_called site g (.inl hs) with hc | hc <;>
        exact (congrArg Lifecycle.guest hc).trans hg
    rintro _ ⟨⟩ hb
    exact (h.invoke g g hplace hb).of_entryPoints Guest.invoke_entryPoints

theorem Standard.synchronize (h : m.Standard) : (synchronize site m).Standard := by
  have hinvoked := Standard.invokePending site (m := { m with state := .running }) h rfl
  unfold Machine.synchronize
  split
  · exact h
  · dsimp only
    split
    · exact hinvoked.close
    · split
      · exact hinvoked.schedule _
      · unfold Machine.failCall
        split <;> exact Standard.crash _ (m := Machine.tell _ _) hinvoked

theorem Advanced.standard {a : Action} (hm : m.Advanced a m') (h : m.Standard) : m'.Standard := by
  cases hm with
  | kept | reboots | calls => exact h
  | resumed | returned => exact h.schedule _

theorem Standard.perform (action : Action) (h : m.Standard) : (perform site action m).Standard := by
  cases action with
  | nothing => exact h
  | reboot => exact h.close.start
  | call => exact h.synchronize

theorem Standard.update (h : m.Standard) : (update site m).Standard := by
  have hadvanced : (Machine.advance (noted site m)).2.Standard := (advance_advanced (noted site m)).standard h
  obtain ⟨message, told, hshown⟩ := shown_told site m.ended (Machine.advance (noted site m)).2
  rw [update_noted, hshown]
  exact Standard.perform _ hadvanced

/-! ## Records -/

/-- A run that is loaded goes on with a guest that has booted for it. -/
theorem Standard.loadRun (s : State) (r : MachineRecord) (h : m.Standard) : (loadRun site s r m).2.Standard := by
  have hboot := bootGuest_told site m
  unfold Machine.loadRun
  rcases hg : bootGuest site m with ⟨f | g, m'⟩ <;> rw [hg] at hboot <;> dsimp only
  · exact hboot.standard h
  · cases hr : restoreGuest s g r with
    | error c => exact hboot.standard h
    | ok g' =>
      obtain ⟨co, slot, -, -, rfl⟩ := restoreGuest_ok hr
      obtain ⟨told, outside, -, rfl⟩ := hboot
      rintro _ ⟨⟩ hb
      exact (bootGuest_standard (congrArg Prod.fst hg) hb).of_entryPoints rfl

theorem close_catalog (m : Machine ν) : m.close.catalog = m.catalog := by
  unfold Machine.close
  dsimp only
  split <;> rfl

/-- A record does not change what the catalog boots. -/
theorem load_boot (r : MachineRecord) (m : Machine ν) : (load site r m).catalog.boot = m.catalog.boot := by
  have hboot : (m.close.readdressed r).catalog.boot = m.catalog.boot := by
    rw [← close_catalog m]
    unfold readdressed
    cases r.rom <;> rfl
  refine load_of (P := fun m' => m'.catalog.boot = m.catalog.boot) site r m (fun f told outside => ?_) hboot hboot
    fun s g told outside _ => hboot
  rw [close_catalog]
  exact hboot

theorem Standard.load (r : MachineRecord) (h : m.Standard) : (load site r m).Standard := by
  have htry {m : Machine ν} (h : m.Standard) : (tryLoad site r m).2.Standard := by
    have hcatalog : Standard { m with catalog := r.rom.elim m.catalog m.catalog.load } := by
      intro g hg hb
      refine h g hg (Eq.trans ?_ hb)
      cases r.rom <;> rfl
    unfold tryLoad
    dsimp only
    split
    · exact hcatalog
    · exact hcatalog
    · exact hcatalog
    · exact hcatalog
    · exact hcatalog
    · exact hcatalog.loadRun _ r
  have hload := htry h.close
  unfold Machine.load
  rcases ht : tryLoad site r m.close with ⟨f | _, m'⟩ <;> rw [ht] at hload
  · exact Standard.close (m := m'.tell _) hload
  · exact hload

end Machine

end VirtualComputer
