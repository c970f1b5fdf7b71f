import VirtualComputer.Proofs.Machine.Contents
import VirtualComputer.Proofs.Machine.Delivery

/-!
# Saving and loading

A machine that loads the record of another one goes on from where that one was saved (`Machine.GoesOn`), and is then
saved alike (`save_load`).  Only the positions in programs get lost, and what had been counted is counted anew.  A load
succeeds exactly if the slots of the guest are `Storable` (`load_iff`): not all numbers that a kernel can come by are
finite, and not all that it can build is read back from its text.
-/

namespace VirtualComputer

open Guest Machine

/-! ## Signals -/

namespace SignalRecord

theorem argName_inj {i j : Nat} (h : argName i = argName j) : i = j := by
  have hdigits (n : Nat) : (Decimal.integerText n).toList = Decimal.toDigits n := by
    rw [Decimal.integerText, if_neg (Int.not_lt.2 (Int.natCast_nonneg n)), String.toList_ofList, Int.toNat_natCast]
  have htext := congrArg String.toList h
  rw [argName, argName, String.toList_append, String.toList_append, hdigits, hdigits] at htext
  rw [← Decimal.ofDigits_toDigits i, List.append_cancel_left htext, Decimal.ofDigits_toDigits]

/-- The table with the arguments that come from some place on. -/
def named (n : Nat) (args : List Scalar) (es : Entries Scalar) : Entries Scalar :=
  (namedFrom n args).foldl (fun es (k, a) => Entries.insert k a es) es

theorem named_cons (n : Nat) (a : Scalar) (args : List Scalar) (es : Entries Scalar) : named n (a :: args) es =
    named (n + 1) args (if a.isNothing then es else Entries.insert (argName n) a es) := by
  rw [named, namedFrom, List.foldl_append]
  cases a.isNothing <;> rfl

theorem get_named_before {i : Nat} : ∀ (args : List Scalar) {n : Nat} (_ : i < n) (es : Entries Scalar),
    Entries.get? (argName i) (named n args es) = Entries.get? (argName i) es
  | [], _, _, _ => rfl
  | a :: args, n, h, es => by
    have hne : argName n ≠ argName i := fun heq => by
      have := argName_inj heq
      omega
    rw [named_cons, get_named_before args (by omega)]
    split
    · rfl
    · exact Entries.get_insert_ne hne a es

/-- The arguments are found under their names, and there is nothing for those that are absent. -/
theorem get_named {i : Nat} : ∀ (args : List Scalar) (n : Nat) (es : Entries Scalar),
    (∀ j, n ≤ j → Entries.get? (argName j) es = none) → i < args.length →
      (Entries.get? (argName (n + i)) (named n args es)).getD .nothing = args[i]?.getD .nothing
  | a :: args, n, es, hes, hi => by
    rw [named_cons]
    cases i with
    | zero =>
      rw [Nat.add_zero, get_named_before args (Nat.lt_succ_self n)]
      cases a with
      | nothing =>
        show (Entries.get? (argName n) es).getD .nothing = .nothing
        rw [hes n (Nat.le_refl n)]
        rfl
      | bool b | number x | str s =>
        show (Entries.get? (argName n) (Entries.insert (argName n) _ es)).getD .nothing = _
        rw [Entries.get_insert_self]
        rfl
    | succ i =>
      have hes' (j : Nat) (hj : n + 1 ≤ j) : Entries.get? (argName j)
          (if a.isNothing then es else Entries.insert (argName n) a es) = none := by
        have hne : argName n ≠ argName j := fun heq => by
          have := argName_inj heq
          omega
        split
        · exact hes j (by omega)
        · rw [Entries.get_insert_ne hne, hes j (by omega)]
      rw [show n + (i + 1) = n + 1 + i by omega]
      exact get_named args (n + 1) _ hes' (Nat.lt_of_succ_lt_succ hi)

/-- A signal is read back from its record. -/
theorem toSignal_ofSignal (s : Signal) : (ofSignal s).toSignal = s := by
  obtain ⟨name, args⟩ := s
  refine congrArg (Signal.mk name) (List.ext_getElem? fun i => ?_)
  show (List.map (fun i => (Entries.get? (argName i) (named 0 args [])).getD .nothing) (List.range args.length))[i]? =
    args[i]?
  by_cases hi : i < args.length
  · have hget := get_named args 0 [] (fun _ _ => rfl) hi
    rw [Nat.zero_add] at hget
    rw [List.getElem?_map, List.getElem?_range hi, Option.map_some, hget, List.getElem?_eq_getElem hi]
    rfl
  · have hlen : args.length ≤ i := Nat.not_lt.1 hi
    rw [List.getElem?_eq_none hlen, List.getElem?_eq_none]
    rw [List.length_map, List.length_range]
    exact hlen

theorem map_toSignal (signals : List Signal) : (signals.map ofSignal).map toSignal = signals := by
  rw [List.map_map]
  exact (List.map_congr_left fun s _ => toSignal_ofSignal s).trans (List.map_id signals)

end SignalRecord

/-! ## Values -/

/-- A value can be read back: its numbers are finite, its counts are words, and it nests no deeper than is read. -/
def Val.Storable (v : Val) : Prop :=
  AllFinite v.numbers ∧ AllWords v.counts ∧ v.toJson.depth ≤ Json.nestingLimit

instance (v : Val) : Decidable v.Storable :=
  inferInstanceAs (Decidable ((∀ x ∈ v.numbers, x.isFinite) ∧ (∀ n ∈ v.counts, Json.isWord n) ∧
    v.toJson.depth ≤ Json.nestingLimit))

theorem Val.storable_iff (v : Val) : v.Storable ↔ v.toJson.fits Json.nestingLimit := by
  rw [Val.Storable, ← and_assoc, v.fits_iff]

theorem ordered_thread {co : Thread} (h : co.Clean) : (Val.thread co).Ordered :=
  ordered_of_clean h

namespace Machine

section

variable {ν : Type} {site : Site ν} {m : Machine ν} {g : Guest} {part : Part} {v w : Val}

theorem load_storable (hv : v.Ordered) : Val.load? v.store = some w ↔ v.Storable ∧ w = v.bare := by
  rw [(Val.load_store hv).some_iff, v.storable_iff, eq_comm (a := w)]

theorem restore_stored (hg : g.Standard) :
    g.restore (Utf8.encode v.store) = .ok (some w) ↔ Val.load? v.store = some w := by
  refine ⟨restore_standard hg, fun h => ?_⟩
  unfold Guest.restore Guest.callEntryPoint
  rw [Utf8.decode_encode, hg.unpersist]
  dsimp only [Option.bind_some, Val.callable?]
  rw [List.nil_append, unpersist_iff.2 h]

/-- What a standard guest reads back of a value that has been stored. -/
theorem restorePart_stored (hg : g.Standard) (hv : v.Ordered) :
    restorePart g part (some (Utf8.encode v.store)) = .ok w ↔ v.Storable ∧ w = v.bare := by
  rw [← load_storable hv]
  refine ⟨fun h => ?_, fun h => ?_⟩
  · obtain ⟨bytes, hbytes, hrestore⟩ := restorePart_ok h
    cases hbytes
    exact restore_standard hg hrestore
  · have hrestore := (restore_stored hg).2 h
    cases hb : Utf8.encode v.store with
    | nil =>
      -- Only the empty text has no bytes, and nothing is read from it.
      have hstore := Utf8.decode_encode v.store
      rw [hb] at hstore
      rw [← Except.ok.inj (show Except.ok "" = Except.ok v.store from hstore)] at h
      cases (show Val.load? "" = none by decide).symm.trans h
    | cons byte bytes =>
      rw [hb] at hrestore
      unfold restorePart
      dsimp only
      rw [hrestore]

end

end Machine

/-! ## Guests -/

/-- The states in which the pending slot is a part of the run. -/
def State.Synchronized (s : State) : Prop :=
  s = .synchronizedCall ∨ s = .synchronizedReturn ∨ s = .synchronizedReturnPaused

instance (s : State) : Decidable s.Synchronized :=
  inferInstanceAs (Decidable (_ ∨ _ ∨ _))

theorem State.synchronized_iff (s : State) :
    (s.collapsed = .synchronizedCall || s.collapsed = .synchronizedReturn) ↔ s.Synchronized := by
  cases s <;> decide

namespace Guest

/-- What a record keeps of a guest in a state. -/
def kept (s : State) (g : Guest) : Guest :=
  { g with pending := if s.Synchronized then g.pending else none }

/-- What is in the slots can be read back. -/
def Storable (g : Guest) : Prop :=
  (∀ v ∈ g.kernel, v.Storable) ∧ ∀ v ∈ g.pending, v.Storable

instance (g : Guest) : Decidable g.Storable :=
  inferInstanceAs (Decidable ((∀ v ∈ g.kernel, v.Storable) ∧ ∀ v ∈ g.pending, v.Storable))

theorem kept_collapsed (s : State) (g : Guest) : g.kept s.collapsed = g.kept s := by
  cases s <;> rfl

/-- A guest goes on from where another one was saved in a state. -/
structure GoesOn (s : State) (g g' : Guest) : Prop where
  /-- The kernel lacks its positions and nothing else. -/
  kernel : ∃ co, g.kernel = some (.thread co) ∧ g'.kernel = some (.thread co.bare)
  pending : s.Synchronized → g'.pending = g.pending
  limit : g'.limit = g.limit
  used : g'.used = (g.kept s).measure

end Guest

/-- A new machine with a catalog of the same contents, after it has loaded a record. -/
def Machine.reloaded {ν μ : Type} (site' : Site μ) (address : Option String) (outside : μ) (r : MachineRecord)
    (m : Machine ν) : Machine μ :=
  (fresh site' { m.catalog with address } outside).load site' r

/-- A machine goes on from where another one was saved. -/
structure Machine.GoesOn {ν μ : Type} (m : Machine ν) (m' : Machine μ) : Prop where
  state : m'.state = restoredState m.state
  guest : ∀ g, m.guest = some g → ∃ g', m'.guest = some g' ∧ g.GoesOn m.state g'
  queue : m.guest.isSome → m'.queue = m.queue
  accounts : m.guest.isSome → m'.ledger.kernelMemory = m.ledger.kernelMemory ∧
    m'.ledger.started = m.ledger.started ∧ m'.ledger.cpuTime = m.ledger.cpuTime
  address : m.guest.isSome → m'.catalog.address = m.catalog.address
  message : m.guest.isSome → m'.message = m.message

namespace Machine

section

variable {ν : Type} {m : Machine ν} {g g₀ g₁ : Guest} {s : State} {co : Thread}

/-- There is a run in every state but the transient ones. -/
theorem Sound.run (h : m.Sound) (hi : m.inside = none)
    (hs : m.state ≠ .stopped ∧ m.state ≠ .rebooting ∧ m.state ≠ .stopping) :
    ∃ g, m.guest = some g ∧ g.Waits ∧ m.state.Holds g.pending ∧ m.state.collapsed.Collapsed := by
  rcases m with ⟨state, guest, task, epoch, waiting, inside, _⟩
  cases h with
  | empty hs' hw => rcases hs' with rfl | rfl <;> simp at hs
  | resting hs' hg hp hw =>
    rcases hs' with rfl | rfl | rfl | rfl | rfl <;> exact ⟨_, rfl, hg, hp, by simp [State.Collapsed, State.collapsed]⟩
  | queued hs' hg hp hw =>
    rcases hs' with rfl | rfl | rfl
    · exact ⟨_, rfl, hg, hp, .inr (.inl rfl)⟩
    · exact ⟨_, rfl, hg, hp, .inr (.inr (.inr rfl))⟩
    · simp at hs
  | busy hs' hw => cases hi

/-! ## Reading them back -/

theorem bind_ok_iff {ε α β : Type} {x : Except ε α} {f : α → Except ε β} {b : β} :
    x >>= f = .ok b ↔ ∃ a, x = .ok a ∧ f a = .ok b := by
  cases x with
  | error e => exact ⟨nofun, nofun⟩
  | ok a => exact ⟨fun h => ⟨a, rfl, h⟩, fun ⟨_, ha, h⟩ => Except.ok.inj ha ▸ h⟩

/-- The kernel is read back without positions if it can be. -/
theorem restoreKernel_stored (hg : g₀.Standard) {r : MachineRecord} {w : Val} (hco : co.Clean)
    (hr : r.kernel = some (Utf8.encode (Val.thread co).store)) :
    restoreKernel g₀ r = .ok w ↔ (Val.thread co).Storable ∧ w = .thread co.bare := by
  unfold restoreKernel
  rw [bind_ok_iff, hr]
  simp only [restorePart_stored hg (ordered_thread hco)]
  constructor
  · rintro ⟨v, ⟨hv, rfl⟩, hw⟩
    exact ⟨hv, (Except.ok.inj hw).symm⟩
  · rintro ⟨hv, rfl⟩
    exact ⟨_, ⟨hv, rfl⟩, rfl⟩

/-- So is what is in the pending slot, where it is a part of the run. -/
theorem restorePending_stored (hg : g₀.Standard) {r : MachineRecord} {slot : Option Val} (hs : s.Collapsed)
    (hp : s.Holds g.pending) (hclean : g.Clean) (hr : r.stack = if s = .synchronizedCall || s = .synchronizedReturn then
      some (Utf8.encode (g.pending.getD .null).store) else none) :
    restorePending s g₀ r = .ok slot ↔
      (∀ v, (g.kept s).pending = some v → v.Storable) ∧ slot = (g.kept s).pending := by
  have hread {v : Val} {f : Val → Except Corruption (Option Val)} (hv : g.pending = some v)
      (hr : r.stack = some (Utf8.encode (g.pending.getD .null).store)) (hf : f v = .ok (some v)) :
      restorePart g₀ .stack r.stack >>= f = .ok slot ↔ (∀ w, g.pending = some w → w.Storable) ∧ slot = g.pending := by
    rw [bind_ok_iff, hr, hv, Option.getD_some]
    simp only [restorePart_stored hg (hclean.pending v hv).ordered, (hclean.pending v hv).bare]
    constructor
    · rintro ⟨_, ⟨hw, rfl⟩, hslot⟩
      exact ⟨fun _ h => Option.some.inj h ▸ hw, (Except.ok.inj (hf.symm.trans hslot)).symm⟩
    · rintro ⟨hw, rfl⟩
      exact ⟨v, ⟨hw v rfl, rfl⟩, hf⟩
  rcases hs with rfl | rfl | rfl | rfl
  · exact ⟨fun h => ⟨nofun, (Except.ok.inj h).symm⟩, fun h => congrArg Except.ok h.2.symm⟩
  · exact ⟨fun h => ⟨nofun, (Except.ok.inj h).symm⟩, fun h => congrArg Except.ok h.2.symm⟩
  · obtain ⟨v, hv, hcall⟩ := hp
    exact hread hv hr (if_pos hcall)
  · obtain ⟨items, hv⟩ := hp
    exact hread hv hr rfl

/-- A guest that has booted takes up what a record has kept of another one. -/
theorem restoreGuest_stored (hg₀ : g₀.Standard) (hempty : g₀.pending = none) (hg : g.Standard) (hclean : g.Clean)
    (hk : g.kernel = some (.thread co)) (hs : s.Collapsed) (hp : s.Holds g.pending) :
    restoreGuest s g₀ (m.recordRun s g).1 = .ok g₁ ↔ (g.kept s).Storable ∧
      g₁ = { g₀ with kernel := some (.thread co.bare), pending := (g.kept s).pending } := by
  have hkernel (w : Val) : restoreKernel g₀ (m.recordRun s g).1 = .ok w ↔ _ :=
    restoreKernel_stored hg₀ (hclean.kernel co hk) (by rw [recordRun_eq hg, hk]; rfl)
  have hpending (slot : Option Val) : restorePending s g₀ (m.recordRun s g).1 = .ok slot ↔ _ :=
    restorePending_stored hg₀ hs hp hclean (by rw [recordRun_eq hg])
  unfold restoreGuest
  simp only [bind_ok_iff, hkernel, hpending, hempty, Option.or_none]
  constructor
  · rintro ⟨_, ⟨hco, rfl⟩, slot, ⟨hslot, rfl⟩, hg₁⟩
    refine ⟨⟨fun v hv => ?_, hslot⟩, (Except.ok.inj hg₁).symm⟩
    obtain rfl := Option.some.inj (hk.symm.trans hv)
    exact hco
  · rintro ⟨⟨hco, hslot⟩, rfl⟩
    exact ⟨_, ⟨hco _ hk, rfl⟩, _, ⟨hslot, rfl⟩, rfl⟩

end

/-! ## Machines with a run -/

section

variable {ν μ : Type} {site : Site ν} {site' : Site μ} {m : Machine ν} {m' : Machine μ} {g : Guest} {s : State}
  {co : Thread}

/-- What is known of a machine with a run that nobody is inside of. -/
structure Rests (site : Site ν) (m : Machine ν) (g : Guest) (co : Thread) : Prop where
  guest : m.guest = some g
  kernel : g.kernel = some (.thread co)
  boot : m.catalog.boot = Catalog.defaultBoot
  furnished : g.Furnished site m.catalog.drivers m.ledger.kernelMemory
  collapsed : m.state.collapsed.Collapsed
  holds : m.state.collapsed.Holds g.pending
  capacity : m.queue.capacity = site.settings.queueCapacity
  bound : m.queue.signals.length ≤ m.queue.capacity

/-- The record of the run. -/
def Rests.record (_ : m.Rests site g co) : MachineRecord :=
  (m.recordRun m.state.collapsed g).1

/-- A guest as it is restored from the record, but for what it counts. -/
def Rests.restored (_ : m.Rests site g co) (used : Nat) : Guest where
  globals := library site.settings.timeout m.catalog.drivers
  entryPoints := ownEntryPoints
  kernel := some (.thread co.bare)
  pending := (g.kept m.state).pending
  limit := none
  used

variable (h : m.Rests site g co)
include h

theorem Rests.save : m.save.1 = .ok h.record :=
  save_guest h.guest h.collapsed

theorem Rests.record_eq : h.record = {
    state := m.state.collapsed.code
    kernel := some (Utf8.encode (Val.thread co).store)
    stack := if m.state.collapsed = .synchronizedCall || m.state.collapsed = .synchronizedReturn then
      some (Utf8.encode (g.pending.getD .null).store) else none
    signals := some (m.queue.signals.map SignalRecord.ofSignal)
    rom := some m.catalog.save
    kernelMemory := some m.ledger.kernelMemory
    started := some m.ledger.started
    cpuTime := some m.ledger.cpuTime
    message := m.message } := by
  rw [record, recordRun_eq h.furnished.standard, h.kernel, Option.getD_some]

/-! ## Loading -/

/-- A guest that has booted takes up what the record has kept. -/
theorem Rests.restoreGuest_iff {g₀ g₁ : Guest} (hg₀ : g₀.Standard) (hempty : g₀.pending = none) :
    restoreGuest m.state.collapsed g₀ h.record = .ok g₁ ↔ (g.kept m.state).Storable ∧
      g₁ = { g₀ with kernel := some (.thread co.bare), pending := (g.kept m.state).pending } := by
  rw [← kept_collapsed]
  exact restoreGuest_stored hg₀ hempty h.furnished.standard h.furnished.toClean h.kernel h.collapsed h.holds

/-- Where a machine goes on that loads the record, if it can be read back. -/
theorem Rests.loadRun_ok (hcatalog : m'.catalog = m.catalog) (hsettings : site'.settings = site.settings)
    (hsteps : 3 ≤ site'.steps) (hst : (g.kept m.state).Storable) :
    ∃ used told outside, loadRun site' m.state.collapsed h.record m' =
      (.ok (), resumeRun site' m.state.collapsed (h.restored used) h.record { m' with told, outside }) := by
  have hdefault := bootGuest_default site' (m := m') (by rw [hcatalog, h.boot])
  rw [if_neg (Nat.not_lt.2 hsteps), hcatalog, hsettings] at hdefault
  obtain ⟨used, hused⟩ := hdefault
  obtain ⟨told, outside, -, htold⟩ := bootGuest_told site' m'
  refine ⟨used, told, outside, ?_⟩
  unfold loadRun
  rcases hboot : bootGuest site' m' with ⟨booted, m₁⟩
  rw [hboot] at hused htold
  obtain rfl : booted = _ := hused
  obtain rfl : m₁ = _ := htold
  dsimp only
  rw [(h.restoreGuest_iff ⟨rfl, rfl⟩ rfl).2 ⟨hst, rfl⟩]
  rfl

/-- It cannot go on if the guest cannot be read back, or if the boot program does not come to its end. -/
theorem Rests.loadRun_error (hcatalog : m'.catalog = m.catalog) (hst : ¬(3 ≤ site'.steps ∧ (g.kept m.state).Storable)) :
    ∃ f, (loadRun site' m.state.collapsed h.record m').1 = .error f := by
  cases hload : (loadRun site' m.state.collapsed h.record m').1 with
  | error f => exact ⟨f, rfl⟩
  | ok u =>
    obtain ⟨g₀, g₁, m₁, hg₀, -, hrestore, -⟩ := Machine.loadRun_ok hload
    obtain ⟨hsteps, used, rfl⟩ := bootGuest_booted hg₀ (by rw [hcatalog, h.boot])
    exact absurd ⟨hsteps, ((h.restoreGuest_iff ⟨rfl, rfl⟩ rfl).1 hrestore).1⟩ hst

omit h in
/-- A load of a run succeeds, or the machine is stopped. -/
theorem load_run (site' : Site μ) {r : MachineRecord} (hs : s.Collapsed) (hc : r.state = s.code) :
    (∃ f, (loadRun site' s r (m'.close.readdressed r)).1 = .error f) ∧ (load site' r m').state = .stopped ∨
      loadRun site' s r (m'.close.readdressed r) = (.ok (), load site' r m') := by
  unfold load
  rw [tryLoad_run hs hc]
  rcases loadRun site' s r (m'.close.readdressed r) with ⟨f | u, m₁⟩
  · exact .inl ⟨⟨f, rfl⟩, close_state _⟩
  · exact .inr rfl

/-- The record is for a catalog with the address of the machine. -/
theorem Rests.catalog (site' : Site μ) (address : Option String) (outside : μ) :
    ((fresh site' { m.catalog with address } outside).close.readdressed h.record).catalog = m.catalog := by
  rw [h.record_eq]
  rcases m.catalog with ⟨_ | address', boot, kernel, drivers⟩ <;> rfl

/-! ## Going on -/

omit h in
theorem restoredState_collapsed (s : State) : restoredState s.collapsed = restoredState s := by
  cases s <;> rfl

omit h in
theorem collapsed_restoredState (hs : s.Collapsed) : (restoredState s).collapsed = s := by
  rcases hs with rfl | rfl | rfl | rfl <;> rfl

/-- What a restored guest holds is what the record has kept of the other one. -/
theorem Rests.goesOn_guest {used : Nat} {ledger : Ledger} (hl : ledger.kernelMemory = m.ledger.kernelMemory) :
    g.GoesOn m.state { (h.restored used).remeasured with
      limit := some (ledger.ceiling site.settings.memoryBudget) } := by
  have hg := h.furnished
  refine ⟨⟨co, h.kernel, rfl⟩, fun hs => if_pos hs, ?_, ?_⟩
  · rw [hg.limit, ← hl]
    rfl
  · have hbare : (Val.thread co.bare).footprint = (Val.thread co).footprint := by
      rw [bare_eq_stripped (hg.kernel co h.kernel), Val.footprint, Val.footprint]
      exact footprint_stripped co
    unfold Guest.measure Guest.baseline Guest.kept
    dsimp only
    rw [hg.globals, hg.entryPoints, h.kernel]
    show _ + (Val.thread co.bare).footprint = _ + (Val.thread co).footprint
    rw [hbare]
    rfl

/-- The machine that a load has restored goes on from the one that was saved. -/
theorem Rests.goesOn (hsettings : site'.settings = site.settings) (hcatalog : m'.catalog = m.catalog)
    (hcapacity : m'.queue.capacity = m.queue.capacity) (used : Nat) :
    m.GoesOn (resumeRun site' m.state.collapsed (h.restored used) h.record m') := by
  unfold resumeRun
  rw [h.record_eq, hsettings]
  refine ⟨restoredState_collapsed _, fun g₀ hg₀ => ?_, fun _ => ?_, fun _ => ⟨rfl, rfl, rfl⟩,
    fun _ => congrArg Catalog.address hcatalog, fun _ => rfl⟩
  · obtain rfl := Option.some.inj (h.guest.symm.trans hg₀)
    exact ⟨_, rfl, h.goesOn_guest rfl⟩
  · dsimp only [Option.getD_some]
    rw [SignalRecord.map_toSignal, SignalQueue.replace, hcapacity, List.take_of_length_le h.bound]

/-- What goes on from where a machine was saved is saved alike. -/
theorem Rests.save_goesOn (hgoes : m.GoesOn m') (hstandard : ∀ g, m'.guest = some g → g.Standard) :
    m'.save.1 = .ok h.record := by
  have hsome : m.guest.isSome := by rw [h.guest]; rfl
  obtain ⟨g', hg', hguest⟩ := hgoes.guest g h.guest
  obtain ⟨co', hk, hk'⟩ := hguest.kernel
  obtain rfl : co = co' := Val.thread.inj (Option.some.inj (h.kernel.symm.trans hk))
  obtain ⟨hmemory, hstarted, htime⟩ := hgoes.accounts hsome
  have hcollapsed : m'.state.collapsed = m.state.collapsed := by
    rw [hgoes.state, ← restoredState_collapsed, collapsed_restoredState h.collapsed]
  have hstore : (Val.thread co.bare).store = (Val.thread co).store :=
    congrArg Json.text (Val.toJson_bare (.thread co))
  have hcatalog : m'.catalog.save = m.catalog.save := by
    rw [Catalog.save, hgoes.address hsome, Catalog.save]
  have hstack : (if m.state.collapsed = .synchronizedCall || m.state.collapsed = .synchronizedReturn then
      some (Utf8.encode (g'.pending.getD .null).store) else none) =
        if m.state.collapsed = .synchronizedCall || m.state.collapsed = .synchronizedReturn then
          some (Utf8.encode (g.pending.getD .null).store) else none := by
    split
    · next hs => rw [hguest.pending (m.state.synchronized_iff.1 hs)]
    · rfl
  rw [save_guest hg' (hcollapsed.symm ▸ h.collapsed), hcollapsed, recordRun_eq (hstandard g' hg'), h.record_eq, hk',
    Option.getD_some, hstore, hstack, hgoes.queue hsome, hcatalog, hmemory, hstarted, htime, hgoes.message hsome]

variable (site' : Site μ) (address : Option String) (outside : μ) {r : MachineRecord} (hr : m.save.1 = .ok r)
include hr

/-- If the guest cannot be read back, a load stops the machine. -/
theorem Rests.reload_stopped (hst : ¬(3 ≤ site'.steps ∧ (g.kept m.state).Storable)) :
    (m.reloaded site' address outside r).state = .stopped := by
  obtain rfl := Except.ok.inj (h.save.symm.trans hr)
  obtain ⟨f, hf⟩ := h.loadRun_error (h.catalog site' address outside) hst
  obtain ⟨-, hstopped⟩ | hload := load_run site' h.collapsed (congrArg MachineRecord.state h.record_eq)
  · exact hstopped
  · rw [hload] at hf
    cases hf

/-- Otherwise the machine goes on. -/
theorem Rests.reload_goesOn (hsettings : site'.settings = site.settings) (hsteps : 3 ≤ site'.steps)
    (hst : (g.kept m.state).Storable) :
    m.GoesOn (m.reloaded site' address outside r) ∧ (m.reloaded site' address outside r).save.1 = .ok r := by
  obtain rfl := Except.ok.inj (h.save.symm.trans hr)
  have hcatalog := h.catalog site' address outside
  obtain ⟨used, told, later, hrun⟩ := h.loadRun_ok hcatalog hsettings hsteps hst
  obtain ⟨⟨f, hf⟩, -⟩ | hload := load_run site' h.collapsed (congrArg MachineRecord.state h.record_eq)
  · rw [hrun] at hf
    cases hf
  · have hgoes : m.GoesOn (resumeRun site' m.state.collapsed (h.restored used) h.record
        { (fresh site' { m.catalog with address } outside).close.readdressed h.record with
          told
          outside := later }) := by
      refine h.goesOn hsettings ?_ ?_ used
      · exact hcatalog
      · rw [h.capacity, ← hsettings]
        rfl
    have hreloaded : m.reloaded site' address outside h.record = _ := congrArg Prod.snd (hload.symm.trans hrun)
    rw [hreloaded]
    refine ⟨hgoes, h.save_goesOn hgoes ?_⟩
    rintro _ ⟨⟩
    exact ⟨rfl, rfl⟩

end

end Machine

/-! ## Machines without a run -/

namespace Machine

section

variable {ν : Type} (m : Machine ν)

theorem save_stopped (hs : m.state = .stopped ∨ m.state = .stopping) :
    m.save.1 = .ok (.ofState State.stopped.code) := by
  unfold save
  rcases hs with hs | hs <;> rw [hs]

theorem save_rebooting (hs : m.state = .rebooting) : m.save.1 = .ok (.ofState State.rebooting.code) := by
  unfold save
  rw [hs]

variable (site : Site ν)

theorem load_ofState_stopped : (m.load site (.ofState State.stopped.code)).state = .stopped := by
  unfold Machine.load
  rw [tryLoad_stopped rfl]
  exact close_state m

theorem load_ofState_rebooting : (m.load site (.ofState State.rebooting.code)).state = .rebooting := by
  unfold Machine.load
  rw [tryLoad_rebooting rfl]

end

end Machine

/-! ## All reachable machines -/

section

variable {ν : Type} {site : Site ν} {m : Machine ν}

theorem Reachable.rests (h : Reachable site m) (hi : m.inside = none) (hboot : m.catalog.boot = Catalog.defaultBoot)
    (hdrivers : m.catalog.drivers.Ordered) (hs : m.state ≠ .stopped ∧ m.state ≠ .rebooting ∧ m.state ≠ .stopping) :
    ∃ g co, m.Rests site g co := by
  obtain ⟨log, hlog⟩ := h.history
  obtain ⟨g, hg, ⟨co, hk, -⟩, hp, hc⟩ := hlog.sound.run hi hs
  refine ⟨g, co, hg, hk, hboot, hlog.furnished hboot hdrivers g hg, hc, ?_, hlog.inOrder.capacity, hlog.inOrder.bound⟩
  rcases hstate : m.state <;> rw [hstate] at hp <;> exact hp

/-- A machine that loads what another one has saved goes on from it and is saved alike, unless it is stopped. -/
theorem save_load (h : Reachable site m) (hi : m.inside = none) (hboot : m.catalog.boot = Catalog.defaultBoot)
    (hdrivers : m.catalog.drivers.Ordered) : ∃ r, m.save.1 = .ok r ∧ ∀ {μ : Type} (site' : Site μ)
      (address : Option String) (outside : μ), site'.settings = site.settings →
        (m.reloaded site' address outside r).state ≠ .stopped →
          m.GoesOn (m.reloaded site' address outside r) ∧ (m.reloaded site' address outside r).save.1 = .ok r := by
  by_cases hs : m.state ≠ .stopped ∧ m.state ≠ .rebooting ∧ m.state ≠ .stopping
  · obtain ⟨g, co, hm⟩ := h.rests hi hboot hdrivers hs
    refine ⟨_, hm.save, fun site' address outside hsettings hstate => ?_⟩
    obtain ⟨hsteps, hst⟩ : 3 ≤ site'.steps ∧ (g.kept m.state).Storable :=
      Classical.not_not.1 fun hn => hstate (hm.reload_stopped site' address outside hm.save hn)
    exact hm.reload_goesOn site' address outside hm.save hsettings hsteps hst
  · by_cases hr : m.state = .rebooting
    · refine ⟨_, m.save_rebooting hr, fun site' address outside _ _ => ?_⟩
      have hguest (hg : m.guest.isSome) : False := ((reachable_sound h).guest_iff.1 hg).2 hr
      have hstate := (fresh site' { m.catalog with address } outside).load_ofState_rebooting site'
      refine ⟨⟨?_, fun g hg => (hguest (by rw [hg]; rfl)).elim, fun hg => (hguest hg).elim, fun hg => (hguest hg).elim,
        fun hg => (hguest hg).elim, fun hg => (hguest hg).elim⟩, Machine.save_rebooting _ hstate⟩
      rw [hr]
      exact hstate
    · refine ⟨_, m.save_stopped (by tauto), fun site' address outside _ hstate => ?_⟩
      exact absurd (Machine.load_ofState_stopped _ site') hstate

end

/-- A machine whose kernel is to ask for the echo of a greeting. -/
def greeting : Machine Console :=
  ((Machine.fresh consoleSite ⟨none, Catalog.defaultBoot,
    "yield\nlet r = yield component.invoke(\"loopback\", \"echo\", \"hello\")\nyield r", []⟩ ⟨0, 0⟩).start
      consoleSite).2.update consoleSite

/-- The machine once the call has been made. -/
def greeted : Machine Console :=
  ((Machine.beginTask consoleSite 0 { greeting with waiting := greeting.waiting.erase 0 }).finishTask
    consoleSite).update consoleSite

/-- The result of the call goes through the record. -/
theorem greeted_reloaded : ∃ r, greeted.save.1 = .ok r ∧
    (greeted.reloaded consoleSite none ⟨0, 0⟩ r).state = .synchronizedReturnPaused ∧
      greeted.GoesOn (greeted.reloaded consoleSite none ⟨0, 0⟩ r) ∧
        (greeted.reloaded consoleSite none ⟨0, 0⟩ r).save.1 = .ok r := by
  have hfree : greeting.inside.isNone ∧ 0 ∈ greeting.waiting := by decide +kernel
  obtain ⟨hstate, hinside, hboot, hnone, hstorable⟩ : greeted.state = .synchronizedReturn ∧ greeted.inside.isNone ∧
      greeted.catalog.boot = Catalog.defaultBoot ∧ greeted.catalog.drivers = [] ∧
        ∀ g ∈ greeted.guest, (g.kept greeted.state).Storable := by decide +kernel
  have hgreeting : Reachable consoleSite greeting := (Reachable.fresh consoleSite _ _).start.update
  have hgreeted : Reachable consoleSite greeted :=
    (hgreeting.beginTask (Option.isNone_iff_eq_none.1 hfree.1) hfree.2).finishTask.update
  have hi := Option.isNone_iff_eq_none.1 hinside
  have hdrivers : greeted.catalog.drivers.Ordered := by
    rw [hnone]
    exact List.Pairwise.nil
  obtain ⟨g, co, hrests⟩ := hgreeted.rests hi hboot hdrivers (by rw [hstate]; decide)
  obtain ⟨r, hr, hload⟩ := save_load hgreeted hi hboot hdrivers
  have hgoes := hrests.reload_goesOn consoleSite none ⟨0, 0⟩ hr rfl hrests.furnished.steps (hstorable g hrests.guest)
  have hreloaded := hgoes.1.state.trans (congrArg restoredState hstate)
  exact ⟨r, hr, hreloaded, hload consoleSite none ⟨0, 0⟩ rfl fun hs => nomatch hreloaded.symm.trans hs⟩

section

variable {ν : Type} {site : Site ν} {m : Machine ν}

/-- A machine that loads what another one has saved goes on exactly if the slots of the guest can be read back: their
numbers are finite, the counts of their frames are words, and they nest no deeper than what is read may. -/
theorem load_iff (h : Reachable site m) (hi : m.inside = none) (hboot : m.catalog.boot = Catalog.defaultBoot)
    (hdrivers : m.catalog.drivers.Ordered) (hs : m.state ≠ .stopped ∧ m.state ≠ .rebooting ∧ m.state ≠ .stopping) :
    ∃ r g, m.save.1 = .ok r ∧ m.guest = some g ∧ ∀ {μ : Type} (site' : Site μ) (address : Option String) (outside : μ),
      site'.settings = site.settings → site'.steps = site.steps →
        ((m.reloaded site' address outside r).state ≠ .stopped ↔ (g.kept m.state).Storable) := by
  obtain ⟨g, co, hm⟩ := h.rests hi hboot hdrivers hs
  refine ⟨_, g, hm.save, hm.guest, fun site' address outside hsettings hsteps => ⟨fun hstate => ?_, fun hst => ?_⟩⟩
  · exact (Classical.not_not.1 fun hn => hstate (hm.reload_stopped site' address outside hm.save hn)).2
  · have hgoes := (hm.reload_goesOn site' address outside hm.save hsettings (hsteps ▸ hm.furnished.steps) hst).1
    rw [hgoes.state]
    rcases hstate : m.state <;> simp [restoredState, hstate] at hs ⊢

end

/-- A machine whose kernel is written in lists that nest too deep to be read back. -/
def nested : Machine Console :=
  ((Machine.fresh consoleSite ⟨none, Catalog.defaultBoot,
    "let x = " ++ String.ofList (List.replicate 61 '[' ++ List.replicate 61 ']') ++ "\nyield", []⟩ ⟨0, 0⟩).start
      consoleSite).2

theorem nested_stopped : ∃ r, nested.save.1 = .ok r ∧
    (nested.reloaded consoleSite none ⟨0, 0⟩ r).state = .stopped := by
  obtain ⟨hstate, hinside, hboot, hnone, hstorable⟩ : nested.state = .suspended ∧ nested.inside.isNone ∧
      nested.catalog.boot = Catalog.defaultBoot ∧ nested.catalog.drivers = [] ∧
        ¬∀ g ∈ nested.guest, (g.kept nested.state).Storable := by decide +kernel
  have hdrivers : nested.catalog.drivers.Ordered := by
    rw [hnone]
    exact List.Pairwise.nil
  have hnested : Reachable consoleSite nested := (Reachable.fresh consoleSite _ _).start
  obtain ⟨r, g, hr, hg, hload⟩ := load_iff hnested (Option.isNone_iff_eq_none.1 hinside) hboot hdrivers
    (by rw [hstate]; decide)
  refine ⟨r, hr, Classical.not_not.1 fun hgoes => hstorable fun g' hg' => ?_⟩
  obtain rfl := Option.some.inj (hg.symm.trans hg')
  exact (hload consoleSite none ⟨0, 0⟩ rfl rfl).1 hgoes

end VirtualComputer
