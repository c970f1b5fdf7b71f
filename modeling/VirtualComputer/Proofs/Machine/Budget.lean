import VirtualComputer.Proofs.Machine.Kernels
import VirtualComputer.Proofs.Machine.Reachable

/-!
# What the memory budget amounts to

The memory in use is that of the tables of a guest, which are its globals and its entry points, and that of its slots.
The ceiling of a run counts the slots, the fixed overhead and the budget, so a guest that has just started can have
what is left of the overhead beside the tables, and the budget (`start_budget`): the whole budget only if the tables
fit into the overhead.  Slots and overhead are added up as a word; where their sum does not fit, it wraps round, and
the guest has already more than the ceiling leaves for it.
-/

namespace VirtualComputer

namespace Guest

/-- The bytes of the globals, with the drivers among them, and of what the boot program has published. -/
def tables (g : Guest) : ℕ :=
  tableFootprint g.globals + tableFootprint g.entryPoints

/-- The bytes of the slots. -/
def slots (g : Guest) : ℕ :=
  slotFootprint g.pending + slotFootprint g.kernel

theorem measure_eq (g : Guest) : g.measure = g.tables + g.slots := by
  unfold measure baseline tables slots
  omega

theorem tables_pos (g : Guest) : 0 < g.tables := by
  unfold tables tableFootprint
  have hcost : 0 < costs.object := by decide
  omega

end Guest

/-- The memory of a guest that is about to begin a run. -/
structure Guest.Funded {ν : Type} (site : Site ν) (drivers : Entries String) (kernelMemory : ℕ) (g : Guest) : Prop where
  globals : g.globals = library site.settings.timeout drivers
  used : g.used = g.measure
  kernel : kernelMemory = (g.slots + site.settings.kernelOverhead) % 0x10000000000000000
  limit : g.limit = some (min (kernelMemory + site.settings.memoryBudget) Word.unsigned64.greatest.toNat)

namespace Machine

variable {ν : Type} {site : Site ν} {m : Machine ν} {g : Guest}

/-- A guest whose boot program has run has the library, and empty slots. -/
theorem bootGuest_ok (h : (bootGuest site m).1 = .ok g) :
    g.globals = library site.settings.timeout m.catalog.drivers ∧ g.kernel = none ∧ g.pending = none := by
  unfold bootGuest at h
  dsimp only at h
  split at h
  · cases h
  · split at h
    · next hboot =>
      cases h
      unfold Guest.boot at hboot
      dsimp only at hboot
      split at hboot <;> cases hboot
      exact ⟨rfl, rfl, rfl⟩
    · cases h

theorem bootKernel_funded (h : (bootKernel site m).1 = .ok g) :
    g.Funded site m.catalog.drivers (bootKernel site m).2.ledger.kernelMemory := by
  obtain ⟨g₀, m₀, program, w, hg₀, -, -, hg, hkernelMemory⟩ := bootKernel_ok h
  obtain ⟨hglobals, hkernel, hpending⟩ := bootGuest_ok hg₀
  obtain ⟨r, left, hran⟩ := Guest.resume_ran (host site) site.steps m₀ (d := .nothing) (g := g₀.load program) rfl rfl
  obtain ⟨pending, used, hrest, -⟩ := hran.rest
  rw [hrest] at hg
  have htables : g₀.measure = g.tables := by
    rw [Guest.measure_eq, Guest.slots, hkernel, hpending, hg]
    rfl
  have hused : g.used = g.measure := by
    rw [hg]
    rfl
  refine ⟨?_, hused, ?_, ?_⟩
  · rw [hg]
    exact hglobals
  · rw [hkernelMemory, htables, hused, Guest.measure_eq, Nat.add_sub_cancel_left]
  · rw [hg]
    rfl

theorem start_funded (h : (start site m).1) : ∃ g, (start site m).2.guest = some g ∧
    g.Funded site m.catalog.drivers (start site m).2.ledger.kernelMemory := by
  have hs : m.state = .stopped := by
    by_contra hs
    rw [start, if_pos hs] at h
    cases h
  obtain ⟨m₀, hsituation, -, hbegun, hfailed⟩ := start_stopped site hs
  have hcatalog : m₀.catalog = m.catalog := congrArg Situation.catalog hsituation
  cases hb : bootKernel site m₀ with
  | mk r m' =>
    cases r with
    | error f =>
      rw [hfailed f m' hb] at h
      cases h
    | ok g =>
      have hfunded := bootKernel_funded (congrArg Prod.fst hb)
      rw [hb, hcatalog] at hfunded
      rw [hbegun g m' hb]
      exact ⟨g, rfl, hfunded⟩

/-- When a run has begun, the ceiling leaves room for the whole budget on top of the memory in use exactly if the
library, its drivers and the entry points fit into the overhead, and both the slots with the overhead and the memory in
use with the budget into a word.  Below the greatest word, what the ceiling leaves is the budget and what remains of the
overhead beside them, or less than the budget by what they take beyond it; it is less by 2^64 more for each time that
the slots with the overhead do not fit. -/
theorem start_budget (hword : Word.unsigned64.holds site.settings.kernelOverhead) (h : (start site m).1) : ∃ g limit,
    (start site m).2.guest = some g ∧ g.limit = some limit ∧ g.used = g.measure ∧
      g.globals = library site.settings.timeout m.catalog.drivers ∧
      (g.used + site.settings.memoryBudget ≤ limit ↔ g.tables ≤ site.settings.kernelOverhead ∧
        g.slots + site.settings.kernelOverhead ≤ Word.unsigned64.greatest.toNat ∧
        g.used + site.settings.memoryBudget ≤ Word.unsigned64.greatest.toNat) ∧
      (limit < Word.unsigned64.greatest.toNat →
        limit + g.tables + 2 ^ 64 * ((g.slots + site.settings.kernelOverhead) / 2 ^ 64) =
          g.used + site.settings.kernelOverhead + site.settings.memoryBudget) := by
  obtain ⟨g, hg, hfunded⟩ := start_funded h
  have hkernel := hfunded.kernel
  have hused := hfunded.used.trans g.measure_eq
  have hlimit := hfunded.limit
  have hgreatest : Word.unsigned64.greatest.toNat + 1 = 2 ^ 64 := by decide
  have hoverhead := Word.holds_unsigned64.1 hword
  generalize Word.unsigned64.greatest.toNat = greatest at hgreatest hlimit ⊢
  refine ⟨g, _, hg, hlimit, hfunded.used, hfunded.globals, ?_, ?_⟩
  · rw [Nat.le_min]
    omega
  · omega

/-- Where no overhead is added to the memory of the kernel. -/
def tightSite : Site Console :=
  Console.site "computer" { Settings.standardMachine with kernelOverhead := 0 } 100

/-- Without an overhead, a run begins with less than the budget. -/
theorem tight_budget : ∃ g limit,
    (start tightSite (fresh tightSite ⟨none, Catalog.defaultBoot, "yield 1", []⟩ ⟨0, 0⟩)).2.guest = some g ∧
      g.limit = some limit ∧ limit < g.used + tightSite.settings.memoryBudget := by
  have hstarts : (start tightSite (fresh tightSite ⟨none, Catalog.defaultBoot, "yield 1", []⟩ ⟨0, 0⟩)).1 = true := by
    decide +kernel
  obtain ⟨g, limit, hg, hlimit, -, -, hroom, -⟩ := start_budget (by decide) hstarts
  refine ⟨g, limit, hg, hlimit, Nat.lt_of_not_le fun hle => ?_⟩
  exact absurd (hroom.1 hle).1 (Nat.not_le_of_lt g.tables_pos)

end Machine

end VirtualComputer
