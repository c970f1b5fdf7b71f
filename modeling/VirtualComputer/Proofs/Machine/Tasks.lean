import VirtualComputer.Proofs.Machine.Guests

/-!
# Tasks keep machines sound

A task that begins takes the machine from waiting for a worker to a resume, or parks it, or tears it down
(`beginTask_sound`); a task that finishes leaves the guest waiting again or releases it (`finishTask_sound`).
-/

namespace VirtualComputer.Machine

variable {ν : Type} {site : Site ν} {m : Machine ν} {g : Guest}

/-! ## Beginning -/

/-- A task that waits may begin while nobody is inside a resume. -/
theorem beginTask_sound (h : m.Sound) (hi : m.inside = none) {epoch : Nat} (he : epoch ∈ m.waiting) :
    (beginTask site epoch { m with waiting := m.waiting.erase epoch }).Sound := by
  rcases m with ⟨state, guest, task, current, waiting, inside, queue, ledger, _, lastUpdate, _, _, _, _, outside, _⟩
  -- Only a task of the current epoch does anything, and there is none unless the machine waits for it.
  have hold (hv : Void current waiting) : current ≠ epoch := Nat.ne_of_gt (hv epoch he)
  unfold beginTask
  cases h with
  | empty hs hw =>
    rw [if_pos (hold hw)]
    exact .empty hs (hw.erase epoch)
  | resting hs hg hp hw =>
    rw [if_pos (hold hw)]
    exact .resting hs hg hp (hw.erase epoch)
  | busy hs hw => cases hi
  | queued hs hg hp hw =>
    split
    · next hne => exact .queued hs hg hp (hw.erase hne)
    · next heq =>
      obtain rfl : current = epoch := Decidable.not_not.1 heq
      rcases hs with rfl | rfl | rfl
      · rw [if_neg (by simp)]
        split
        · exact .resting (.inr (.inr (.inl rfl))) hg trivial hw.begin
        · exact .busy (.inl rfl) hw.begin
      · rw [if_neg (by simp)]
        split
        · exact .resting (.inr (.inr (.inr (.inr rfl)))) hg hp hw.begin
        · exact .busy (.inl rfl) hw.begin
      · rw [if_pos rfl]
        exact close_sound hw.begin.later rfl nofun

/-! ## Finishing -/

/-- What is known of a guest that has been resumed. -/
def Resumed (r : Except Fault Progress) (g : Guest) : Prop :=
  ∀ w, r = .ok (.yielded w) → g.Waits ∧ (w = .call → ∃ v, g.pending = some v ∧ v.isCallable)

theorem Granted.sound {w : Wish} {m' : Machine ν} (hm : m.Granted w m') (h : m.Free g)
    (hr : Resumed (.ok (.yielded w)) g) : m'.Sound := by
  obtain ⟨hg, hcall⟩ := hr w rfl
  cases hm with
  | asleep seconds wakeAt => exact h.rest_sound (.inr (.inl rfl)) hg trivial
  | idle => exact h.rest_sound (.inl rfl) hg trivial
  | resumed => exact h.schedule_sound (.inl rfl) hg trivial
  | calls => exact h.rest_sound (.inr (.inr (.inr (.inl rfl)))) hg (hcall rfl)
  | closed => exact h.close_sound
  | reboots => exact h.reboot_sound

/-- Whatever a resume has come to, the machine goes on in order. -/
theorem Reacted.sound {r : Except Fault Progress} {m' : Machine ν} (hm : m.Reacted r m') (h : m.Free g)
    (hr : Resumed r g) : m'.Sound := by
  cases hm with
  | stopped => exact h.close_sound
  | granted _ hgranted => exact hgranted.sound h hr
  | ended _ notices message => exact (h.noticed (notices.map .noticed) message).close_sound

/-- Finishing a resume keeps a machine sound, whatever happened to it meanwhile. -/
theorem finishTask_sound (h : m.Sound) : (finishTask site m).Sound := by
  cases hi : m.inside with
  | none =>
    rw [finishTask_idle site hi]
    exact h
  | some d =>
    obtain ⟨hw, g, hg⟩ := h.resuming hi
    obtain ⟨texts, outside, hf⟩ := finishTask_resumed site hi hg
    rw [hf]
    exact (react_reacted site _ _).sound ⟨rfl, rfl, rfl, hw⟩ fun w hw => Guest.resume_yields hw

end VirtualComputer.Machine
