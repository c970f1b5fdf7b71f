import VirtualComputer.Proofs.Machine.Telling

/-!
# Messages are sent in synchronized calls

A machine sends a message only when an update makes the call that its kernel has asked for, and then at most one
(`Operation.sends`).  So over any course of operations it has sent no more messages than such calls were made
(`sent_in_calls`).
-/

namespace VirtualComputer

open Machine

/-- Whether an operation makes the call that a kernel has asked for: an update does that, unless a worker still holds
the guest. -/
def Operation.calls {ν : Type} : Operation ν → Machine ν → Bool
  | .update, m => m.state = .synchronizedCall && m.inside.isNone
  | _, _ => false

namespace Machine

variable {ν : Type} {site : Site ν} {m m' m'' : Machine ν} {n k : ℕ}

/-- The number of calls that are made in a course. -/
def callsMade (site : Site ν) : List (Operation ν) → Machine ν → ℕ
  | [], _ => 0
  | op :: ops, m => (op.calls m).toNat + callsMade site ops (op.perform site m)

/-! ## Starts, updates and records -/

theorem start_sends (site : Site ν) (m : Machine ν) : m.Sends 0 (m.start site).2 := by
  rcases start_leaves site m with h | ⟨-, texts, ledger, outside, -, hstarted⟩
  · rw [h]
    exact .refl m
  · have hprinted : m.Sends 0 (m.tellAll (texts.map .printed)) := (Printed.of_texts texts m).tells.sends
    rcases hstarted with ⟨g, h⟩ | ⟨f, h⟩ <;> rw [h] <;> refine hprinted.quietly ?_
    · refine sends_of_told [.announced .started, .marked] rfl ?_
      simp [Event.message?]
    · refine sends_of_told [.noticed (.startFailed f)] rfl ?_
      simp [Event.message?]

theorem shown_sends (site : Site ν) (ended : Bool) (m : Machine ν) : m.Sends 0 (shown site ended m) := by
  have hend : m.takeMessage.2.Sends 0 (announceEnd site ended m.takeMessage.2) := by
    obtain ⟨es, hes, hend⟩ := announceEnd_events site ended m.takeMessage.2
    rw [hend]
    refine sends_of_told _ rfl (List.forall_mem_append.2 ⟨?_, fun e he => (hes e he).2⟩)
    cases ended <;> simp [Event.message?]
  exact ((takeMessage_tells m).sends.quietly hend).quietly (showMessage_tells site _ _).sends

/-- An update sends what the call that it makes sends, if it makes one. -/
theorem update_sends (site : Site ν) (m : Machine ν) : m.Sends (Operation.update.calls m).toNat (m.update site) := by
  have hticked : m.Sends 0 (ticked site m).2 := by
    have hadvance : m.Sends 0 (advance (noted site m)).2 := (advance_advanced (noted site m)).tells.sends.before rfl
    exact hadvance.quietly (shown_sends site m.ended _)
  rw [update_ticked]
  cases ha : (ticked site m).1 with
  | nothing => exact hticked.mono (Nat.zero_le _)
  | reboot =>
    have hclosed := hticked.quietly (close_tells _).sends
    exact (hclosed.quietly (start_sends site _)).mono (Nat.zero_le _)
  | call =>
    have hs : m.state = .synchronizedCall := (advance_advanced (noted site m)).action.2 ha
    have hinside : (ticked site m).2.inside = m.inside := by
      obtain ⟨message, told, hshown⟩ := shown_told site m.ended (noted site m)
      rw [ticked_call site hs, hshown]
      rfl
    have hcall := (synchronize_tells site (ticked site m).2).sends
    rw [hinside] at hcall
    refine ((hticked.trans hcall).mono (Nat.le_of_eq ?_) : m.Sends _ _)
    rw [Operation.calls, hs]
    cases m.inside <;> rfl

theorem loadRun_sends (site : Site ν) (s : State) (r : MachineRecord) (m : Machine ν) :
    m.Sends 0 (loadRun site s r m).2 := by
  have hboot := (bootGuest_printed site m).tells.sends
  unfold loadRun
  rcases hb : bootGuest site m with ⟨f | g, m'⟩ <;> rw [hb] at hboot <;> dsimp only
  · exact hboot
  · split
    · exact hboot
    · refine hboot.quietly ((Sends.refl m').before ?_)
      rfl

theorem load_sends (site : Site ν) (r : MachineRecord) (m : Machine ν) : m.Sends 0 (m.load site r) := by
  have htried : m.Sends 0 (tryLoad site r m.close).2 := by
    refine (close_tells m).sends.quietly ?_
    unfold tryLoad
    dsimp only
    split
    · exact .of_eq rfl
    · exact .of_eq rfl
    · exact .of_eq rfl
    · exact .of_eq rfl
    · exact .of_eq rfl
    · exact (loadRun_sends site _ r _).before rfl
  unfold load
  rcases ht : tryLoad site r m.close with ⟨f | u, m'⟩ <;> rw [ht] at htried <;> dsimp only
  · exact (htried.quietly (tell_tells ⟨rfl, rfl⟩ m').sends).quietly (close_tells _).sends
  · exact htried

end Machine

/-- An operation sends a message only if it makes a call, and then at most one. -/
theorem Operation.sends {ν : Type} (op : Operation ν) (site : Site ν) (m : Machine ν) :
    m.Sends (op.calls m).toNat (op.perform site m) := by
  cases op with
  | start => exact start_sends site m
  | stop => exact (stop_tells m).sends
  | signal s => exact (signal_tells s m).sends
  | update => exact update_sends site m
  | deferred =>
    have hupdate := update_sends site { m with inside := some .nothing }
    have hcalls : Operation.update.calls { m with inside := some .nothing } = false := by
      rw [Operation.calls]
      exact Bool.and_false _
    rw [hcalls] at hupdate
    exact hupdate
  | receive msg =>
    exact handle_of (P := m.Sends 0) msg (.refl m) (fun s => (signal_tells s m).sends) (start_sends site m)
      (stop_tells m).sends
  | save => exact (save_tells m).sends
  | load r => exact load_sends site r m
  | beginTask epoch =>
    have htaken := beginTask_taken site epoch { m with waiting := m.waiting.erase epoch }
    exact htaken.tells.sends
  | finishTask => exact (finishTask_tells site m).sends
  | elsewhere outside => exact .refl m

/-- So a course sends no more messages than it makes calls. -/
theorem Machine.after_sends {ν : Type} (site : Site ν) (ops : List (Operation ν)) (m : Machine ν) :
    m.Sends (callsMade site ops m) (m.after site ops) := by
  induction ops generalizing m with
  | nil => exact .refl m
  | cons op ops ih => exact (op.sends site m).trans (ih _)

/-- Guests send in synchronized calls only, and at most once in each.  A machine sends only when an update makes such
a call, and one message at most, so over any course no more than such calls were made. -/
theorem sent_in_calls {ν : Type} (site : Site ν) :
    (∀ {σ : Type} (host : Host σ), host.SendsInCalls) ∧
      (∀ (op : Operation ν) (m : Machine ν), m.Sends (op.calls m).toNat (op.perform site m)) ∧
      ∀ (ops : List (Operation ν)) (m : Machine ν), m.Sends (callsMade site ops m) (m.after site ops) :=
  ⟨fun host => host.sends_in_calls, fun op m => op.sends site m, fun ops m => m.after_sends site ops⟩

end VirtualComputer
