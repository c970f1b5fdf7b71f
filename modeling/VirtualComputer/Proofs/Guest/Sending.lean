import VirtualComputer.Guest
import VirtualComputer.Proofs.Guest.Keeping

/-!
# Guests send in synchronized calls only

The world of a guest changes by what it prints and what it sends, and goes on while a time is read from it
(`Host.Reaches`).  Whatever a coroutine does while the
world is not held still for it, it sends nothing, and how the host sends makes no difference to it
(`ofHost_unsynchronized`); nor does a boot program send, nor an entry point.  A pending call sends at most once
(`Host.sends_in_calls`).
-/

namespace VirtualComputer

variable {σ : Type}

/-- From one state of the world to another, with so many messages sent and whatever has been printed and read. -/
inductive Host.Reaches (host : Host σ) (w : σ) : Nat → σ → Prop
  | refl : Reaches host w 0 w
  | print {n : Nat} {v : σ} (h : Reaches host w n v) (text : String) : Reaches host w n (host.print text v)
  | send {n : Nat} {v : σ} (h : Reaches host w n v) (target method : String) (args : List Scalar) :
      Reaches host w (n + 1) (host.send target method args v).2
  | later {n : Nat} {v : σ} (h : Reaches host w n v) (reader : Native) : Reaches host w n (host.later reader v)

variable {host : Host σ} {u v w : σ} {n k : Nat}

theorem Host.Reaches.trans (h : host.Reaches u n v) (h' : host.Reaches v k w) : host.Reaches u (n + k) w := by
  induction h' with
  | refl => exact h
  | print _ text ih => exact ih.print text
  | send _ target method args ih => exact ih.send target method args
  | later _ reader ih => exact ih.later reader

/-! ## Natives -/

theorem Native.settle_world (r : Except Mistake Val) (s : Session σ) : (settle r s).2.world = s.world := by
  cases r <;> rfl

/-- A native reaches the world by reading a time, by printing or, while the world is held still, by sending. -/
theorem Native.call_world (host : Host σ) (c : Conditions) (n : Native) (args : List Val) (s : Session σ) :
    (n.call host c args s).2.world = s.world ∨
      (n.call host c args s).2.world = host.later n s.world ∨
      (∃ text, (n.call host c args s).2.world = host.print text s.world) ∨
      (c.synchronized ∧ ∃ target method payload,
        (n.call host c args s).2.world = (host.send target method payload s.world).2) := by
  unfold call
  split
  · exact .inl rfl
  · next h =>
    split
    · exact .inr (.inl rfl)
    · exact .inr (.inl rfl)
    · exact .inr (.inl rfl)
    · exact .inl rfl
    · exact .inl rfl
    · exact .inl rfl
    · exact .inl rfl
    · exact .inr (.inr (.inl ⟨_, rfl⟩))
    · exact .inl (settle_world _ s)
    · split
      · exact .inl rfl
      · refine .inr (.inr (.inr ⟨?_, _, _, _, rfl⟩))
        cases hc : c.synchronized
        · rw [hc] at h
          exact absurd rfl h
        · rfl
    · exact .inl (settle_world _ s)

theorem Native.call_reaches (host : Host σ) (c : Conditions) (n : Native) (args : List Val) (s : Session σ) :
    ∃ k ≤ c.synchronized.toNat, host.Reaches s.world k (n.call host c args s).2.world := by
  rcases call_world host c n args s with h | h | ⟨text, h⟩ | ⟨hc, target, method, payload, h⟩ <;> rw [h]
  · exact ⟨0, Nat.zero_le _, .refl⟩
  · exact ⟨0, Nat.zero_le _, .later .refl n⟩
  · exact ⟨0, Nat.zero_le _, .print .refl text⟩
  · rw [hc]
    exact ⟨1, Nat.le_refl 1, .send .refl target method payload⟩

/-- While the world is not held still, it makes no difference to any native how the host sends. -/
theorem Native.call_unsynchronized (host : Host σ) (send : String → String → List Scalar → σ → Option (List Scalar) × σ)
    (limit : Option Nat) (n : Native) (args : List Val) (s : Session σ) :
    n.call { host with send } ⟨limit, false⟩ args s = n.call host ⟨limit, false⟩ args s := by
  cases n <;> rfl

/-! ## Coroutines -/

/-- Nor does it to any coroutine. -/
theorem ofHost_unsynchronized (host : Host σ) (send : String → String → List Scalar → σ → Option (List Scalar) × σ)
    (globals : Entries Val) (baseline : Nat) (limit : Option Nat) :
    Runtime.ofHost { host with send } globals baseline ⟨limit, false⟩ =
      Runtime.ofHost host globals baseline ⟨limit, false⟩ := by
  unfold Runtime.ofHost
  congr 1
  funext n args s
  exact Native.call_unsynchronized host send limit n args s

/-- Whatever a coroutine does while the world is not held still, nothing is sent. -/
theorem reaches_kept (host : Host σ) (globals : Entries Val) (baseline : Nat) (limit : Option Nat) :
    (Runtime.ofHost host globals baseline ⟨limit, false⟩).Keeps fun s t => host.Reaches s.world 0 t.world where
  refl _ := .refl
  trans h h' := h.trans h'
  call n args s := by
    obtain ⟨k, hk, h⟩ := n.call_reaches host ⟨limit, false⟩ args s
    obtain rfl := Nat.le_zero.1 hk
    exact h
  admits _ _ := .refl

/-! ## Guests -/

namespace Guest

/-- A boot program sends nothing. -/
theorem boot_reaches (host : Host σ) (g : Guest) (steps : Nat) (program : Stmt) (w : σ) :
    host.Reaches w 0 (g.boot host steps program w).2.2 := by
  have h := Coroutine.resume_keeps (reaches_kept host g.globals 0 none) steps .null
    (Coroutine.ofProgram program false) ⟨0, w⟩
  unfold boot
  dsimp only
  split <;> exact h

/-- Nor does a kernel while it is resumed. -/
theorem resume_reaches (host : Host σ) (g : Guest) (steps : Nat) (d : Delivery) (w : σ) :
    host.Reaches w 0 (g.resume host steps d w).2.2 := by
  unfold resume
  split
  · exact .refl
  · next g _ =>
    split
    · next v _ _ co _ =>
      have h := Coroutine.resume_keeps (reaches_kept host g.globals g.baseline g.limit) steps v co
        ⟨g.baseline + co.footprint, w⟩
      unfold resumeThread
      dsimp only
      split <;> exact h
    · exact .refl

/-- The pending call sends at most once. -/
theorem invoke_reaches (host : Host σ) (g : Guest) (w : σ) : ∃ n ≤ 1, host.Reaches w n (g.invoke host w).2.2 := by
  unfold invoke
  dsimp only
  split
  · exact ⟨0, Nat.zero_le 1, .refl⟩
  · split
    · exact ⟨0, Nat.zero_le 1, .refl⟩
    · exact Native.call_reaches host ⟨g.limit, true⟩ _ _ ⟨0, w⟩

end Guest

/-- The ways in which guests run, and what is sent by each. -/
structure Host.SendsInCalls (host : Host σ) : Prop where
  resume : ∀ globals baseline limit (co : Thread) steps d s, host.Reaches s.world 0
    (co.resume (.ofHost host globals baseline ⟨limit, false⟩) steps d s).2.2.world
  /-- However the host sends, the resume is the same. -/
  resume_same : ∀ globals baseline limit (co : Thread) steps d s send,
    co.resume (.ofHost { host with send } globals baseline ⟨limit, false⟩) steps d s =
      co.resume (.ofHost host globals baseline ⟨limit, false⟩) steps d s
  boot : ∀ (g : Guest) steps program w, host.Reaches w 0 (g.boot host steps program w).2.2
  boot_same : ∀ (g : Guest) steps program w send,
    g.boot { host with send } steps program w = g.boot host steps program w
  /-- An entry point has no host to send with, and fails. -/
  entryPoint : ∀ (g : Guest) name args v first, Entries.get? name g.entryPoints = some v →
    v.callable? = some (.send, first) →
    g.callEntryPoint name args = .error (.runtime "component.send is not available here")
  invoke : ∀ (g : Guest) w, ∃ n ≤ 1, host.Reaches w n (g.invoke host w).2.2

theorem Host.sends_in_calls (host : Host σ) : host.SendsInCalls where
  resume globals baseline limit co steps d s :=
    Coroutine.resume_keeps (reaches_kept host globals baseline limit) steps d co s
  resume_same globals baseline limit co steps d s send := by rw [ofHost_unsynchronized]
  boot g steps program w := g.boot_reaches host steps program w
  boot_same g steps program w send := by
    unfold Guest.boot
    rw [ofHost_unsynchronized]
  entryPoint g name args v first hv hsend := by
    unfold Guest.callEntryPoint
    rw [hv, Option.bind_some, hsend]
    rfl
  invoke g w := g.invoke_reaches host w

end VirtualComputer
