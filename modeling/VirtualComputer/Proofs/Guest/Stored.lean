import VirtualComputer.Guest.Record
import VirtualComputer.Proofs.Entries
import VirtualComputer.Proofs.Guest.Bare
import VirtualComputer.Proofs.Syntax.Stored

/-!
# Stored guest values are read back

The stored form of a value is read exactly if it fits the depth that it is read with, and then as the value without
positions (`Val.reads`, `reads_coroutine`).  Whatever is read from something that fits has no positions, its objects
are in order, and it is stored in a form that fits (`Val.yields`).
-/

namespace VirtualComputer

open Json

/-! ## Lists of values -/

theorem Val.toJsonItems_eq (vs : List Val) : Val.toJsonItems vs = vs.map Val.toJson := by
  induction vs with
  | nil => rfl
  | cons v vs ih => rw [Val.toJsonItems, ih, List.map_cons]

theorem Val.toJsonEntries_eq (es : List (String × Val)) : Val.toJsonEntries es = es.map fun e => (e.1, e.2.toJson) := by
  induction es with
  | nil => rfl
  | cons e es ih => rw [Val.toJsonEntries, ih, List.map_cons]

/-- The stored form of a variable. -/
def bindingJson (b : String × Val) : Json :=
  .obj [("name", .str b.1), ("value", b.2.toJson)]

theorem Val.toJsonBindings_eq (env : List (String × Val)) : Val.toJsonBindings env = env.map bindingJson := by
  induction env with
  | nil => rfl
  | cons b env ih => rw [Val.toJsonBindings, ih, List.map_cons, bindingJson]

/-- What is stored of a coroutine, from the outermost frame and variable to the innermost. -/
theorem Coroutine.toJson_eq (co : Thread) : co.toJson = .obj [
    ("frames", .arr (co.frames.reverse.map Frame.toJson)), ("env", .arr (co.env.reverse.map bindingJson)),
    ("control", Val.toJsonControl co.control), ("resume_value", Val.toJsonOption co.delivered),
    ("status", .str co.status.tag), ("protected", .bool co.guarded)] := by
  rw [Coroutine.toJson, Val.toJsonThread, Val.toJsonBindings_eq, List.map_reverse, List.map_reverse]

theorem Val.toJsonOption_eq (v : Option Val) : Val.toJsonOption v = ofOption Val.toJson v := by
  cases v <;> rfl

theorem Val.toJson_obj (v : Val) : ∃ members, v.toJson = .obj members := by
  cases v <;> exact ⟨_, rfl⟩

/-! ## Positions are not stored -/

theorem Frame.toJson_bare (f : Frame) : f.bare.toJson = f.toJson := by
  rw [Frame.bare, Frame.toJson, Frame.toJson, f.node.toJson_bare]

mutual

theorem Val.toJson_bare : ∀ v : Val, v.bare.toJson = v.toJson
  | .list items => by rw [Val.bare, Val.toJson, Val.toJson, Val.toJson_bareItems items]
  | .obj es => by rw [Val.bare, Val.toJson, Val.toJson, Val.toJson_bareEntries es]
  | .bound _ args => by rw [Val.bare, Val.toJson, Val.toJson, Val.toJson_bareItems args]
  | .thread co => by rw [Val.bare, Val.toJson, Val.toJson, Val.toJson_bareThread co]
  | .null | .bool _ | .num _ | .str _ | .native _ | .error _ _ => rfl

theorem Val.toJson_bareItems : ∀ vs : List Val, Val.toJsonItems (Val.bareItems vs) = Val.toJsonItems vs
  | [] => rfl
  | v :: vs => by rw [Val.bareItems, Val.toJsonItems, Val.toJsonItems, Val.toJson_bare v, Val.toJson_bareItems vs]

theorem Val.toJson_bareEntries : ∀ es : List (String × Val),
    Val.toJsonEntries (Val.bareEntries es) = Val.toJsonEntries es
  | [] => rfl
  | (_, v) :: es => by
    rw [Val.bareEntries, Val.toJsonEntries, Val.toJsonEntries, Val.toJson_bare v, Val.toJson_bareEntries es]

theorem Val.toJson_bareBindings : ∀ env : List (String × Val),
    Val.toJsonBindings (Val.bareEntries env) = Val.toJsonBindings env
  | [] => rfl
  | (_, v) :: env => by
    rw [Val.bareEntries, Val.toJsonBindings, Val.toJsonBindings, Val.toJson_bare v, Val.toJson_bareBindings env]

theorem Val.toJson_bareControl : ∀ c : Control Val, Val.toJsonControl (Val.bareControl c) = Val.toJsonControl c
  | .return v | .throw v | .suspend v => by
    rw [Val.bareControl, Val.toJsonControl, Val.toJsonControl, Val.toJson_bare v]
  | .none | .break | .continue => rfl

theorem Val.toJson_bareOption : ∀ v : Option Val, Val.toJsonOption (Val.bareOption v) = Val.toJsonOption v
  | none => rfl
  | some v => Val.toJson_bare v

theorem Val.toJson_bareThread : ∀ co : Coroutine Val, Val.toJsonThread (Val.bareThread co) = Val.toJsonThread co
  | ⟨frames, env, control, delivered, _, _⟩ => by
    rw [Val.bareThread, Val.toJsonThread, Val.toJsonThread, Val.toJson_bareBindings env,
      Val.toJson_bareControl control, Val.toJson_bareOption delivered, ← List.map_reverse, List.map_map,
      List.map_congr_left fun f _ => f.toJson_bare]

end

/-! ## Frames -/

/-- A stored statement that is not part of another one is read exactly if it fits. -/
theorem Stmt.reads_whole {n r : ℕ} (hr : r ≤ n) (p : Pace) (s : Stmt) :
    Reads (Stmt.ofWhole? p n (settled r s.toJson)) (fits r s.toJson) s.bare := by
  have h := Stmt.reads n r hr s
  cases p with
  | afterwards => exact h
  | passing =>
    refine reads_guarded h fun hfits => ?_
    rw [usable_settled r _ hfits, Bool.and_true]
    cases r with
    | zero =>
      obtain ⟨members, hs⟩ := s.toJson_obj
      rw [hs] at hfits
      cases hfits
    | succ r => cases s <;> rfl

/-- A stored frame is read exactly if it fits. -/
theorem Frame.reads {n r : ℕ} (hr : r ≤ n) (p : Pace) (f : Frame) :
    Reads (Frame.ofJson? n p (settled r f.toJson)) (fits r f.toJson) f.bare := by
  cases r with
  | zero => rfl
  | succ r =>
    obtain ⟨kind, base, node⟩ := f
    have hbase := reads_nat r base
    have hnode := Stmt.reads_whole (show r ≤ n by omega) p node
    cases kind with
    | block next =>
      have hnext := reads_nat r next
      have hfits : fits (r + 1) (Frame.toJson ⟨.block next, base, node⟩) =
          (fits r (.nat base) && (fits r node.toJson && fits r (.nat next))) := by
        simp only [Frame.toJson, FrameKind.fields, fits, fitsMembers, List.cons_append, List.nil_append,
          Nat.add_sub_cancel, Nat.zero_lt_succ, decide_true, Bool.true_and, Bool.and_true]
        simp only [Bool.and_comm, Bool.and_left_comm]
      have husable : fits r (.nat next) →
          [("t", Json.str "Block"), ("idx", settled r (.nat next))].all (·.2.isUsable) := fun h => by
        simp only [List.all_cons, List.all_nil, usable_settled r _ h, Bool.and_true]
        rfl
      have hkind := (hnext.give FrameKind.block).give fun kind => (⟨kind, base, node.bare⟩ : Frame)
      have hlast := reads_guarded hkind husable
      rw [hfits]
      exact hbase.bind (hnode.bind hlast)
    | attempt phase => cases phase <;> exact hbase.bind (hnode.bind (.pure _))
    | _ => exact hbase.bind (hnode.bind (.pure _))

/-! ## Values -/

section

variable {decode : Pace → Json → Option Val} {n r : ℕ} {p : Pace}

theorem reads_binding {b : String × Val}
    (h : ∀ s < r, Reads (decode p (settled s b.2.toJson)) (fits s b.2.toJson) b.2.bare) :
    Reads (binding? (decode p) (settled r (bindingJson b))) (fits r (bindingJson b)) (b.1, b.2.bare) := by
  cases r with
  | zero => rfl
  | succ s => exact (h s (Nat.lt_succ_self s)).bind (.pure _)

theorem reads_control {c : Control Val}
    (h : ∀ s < r, ∀ v, (c = .return v ∨ c = .throw v ∨ c = .suspend v) →
      Reads (decode p (settled s v.toJson)) (fits s v.toJson) v.bare) :
    Reads (control? decode p (settled r (Val.toJsonControl c))) (fits r (Val.toJsonControl c)) (Val.bareControl c) := by
  cases r with
  | zero => cases c <;> rfl
  | succ s =>
    have h := h s (Nat.lt_succ_self s)
    cases c with
    | «return» v => exact (h v (.inl rfl)).bind (.pure _)
    | throw v => exact (h v (.inr (.inl rfl))).bind (.pure _)
    | suspend v => exact (h v (.inr (.inr rfl))).bind (.pure _)
    | _ => rfl

/-- A stored coroutine is read exactly if it fits, given that the values in it are. -/
theorem reads_coroutine (hr : r ≤ n) {co : Thread} (ho : Val.OrderedThread co)
    (h : ∀ s < r, ∀ v : Val, v.Ordered → Reads (decode p (settled s v.toJson)) (fits s v.toJson) v.bare) :
    Reads (Coroutine.ofJsonWith? n decode p (settled r co.toJson)) (fits r co.toJson) co.bare := by
  obtain ⟨frames, env, control, delivered, status, guarded⟩ := co
  cases r with
  | zero => rfl
  | succ r =>
    obtain ⟨henv, hcontrol, hdelivered⟩ := ho
    have hframes := reads_list fun s (hs : s < r) f (_ : f ∈ frames.reverse) =>
      Frame.reads (show s ≤ n by omega) p f
    have henv := reads_list fun s (hs : s < r) b (hb : b ∈ env.reverse) =>
      reads_binding fun s' hs' => h s' (by omega) b.2
        (Val.orderedEntries_iff.1 henv b (List.mem_reverse.1 hb))
    have hcontrol : Reads (control? decode p (settled r (Val.toJsonControl control)))
        (fits r (Val.toJsonControl control)) (Val.bareControl control) := reads_control fun s hs v hv =>
      h s (by omega) v (by rcases hv with rfl | rfl | rfl <;> exact hcontrol)
    have hdelivered : Reads (optional? (decode p) (some (settled r (Val.toJsonOption delivered))))
        (fits r (Val.toJsonOption delivered)) (Val.bareOption delivered) := by
      cases delivered with
      | none => rfl
      | some v => exact reads_optional v.toJson_obj (h r (by omega) v hdelivered)
    have hfinal : (⟨(frames.reverse.map Frame.bare).reverse, (env.reverse.map fun b => (b.1, b.2.bare)).reverse,
        Val.bareControl control, Val.bareOption delivered, status, guarded⟩ : Thread) =
        Coroutine.bare ⟨frames, env, control, delivered, status, guarded⟩ := by
      rw [Coroutine.bare, Val.bareThread, List.map_reverse, List.reverse_reverse, List.map_reverse,
        List.reverse_reverse, Val.bareEntries_eq]
    rw [Coroutine.toJson_eq, ← hfinal]
    cases status <;> exact hframes.bind (henv.bind (hcontrol.bind (hdelivered.bind (.pure _))))

theorem reads_members {es : List (String × Val)}
    (h : ∀ e ∈ es, Reads (decode p (settled r e.2.toJson)) (fits r e.2.toJson) e.2.bare) :
    Reads ((settledMembers r (Val.toJsonEntries es)).mapM fun m => (decode p m.2).map fun v => (m.1, v))
      (fitsMembers r (Val.toJsonEntries es)) (Val.bareEntries es) := by
  induction es with
  | nil => rfl
  | cons e es ih =>
    rw [Val.toJsonEntries, settledMembers, List.mapM_cons]
    exact ((h e List.mem_cons_self).map fun v => (e.1, v)).bind
      ((ih fun e he => h e (List.mem_cons_of_mem _ he)).give ((e.1, e.2.bare) :: ·))

theorem ordered_bareEntries {es : List (String × Val)} (h : Entries.Ordered es) :
    Entries.Ordered (Val.bareEntries es) := by
  rw [Val.bareEntries_eq]
  exact List.pairwise_map.2 h

end

/-- A stored value whose objects are in order is read exactly if it fits. -/
theorem Val.reads : ∀ (n r : ℕ) (_ : r ≤ n) (p : Pace) (v : Val) (_ : v.Ordered),
    Reads (Val.ofJson? n p (settled r v.toJson)) (fits r v.toJson) v.bare
  | n, 0, _, p, v, _ => by
    obtain ⟨members, h⟩ := v.toJson_obj
    rw [h]
    cases n <;> rfl
  | n + 1, r + 1, hr, p, v, hv => by
    have ih (s : ℕ) (hs : s < r) (v : Val) (hv : v.Ordered) :
        Reads (Val.ofJson? n p (settled s v.toJson)) (fits s v.toJson) v.bare :=
      Val.reads n s (by omega) p v hv
    cases v with
    | null => exact .pure _
    | bool b => exact .pure _
    | num x => exact (reads_float r x).bind (.pure _)
    | str s => exact .pure _
    | list items =>
      have h := reads_list fun s hs v (hv' : v ∈ items) => ih s hs v (Val.orderedItems_iff.1 hv v hv')
      rw [Val.toJson, Val.bare, Val.toJsonItems_eq, Val.bareItems_eq]
      exact h.bind (.pure _)
    | obj entries =>
      have h : Reads (entries? (Val.ofJson? n p) (settled r (.obj (Val.toJsonEntries entries))))
          (fits r (.obj (Val.toJsonEntries entries))) (Val.bareEntries entries) := by
        cases r with
        | zero => rfl
        | succ r =>
          have h := (reads_members fun e he =>
            ih r (by omega) e.2 (Val.orderedEntries_iff.1 hv.2 e he)).map Entries.ofList
          rw [Entries.ofList_of_ordered (ordered_bareEntries hv.1)] at h
          exact h
      exact h.bind (.pure _)
    | native m => cases m <;> exact .pure _
    | bound m args =>
      have h : Reads (bound? (Val.ofJson? n) p (settled r (.obj [("native", .str m.tag), ("args",
          .arr (Val.toJsonItems args))]))) (fits r (.obj [("native", .str m.tag), ("args",
          .arr (Val.toJsonItems args))])) (Val.bound m (Val.bareItems args)) := by
        cases r with
        | zero => rfl
        | succ r =>
          have h := reads_list fun s (hs : s < r) v (hv' : v ∈ args) =>
            ih s (by omega) v (Val.orderedItems_iff.1 hv v hv')
          rw [Val.toJsonItems_eq, Val.bareItems_eq]
          cases m <;> exact h.bind (.pure _)
      exact h.and_true
    | thread co =>
      exact (reads_coroutine (show r ≤ n by omega) hv ih).bind (.pure _)
    | error code message => 
      cases r <;> rfl

/-! ## What is read -/

theorem Stmt.yields_whole {n r : ℕ} {j : Json} (hj : fits r j) (p : Pace) :
    Yields (Restored Stmt.bare Stmt.toJson r) (Stmt.ofWhole? p n j) := by
  cases p with
  | afterwards => exact Stmt.yields n hj
  | passing => exact (yields_any _).bind fun _ _ => Stmt.yields n hj

/-- A kind of frame that is read keeps a count that can be stored. -/
theorem yields_kind (fields : Fields) :
    Yields (fun kind => ∀ r, fitsMembers r kind.fields) (FrameKind.ofFields? fields) := by
  refine (yields_any _).bind fun tagged _ => ?_
  obtain ⟨kind, fields⟩ := tagged
  dsimp only
  split
  · refine (yields_any _).bind fun values _ => ?_
    split
    · next next =>
      refine (yields_count next).bind fun n hn => .pure fun r => ?_
      simp only [FrameKind.fields, fitsMembers, fits, Json.nat, hn, Bool.and_self]
    · exact .none
  · exact .pure fun _ => rfl
  · exact .pure fun _ => rfl
  · exact .pure fun _ => rfl
  · refine (yields_any _).bind fun values _ => ?_
    split
    · exact (yields_any _).bind fun _ _ => (yields_any _).bind fun _ _ => .pure fun _ => rfl
    · exact .none
  · exact .pure fun _ => rfl
  · refine (yields_any _).bind fun values _ => ?_
    split
    · exact (yields_any _).bind fun _ _ => (yields_any _).bind fun _ _ => .pure fun _ => rfl
    · exact .none
  · exact .pure fun _ => rfl
  · exact .pure fun _ => rfl
  · exact .pure fun _ => rfl
  · exact .none

theorem fitsMembers_append {r : ℕ} (ms ns : List (String × Json)) :
    fitsMembers r (ms ++ ns) = (fitsMembers r ms && fitsMembers r ns) := by
  rw [Bool.eq_iff_iff, Bool.and_eq_true, fitsMembers_iff, fitsMembers_iff, fitsMembers_iff, List.forall_mem_append]

theorem Frame.yields {n r : ℕ} {j : Json} (hj : fits r j) (p : Pace) :
    Yields (Restored Frame.bare Frame.toJson r) (Frame.ofJson? n p j) := by
  unfold Frame.ofJson?
  split
  · next members =>
    simp only [fits, Bool.and_eq_true, decide_eq_true_eq] at hj
    have hf : (Fields.named members).Fit (r - 1) := fitsMembers_iff.1 hj.2
    refine (yields_collect hf _).bind fun values hv => ?_
    split
    · next base node =>
      refine (yields_count base).bind fun base hb => ?_
      refine (yields_required (hv node (by simp)) fun k hk => Stmt.yields_whole hk p).bind fun node hn => ?_
      refine (yields_any _).bind fun _ _ => (yields_kind _).bind fun kind hk => .pure ⟨?_, ?_⟩
      · rw [Frame.bare, hn.bare]
      · simp only [Frame.toJson, fits, fitsMembers_append, fitsMembers, Json.nat, hj.1, hb, hk, hn.fits, decide_true,
          Bool.and_self]
    · exact .none
  · exact .none

/-- A value without positions whose objects are in order and whose stored form fits. -/
structure Val.Restored (r : ℕ) (v : Val) : Prop extends VirtualComputer.Restored Val.bare Val.toJson r v where
  ordered : v.Ordered

section

variable {decode : Pace → Json → Option Val} {n r : ℕ} {j : Json} {p : Pace}

/-- What stands beside a kind fits one level less. -/
abbrev ContentFits (r : ℕ) (content : Content) : Prop :=
  ∀ c ∈ content, fits r c.2

theorem yields_valueTagged (hj : fits r j) :
    Yields (fun tagged => 0 < r ∧ ContentFits (r - 1) tagged.2) (VirtualComputer.tagged? p j) := by
  unfold VirtualComputer.tagged?
  split
  · next members =>
    simp only [fits, Bool.and_eq_true, decide_eq_true_eq] at hj
    refine (yields_any _).bind fun _ _ => (yields_any _).bind fun kind _ => ?_
    refine (yields_one (fitsMembers_iff.1 hj.2) "v").bind fun content hc => ?_
    split
    · exact .pure ⟨hj.1, nofun⟩
    · next k =>
      have hk : fits (r - 1) k := hc k rfl
      split
      · refine (yields_any _).bind fun _ _ => .pure ⟨hj.1, ?_⟩
        rintro _ ⟨⟩
        exact hk
      · refine .pure ⟨hj.1, ?_⟩
        rintro _ ⟨⟩
        exact hk
  · next kind content =>
    simp only [fits, fitsItems, Bool.and_eq_true, decide_eq_true_eq] at hj
    refine (yields_any _).map fun _ _ => ⟨hj.1, ?_⟩
    rintro _ ⟨⟩
    exact hj.2.2.1
  · exact .none

theorem yields_content {α : Type} {P : α → Prop} {decode : Pace → Json → Option α} {content : Content}
    (hc : ContentFits r content) (h : ∀ p k, fits r k → Yields P (decode p k)) :
    Yields P (ofContent? decode content) := by
  unfold ofContent?
  split
  · exact h _ _ (hc _ rfl)
  · exact .none

theorem fits_tagged (hr : 0 < r) (kind : String) (content : Json) :
    fits r (tagged kind content) = fits (r - 1) content := by
  simp [tagged, fits, fitsMembers, hr]

theorem fits_untagged (hr : 0 < r) (kind : String) : fits r (untagged kind) := by
  simp [untagged, fits, fitsMembers, hr]

theorem yields_binding (hj : fits r j) (h : ∀ k, fits (r - 1) k → Yields (Val.Restored (r - 1)) (decode p k)) :
    Yields (fun b => Restored (fun b => (b.1, b.2.bare)) bindingJson r b ∧ b.2.Ordered) (binding? (decode p) j) := by
  refine (yields_fields hj).bind fun fields hf => (yields_collect hf.2 _).bind fun values hv => ?_
  split
  · next x v =>
    refine (yields_any _).bind fun x _ => (yields_required (hv v (by simp)) h).bind fun v hv =>
      .pure ⟨⟨?_, ?_⟩, hv.ordered⟩
    · rw [hv.bare]
    · simp only [bindingJson, fits, fitsMembers, hf.1, hv.fits, decide_true, Bool.and_self]
  · exact .none

theorem yields_control (hj : fits r j) (h : ∀ p k, fits (r - 1) k → Yields (Val.Restored (r - 1)) (decode p k)) :
    Yields (fun c => Restored Val.bareControl Val.toJsonControl r c ∧ Val.OrderedControl c) (control? decode p j) := by
  refine (yields_valueTagged hj).bind fun tagged ht => ?_
  split
  · exact (yields_any _).map fun _ _ => ⟨⟨rfl, fits_untagged ht.1 _⟩, trivial⟩
  · exact (yields_any _).map fun _ _ => ⟨⟨rfl, fits_untagged ht.1 _⟩, trivial⟩
  · exact (yields_any _).map fun _ _ => ⟨⟨rfl, fits_untagged ht.1 _⟩, trivial⟩
  · refine (yields_content ht.2 h).bind fun v hv => .pure ⟨⟨congrArg Control.return hv.bare, ?_⟩, hv.ordered⟩
    rw [Val.toJsonControl, fits_tagged ht.1]
    exact hv.fits
  · refine (yields_content ht.2 h).bind fun v hv => .pure ⟨⟨congrArg Control.throw hv.bare, ?_⟩, hv.ordered⟩
    rw [Val.toJsonControl, fits_tagged ht.1]
    exact hv.fits
  · refine (yields_content ht.2 h).bind fun v hv => .pure ⟨⟨congrArg Control.suspend hv.bare, ?_⟩, hv.ordered⟩
    rw [Val.toJsonControl, fits_tagged ht.1]
    exact hv.fits
  · exact .none

/-- What is read as a coroutine can be stored again, given that the values in it can. -/
theorem yields_coroutine (hj : fits r j)
    (h : ∀ s < r, ∀ p k, fits s k → Yields (Val.Restored s) (decode p k)) :
    Yields (fun co => Restored Coroutine.bare Coroutine.toJson r co ∧ Val.OrderedThread co)
      (Coroutine.ofJsonWith? n decode p j) := by
  refine (yields_fields hj).bind fun fields hf => (yields_collect hf.2 _).bind fun values hv => ?_
  obtain ⟨hr, hf⟩ := hf
  split
  · next frames env control delivered status guarded =>
    refine (yields_required (hv frames (by simp)) fun k hk => yields_list hk fun k hk =>
      Frame.yields hk p).bind fun frames ⟨h0, hframes⟩ => ?_
    refine (yields_required (hv env (by simp)) fun k hk => yields_list hk fun k hk =>
      yields_binding hk fun k hk => h _ (by omega) p k hk).bind fun env ⟨_, henv⟩ => ?_
    refine (yields_required (hv control (by simp)) fun k hk => yields_control hk fun p k hk =>
      h _ (by omega) p k hk).bind fun control hcontrol => ?_
    refine (yields_optional (hv delivered (by simp)) fun k hk => h _ (by omega) p k hk).bind fun delivered hdel => ?_
    refine (yields_any _).bind fun _ _ => (yields_any _).bind fun status _ => (yields_any _).bind fun guarded _ =>
      .pure ?_
    have hframes := Restored.list hframes
    have henvr := Restored.list fun b hb => (henv b hb).1
    have hdelr := Restored.option fun v hv => (hdel v hv).toRestored
    refine ⟨⟨?_, ?_⟩, ?_, hcontrol.2, ?_⟩
    · rw [Coroutine.bare, Val.bareThread, List.map_reverse, hframes.1, Val.bareEntries_eq, List.map_reverse, henvr.1,
        hcontrol.1.bare, Val.bareOption_eq, hdelr.1]
    · rw [Coroutine.toJson_eq, List.reverse_reverse, List.reverse_reverse, Val.toJsonOption_eq]
      simp only [fits, fitsMembers, hr, h0, hframes.2, henvr.2, hcontrol.1.fits, hdelr.2, decide_true, Bool.and_self]
    · exact Val.orderedEntries_iff.2 fun b hb => (henv b (List.mem_reverse.1 hb)).2
    · cases delivered with
      | none => trivial
      | some v => exact (hdel v rfl).ordered
  · exact .none

theorem yields_entries (hj : fits r j) (h : ∀ k, fits (r - 1) k → Yields (Val.Restored (r - 1)) (decode p k)) :
    Yields (fun es => Val.bareEntries es = es ∧ fits r (.obj (Val.toJsonEntries es)) ∧ Entries.Ordered es ∧
      Val.OrderedEntries es) (entries? (decode p) j) := by
  unfold entries?
  split
  · next members =>
    simp only [fits, Bool.and_eq_true, decide_eq_true_eq] at hj
    have hm (m : String × Json) (hm : m ∈ members) :
        Yields (fun e => e.2.Restored (r - 1)) ((decode p m.2).map fun v => (m.1, v)) :=
      (h m.2 (fitsMembers_iff.1 hj.2 m hm)).map fun _ hv => hv
    refine (yields_mapM hm).map fun es hes => ?_
    have hes (e) (he : e ∈ Entries.ofList es) : e.2.Restored (r - 1) := hes e (Entries.mem_ofList he)
    refine ⟨?_, ?_, Entries.ofList_ordered es, Val.orderedEntries_iff.2 fun e he => (hes e he).ordered⟩
    · rw [Val.bareEntries_eq]
      refine (List.map_congr_left (g := id) fun e he => ?_).trans (List.map_id _)
      rw [(hes e he).bare]
      rfl
    · simp only [fits, hj.1, decide_true, Bool.true_and]
      refine fitsMembers_iff.2 fun m hm => ?_
      rw [Val.toJsonEntries_eq] at hm
      obtain ⟨e, he, rfl⟩ := List.mem_map.1 hm
      exact (hes e he).fits
  · exact .none

end

namespace Val

variable {r : ℕ} {vs : List Val}

/-- What is known of the values in a list that is read. -/
theorem restored_items (h : ∀ v ∈ vs, Val.Restored r v) :
    vs.map bare = vs ∧ fitsItems r (vs.map toJson) ∧ OrderedItems vs := by
  have hvs := Restored.list fun v hv => (h v hv).toRestored
  exact ⟨hvs.1, hvs.2, orderedItems_iff.2 fun v hv => (h v hv).ordered⟩

theorem restored_list (hr : 0 < r) (h0 : 0 < r - 1) (h : ∀ v ∈ vs, Val.Restored (r - 1 - 1) v) :
    Val.Restored r (.list vs) := by
  obtain ⟨hb, hfits, ho⟩ := restored_items h
  refine ⟨⟨?_, ?_⟩, ho⟩
  · rw [bare, bareItems_eq, hb]
  · rw [toJson, fits_tagged hr, toJsonItems_eq, fits, hfits, decide_eq_true h0]
    rfl

theorem restored_bound (hr : 0 < r) (h0 : 0 < r - 1) (h1 : 0 < r - 1 - 1) (n : Native)
    (h : ∀ v ∈ vs, Val.Restored (r - 1 - 1 - 1) v) : Val.Restored r (.bound n vs) := by
  obtain ⟨hb, hfits, ho⟩ := restored_items h
  refine ⟨⟨?_, ?_⟩, ho⟩
  · rw [bare, bareItems_eq, hb]
  · rw [toJson, fits_tagged hr, toJsonItems_eq]
    simp only [fits, fitsMembers, h0, h1, hfits, decide_true, Bool.and_self]

/-- What is read as a value has no positions, its objects are in order, and it can be stored again. -/
theorem yields : ∀ (n : ℕ) {r : ℕ} {j : Json} (p : Pace), fits r j → Yields (Val.Restored r) (ofJson? n p j)
  | 0, _, _, _, _ => .none
  | n + 1, r, j, p, hj => by
    refine (yields_valueTagged hj).bind fun tagged ⟨hr, hc⟩ => ?_
    have ih (p : Pace) {s : ℕ} (k : Json) (hk : fits s k) : Yields (Val.Restored s) (ofJson? n p k) := yields n p hk
    obtain ⟨kind, content⟩ := tagged
    dsimp only
    -- The kind that is named decides what stands beside it.
    split
    · exact (yields_any _).map fun _ _ => ⟨⟨rfl, fits_untagged hr _⟩, trivial⟩
    · exact (yields_any _).bind fun b _ => .pure ⟨⟨rfl, by rw [toJson, fits_tagged hr]; rfl⟩, trivial⟩
    · refine (yields_content hc fun _ k hk => yields_float hk).bind fun x hx => .pure ⟨⟨rfl, ?_⟩, trivial⟩
      rw [toJson, fits_tagged hr]
      exact hx
    · exact (yields_any _).bind fun s _ => .pure ⟨⟨rfl, by rw [toJson, fits_tagged hr]; rfl⟩, trivial⟩
    · refine (yields_content hc fun p k hk => yields_list hk (ih p)).bind fun vs h => ?_
      exact .pure (restored_list hr h.1 h.2)
    · refine (yields_content hc fun p k hk => yields_entries hk (ih p)).bind fun es ⟨hb, hfits, ho, hos⟩ =>
        .pure ⟨⟨?_, ?_⟩, ho, hos⟩
      · rw [bare, hb]
      · rw [toJson, fits_tagged hr, hfits]
    · exact (yields_any _).bind fun m _ => .pure ⟨⟨rfl, by rw [toJson, fits_tagged hr]; rfl⟩, trivial⟩
    · refine yields_content hc fun p k hk => (yields_fields hk).bind fun fields hf =>
        (yields_collect hf.2 _).bind fun values hv => ?_
      split
      · next m args =>
        refine (yields_any _).bind fun m _ => (yields_required (hv args (by simp)) fun k hk =>
          yields_list hk (ih p)).bind fun vs h => ?_
        exact .pure (restored_bound hr hf.1 h.1 m h.2)
      · exact .none
    · refine (yields_content hc fun p k hk => yields_coroutine hk fun s _ p k hk => ih p k hk).bind fun co ⟨h, ho⟩ =>
        .pure ⟨⟨congrArg Val.thread h.bare, ?_⟩, ho⟩
      rw [toJson, fits_tagged hr]
      exact h.fits
    · refine yields_content hc fun _ k hk => (yields_fields hk).bind fun fields hf =>
        (yields_any _).bind fun values _ => ?_
      split
      · refine (yields_any _).bind fun c _ => (yields_any _).bind fun m _ => .pure ⟨⟨rfl, ?_⟩, trivial⟩
        rw [toJson, fits_tagged hr]
        simp only [fits, fitsMembers, hf.1, decide_true, Bool.and_self]
      · exact .none
    · exact .none

end Val

end VirtualComputer
