import Mathlib.Data.List.Chain
import VirtualComputer.Proofs.Machine.Telling

/-!
# What machines announce of their runs

The start of a run is announced when it begins, and its end by the update that finds it over.  An end is announced once,
and never without a start (`announced_in_turn`).  A run that is started when the end of the one before has not been
announced yet leaves it out; without such haste starts and ends alternate.
-/

namespace VirtualComputer

open Machine

/-! ## Announcements in turn -/

/-- Starts and ends follow each other in turn, and a start is first. -/
def Alternates (l : List Announcement) : Prop :=
  (Announcement.stopped :: l).IsChain (· ≠ ·)

instance (l : List Announcement) : Decidable (Alternates l) :=
  inferInstanceAs (Decidable ((Announcement.stopped :: l).IsChain (· ≠ ·)))

/-- Each end follows a start. -/
def EndsStarted (l : List Announcement) : Prop :=
  (Announcement.stopped :: l).IsChain fun a b => b = .stopped → a = .started

section

variable {l : List Announcement} {a : Announcement}

theorem isChain_concat {R : Announcement → Announcement → Prop} :
    (Announcement.stopped :: (l ++ [a])).IsChain R ↔
      (Announcement.stopped :: l).IsChain R ∧ R (l.getLast?.getD .stopped) a := by
  rw [← List.cons_append, List.isChain_append, List.getLast?_cons, List.head?_cons]
  simp

theorem alternates_concat : Alternates (l ++ [a]) ↔ Alternates l ∧ l.getLast?.getD .stopped ≠ a :=
  isChain_concat

theorem endsStarted_concat :
    EndsStarted (l ++ [a]) ↔ EndsStarted l ∧ (a = .stopped → l.getLast?.getD .stopped = .started) :=
  isChain_concat

end

namespace Machine

variable {ν : Type} {site : Site ν} {m m' : Machine ν} {g : Guest}

/-! ## What is announced -/

/-- The end of a run is announced while the displays are brought up to date. -/
theorem shown_announces (site : Site ν) (ended : Bool) (m : Machine ν) :
    (shown site ended m).announced = m.announced ∧
      (shown site ended m).announcements = m.announcements ++ if ended then [.stopped] else [] := by
  have htake := (takeMessage_tells m).silent
  have hshow := (showMessage_tells site m.takeMessage.1 (announceEnd site ended m.takeMessage.2)).silent
  obtain ⟨es, hes, hend⟩ := announceEnd_events site ended m.takeMessage.2
  have hplain : es.filterMap Event.announcement? = [] := List.filterMap_eq_nil_iff.2 fun e he => (hes e he).1
  have hannouncements : (announceEnd site ended m.takeMessage.2).announcements =
      m.announcements ++ if ended then [.stopped] else [] := by
    rw [hend, tellAll_announcements, htake.announcements, List.filterMap_append, hplain, List.append_nil]
    cases ended <;> rfl
  have hannounced : (announceEnd site ended m.takeMessage.2).announced = m.announced := by
    rw [hend]
    exact htake.announced
  exact ⟨hshow.announced.trans hannounced, hshow.announcements.trans hannouncements⟩

/-- A start announces a run if one has begun, and nothing otherwise. -/
theorem start_announces (site : Site ν) (m : Machine ν) :
    (m.state = .stopped ∧ (m.start site).2.guest.isSome ∧ (m.start site).2.announced ∧
        (m.start site).2.announcements = m.announcements ++ [.started]) ∨
      m.Silent (m.start site).2 ∧ (m.start site).2.guest = m.guest := by
  rcases start_leaves site m with h | ⟨hs, texts, ledger, outside, -, ⟨g, h⟩ | ⟨f, h⟩⟩ <;> rw [h]
  · exact .inr ⟨.refl m, rfl⟩
  · have hprinted : m.Silent (m.tellAll (texts.map .printed)) := (Printed.of_texts texts m).tells.silent
    refine .inl ⟨hs, rfl, rfl, ?_⟩
    refine (tellAll_announcements [.announced .started, .marked] _).trans ?_
    exact congrArg (· ++ [.started]) hprinted.announcements
  · have hprinted : m.Silent (m.tellAll (texts.map .printed)) := (Printed.of_texts texts m).tells.silent
    exact .inr ⟨hprinted.trans ((tell_tells ⟨rfl, rfl⟩ _).silent.before rfl rfl), rfl⟩

/-- What an operation may announce. -/
inductive Announces (m m' : Machine ν) : Prop
  | silent (h : m.Silent m') (hg : m.state = .stopped → m'.guest = none)
  /-- An update has found a run over. -/
  | ended (hm : m.announced) (hm' : m'.announced = false) (h : m'.announcements = m.announcements ++ [.stopped])
      (hg : m'.guest = none)
  /-- A stopped machine has been started. -/
  | began (hs : m.state = .stopped) (hm' : m'.announced) (h : m'.announcements = m.announcements ++ [.started])
      (hg : m'.guest.isSome)
  /-- An update has started a machine again, and has announced the end of its run before if there was one. -/
  | again (hs : m.state = .rebooting) (hm' : m'.announced)
      (h : m'.announcements = m.announcements ++ if m.announced then [.stopped, .started] else [.started])

theorem start_in_turn (site : Site ν) (h : m.Regular) : m.Announces (m.start site).2 := by
  rcases start_announces site m with ⟨hs, hguest, hannounced, hannouncements⟩ | ⟨hsilent, hguest⟩
  · exact .began hs hannounced hannouncements hguest
  · exact .silent hsilent fun hs => hguest.trans (h.guest_none (.inl hs))

theorem ended_iff : m.ended ↔ m.announced ∧ (m.state = .stopped ∨ m.state = .rebooting) := by
  rw [ended, Bool.and_eq_true, Bool.or_eq_true, decide_eq_true_eq, decide_eq_true_eq]

/-- What an update announces before it calls or starts anything. -/
theorem ticked_announces (site : Site ν) (m : Machine ν) :
    (ticked site m).2.announced = (m.announced && !m.ended) ∧
      (ticked site m).2.announcements = m.announcements ++ (if m.ended then [.stopped] else []) ∧
      (ticked site m).2.guest = m.guest := by
  obtain ⟨hannounced, hannouncements⟩ := shown_announces site m.ended (advance (noted site m)).2
  have hadvance := (advance_advanced (noted site m)).tells.silent
  rw [hadvance.announced] at hannounced
  rw [hadvance.announcements] at hannouncements
  refine ⟨hannounced, hannouncements, ?_⟩
  have hshown := @shown_lifecycle ν site m.ended (advance (noted site m)).2
  exact (congrArg Lifecycle.guest hshown).trans (advance_advanced (noted site m)).same.2

/-- An update that puts a call off announces nothing. -/
theorem deferred_silent (site : Site ν) (hs : m.state = .synchronizedCall) : m.Silent (m.deferred site) := by
  obtain ⟨m', hm⟩ : ∃ m' : Machine ν, m' = { m with inside := some .nothing } := ⟨_, rfl⟩
  have hs' : m'.state = .synchronizedCall := by
    rw [hm]
    exact hs
  have hended : ¬m'.ended := by
    rw [ended_iff, hs']
    exact fun h => h.2.elim nofun nofun
  obtain ⟨hannounced, hannouncements, -⟩ := ticked_announces site m'
  rw [Bool.eq_false_iff.2 hended, Bool.not_false, Bool.and_true] at hannounced
  rw [if_neg hended, List.append_nil] at hannouncements
  have hcall : (ticked site m').1 = .call := congrArg Prod.fst (ticked_call site hs')
  have hupdate : m'.Silent (update site m') := by
    rw [update_ticked, hcall]
    exact Silent.trans ⟨hannounced, hannouncements⟩ (synchronize_tells site _).silent
  rw [deferred, ← hm]
  exact (hupdate.before (by rw [hm]) (by rw [hm])).after rfl rfl

theorem update_in_turn (site : Site ν) (h : m.Regular) : m.Announces (m.update site) := by
  obtain ⟨hannounced, hannouncements, hguest⟩ := ticked_announces site m
  -- Unless the machine is started again, an update announces at most the end of a run.
  have hending {m' : Machine ν} (hm : (ticked site m).2.Silent m')
      (hg : m.state = .stopped ∨ m.state = .rebooting → m'.guest = none) : m.Announces m' := by
    have hannounced' := hm.announced.trans hannounced
    have hannouncements' := hm.announcements.trans hannouncements
    by_cases he : m.ended
    · obtain ⟨hm, hs⟩ := ended_iff.1 he
      rw [he, Bool.not_true, Bool.and_false] at hannounced'
      rw [if_pos he] at hannouncements'
      exact .ended hm hannounced' hannouncements' (hg hs)
    · rw [Bool.eq_false_iff.2 he, Bool.not_false, Bool.and_true] at hannounced'
      rw [if_neg he, List.append_nil] at hannouncements'
      exact .silent ⟨hannounced', hannouncements'⟩ fun hs => hg (.inl hs)
  rw [update_ticked]
  cases ha : (ticked site m).1 with
  | nothing => exact hending (.refl _) fun hs => hguest.trans (h.guest_none hs)
  | reboot =>
    have hs : m.state = .rebooting := (advance_advanced (noted site m)).action.1 ha
    have hclose := (close_tells (ticked site m).2).silent
    rcases start_announces site (ticked site m).2.close with ⟨-, -, hannounced', hannouncements'⟩ | ⟨hsilent, hguest'⟩
    · refine .again hs hannounced' (hannouncements'.trans ?_)
      rw [hclose.announcements, hannouncements]
      by_cases hm : m.announced
      · rw [if_pos (ended_iff.2 ⟨hm, .inr hs⟩), if_pos hm, List.append_assoc]
        rfl
      · rw [if_neg fun he => hm (ended_iff.1 he).1, if_neg hm, List.append_nil]
    · exact hending (hclose.trans hsilent) fun _ => hguest'.trans (close_guest _)
  | call =>
    have hs : m.state = .synchronizedCall := (advance_advanced (noted site m)).action.2 ha
    refine hending (synchronize_tells site _).silent fun hstopped => ?_
    rcases hstopped with hstopped | hrebooting
    · cases hs.symm.trans hstopped
    · cases hs.symm.trans hrebooting

end Machine

/-- Announcements are made when a run begins, and by the update that finds it over. -/
theorem Operation.announces {ν : Type} {m : Machine ν} (op : Operation ν) (site : Site ν) (h : m.Regular)
    (ha : op.Allowed m) (hl : ¬op.Loads) : m.Announces (op.perform site m) := by
  -- Nothing but a start brings a guest to a stopped machine.
  have hsilent {m' : Machine ν} (hm : m.Silent m') (hd : m.guest = none → m'.guest = none) : m.Announces m' :=
    .silent hm fun hs => hd (h.guest_none (.inl hs))
  have hkept {m' : Machine ν} (hm : m.Silent m') (hl : m'.lifecycle = m.lifecycle) : m.Announces m' :=
    hsilent hm fun hg => (congrArg Lifecycle.guest hl).trans hg
  have hsignal (s : Signal) : m.Announces (m.signal s).2 := hkept (signal_tells s m).silent (signal_lifecycle s m)
  have hstop : m.Announces m.stop.2 := by
    refine hsilent (stop_tells m).silent fun hg => ?_
    rcases m.stop_leaves with h | h | h <;> rw [h]
    · exact hg
    · exact hg
    · exact close_guest m
  cases op with
  | start => exact start_in_turn site h
  | stop => exact hstop
  | signal s => exact hsignal s
  | update => exact update_in_turn site h
  | deferred =>
    obtain ⟨g, hfree⟩ := h.free_call ha
    exact hkept (deferred_silent site ha) (deferred_lifecycle hfree.inside ha)
  | receive msg => exact handle_of (P := m.Announces) msg (hkept (.refl m) rfl) hsignal (start_in_turn site h) hstop
  | save => exact hkept (save_tells m).silent (save_told m).lifecycle
  | load r => exact absurd trivial hl
  | beginTask epoch =>
    have htaken := beginTask_taken site epoch { m with waiting := m.waiting.erase epoch }
    refine hsilent (htaken.tells.silent.before rfl rfl) fun hg => ?_
    have hold : m.epoch ≠ epoch := Nat.ne_of_gt ((h.idle hg).2.2 epoch ha.2)
    rw [perform, beginTask_void (m := { m with waiting := m.waiting.erase epoch }) hold]
    exact hg
  | finishTask =>
    refine hsilent (finishTask_tells site m).silent fun hg => ?_
    rw [perform, finishTask_idle site (h.idle hg).2.1]
    exact hg
  | elsewhere outside => exact hkept ⟨rfl, rfl⟩ rfl

/-! ## Courses -/

namespace Machine

variable {ν : Type} {site : Site ν} {m m' : Machine ν} {ops : List (Operation ν)}

/-- The machine knows whether the last thing that it has announced is a start. -/
def Pending (m : Machine ν) : Prop :=
  m.announced ↔ m.announcements.getLast? = some .started

theorem Pending.iff (h : m.Pending) : m.announced ↔ m.announcements.getLast?.getD .stopped = .started := by
  refine h.trans ?_
  cases m.announcements.getLast? with
  | none => exact ⟨nofun, nofun⟩
  | some a => exact Option.some_inj

theorem Announces.pending (h : m.Announces m') (hm : m.Pending) : m'.Pending := by
  rw [Pending]
  cases h with
  | silent h _ =>
    rw [h.announced, h.announcements]
    exact hm
  | ended _ hm' h _ =>
    rw [hm', h, List.getLast?_concat]
    exact ⟨nofun, nofun⟩
  | began _ hm' h _ =>
    rw [hm', h, List.getLast?_concat]
    exact ⟨fun _ => rfl, fun _ => rfl⟩
  | again _ hm' h =>
    rw [hm', h]
    split
    · rw [List.append_cons, List.getLast?_concat]
      exact ⟨fun _ => rfl, fun _ => rfl⟩
    · rw [List.getLast?_concat]
      exact ⟨fun _ => rfl, fun _ => rfl⟩

theorem Announces.endsStarted (h : m.Announces m') (hm : m.Pending) (he : EndsStarted m.announcements) :
    EndsStarted m'.announcements := by
  cases h with
  | silent h _ =>
    rw [h.announcements]
    exact he
  | ended hannounced _ h _ =>
    rw [h, endsStarted_concat]
    exact ⟨he, fun _ => hm.iff.1 hannounced⟩
  | began _ _ h _ =>
    rw [h, endsStarted_concat]
    exact ⟨he, nofun⟩
  | again _ _ h =>
    rw [h]
    split
    · next hannounced =>
      rw [List.append_cons, endsStarted_concat, endsStarted_concat]
      exact ⟨⟨he, fun _ => hm.iff.1 hannounced⟩, nofun⟩
    · rw [endsStarted_concat]
      exact ⟨he, nofun⟩

/-- Whether an operation begins a run before the end of the last one has been announced. -/
def Hasty (site : Site ν) (op : Operation ν) (m : Machine ν) : Prop :=
  m.state = .stopped ∧ m.announced ∧ (op.perform site m).guest.isSome

theorem Announces.alternates {op : Operation ν} (h : m.Announces (op.perform site m)) (hm : m.Pending) :
    Alternates (op.perform site m).announcements ↔ Alternates m.announcements ∧ ¬Hasty site op m := by
  have hlast := hm.iff
  cases h with
  | silent h hg =>
    rw [h.announcements]
    refine (and_iff_left ?_).symm
    rintro ⟨hs, -, hguest⟩
    rw [hg hs] at hguest
    cases hguest
  | ended hannounced _ h hg =>
    rw [h, alternates_concat, hlast.1 hannounced]
    refine and_congr_right' (iff_of_true nofun ?_)
    rintro ⟨-, -, hguest⟩
    rw [hg] at hguest
    cases hguest
  | began hs _ h hg =>
    rw [h, alternates_concat]
    refine and_congr_right' (not_congr ?_)
    rw [← hlast]
    exact ⟨fun hannounced => ⟨hs, hannounced, hg⟩, fun hasty => hasty.2.1⟩
  | again hs _ h =>
    have hasty : ¬Hasty site op m := fun hasty => by cases hs.symm.trans hasty.1
    rw [h]
    split
    · next hannounced =>
      rw [List.append_cons, alternates_concat, alternates_concat, hlast.1 hannounced, List.getLast?_concat]
      exact ⟨fun h => ⟨h.1.1, hasty⟩, fun h => ⟨⟨h.1, nofun⟩, nofun⟩⟩
    · next hannounced =>
      rw [alternates_concat]
      exact and_congr_right' (iff_of_true (fun h => hannounced (hlast.2 h)) hasty)

/-- Whether starts and ends follow each other in turn is decided by the haste of the operations. -/
theorem Admits.alternates (ha : m.Admits site ops) (h : m.Regular) (hl : ∀ op ∈ ops, ¬op.Loads) (hm : m.Pending) :
    Alternates (m.after site ops).announcements ↔
      Alternates m.announcements ∧ Along site (fun op m => ¬Hasty site op m) ops m := by
  induction ops generalizing m with
  | nil => exact (and_iff_left trivial).symm
  | cons op ops ih =>
    obtain ⟨hop, hops⟩ := ha
    obtain ⟨hthis, hlater⟩ := List.forall_mem_cons.1 hl
    have hannounces := op.announces site h hop hthis
    refine (ih hops (op.regular h hop) hlater (hannounces.pending hm)).trans ?_
    rw [hannounces.alternates hm, and_assoc]
    rfl

/-- What a machine has announced after a course without loads. -/
structure AnnouncesInTurn (site : Site ν) (ops : List (Operation ν)) (m : Machine ν) : Prop where
  /-- The machine knows of a start that no end has followed. -/
  pending : (m.after site ops).announced ↔ (m.after site ops).announcements.getLast? = some .started
  /-- Every end that is announced follows a start. -/
  ends : EndsStarted (m.after site ops).announcements
  /-- Every start but the first follows an end, unless a run has begun before the end of the last one was announced. -/
  alternates : Alternates (m.after site ops).announcements ↔ Along site (fun op m => ¬Hasty site op m) ops m

end Machine

/-- Starts and ends of runs are announced in turn unless a run is begun in haste. -/
theorem announced_in_turn {ν : Type} {site : Site ν} {catalog : Catalog} {outside : ν} {ops : List (Operation ν)}
    (ha : Admits site ops (fresh site catalog outside)) (hl : ∀ op ∈ ops, ¬op.Loads) :
    AnnouncesInTurn site ops (fresh site catalog outside) := by
  have hregular := fresh_regular site catalog outside
  have hpending : (fresh site catalog outside).Pending := ⟨nofun, nofun⟩
  obtain ⟨hpending', hends⟩ := ha.invariant [] (P := fun m _ => m.Pending ∧ EndsStarted m.announcements) hregular
    (fun op hop _ _ h hallowed hm => by
      have hannounces := op.announces site h hallowed (hl op hop)
      exact ⟨hannounces.pending hm.1, hannounces.endsStarted hm.1 hm.2⟩)
    ⟨hpending, List.isChain_singleton _⟩
  have halternates := ha.alternates hregular hl hpending
  exact ⟨hpending', hends, halternates.trans (and_iff_right (List.isChain_singleton _))⟩

/-- A machine that is started, stopped and started again before an update, announces two starts. -/
theorem hasty_starts : (after consoleSite [.start, .stop, .start]
      (fresh consoleSite ⟨none, Catalog.defaultBoot, "yield 1", []⟩ ⟨0, 0⟩)).announcements = [.started, .started] ∧
    AnnouncesInTurn consoleSite [.start, .stop, .start]
      (fresh consoleSite ⟨none, Catalog.defaultBoot, "yield 1", []⟩ ⟨0, 0⟩) := by
  refine ⟨by decide +kernel, announced_in_turn (by decide +kernel) ?_⟩
  decide

end VirtualComputer
