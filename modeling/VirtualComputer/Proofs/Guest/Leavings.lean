import VirtualComputer.Proofs.Guest.Writes

/-!
# What statements leave behind

When a statement is over, the variables are those that were there when it started, below those that it leaves behind
(`statement_leaves`).  These are what it declares itself, and what is left by a `let` that is all there is to a branch
or to the body of a loop (`Stmt.Leaves`): only blocks and `try` drop what their parts have made.

From the start of the statement to its end the invariant is `Stmt.Underway`, which knows for each frame how many
variables there were before it, and what may stand above those.  Either it is kept by a step, or the statement is over,
or it has been left by an exit that is stopped further out (`Stmt.Arrives`, `Coroutine.step_arrives`).
-/

namespace VirtualComputer

/-! ## What is left -/

namespace Stmt

/-- A statement that is carried out may leave variables of these names behind, the innermost first. -/
inductive Leaves : Stmt → List String → Prop
  /-- What the statement declares itself.  An `if` that has an else does nothing itself: one of its parts stands in. -/
  | alone {s : Stmt} (h : s.part? .no = none) : Leaves s s.declares?.toList
  | branch {s t : Stmt} {slot : Slot} {left : List String} (hs : s.isBranch) (ht : s.part? slot = some t)
      (h : t.Leaves left) : Leaves s left
  /-- The body of a loop leaves more each time. -/
  | again {s t : Stmt} {left more : List String} (hs : s.isLoop) (ht : s.part? .body = some t) (h : t.Leaves left)
      (hmore : s.Leaves more) : Leaves s (left ++ more)

mutual

/-- The names of a `let`, and of those that are all there is to a part of an `if` or a loop. -/
def leavings : Stmt → List String
  | .declare x _ _ => [x]
  | .branch _ yes no _ => yes.leavings ++ leavingsOption no
  | .loop _ body _ => body.leavings
  | _ => []

def leavingsOption : Option Stmt → List String
  | none => []
  | some s => s.leavings

end

theorem leavings_of_part {s t : Stmt} {slot : Slot} (hs : s.isBranch ∨ s.isLoop) (ht : s.part? slot = some t)
    {x : String} (hx : x ∈ t.leavings) : x ∈ s.leavings := by
  cases s with
  | branch test yes no span =>
    rw [leavings, List.mem_append]
    cases slot with
    | yes =>
      cases ht
      exact .inl hx
    | no =>
      obtain rfl : no = some t := ht
      exact .inr hx
    | _ => cases ht
  | loop test body span =>
    cases slot with
    | body =>
      cases ht
      exact hx
    | _ => cases ht
  | _ => simp [isBranch, isLoop] at hs

/-- Nothing else is left behind. -/
theorem Leaves.mem_leavings {s : Stmt} {left : List String} (h : s.Leaves left) : ∀ x ∈ left, x ∈ s.leavings := by
  induction h with
  | @alone s _ =>
    intro x hx
    cases s with
    | declare y init span => exact hx
    | _ => cases hx
  | branch hs ht _ ih => exact fun x hx => leavings_of_part (.inl hs) ht (ih x hx)
  | again hs ht _ _ ih ihmore =>
    intro x hx
    rcases List.mem_append.1 hx with hx | hx
    · exact leavings_of_part (.inr hs) ht (ih x hx)
    · exact ihmore x hx

/-- A `let` always leaves its variable. -/
theorem Leaves.of_declare {x : String} {init : Option Expr} {span : Span} {left : List String}
    (h : (Stmt.declare x init span).Leaves left) : left = [x] := by
  cases h with
  | alone _ => rfl
  | branch hs _ _ => cases hs
  | again hs _ _ _ => cases hs

/-- What a statement under way may have made above the variables that it found. -/
def Holds : Stmt → List String → Prop
  | .block .., _ | .attempt .., _ => True
  | s@(.loop ..), left => s.Leaves left
  | _, left => left = []

/-- A statement starts with nothing. -/
theorem holds_nil (s : Stmt) : s.Holds [] := by
  cases s with
  | block _ _ | attempt _ _ _ _ => trivial
  | loop test body span => exact .alone rfl
  | _ => rfl

/-- An `if` makes nothing before one of its parts stands in for it. -/
theorem Holds.of_branch {s : Stmt} {left : List String} (h : s.Holds left) (hs : s.isBranch) : left = [] := by
  cases s with
  | branch _ _ _ _ => exact h
  | _ => cases hs

/-- A loop that goes on could just as well be over. -/
theorem Holds.of_loop {s : Stmt} {left : List String} (h : s.Holds left) (hs : s.isLoop) : s.Leaves left := by
  cases s with
  | loop _ _ _ => exact h
  | _ => cases hs

/-- Nor does a statement that leaves an exit pending. -/
theorem Holds.of_exits {s : Stmt} {left : List String} {c : Control Val} (h : s.Holds left) (hs : s.Exits c) :
    left = [] := by
  cases hs <;> exact h

/-- A part that is over adds what it leaves, unless it stands in for the statement. -/
theorem Holds.part {s t : Stmt} {slot : Slot} {left more : List String} (h : s.Holds more) (ht : s.part? slot = some t)
    (hb : s.isBranch = false) (hleft : t.Leaves left) : s.Holds (left ++ more) := by
  cases s with
  | block _ _ | attempt _ _ _ _ => trivial
  | loop test body span =>
    cases slot with
    | body => exact .again rfl ht hleft h
    | _ => cases ht
  | branch _ _ _ _ => cases hb
  | _ => cases ht

end Stmt

theorem rtake_left {α : Type} (left l : List α) : (left ++ l).rtake l.length = l := by
  rw [List.rtake, List.length_append, Nat.add_sub_cancel, List.drop_left]

/-- A statement that is over leaves behind what it may. -/
theorem Frame.leaves_after {f : Frame} {left names : List String} (hno : f.node.part? .no = none)
    (hleft : f.node.Holds left) (hbase : f.base = names.length) :
    ∃ left', f.node.Leaves left' ∧ f.after (left ++ names) = left' ++ names := by
  rw [Frame.after, hbase, rtake_left]
  cases hn : f.node with
  | block body span => exact ⟨[], .alone rfl, rfl⟩
  | attempt body x handler span => exact ⟨[], .alone rfl, rfl⟩
  | loop test body span =>
    rw [hn] at hleft
    exact ⟨left, hleft, rfl⟩
  | _ =>
    rw [hn] at hleft hno
    obtain rfl : left = [] := hleft
    exact ⟨_, .alone hno, rfl⟩

/-- A loop that is left by `break` leaves nothing behind. -/
theorem Frame.Fits.leaves_of_loop {f : Frame} (hf : f.Fits) (hk : f.kind = .loop) : f.node.Leaves [] := by
  have hmatched := hf.matched
  unfold Frame.matched at hmatched
  rw [hk] at hmatched
  cases hn : f.node with
  | loop test body span => exact .alone rfl
  | _ => rw [hn] at hmatched; cases hmatched

/-! ## The invariant -/

section Invariant

variable {s : Stmt} {fs : List Frame} {below : List String}

/-- Above these frames and with variables of these names, a part of the statement `s` may start, which has started
itself above the frames `fs`, when there were the variables `below`. -/
inductive Stmt.Within (s : Stmt) (fs : List Frame) (below : List String) : List Frame → List String → Stmt → Prop
  | self : Within s fs below fs below s
  | branch {gs : List Frame} {names : List String} {b t : Stmt} {slot : Slot} (h : s.Within fs below gs names b)
      (hb : b.isBranch) (ht : b.part? slot = some t) : Within s fs below gs names t
  | frame {f : Frame} {gs : List Frame} {names left : List String} {t : Stmt} {slot : Slot}
      (h : s.Within fs below gs names f.node) (hbase : f.base = names.length) (hleft : f.node.Holds left)
      (hk : f.kind.slot? = some slot) (ht : f.node.part? slot = some t) : Within s fs below (f :: gs) (left ++ names) t

/-- The statement of the topmost frame is such a part, and goes on. -/
structure Stmt.Topmost (s : Stmt) (fs : List Frame) (below : List String) (f : Frame) (gs : List Frame)
    (names : List String) : Prop where
  fits : f.Fits
  within : ∃ found left, names = left ++ found ∧ f.base = found.length ∧ f.node.Holds left ∧
    s.Within fs below gs found f.node

/-- The statement has started, and is neither over nor left by an exit that has been stopped. -/
inductive Stmt.Underway (s : Stmt) (fs : List Frame) (below : List String) :
    List Frame → List String → Control Val → Prop
  | top {f : Frame} {gs : List Frame} {names : List String} {c : Control Val} (hc : c.stays)
      (h : s.Topmost fs below f gs names) : Underway s fs below (f :: gs) names c
  | exit {gs : List Frame} {names : List String} {c : Control Val} {t : Stmt} (ht : t.Exits c)
      (h : s.Within fs below gs names t) : Underway s fs below gs names c

/-- Where a step can lead from there, `c` being the exit that was pending, if any. -/
inductive Stmt.Arrives (s : Stmt) (fs : List Frame) (below : List String) (c : Control Val) :
    List Frame → List String → Control Val → Prop
  | underway {gs : List Frame} {names : List String} {c' : Control Val} (h : s.Underway fs below gs names c') :
      Arrives s fs below c gs names c'
  | ended {left : List String} (h : s.Leaves left) : Arrives s fs below c fs (left ++ below) .none
  /-- The exit has been stopped further out. -/
  | escaped {gs : List Frame} {names : List String} (h : fs <:+ gs → gs = fs) (hc : gs = fs → c = .continue) :
      Arrives s fs below c gs names .none

variable {gs : List Frame} {names left : List String} {t : Stmt} {f : Frame} {c : Control Val}

namespace Stmt.Within

theorem suffix (h : s.Within fs below gs names t) : fs <:+ gs := by
  induction h with
  | self => exact List.suffix_rfl
  | branch _ _ _ ih => exact ih
  | frame _ _ _ _ _ ih => exact ih.trans (List.suffix_cons _ _)

/-- Without a frame above those, nothing has been made. -/
theorem names_eq (h : s.Within fs below gs names t) (hgs : gs = fs) : names = below := by
  induction h with
  | self => rfl
  | branch _ _ _ ih => exact ih hgs
  | frame h _ _ _ _ _ =>
    have hlength := h.suffix.length_le
    rw [← hgs, List.length_cons] at hlength
    omega

/-- A part is over, and has left something behind. -/
theorem done (h : s.Within fs below gs names t) (hleft : t.Leaves left) (c : Control Val) :
    s.Arrives fs below c gs (left ++ names) .none := by
  induction h generalizing left with
  | self => exact .ended hleft
  | branch _ hb ht ih => exact ih (.branch hb ht hleft)
  | @frame f gs names more t slot h hbase hmore hk ht _ =>
    refine .underway (.top rfl ⟨.inr ⟨slot, t, hk, ht⟩, names, left ++ more, ?_, hbase, ?_, h⟩)
    · rw [List.append_assoc]
    · exact hmore.part ht (branch_of_slot hk ht) hleft

/-- A part starts. -/
theorem start {env : List (String × Val)} (h : s.Within fs below gs (env.map Prod.fst) t) :
    s.Topmost fs below (t.frame env) gs (env.map Prod.fst) where
  fits := .inl rfl
  within := ⟨env.map Prod.fst, [], rfl, (List.length_map _).symm, t.holds_nil, h⟩

end Stmt.Within

/-! ## Pending exits -/

open Coroutine

/-- A pending exit that is stopped is so by a frame: that of a loop, which it pops or not, or that of a `try`, whose
handler starts. -/
theorem unwind_stopped (hc : c ≠ .none) (fs : List Frame) (env : List (String × Val))
    (hu : (unwind c fs env).2.2 = .none) :
    ∃ f fs', f :: fs' <:+ fs ∧ ((unwind c fs env).1 = fs' ∨ ((unwind c fs env).1 = f :: fs' ∧ c = .continue) ∨
      f.kind = .attempt .body ∧ ∃ g, (unwind c fs env).1 = g :: { f with kind := .attempt .handler } :: fs') := by
  induction fs generalizing env with
  | nil => exact absurd hu hc
  | cons f fs ih =>
    generalize hr : unwind c (f :: fs) env = r at hu ⊢
    unfold unwind at hr
    dsimp only at hr
    split at hr
    · subst hr
      exact ⟨f, fs, List.suffix_rfl, .inl rfl⟩
    · subst hr
      exact ⟨f, fs, List.suffix_rfl, .inr (.inl ⟨rfl, rfl⟩)⟩
    · next hkind _ =>
      subst hr
      exact ⟨f, fs, List.suffix_rfl, .inr (.inr ⟨hkind, _, rfl⟩)⟩
    · subst hr
      obtain ⟨g, fs', hg, h⟩ := ih _ hu
      exact ⟨g, fs', hg.trans (List.suffix_cons _ _), h⟩

/-- An exit that is stopped by one of these frames has left all that was above them. -/
theorem unwind_escapes (hc : c ≠ .none) {env : List (String × Val)} (hu : (unwind c fs env).2.2 = .none) :
    s.Arrives fs below c (unwind c fs env).1 ((unwind c fs env).2.1.map Prod.fst) .none := by
  obtain ⟨f, fs', hf, h⟩ := unwind_stopped hc fs env hu
  have hle := hf.length_le
  rw [List.length_cons] at hle
  rcases h with h | ⟨h, hcontinue⟩ | ⟨hkind, g, h⟩
  · rw [h]
    refine .escaped (fun hsuffix => ?_) fun heq => ?_
    · have := hsuffix.length_le
      omega
    · rw [heq] at hle
      omega
  · rw [h]
    exact .escaped (fun hsuffix => (hsuffix.eq_of_length_le hle).symm) fun _ => hcontinue
  · -- the frame of the `try` is another one now
    have hother : ¬ f :: fs' <:+ { f with kind := .attempt .handler } :: fs' := fun hsuffix => by
      cases hkind.symm.trans (congrArg Frame.kind (List.cons.inj (hsuffix.eq_of_length rfl)).1)
    rw [h]
    refine .escaped (fun hsuffix => ?_) fun heq => ?_
    · rcases List.suffix_cons_iff.1 hsuffix with heq | hsuffix
      · exact heq.symm
      · exact absurd (hf.trans hsuffix) hother
    · rw [← heq] at hf
      rcases List.suffix_cons_iff.1 hf with heq' | hsuffix
      · simp at heq'
      · exact absurd hsuffix hother

/-- A frame stops a pending exit, or those below it do. -/
theorem arrives_cons (hf : f.Fits) (h : s.Within fs below gs names f.node) (hbase : f.base = names.length)
    (hgs : ∀ env, env.map Prod.fst = names → (unwind c gs env).2.2 = .none →
      s.Arrives fs below c (unwind c gs env).1 ((unwind c gs env).2.1.map Prod.fst) .none)
    {env : List (String × Val)} (hn : env.map Prod.fst = left ++ names) (hu : (unwind c (f :: gs) env).2.2 = .none) :
    s.Arrives fs below c (unwind c (f :: gs) env).1 ((unwind c (f :: gs) env).2.1.map Prod.fst) .none := by
  have henv : (outermost f.base env).map Prod.fst = names := by rw [names_outermost, hn, hbase, rtake_left]
  generalize hr : unwind c (f :: gs) env = r at hu ⊢
  unfold unwind at hr
  dsimp only at hr
  split at hr
  · -- a loop that is left
    next hloop =>
    subst hr
    have hdone := h.done (hf.leaves_of_loop hloop) .break
    rw [List.nil_append, ← henv] at hdone
    exact hdone
  · -- a loop that goes on
    next hloop =>
    subst hr
    refine .underway (.top rfl ⟨hf, names, [], henv, hbase, f.node.holds_nil, h⟩)
  · -- a `try` whose handler starts
    next e body x handler span _ hnode =>
    subst hr
    have hholds : f.node.Holds [x] := by
      rw [hnode]
      trivial
    have hpart : s.Within fs below ({ f with kind := .attempt .handler } :: gs) ([x] ++ names) handler :=
      .frame h hbase hholds rfl (by rw [hnode]; rfl)
    have hhandler : s.Within fs below ({ f with kind := .attempt .handler } :: gs)
        (((x, e) :: outermost f.base env).map Prod.fst) handler := by
      rw [List.map_cons, henv]
      exact hpart
    exact .underway (.top rfl hhandler.start)
  · -- no frame that stops it
    subst hr
    exact hgs _ henv hu

theorem Stmt.Within.arrives (h : s.Within fs below gs names t) (hc : c ≠ .none) {env : List (String × Val)}
    (hn : env.map Prod.fst = names) (hu : (unwind c gs env).2.2 = .none) :
    s.Arrives fs below c (unwind c gs env).1 ((unwind c gs env).2.1.map Prod.fst) .none := by
  induction h generalizing env with
  | self => exact unwind_escapes hc hu
  | branch _ _ _ ih => exact ih hn hu
  | @frame f gs names left t slot h hbase _ hk ht ih =>
    exact arrives_cons (.inr ⟨slot, t, hk, ht⟩) h hbase (fun _ hn hu => ih hn hu) hn hu

theorem Stmt.Underway.arrives (h : s.Underway fs below gs names c) (hc : c ≠ .none) {env : List (String × Val)}
    (hn : env.map Prod.fst = names) (hu : (unwind c gs env).2.2 = .none) :
    s.Arrives fs below c (unwind c gs env).1 ((unwind c gs env).2.1.map Prod.fst) .none := by
  cases h with
  | top _ h =>
    obtain ⟨hfits, found, left, rfl, hbase, -, h⟩ := h
    exact arrives_cons hfits h hbase (fun _ hn hu => h.arrives hc hn hu) hn hu
  | exit _ h => exact h.arrives hc hn hu

/-! ## Steps -/

/-- Wherever a step of the topmost frame moves. -/
theorem Moves.arrives {frames : List Frame} {env env' : List (String × Val)} {c' : Control Val}
    (hm : Moves f gs env frames env' c') (h : s.Topmost fs below f gs (env.map Prod.fst)) (c : Control Val) :
    s.Arrives fs below c frames (env'.map Prod.fst) c' := by
  obtain ⟨hfits, found, left, hnames, hbase, hleft, hwithin⟩ := h
  cases hm with
  | done hno hn =>
    obtain ⟨left', hleft', hafter⟩ := f.leaves_after hno hleft hbase
    rw [hn, hnames, hafter]
    exact hwithin.done hleft' c
  | @enter kind t slot hk ht _ =>
    have hpart : s.Within fs below ({ f with kind } :: gs) (left ++ found) t := .frame hwithin hbase hleft hk ht
    rw [← hnames] at hpart
    exact .underway (.top rfl hpart.start)
  | choose slot hs ht =>
    obtain rfl := hleft.of_branch hs
    have hpart : s.Within fs below gs found _ := .branch hwithin hs ht
    rw [List.nil_append] at hnames
    rw [← hnames] at hpart
    exact .underway (.top rfl hpart.start)
  | exit hs =>
    obtain rfl := hleft.of_exits hs
    rw [hnames]
    exact .underway (.exit hs hwithin)
  | stay hn hc =>
    rw [hn]
    exact .underway (.top hc ⟨hfits, found, left, hnames, hbase, hleft, hwithin⟩)

/-- With frames above those the statement is still under way, -/
theorem Stmt.Arrives.above {c' : Control Val} (h : s.Arrives fs below c gs names c') (hfs : fs <:+ gs) (hne : gs ≠ fs) :
    s.Underway fs below gs names c' := by
  cases h with
  | underway h => exact h
  | ended _ => exact absurd rfl hne
  | escaped h _ => exact absurd (h hfs) hne

/-- and with none it is over, unless a loop further out goes on. -/
theorem Stmt.Arrives.at_end (h : s.Arrives fs below c gs names .none) (hgs : gs = fs) (hc : c ≠ .continue) :
    ∃ left, s.Leaves left ∧ names = left ++ below := by
  cases h with
  | underway h =>
    cases h with
    | top _ h =>
      obtain ⟨-, _, _, -, -, -, hwithin⟩ := h
      have hlength := hwithin.suffix.length_le
      rw [← hgs, List.length_cons] at hlength
      omega
    | exit ht _ => cases ht
  | ended h => exact ⟨_, h, rfl⟩
  | escaped _ hcontinue => exact absurd (hcontinue hgs) hc

/-- A loop right above those frames has made what it may leave. -/
theorem Stmt.Underway.looped (h : s.Underway fs below gs names c) (hgs : gs = f :: fs) (hc : c.stays)
    (hloop : f.node.isLoop) : ∃ left, f.node.Leaves left ∧ names = left ++ below := by
  cases h with
  | top _ h =>
    obtain ⟨rfl, rfl⟩ := List.cons.inj hgs
    obtain ⟨-, found, left, hnames, -, hleft, hwithin⟩ := h
    rw [hwithin.names_eq rfl] at hnames
    exact ⟨left, hleft.of_loop hloop, hnames⟩
  | exit ht _ => cases ht <;> cases hc

/-- A value that is handed out leaves the statement under way, -/
theorem Stmt.Arrives.of_suspend {v : Val} (h : s.Arrives fs below c gs names (.suspend v)) :
    s.Underway fs below gs names (.suspend v) := by
  cases h with
  | underway h => exact h

/-- and so it goes on. -/
theorem Stmt.Underway.resumable {v : Val} (h : s.Underway fs below gs names (.suspend v)) :
    s.Underway fs below gs names .none := by
  cases h with
  | top _ h => exact .top rfl h
  | exit ht _ => cases ht

end Invariant

namespace Coroutine

variable {τ : Type} {rt : Runtime τ} {co co' : Thread} {t t' : τ} {s : Stmt} {fs : List Frame} {below : List String}

/-- A statement under way in a coroutine. -/
abbrev Carries (co : Thread) (s : Stmt) (fs : List Frame) (below : List String) : Prop :=
  s.Underway fs below co.frames (co.env.map Prod.fst) co.control

theorem execute_arrives (h : co.Carries s fs below) {f : Frame} {gs : List Frame} (hc : co.control = .none)
    (hf : co.frames = f :: gs) (rt : Runtime τ) (t : τ) : (execute rt f gs co t).Leads fun co' =>
      s.Arrives fs below co.control co'.frames (co'.env.map Prod.fst) co'.control := by
  unfold Carries at h
  rw [hf, hc] at h
  cases h with
  | top _ h => exact (execute_moves rt f gs t hf hc).mono fun co' hmoves => hmoves.arrives h _
  | exit hs _ => cases hs

theorem step_arrives (h : co.Carries s fs below) (hs : step rt co t = .next co' t') :
    s.Arrives fs below co.control co'.frames (co'.env.map Prod.fst) co'.control := by
  rcases step_next_cases hs with ⟨f, gs, hc, hf, he⟩ | ⟨hc, he⟩
  · exact (execute_arrives h hc hf rt t).next he
  · obtain ⟨gs, env, hu, rfl, -⟩ := exit_next he
    have harrives := h.arrives hc rfl (by rw [hu])
    rw [hu] at harrives
    exact harrives

/-- A coroutine that hands a value out still is at the statement. -/
theorem step_carries {v : Val} (h : co.Carries s fs below) (hs : step rt co t = .done co' t')
    (hv : co'.control = .suspend v) (d : Val) : ((outcome co').2.begun d).Carries s fs below := by
  have hunderway : s.Underway fs below co'.frames (co'.env.map Prod.fst) (.suspend v) := by
    rcases step_suspend_cases hs hv with rfl | ⟨f, gs, hc, hf, he⟩
    · exact hv ▸ h
    · have harrives := (execute_arrives h hc hf rt t).done he
      rw [hv] at harrives
      exact harrives.of_suspend
  rw [outcome_suspend hv]
  exact hunderway.resumable

/-- From the start of a statement above the frames `fs` until it is over, through the steps and resumes of a
coroutine. -/
inductive During (fs : List Frame) (co : Thread) : Thread → Prop
  | start : During fs co co
  | next {rt : Runtime τ} {co₁ co₂ : Thread} {t t' : τ} (h : During fs co co₁) (hs : step rt co₁ t = .next co₂ t')
      (hfs : fs <:+ co₂.frames) (hne : co₂.frames ≠ fs) : During fs co co₂
  | resumed {rt : Runtime τ} {co₁ co₂ : Thread} {t t' : τ} {v : Val} (h : During fs co co₁)
      (hs : step rt co₁ t = .done co₂ t') (hv : co₂.control = .suspend v) (d : Val) :
      During fs co ((outcome co₂).2.begun d)

/-- All that time the statement is under way. -/
theorem During.carries {co₀ : Thread} (hf : co₀.frames = s.frame co₀.env :: fs) (hc : co₀.control = .none)
    (h : During (τ := τ) fs co₀ co) : co.Carries s fs (co₀.env.map Prod.fst) := by
  induction h with
  | start =>
    unfold Carries
    rw [hf, hc]
    exact .top rfl Stmt.Within.self.start
  | next _ hs hfs hne ih => exact (step_arrives ih hs).above hfs hne
  | resumed _ hs hv d ih => exact step_carries ih hs hv d

end Coroutine

/-! ## Statements that are over -/

/-- What a statement leaves behind, from the variables when it started to those when it is over. -/
def Stmt.LeavesBehind (s : Stmt) (env env' : List (String × Val)) : Prop :=
  ∃ left, s.Leaves left ∧ (∀ x ∈ left, x ∈ s.leavings) ∧ env'.map Prod.fst = left ++ env.map Prod.fst

namespace Stmt.LeavesBehind

variable {s : Stmt} {env env' : List (String × Val)}

/-- Where there is nothing to leave, the names are the same again. -/
theorem names_eq (h : s.LeavesBehind env env') (hs : s.leavings = []) : env'.map Prod.fst = env.map Prod.fst := by
  obtain ⟨left, -, hleft, hnames⟩ := h
  rw [hs] at hleft
  rw [hnames, List.eq_nil_iff_forall_not_mem.2 fun x hx => List.not_mem_nil (hleft x hx), List.nil_append]

theorem of_declare {x : String} {init : Option Expr} {span : Span} (h : s.LeavesBehind env env')
    (hs : s = .declare x init span) : env'.map Prod.fst = x :: env.map Prod.fst := by
  obtain ⟨left, hleft, -, hnames⟩ := h
  rw [hs] at hleft
  rw [hnames, hleft.of_declare, List.singleton_append]

end Stmt.LeavesBehind

/-- From the start of a statement until it is over, through any steps and resumes: when all its frames are gone, and no
exit has been stopped by a loop further out, the variables are those that it found, below what it leaves behind: nothing
if it has no bare `let` to leave, and its own variable if it is a `let`.  What a loop leaves behind is there whenever it
comes back to its test, too. -/
theorem statement_leaves {τ : Type} {s : Stmt} {fs : List Frame} {co₀ co : Thread}
    (hf : co₀.frames = s.frame co₀.env :: fs) (hc : co₀.control = .none)
    (h : Coroutine.During (τ := τ) fs co₀ co) :
    (∀ (rt : Runtime τ) co' t t', Coroutine.step rt co t = .next co' t' → co'.frames = fs → co'.control = .none →
      co.control ≠ .continue → s.LeavesBehind co₀.env co'.env ∧
        (s.leavings = [] → co'.env.map Prod.fst = co₀.env.map Prod.fst) ∧
        ∀ x init span, s = .declare x init span → co'.env.map Prod.fst = x :: co₀.env.map Prod.fst) ∧
    ∀ f, co.frames = f :: fs → co.control.stays → f.node.isLoop → f.node.LeavesBehind co₀.env co.env := by
  have hcarries := h.carries hf hc
  refine ⟨fun rt co' t t' hs hfs hnone hcontinue => ?_, fun f hfs hstays hloop => ?_⟩
  · have harrives := Coroutine.step_arrives hcarries hs
    rw [hnone] at harrives
    obtain ⟨left, hleft, hnames⟩ := harrives.at_end hfs hcontinue
    have hbehind : s.LeavesBehind co₀.env co'.env := ⟨left, hleft, hleft.mem_leavings, hnames⟩
    exact ⟨hbehind, hbehind.names_eq, fun x init span hs => hbehind.of_declare hs⟩
  · obtain ⟨left, hleft, hnames⟩ := hcarries.looped hfs hstays hloop
    exact ⟨left, hleft, hleft.mem_leavings, hnames⟩

/-- A `let` that is all there is to a branch. -/
def bareBranch : Stmt :=
  .branch (.bool true .none) (.declare "x" none .none) none .none

/-- A block of that statement. -/
def leavingBlock : Stmt :=
  .block [bareBranch] .none

/-- It leaves its variable behind. -/
theorem branch_leaves : bareBranch.LeavesBehind [] [("x", .null)] := by
  let rt : Runtime (Session Unit) := .ofHost silentHost [] 0 ⟨none, false⟩
  let fs : List Frame := [⟨.block 1, 0, leavingBlock⟩]
  let co₀ : Thread := ⟨⟨.branch, 0, bareBranch⟩ :: fs, [], .none, none, .running, true⟩
  let co : Thread := ⟨⟨.declare, 0, .declare "x" none .none⟩ :: fs, [], .none, none, .running, true⟩
  have hstart : Coroutine.step rt co₀ ⟨0, ()⟩ = .next co ⟨0, ()⟩ := rfl
  have hend : Coroutine.step rt co ⟨0, ()⟩ = .next ⟨fs, [("x", .null)], .none, none, .running, true⟩ ⟨_, ()⟩ := rfl
  have hduring : Coroutine.During fs co₀ co := .next .start hstart (List.suffix_cons _ _) (List.cons_ne_self _ _)
  exact ((statement_leaves rfl rfl hduring).1 rt _ _ _ hend rfl rfl nofun).1

end VirtualComputer
