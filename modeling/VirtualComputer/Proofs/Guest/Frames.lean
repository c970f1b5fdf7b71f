import Mathlib.Data.List.DropRight
import VirtualComputer.Proofs.Guest.Stages
import VirtualComputer.Proofs.Guest.Steps
import VirtualComputer.Proofs.Syntax.Places

/-!
# Frames follow the program

At every stage of a coroutine there is a place of its program where it is (`Coroutine.At`): the frames are those of the
statements around it, branches aside, which leave none.  All names that have been declared before that place have a
variable (`Stage.at_bound`), because every frame knows how many variables there were before it, and nothing takes
away more than those made since.

The invariant is `Placed`.  What a step of the topmost frame can do to the frames and to the names of variables is said
once (`Moves`, `execute_moves`); each of these ways keeps the invariant (`Moves.placed`), and so does a frame that stops
a pending exit (`Placed.stops`).
-/

namespace VirtualComputer

/-! ## Names of variables -/

theorem rtake_of_suffix {α : Type} {l l' : List α} {n : ℕ} (h : l <:+ l') (hn : n ≤ l.length) :
    l'.rtake n = l.rtake n := by
  obtain ⟨t, rfl⟩ := h
  have hlength : (t ++ l).length - n = t.length + (l.length - n) := by
    rw [List.length_append]
    omega
  rw [List.rtake, hlength, List.drop_length_add_append, List.rtake]

theorem length_rtake {α : Type} (l : List α) (n : ℕ) : (l.rtake n).length = min n l.length := by
  rw [List.rtake, List.length_drop]
  omega

theorem rtake_rtake {α : Type} (l : List α) (n : ℕ) : (l.rtake n).rtake n = l.rtake n := by
  rw [List.rtake, length_rtake, Nat.sub_eq_zero_of_le (Nat.min_le_left _ _), List.drop_zero]

theorem names_outermost (b : ℕ) (env : List (String × Val)) :
    (outermost b env).map Prod.fst = (env.map Prod.fst).rtake b := by
  rw [outermost, List.rtake, List.map_drop, List.length_map]

theorem names_writeVariable (x : String) (ks : List Val) (v : Val) (env : List (String × Val)) :
    (writeVariable x ks v env).1.map Prod.fst = env.map Prod.fst := by
  induction env with
  | nil => rfl
  | cons b env ih =>
    obtain ⟨y, w⟩ := b
    rw [writeVariable]
    split
    · rfl
    · exact congrArg (y :: ·) ih

/-! ## Places of frames -/

/-- The slot whose statement runs above a frame. -/
def FrameKind.slot? : FrameKind → Option Slot
  | .block (n + 1) => some (.item n)
  | .loop => some .body
  | .attempt .body => some .attempted
  | .attempt .handler => some .handler
  | _ => none

namespace Frame

/-- The statement of a frame with the slot whose statement runs above it. -/
def place? (f : Frame) : Option (Stmt × Slot) :=
  f.kind.slot?.map (f.node, ·)

/-- The place at which the statement of a frame goes on: before an item if it is a block. -/
def point (f : Frame) (around : Enclosing) : Enclosing :=
  match f.kind with
  | .block n => (f.node, .item n) :: around
  | _ => around

/-- The names that a block has declared so far. -/
def declared (f : Frame) : List String :=
  match f.kind with
  | .block n => f.node.binds (.item n)
  | _ => []

/-- The kind of a frame goes with its statement, which starts or has a part running above it. -/
def Fits (f : Frame) : Prop :=
  f.kind = f.node.frameKind ∨ ∃ slot t, f.kind.slot? = some slot ∧ f.node.part? slot = some t

theorem Fits.kind {f : Frame} (h : f.Fits) (hn : ∀ slot, f.node.part? slot = none) : f.kind = f.node.frameKind := by
  rcases h with h | ⟨slot, t, -, ht⟩
  · exact h
  · cases (hn slot).symm.trans ht

/-- The statement of a loop declares nothing. -/
theorem Fits.declares_of_loop {f : Frame} (h : f.Fits) (hk : f.kind = .loop) : f.node.declares? = none := by
  rcases h with h | ⟨slot, t, -, ht⟩
  · rw [hk] at h
    cases hn : f.node with
    | declare x init span =>
      rw [hn] at h
      cases h
    | _ => rfl
  · exact Stmt.declares_of_part ht

/-- The names of the variables when the statement of a frame has been carried out. -/
def after (f : Frame) (names : List String) : List String :=
  f.node.declares?.toList ++ if f.node.isScope then names.rtake f.base else names

theorem suffix_after (f : Frame) (names : List String) : names.rtake f.base <:+ f.after names := by
  refine List.suffix_append_of_suffix ?_
  split
  · exact List.suffix_rfl
  · exact List.drop_suffix _ _

theorem declares_after {f : Frame} {x : String} (h : f.node.declares? = some x) (names : List String) :
    x ∈ f.after names := by
  rw [after, h]
  exact List.mem_cons_self

theorem names_point (f : Frame) (around : Enclosing) : (f.point around).names = f.declared ++ around.names := by
  unfold point declared
  split <;> rfl

end Frame

/-- The statement stands at a place of the program, and the frames are those of the statements around it. -/
structure Stmt.Over (program : Stmt) (fs : List Frame) (around : Enclosing) (s : Stmt) : Prop where
  inside : program.Inside around s
  frames : fs.map Frame.place? = (around.filter fun p => !p.1.isBranch).map some

/-- The frames tell which names have been declared. -/
theorem Stmt.Over.names_eq {program s t : Stmt} {fs : List Frame} {around around' : Enclosing}
    (h : program.Over fs around s) (h' : program.Over fs around' t) : around.names = around'.names := by
  have hplaces := List.map_injective_iff.2 (fun _ _ => Option.some.inj) (h.frames.symm.trans h'.frames)
  rw [← Enclosing.names_filter around, hplaces, Enclosing.names_filter]

/-- The statement leaves an exit pending. -/
inductive Stmt.Exits : Stmt → Control Val → Prop
  | break (span : Span) : Exits (.break span) .break
  | continue (span : Span) : Exits (.continue span) .continue
  | return (value : Option Expr) (span : Span) (v : Val) : Exits (.return value span) (.return v)

/-- The coroutine is at a place of the program: at the statement of its topmost frame, or at the one of a pending
exit. -/
inductive Coroutine.At (program : Stmt) (co : Thread) : Enclosing → Prop
  | ended (hf : co.frames = []) (hc : co.control = .none) : At program co []
  | top {f : Frame} {fs : List Frame} {around : Enclosing} (hf : co.frames = f :: fs) (hc : co.control.stays)
      (h : program.Over fs around f.node) : At program co (f.point around)
  | exit {around : Enclosing} {s : Stmt} (h : program.Over co.frames around s) (hs : s.Exits co.control) :
      At program co around

/-- So does the coroutine as a whole. -/
theorem Coroutine.At.names_eq {program : Stmt} {co : Thread} {around around' : Enclosing} (h : co.At program around)
    (h' : co.At program around') : around.names = around'.names := by
  obtain ⟨frames, env, control, delivered, status, guarded⟩ := co
  cases h with
  | ended hf hc =>
    cases h' with
    | ended _ _ => rfl
    | top hf' _ _ => cases hf.symm.trans hf'
    | exit _ hs =>
      obtain rfl : control = .none := hc
      cases hs
  | top hf hc hover =>
    cases h' with
    | ended hf' _ => cases hf.symm.trans hf'
    | top hf' _ hover' =>
      cases hf.symm.trans hf'
      rw [Frame.names_point, Frame.names_point, hover.names_eq hover']
    | exit _ hs => cases hs <;> cases hc
  | exit hover hs =>
    cases h' with
    | ended _ hc =>
      obtain rfl : control = .none := hc
      cases hs
    | top _ hc _ => cases hs <;> cases hc
    | exit hover' _ => exact hover.names_eq hover'

/-! ## The invariant -/

/-- Above these frames, and with variables of these names, the statement may start at its place: the names declared
before it have variables that the frames leave there. -/
inductive Above (program : Stmt) : List Frame → List String → Enclosing → Stmt → Prop
  | program {names : List String} : Above program [] names [] program
  | branch {fs : List Frame} {names : List String} {around : Enclosing} {s t : Stmt} {slot : Slot}
      (h : Above program fs names around s) (hs : s.isBranch) (ht : s.part? slot = some t) :
      Above program fs names ((s, slot) :: around) t
  | frame {f : Frame} {fs : List Frame} {names : List String} {around : Enclosing} {t : Stmt} {slot : Slot}
      (h : Above program fs (names.rtake f.base) around f.node) (hb : f.base ≤ names.length)
      (hk : f.kind.slot? = some slot) (ht : f.node.part? slot = some t) (hx : ∀ x ∈ f.node.binds slot, x ∈ names) :
      Above program (f :: fs) names ((f.node, slot) :: around) t

/-- The statement of the topmost frame goes on. -/
structure OnTop (program : Stmt) (f : Frame) (fs : List Frame) (names : List String) (around : Enclosing) : Prop where
  fits : f.Fits
  above : Above program fs (names.rtake f.base) around f.node
  base_le : f.base ≤ names.length
  declared : ∀ x ∈ f.declared, x ∈ names

/-- A coroutine with these frames, names of variables and control is at a place of the program. -/
inductive Placed (program : Stmt) : List Frame → List String → Control Val → Enclosing → Prop
  | ended {names : List String} : Placed program [] names .none []
  | top {f : Frame} {fs : List Frame} {names : List String} {c : Control Val} {around : Enclosing} (hc : c.stays)
      (h : OnTop program f fs names around) : Placed program (f :: fs) names c (f.point around)
  | exit {fs : List Frame} {names : List String} {c : Control Val} {around : Enclosing} {s : Stmt}
      (hs : s.Exits c) (h : Above program fs names around s) : Placed program fs names c around

section Invariant

variable {program : Stmt} {f : Frame} {fs : List Frame} {names names' : List String} {around : Enclosing} {s t : Stmt}
  {slot : Slot} {c : Control Val}

/-- A frame with a statement above it has none of a branch. -/
theorem branch_of_slot (hk : f.kind.slot? = some slot) (ht : f.node.part? slot = some t) : f.node.isBranch = false := by
  cases hn : f.node with
  | branch test yes no span =>
    rw [hn] at ht
    cases slot with
    | yes | no =>
      unfold FrameKind.slot? at hk
      split at hk <;> cases hk
    | _ => cases ht
  | _ => rfl

namespace Above

theorem inside (h : Above program fs names around s) : program.Inside around s := by
  induction h with
  | program => exact .program
  | branch _ _ ht ih => exact .part ih ht
  | frame _ _ _ ht _ ih => exact .part ih ht

theorem frames_inside (h : Above program fs names around s) : ∀ f ∈ fs, ∃ around, program.Inside around f.node := by
  induction h with
  | program =>
    intro f hf
    cases hf
  | branch _ _ _ ih => exact ih
  | frame h _ _ _ _ ih => exact List.forall_mem_cons.2 ⟨⟨_, h.inside⟩, ih⟩

theorem place (h : Above program fs names around s) : program.Over fs around s := by
  refine ⟨h.inside, ?_⟩
  induction h with
  | program => rfl
  | branch _ hs _ ih => simpa [hs] using ih
  | frame _ _ hk ht _ ih => simp [Frame.place?, hk, branch_of_slot hk ht, ih]

/-- The names declared before the statement have variables. -/
theorem bound (h : Above program fs names around s) : ∀ x ∈ around.names, x ∈ names := by
  induction h with
  | program =>
    intro x hx
    cases hx
  | branch _ hs _ ih =>
    intro x hx
    rw [Enclosing.names_cons, Stmt.binds_of_branch hs] at hx
    exact ih x hx
  | frame _ _ _ _ hbinds ih =>
    intro x hx
    rw [Enclosing.names_cons] at hx
    rcases List.mem_append.1 hx with hx | hx
    · exact hbinds x hx
    · exact List.mem_of_mem_drop (ih x hx)

/-- More variables do no harm. -/
theorem mono (h : Above program fs names around s) (hn : names <:+ names') : Above program fs names' around s := by
  induction h generalizing names' with
  | program => exact .program
  | branch _ hs ht ih => exact .branch (ih hn) hs ht
  | frame h hb hk ht hx _ =>
    refine .frame ?_ (Nat.le_trans hb hn.length_le) hk ht fun x hm => hn.subset (hx x hm)
    rw [rtake_of_suffix hn hb]
    exact h

/-- When the statement above a block is over, the block has declared what it had and what that statement declares. -/
theorem declared_after (hk : f.kind.slot? = some slot) (ht : f.node.part? slot = some t) {x : String}
    (hx : x ∈ f.declared) : x ∈ f.node.binds slot ∨ t.declares? = some x := by
  unfold Frame.declared at hx
  split at hx
  · next n hkind =>
    rw [hkind] at hk
    cases n with
    | zero => cases hk
    | succ n =>
      cases hk
      exact Stmt.mem_binds_succ ht hx
  · cases hx

/-- The statement is over: what it has declared is there now, and the frame below goes on. -/
theorem done (h : Above program fs names around s) (hn : names <:+ names')
    (hs : ∀ x, s.declares? = some x → x ∈ names') : ∃ around, Placed program fs names' .none around := by
  induction h with
  | program => exact ⟨[], .ended⟩
  | branch _ _ ht ih => exact ih hn (by simp [Stmt.declares_of_part ht])
  | @frame f fs names around t slot h hb hk ht hx _ =>
    refine ⟨f.point around, .top rfl ⟨.inr ⟨slot, t, hk, ht⟩, ?_, Nat.le_trans hb hn.length_le, ?_⟩⟩
    · rw [rtake_of_suffix hn hb]
      exact h
    · intro x hm
      rcases declared_after hk ht hm with hm | hm
      · exact hn.subset (hx x hm)
      · exact hs x hm

/-- The statement starts. -/
theorem start {env : List (String × Val)} (h : Above program fs (env.map Prod.fst) around s) :
    OnTop program (s.frame env) fs (env.map Prod.fst) around where
  fits := .inl rfl
  above := by
    rw [Stmt.frame, List.rtake, List.length_map, Nat.sub_self, List.drop_zero]
    exact h
  base_le := Nat.le_of_eq (List.length_map _).symm
  declared := by
    intro x hx
    cases s with
    | block body span => cases hx
    | _ => cases hx

/-- A loop goes on. -/
theorem again (h : Above program fs (names.rtake f.base) around f.node) (hb : f.base ≤ names.length) (hf : f.Fits)
    (hk : f.kind = .loop) : OnTop program f fs (names.rtake f.base) around where
  fits := hf
  above := by
    rw [rtake_rtake]
    exact h
  base_le := by
    rw [length_rtake]
    omega
  declared := by simp [Frame.declared, hk]

/-- The handler of a `try` starts, with a variable for the error. -/
theorem handled (h : Above program fs (names.rtake f.base) around f.node) (hb : f.base ≤ names.length)
    {body handler : Stmt} {x : String} {span : Span} (hn : f.node = .attempt body x handler span) :
    Above program ({ f with kind := .attempt .handler } :: fs) (x :: names.rtake f.base) ((f.node, .handler) :: around)
      handler := by
  have hnames : names.rtake f.base <:+ x :: names.rtake f.base := List.suffix_cons _ _
  have hlength : f.base ≤ (names.rtake f.base).length := by
    rw [length_rtake]
    omega
  refine .frame ?_ (Nat.le_trans hlength hnames.length_le) rfl (by rw [hn]; rfl) ?_
  · rw [rtake_of_suffix hnames hlength, rtake_rtake]
    exact h
  · intro y hy
    rw [hn] at hy
    exact List.mem_cons.2 (.inl (List.mem_singleton.1 hy))

end Above

/-! ## Pending exits -/

open Coroutine

/-- After some frames a pending exit has been stopped at a place of the program. -/
def Stops (program : Stmt) (c : Control Val) (fs : List Frame) (names : List String) : Prop :=
  ∀ env, env.map Prod.fst = names → (unwind c fs env).2.2 = .none → ∃ around,
    Placed program (unwind c fs env).1 ((unwind c fs env).2.1.map Prod.fst) .none around

/-- A frame stops a pending exit, or those below it do. -/
theorem stops_cons (hf : f.Fits) (h : Above program fs (names.rtake f.base) around f.node) (hb : f.base ≤ names.length)
    (hfs : Stops program c fs (names.rtake f.base)) :
    Stops program c (f :: fs) names := by
  intro env hn hc
  have henv : (outermost f.base env).map Prod.fst = names.rtake f.base := by rw [names_outermost, hn]
  generalize hr : unwind c (f :: fs) env = r at hc ⊢
  unfold unwind at hr
  dsimp only at hr
  split at hr
  · -- a loop that is left
    next hloop =>
    subst hr
    exact h.done (henv ▸ List.suffix_rfl) (by simp [hf.declares_of_loop hloop])
  · -- a loop that goes on
    next hloop =>
    subst hr
    have hagain := h.again hb hf hloop
    rw [← henv] at hagain
    exact ⟨_, .top rfl hagain⟩
  · -- a `try` whose handler starts
    next e body x handler span _ hnode =>
    subst hr
    have hhandled := h.handled hb hnode
    rw [← henv] at hhandled
    exact ⟨_, .top rfl (Above.start (hhandled : Above _ _ (((x, e) :: outermost f.base env).map Prod.fst) _ _))⟩
  · -- no frame that stops it
    subst hr
    exact hfs _ henv hc

theorem Above.stops (h : Above program fs names around s) (c : Control Val) : Stops program c fs names := by
  induction h with
  | program =>
    intro _ _ _
    exact ⟨[], .ended⟩
  | branch _ _ _ ih => exact ih
  | @frame f fs names around t slot h hb hk ht _ ih => exact stops_cons (.inr ⟨slot, t, hk, ht⟩) h hb ih

/-- A coroutine in which a pending exit has been stopped is at a place of the program again. -/
theorem Placed.stops (h : Placed program fs names c around) : Stops program c fs names := by
  cases h with
  | ended =>
    intro _ _ _
    exact ⟨[], .ended⟩
  | top _ h => exact stops_cons h.fits h.above h.base_le (h.above.stops c)
  | exit _ h => exact h.stops c

/-- With an exit pending, the place is that of its statement. -/
theorem Placed.exiting (h : Placed program fs names c around) (hc : c.stays = false) :
    ∃ s, s.Exits c ∧ Above program fs names around s := by
  cases h with
  | ended => cases hc
  | top hstays _ => cases hstays.symm.trans hc
  | exit hs h => exact ⟨_, hs, h⟩

/-- The statements of all frames stand in the program. -/
theorem Placed.frames_inside (h : Placed program fs names c around) :
    ∀ f ∈ fs, ∃ around, program.Inside around f.node := by
  cases h with
  | ended =>
    intro f hf
    cases hf
  | top _ h => exact List.forall_mem_cons.2 ⟨⟨_, h.above.inside⟩, h.above.frames_inside⟩
  | exit _ h => exact h.frames_inside

/-- A coroutine that hands a value out stays where it is. -/
theorem Placed.resumable {v : Val} (h : Placed program fs names (.suspend v) around) :
    Placed program fs names .none around := by
  cases h with
  | top _ h => exact .top rfl h
  | exit hs _ => cases hs

/-! ## Steps of the topmost frame -/

/-- What a step of the topmost frame does to the frames and variables, and the control it leaves. -/
inductive Moves (f : Frame) (fs : List Frame) (env : List (String × Val)) :
    List Frame → List (String × Val) → Control Val → Prop
  /-- The statement is over. -/
  | done {env' : List (String × Val)} (hno : f.node.part? .no = none)
      (hn : env'.map Prod.fst = f.after (env.map Prod.fst)) : Moves f fs env fs env' .none
  /-- A part starts above the frame. -/
  | enter {kind : FrameKind} {t : Stmt} (slot : Slot) (hk : kind.slot? = some slot) (ht : f.node.part? slot = some t)
      (hx : ∀ x ∈ f.node.binds slot, x ∈ f.declared) :
      Moves f fs env (t.frame env :: { f with kind } :: fs) env .none
  /-- A part starts in place of a branch. -/
  | choose {t : Stmt} (slot : Slot) (hs : f.node.isBranch) (ht : f.node.part? slot = some t) :
      Moves f fs env (t.frame env :: fs) env .none
  /-- The statement leaves an exit pending. -/
  | exit {c : Control Val} (hs : f.node.Exits c) : Moves f fs env fs env c
  /-- The statement stays, with an error or a value that is handed out. -/
  | stay {env' : List (String × Val)} {c : Control Val} (hn : env'.map Prod.fst = env.map Prod.fst) (hc : c.stays) :
      Moves f fs env (f :: fs) env' c

end Invariant

namespace Coroutine

variable {τ : Type} {co : Thread}

/-- Whatever a step of the topmost frame leads to is one of the ways to move. -/
theorem execute_moves (rt : Runtime τ) (f : Frame) (fs : List Frame) (s : τ) (hf : co.frames = f :: fs)
    (hc : co.control = .none) :
    (execute rt f fs co s).Leads fun co' => Moves f fs co.env co'.frames co'.env co'.control := by
  obtain ⟨frames, env, control, delivered, status, guarded⟩ := co
  obtain rfl : frames = f :: fs := hf
  obtain rfl : control = .none := hc
  have hover (hno : f.node.part? .no = none) (hd : f.node.declares? = none) (hs : f.node.isScope = false) :
      Moves f fs env fs env .none :=
    .done hno (by simp [Frame.after, hd, hs])
  have houtermost (hno : f.node.part? .no = none) (hd : f.node.declares? = none) (hs : f.node.isScope) :
      Moves f fs env fs (outermost f.base env) .none :=
    .done hno (by simp [Frame.after, hd, hs, names_outermost])
  have hstay (d : Option Val) (c : Control Val) (hc : c.stays) (_ : isPending c) : Moves f fs env (f :: fs) env c :=
    .stay rfl hc
  unfold execute
  split
  · next next body span hkind hnode =>
    split
    · exact houtermost (by rw [hnode]; rfl) (by rw [hnode]; rfl) (by rw [hnode]; rfl)
    · next child hchild =>
      refine .enter (.item next) rfl (by rw [hnode]; exact hchild) fun x hx => ?_
      simpa [Frame.declared, hkind] using hx
  · next x init span hkind hnode =>
    refine evaluating_leads hstay fun v d t => measured_leads rt ?_ t
    exact .done (by rw [hnode]; rfl) (by rw [Frame.after, hnode]; rfl)
  · next x path value span hkind hnode =>
    refine evaluating_leads hstay fun ⟨v, ks⟩ d t => ?_
    have hnames := names_writeVariable x ks v env
    dsimp only
    split
    · next env' m hw =>
      rw [hw] at hnames
      exact .stay hnames rfl
    · next env' hw =>
      rw [hw] at hnames
      exact measured_leads rt (.done (by rw [hnode]; rfl) (by rw [Frame.after, hnode]; exact hnames)) t
  · next test yes no span hkind hnode =>
    refine evaluating_leads hstay fun v d t => ?_
    dsimp only
    split
    · exact .choose .yes (by rw [hnode]; rfl) (by rw [hnode]; rfl)
    · split
      · exact .choose .no (by rw [hnode]; rfl) (by rw [hnode]; rfl)
      · exact hover (by rw [hnode]; rfl) (by rw [hnode]; rfl) (by rw [hnode]; rfl)
  · next test body span hkind hnode =>
    refine evaluating_leads hstay fun v d t => ?_
    split
    · have henter : Moves f fs env (body.frame env :: { f with kind := f.kind } :: fs) env .none := by
        refine .enter .body (by rw [hkind]; rfl) (by rw [hnode]; rfl) fun x hx => ?_
        rw [hnode] at hx
        cases hx
      exact henter
    · exact hover (by rw [hnode]; rfl) (by rw [hnode]; rfl) (by rw [hnode]; rfl)
  · next value span hkind hnode =>
    refine evaluating_leads hstay fun v d t => .exit ?_
    rw [hnode]
    exact .return value span v
  · next body x handler span hkind hnode =>
    refine .enter .attempted rfl (by rw [hnode]; rfl) fun y hy => ?_
    rw [hnode] at hy
    cases hy
  · next hnode => exact houtermost (by rw [hnode]; rfl) (by rw [hnode]; rfl) (by rw [hnode]; rfl)
  · next e span hkind hnode =>
    exact evaluating_leads hstay fun v d t => hover (by rw [hnode]; rfl) (by rw [hnode]; rfl) (by rw [hnode]; rfl)
  · next span hkind hnode =>
    refine .exit ?_
    rw [hnode]
    exact .break span
  · next span hkind hnode =>
    refine .exit ?_
    rw [hnode]
    exact .continue span
  · trivial

end Coroutine

/-! ## Stages -/

section Stages

variable {τ : Type} {program : Stmt} {f : Frame} {fs : List Frame} {around : Enclosing} {c : Control Val}

/-- Whatever a step of the topmost frame does, the coroutine is at a place of the program. -/
theorem Moves.placed {env env' : List (String × Val)} {frames : List Frame}
    (hm : Moves f fs env frames env' c) (h : OnTop program f fs (env.map Prod.fst) around) :
    ∃ around, Placed program frames (env'.map Prod.fst) c around := by
  cases hm with
  | done _ hn =>
    rw [hn]
    exact h.above.done (f.suffix_after _) fun x hx => Frame.declares_after hx _
  | @enter kind t slot hk ht hx =>
    have habove : Above program ({ f with kind } :: fs) (env.map Prod.fst) ((f.node, slot) :: around) t :=
      .frame h.above h.base_le hk ht fun x hm => h.declared x (hx x hm)
    exact ⟨_, .top rfl habove.start⟩
  | choose _ hs ht =>
    have habove := Above.branch (h.above.mono (List.drop_suffix _ _)) hs ht
    exact ⟨_, .top rfl habove.start⟩
  | exit hs => exact ⟨around, .exit hs (h.above.mono (List.drop_suffix _ _))⟩
  | stay hn hc =>
    rw [hn]
    exact ⟨_, .top hc h⟩

namespace Coroutine

/-- The frames, the variables and the control of a coroutine are those at a place of the program. -/
def Standing (program : Stmt) (co : Thread) : Prop :=
  ∃ around, Placed program co.frames (co.env.map Prod.fst) co.control around

variable {rt : Runtime τ} {co co' : Thread} {s s' : τ}

theorem execute_standing (rt : Runtime τ) (s : τ) (h : co.Standing program) (hf : co.frames = f :: fs)
    (hc : co.control = .none) : (execute rt f fs co s).Leads (Standing program) := by
  obtain ⟨around, h⟩ := h
  rw [hf, hc] at h
  cases h with
  | top _ h => exact (execute_moves rt f fs s hf hc).mono fun co' hmoves => hmoves.placed h
  | exit hs _ => cases hs

theorem exit_standing (h : co.Standing program) (he : exit co s = .next co' s') : co'.Standing program := by
  obtain ⟨around, h⟩ := h
  obtain ⟨fs, env, hu, rfl, -⟩ := exit_next he
  have hstops := h.stops co.env rfl
  rw [hu] at hstops
  exact hstops rfl

theorem step_standing (h : co.Standing program) (hs : step rt co s = .next co' s') : co'.Standing program := by
  rcases step_next_cases hs with ⟨f, fs, hc, hf, ht⟩ | ⟨-, he⟩
  · exact (execute_standing rt s h hf hc).next ht
  · exact exit_standing h he

theorem step_suspends {v : Val} (h : co.Standing program) (hs : step rt co s = .done co' s')
    (hv : co'.control = .suspend v) : co'.Standing program := by
  rcases step_suspend_cases hs hv with rfl | ⟨f, fs, hc, hf, ht⟩
  · exact h
  · exact (execute_standing rt s h hf hc).done ht

/-- Frames follow the program in the course of all resumes. -/
theorem standing_keeps (allowed : Runtime τ → Prop) (program : Stmt) (guarded : Bool) :
    Keeps allowed program guarded (Standing program) (Standing program) where
  fresh := by
    have h : Above program [] (List.map Prod.fst ([] : List (String × Val))) [] program := .program
    exact ⟨_, .top rfl h.start⟩
  begun {co} d h := by
    unfold begun
    split <;> exact h
  next _ h hs := step_standing h hs
  yielded {rt co co' s s' v} _ h hs hv := by
    obtain ⟨around, h⟩ := step_suspends h hs hv
    rw [outcome_suspend hv]
    rw [hv] at h
    exact ⟨around, h.resumable⟩

end Coroutine

/-! ## Where a coroutine is -/

theorem Placed.at {co : Thread} (h : Placed program co.frames (co.env.map Prod.fst) co.control around) :
    co.At program around ∧ ∀ x ∈ around.names, x ∈ co.env.map Prod.fst := by
  obtain ⟨frames, env, control, delivered, status, guarded⟩ := co
  dsimp only at h ⊢
  cases h with
  | ended =>
    refine ⟨.ended rfl rfl, fun x hx => ?_⟩
    cases hx
  | top hc h =>
    refine ⟨.top rfl hc h.above.place, fun x hx => ?_⟩
    rw [Frame.names_point] at hx
    rcases List.mem_append.1 hx with hx | hx
    · exact h.declared x hx
    · exact List.mem_of_mem_drop (h.above.bound x hx)
  | exit hs h => exact ⟨.exit h.place hs, h.bound⟩

namespace Coroutine.Stage

variable {allowed : Runtime τ → Prop} {guarded : Bool} {rt : Runtime τ} {co : Thread} {s : τ}
  (h : Stage allowed program guarded rt co s)
include h

/-- At every stage the coroutine is at a place of its program, and the names declared before it have variables. -/
theorem at_bound : ∃ around, co.At program around ∧ ∀ x ∈ around.names, x ∈ co.env.map Prod.fst := by
  obtain ⟨around, hplaced⟩ := (standing_keeps allowed program guarded).stage h
  exact ⟨around, hplaced.at⟩

/-- At every stage with a statement on top, that statement stands at a place before which all names declared have
variables. -/
theorem top_bound (hc : co.control.stays) (hf : co.frames = f :: fs) : f.Fits ∧
    ∃ around, program.Over fs around f.node ∧ co.At program (f.point around) ∧
      ∀ x ∈ (f.point around).names, x ∈ co.env.map Prod.fst := by
  obtain ⟨around, hplaced⟩ := (standing_keeps allowed program guarded).stage h
  obtain ⟨hplace, hbound⟩ := hplaced.at
  rw [hf] at hplaced
  cases hplaced with
  | @top _ _ _ _ around _ htop => exact ⟨htop.fits, around, htop.above.place, hplace, hbound⟩
  | exit hs _ =>
    generalize co.control = c at hc hs
    cases hs <;> cases hc

end Coroutine.Stage

end Stages

end VirtualComputer
