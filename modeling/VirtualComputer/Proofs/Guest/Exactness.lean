import VirtualComputer.Guest.Call
import VirtualComputer.Proofs.Guest.Stored

/-!
# Exactness of the stored form

A stored value fits a depth exactly if all numbers in it are finite and its stored form nests no deeper
(`Val.fits_iff`).  So what is written for a value is read back exactly then, as the value without positions, and
written again in the same way; and what is read from any text is read back (`persist_exact`).
-/

namespace VirtualComputer

open Json

/-! ## Depth -/

namespace Json

mutual

/-- How deep the lists and objects of a value nest. -/
def depth : Json → ℕ
  | .arr items => depthItems items + 1
  | .obj members => depthMembers members + 1
  | _ => 0

def depthItems : List Json → ℕ
  | [] => 0
  | j :: rest => max (depth j) (depthItems rest)

def depthMembers : List (String × Json) → ℕ
  | [] => 0
  | (_, j) :: rest => max (depth j) (depthMembers rest)

end

/-- A value fits a depth exactly if something holds and it nests no deeper. -/
def Exact (j : Json) (P : Prop) : Prop :=
  ∀ r, fits r j ↔ P ∧ depth j ≤ r

def ExactItems (items : List Json) (P : Prop) : Prop :=
  ∀ r, fitsItems r items ↔ P ∧ depthItems items ≤ r

def ExactMembers (members : List (String × Json)) (P : Prop) : Prop :=
  ∀ r, fitsMembers r members ↔ P ∧ depthMembers members ≤ r

variable {j : Json} {items : List Json} {members : List (String × Json)} {P Q : Prop}

theorem Exact.congr (h : Exact j P) (hpq : P ↔ Q) : Exact j Q := fun r => by
  rw [h r, hpq]

theorem exact_null : Exact .null True := fun _ => by simp [fits, depth]

theorem exact_bool (b : Bool) : Exact (.bool b) True := fun _ => by simp [fits, depth]

theorem exact_str (s : String) : Exact (.str s) True := fun _ => by simp [fits, depth]

theorem exact_float (x : Float) : Exact (.float x) x.isFinite := fun _ => by simp [fits, depth]

theorem exact_nat (n : ℕ) : Exact (.nat n) (isWord n) := fun _ => by simp [Json.nat, fits, depth]

theorem ExactItems.nil : ExactItems [] True := fun _ => by simp [fitsItems, depthItems]

theorem Exact.item (hj : Exact j P) (h : ExactItems items Q) : ExactItems (j :: items) (P ∧ Q) := fun r => by
  rw [fitsItems, depthItems, Bool.and_eq_true, hj r, h r, max_le_iff]
  tauto

theorem ExactItems.congr (h : ExactItems items P) (hpq : P ↔ Q) : ExactItems items Q := fun r => by
  rw [h r, hpq]

theorem ExactItems.arr (h : ExactItems items P) : Exact (.arr items) P := fun r => by
  rw [fits, depth, Bool.and_eq_true, decide_eq_true_eq, h]
  exact ⟨fun ⟨h0, hp, hd⟩ => ⟨hp, by omega⟩, fun ⟨hp, hd⟩ => ⟨by omega, hp, by omega⟩⟩

theorem depthItems_le {r : ℕ} : depthItems items ≤ r ↔ ∀ j ∈ items, depth j ≤ r := by
  induction items with
  | nil => simp [depthItems]
  | cons j items ih => simp [depthItems, ih]

theorem ExactItems.reverse (h : ExactItems items P) : ExactItems items.reverse P := fun r => by
  have h := h r
  rw [fitsItems_iff, depthItems_le] at h ⊢
  simpa only [List.mem_reverse] using h

theorem ExactMembers.nil : ExactMembers [] True := fun _ => by simp [fitsMembers, depthMembers]

theorem Exact.member {key : String} (hj : Exact j P) (h : ExactMembers members Q) :
    ExactMembers ((key, j) :: members) (P ∧ Q) := fun r => by
  rw [fitsMembers, depthMembers, Bool.and_eq_true, hj r, h r, max_le_iff]
  tauto

theorem ExactMembers.congr (h : ExactMembers members P) (hpq : P ↔ Q) : ExactMembers members Q := fun r => by
  rw [h r, hpq]

theorem ExactMembers.obj (h : ExactMembers members P) : Exact (.obj members) P := fun r => by
  rw [fits, depth, Bool.and_eq_true, decide_eq_true_eq, h]
  exact ⟨fun ⟨h0, hp, hd⟩ => ⟨hp, by omega⟩, fun ⟨hp, hd⟩ => ⟨by omega, hp, by omega⟩⟩

/-- The items made of a list fit if all its elements do. -/
theorem exact_map {α : Type} {f : α → Json} {P : α → Prop} {as : List α} (h : ∀ a ∈ as, Exact (f a) (P a)) :
    ExactItems (as.map f) (∀ a ∈ as, P a) := by
  induction as with
  | nil => exact ExactItems.nil.congr (by simp)
  | cons a as ih =>
    exact ((h a List.mem_cons_self).item (ih fun b hb => h b (List.mem_cons_of_mem _ hb))).congr (by simp)

end Json

/-- All of some numbers are finite. -/
def AllFinite (xs : List Float) : Prop :=
  ∀ x ∈ xs, x.isFinite

@[simp] theorem allFinite_nil : AllFinite [] ↔ True := by simp [AllFinite]

@[simp] theorem allFinite_singleton (x : Float) : AllFinite [x] ↔ x.isFinite := by simp [AllFinite]

@[simp] theorem allFinite_append (xs ys : List Float) : AllFinite (xs ++ ys) ↔ AllFinite xs ∧ AllFinite ys :=
  List.forall_mem_append

@[simp] theorem allFinite_flatMap {α : Type} (f : α → List Float) (as : List α) :
    AllFinite (as.flatMap f) ↔ ∀ a ∈ as, AllFinite (f a) := by
  simp only [AllFinite, List.mem_flatMap]
  grind

/-! ## Programs -/

section

open ExactMembers

mutual

theorem Expr.exact : ∀ e : Expr, Exact e.toJson (AllFinite e.numbers)
  | .bool v _ => ((exact_str _).member ((exact_bool v).member nil)).obj.congr (by simp [Expr.numbers])
  | .num x _ => ((exact_str _).member ((exact_float x).member nil)).obj.congr (by simp [Expr.numbers])
  | .str v _ => ((exact_str _).member ((exact_str v).member nil)).obj.congr (by simp [Expr.numbers])
  | .null _ => ((exact_str _).member nil).obj.congr (by simp [Expr.numbers])
  | .list es _ => ((exact_str _).member ((Expr.exactAll es).arr.member nil)).obj.congr (by simp [Expr.numbers])
  | .object ps _ => ((exact_str _).member ((Expr.exactProperties ps).arr.member nil)).obj.congr (by simp [Expr.numbers])
  | .ident x _ => ((exact_str _).member ((exact_str x).member nil)).obj.congr (by simp [Expr.numbers])
  | .member e p _ => ((exact_str _).member (e.exact.member ((exact_str p).member nil))).obj.congr
      (by simp [Expr.numbers])
  | .index e k _ => ((exact_str _).member (e.exact.member (k.exact.member nil))).obj.congr
      (by simp [Expr.numbers])
  | .call f es _ => ((exact_str _).member (f.exact.member ((Expr.exactAll es).arr.member nil))).obj.congr
      (by simp [Expr.numbers])
  | .yield e _ => ((exact_str _).member ((Expr.exactOption e).member nil)).obj.congr (by simp [Expr.numbers])
  | .logic op l e _ => ((exact_str _).member ((exact_str op.tag).member (l.exact.member
      (e.exact.member nil)))).obj.congr (by simp [Expr.numbers])

theorem Expr.exactAll : ∀ es : List Expr, ExactItems (Expr.toJsonAll es) (AllFinite (Expr.numbersAll es))
  | [] => ExactItems.nil.congr (by simp [Expr.numbersAll])
  | e :: es => (e.exact.item (Expr.exactAll es)).congr (by simp [Expr.numbersAll])

theorem Expr.exactProperties : ∀ ps : List (String × Expr),
    ExactItems (Expr.toJsonProperties ps) (AllFinite (Expr.numbersProperties ps))
  | [] => ExactItems.nil.congr (by simp [Expr.numbersProperties])
  | (k, e) :: ps => (((exact_str k).item (e.exact.item .nil)).arr.item (Expr.exactProperties ps)).congr
      (by simp [Expr.numbersProperties])

theorem Expr.exactOption : ∀ e : Option Expr, Exact (Expr.toJsonOption e) (AllFinite (Expr.numbersOption e))
  | none => exact_null.congr (by simp [Expr.numbersOption])
  | some e => e.exact

end

theorem Expr.exact_ofOption (e : Option Expr) : Exact (ofOption Expr.toJson e) (AllFinite (Expr.numbersOption e)) := by
  rw [← Expr.toJsonOption_eq]
  exact Expr.exactOption e

theorem Segment.exact : ∀ g : Segment, Exact g.toJson (AllFinite g.numbers)
  | .property x _ => ((exact_str _).member ((exact_str x).member nil)).obj.congr (by simp [Segment.numbers])
  | .key e _ => ((exact_str _).member (e.exact.member nil)).obj.congr (by simp [Segment.numbers])

mutual

theorem Stmt.exact : ∀ s : Stmt, Exact s.toJson (AllFinite s.numbers)
  | .block body _ => ((exact_str _).member ((Stmt.exactAll body).arr.member nil)).obj.congr (by simp [Stmt.numbers])
  | .declare x e _ => ((exact_str _).member ((exact_str x).member ((Expr.exact_ofOption e).member nil))).obj.congr
      (by simp [Stmt.numbers])
  | .assign x path e _ => ((exact_str _).member ((exact_str x).member ((exact_map fun g (_ : g ∈ path) =>
      g.exact).arr.member (e.exact.member nil)))).obj.congr (by simp [Stmt.numbers])
  | .branch e s t _ => ((exact_str _).member (e.exact.member (s.exact.member
      ((Stmt.exactOption t).member nil)))).obj.congr (by simp [Stmt.numbers])
  | .loop e s _ => ((exact_str _).member (e.exact.member (s.exact.member nil))).obj.congr
      (by simp [Stmt.numbers])
  | .return e _ => ((exact_str _).member ((Expr.exact_ofOption e).member nil)).obj.congr (by simp [Stmt.numbers])
  | .attempt s x t _ => ((exact_str _).member (s.exact.member ((exact_str x).member (t.exact.member nil)))).obj.congr
      (by simp [Stmt.numbers])
  | .expr e _ => ((exact_str _).member (e.exact.member nil)).obj.congr (by simp [Stmt.numbers])
  | .break _ | .continue _ => ((exact_str _).member nil).obj.congr (by simp [Stmt.numbers])

theorem Stmt.exactAll : ∀ body : List Stmt, ExactItems (Stmt.toJsonAll body) (AllFinite (Stmt.numbersAll body))
  | [] => ExactItems.nil.congr (by simp [Stmt.numbersAll])
  | s :: body => (s.exact.item (Stmt.exactAll body)).congr (by simp [Stmt.numbersAll])

theorem Stmt.exactOption : ∀ s : Option Stmt, Exact (Stmt.toJsonOption s) (AllFinite (Stmt.numbersOption s))
  | none => exact_null.congr (by simp [Stmt.numbersOption])
  | some s => s.exact

end

/-! ## Values -/

/-- All of some counts can be kept apart from floating numbers. -/
def AllWords (ns : List ℕ) : Prop :=
  ∀ n ∈ ns, isWord n

@[simp] theorem allWords_nil : AllWords [] ↔ True := by simp [AllWords]

@[simp] theorem allWords_append (ms ns : List ℕ) : AllWords (ms ++ ns) ↔ AllWords ms ∧ AllWords ns :=
  List.forall_mem_append

@[simp] theorem allWords_flatMap {α : Type} (f : α → List ℕ) (as : List α) :
    AllWords (as.flatMap f) ↔ ∀ a ∈ as, AllWords (f a) := by
  simp only [AllWords, List.mem_flatMap]
  grind

theorem Frame.exact (f : Frame) : Exact f.toJson (AllFinite f.node.numbers ∧ AllWords f.counts) := by
  obtain ⟨kind, base, node⟩ := f
  have hrest : ExactMembers [("scope_base_sp", .nat base), ("node", node.toJson)]
      (isWord base ∧ AllFinite node.numbers ∧ True) := (exact_nat base).member (node.exact.member nil)
  cases kind with
  | block next =>
    refine ((exact_str _).member ((exact_nat next).member hrest)).obj.congr ?_
    simp only [Frame.counts, AllWords, List.forall_mem_cons]
    tauto
  | loop | attempt phase =>
    exact ((exact_str _).member ((exact_str _).member hrest)).obj.congr
      (by simp [Frame.counts, AllWords, and_comm])
  | _ => exact ((exact_str _).member hrest).obj.congr (by simp [Frame.counts, AllWords, and_comm])

mutual

theorem Val.exact : ∀ v : Val, Exact v.toJson (AllFinite v.numbers ∧ AllWords v.counts)
  | .null => ((exact_str _).member nil).obj.congr (by simp [Val.numbers, Val.counts])
  | .bool b => ((exact_str _).member ((exact_bool b).member nil)).obj.congr (by simp [Val.numbers, Val.counts])
  | .num x => ((exact_str _).member ((exact_float x).member nil)).obj.congr (by simp [Val.numbers, Val.counts])
  | .str s => ((exact_str _).member ((exact_str s).member nil)).obj.congr (by simp [Val.numbers, Val.counts])
  | .list items => ((exact_str _).member ((Val.exactItems items).arr.member nil)).obj.congr
      (by simp [Val.numbers, Val.counts])
  | .obj es => ((exact_str _).member ((Val.exactEntries es).obj.member nil)).obj.congr
      (by simp [Val.numbers, Val.counts])
  | .native n => ((exact_str _).member ((exact_str n.tag).member nil)).obj.congr (by simp [Val.numbers, Val.counts])
  | .bound n args => ((exact_str _).member (((exact_str n.tag).member
      ((Val.exactItems args).arr.member nil)).obj.member nil)).obj.congr (by simp [Val.numbers, Val.counts])
  | .thread co => ((exact_str _).member ((Val.exactThread co).member nil)).obj.congr
      (by simp [Val.numbers, Val.counts])
  | .error code message => ((exact_str _).member (((exact_str code).member
      ((exact_str message).member nil)).obj.member nil)).obj.congr (by simp [Val.numbers, Val.counts])

theorem Val.exactItems : ∀ vs : List Val,
    ExactItems (Val.toJsonItems vs) (AllFinite (Val.numbersItems vs) ∧ AllWords (Val.countsItems vs))
  | [] => ExactItems.nil.congr (by simp [Val.numbersItems, Val.countsItems])
  | v :: vs => (v.exact.item (Val.exactItems vs)).congr
      (by simp [Val.numbersItems, Val.countsItems, and_assoc, and_left_comm])

theorem Val.exactEntries : ∀ es : List (String × Val),
    ExactMembers (Val.toJsonEntries es) (AllFinite (Val.numbersEntries es) ∧ AllWords (Val.countsEntries es))
  | [] => ExactMembers.nil.congr (by simp [Val.numbersEntries, Val.countsEntries])
  | (_, v) :: es => (v.exact.member (Val.exactEntries es)).congr
      (by simp [Val.numbersEntries, Val.countsEntries, and_assoc, and_left_comm])

theorem Val.exactBindings : ∀ env : List (String × Val),
    ExactItems (Val.toJsonBindings env) (AllFinite (Val.numbersEntries env) ∧ AllWords (Val.countsEntries env))
  | [] => ExactItems.nil.congr (by simp [Val.numbersEntries, Val.countsEntries])
  | (x, v) :: env => (((exact_str x).member (v.exact.member nil)).obj.item (Val.exactBindings env)).congr
      (by simp [Val.numbersEntries, Val.countsEntries, and_assoc, and_left_comm])

theorem Val.exactControl : ∀ c : Control Val,
    Exact (Val.toJsonControl c) (AllFinite (Val.numbersControl c) ∧ AllWords (Val.countsControl c))
  | .none | .break | .continue => ((exact_str _).member nil).obj.congr (by simp [Val.numbersControl, Val.countsControl])
  | .return v | .throw v | .suspend v => ((exact_str _).member (v.exact.member nil)).obj.congr
      (by simp [Val.numbersControl, Val.countsControl])

theorem Val.exactOption : ∀ v : Option Val,
    Exact (Val.toJsonOption v) (AllFinite (Val.numbersOption v) ∧ AllWords (Val.countsOption v))
  | none => exact_null.congr (by simp [Val.numbersOption, Val.countsOption])
  | some v => v.exact

theorem Val.exactThread : ∀ co : Coroutine Val,
    Exact (Val.toJsonThread co) (AllFinite (Val.numbersThread co) ∧ AllWords (Val.countsThread co))
  | ⟨frames, env, control, delivered, status, guarded⟩ => by
    have hframes := (exact_map fun f (_ : f ∈ frames) => f.exact).reverse
    rw [← List.map_reverse] at hframes
    exact (hframes.arr.member ((Val.exactBindings env).reverse.arr.member ((Val.exactControl control).member
      ((Val.exactOption delivered).member ((exact_str status.tag).member ((exact_bool guarded).member
        nil)))))).obj.congr (by
          simp only [Val.numbersThread, Val.countsThread, allFinite_append, allFinite_flatMap, allWords_append,
            allWords_flatMap, and_true, forall_and]
          tauto)

end

end

/-! ## Exactness -/

/-- A stored value fits a depth exactly if its numbers are finite, its counts are words and it nests no deeper. -/
theorem Val.fits_iff (v : Val) (r : ℕ) :
    fits r v.toJson ↔ (AllFinite v.numbers ∧ AllWords v.counts) ∧ v.toJson.depth ≤ r :=
  v.exact r

/-- A value as programs come by it: its objects are in order, and the counts of its frames are words. -/
structure Val.Proper (v : Val) : Prop where
  ordered : v.Ordered
  counts : AllWords v.counts

/-- What is read from the text that is stored for a value. -/
theorem Val.load_store {v : Val} (h : v.Ordered) :
    Reads (Val.load? v.store) (fits nestingLimit v.toJson) v.bare := by
  rw [Val.load?, Val.store, read_text]
  exact Val.reads nestingLimit nestingLimit (le_refl _) .passing v h

/-- What is read from a text can be stored and read again. -/
theorem Val.restored_of_load {text : String} {w : Val} (h : Val.load? text = some w) : w.Restored nestingLimit := by
  obtain ⟨j, hj, h⟩ := Option.bind_eq_some_iff.1 h
  exact Val.yields nestingLimit .passing (fits_of_read hj) w h

theorem persist_eq (v : Val) : Native.persist.apply [v] = .ok (.str v.store) := rfl

theorem unpersist_iff {text : String} {w : Val} :
    Native.unpersist.apply [.str text] = .ok w ↔ Val.load? text = some w := by
  have htext : Native.unpersist.stringArg [.str text] 0 = pure text := rfl
  rw [Native.apply, htext, pure_bind]
  cases Val.load? text with
  | some v => exact ⟨fun h => congrArg some (Except.ok.inj h), fun h => congrArg Except.ok (Option.some.inj h)⟩
  | none => exact ⟨fun h => (nomatch h), fun h => (nomatch h)⟩

/-- The text that is written for a value is read back exactly if its numbers are finite and it nests no deeper than
can be read; then it is read as the value without positions, and that is written in the same way.  Whatever is read
from a text is read from the text that is written for it. -/
theorem persist_exact : (∀ v : Val, v.Proper → ∃ text, Native.persist.apply [v] = .ok (.str text) ∧
      ((∃ w, Native.unpersist.apply [.str text] = .ok w) ↔
        AllFinite v.numbers ∧ v.toJson.depth ≤ nestingLimit) ∧
      ∀ w, Native.unpersist.apply [.str text] = .ok w → w = v.bare ∧ Native.persist.apply [w] = .ok (.str text)) ∧
    ∀ text w, Native.unpersist.apply [.str text] = .ok w →
      ∃ text', Native.persist.apply [w] = .ok (.str text') ∧ Native.unpersist.apply [.str text'] = .ok w := by
  refine ⟨fun v hv => ⟨v.store, persist_eq v, ?_, fun w hw => ?_⟩, fun text w hw => ⟨w.store, persist_eq w, ?_⟩⟩
  · have hload := Val.load_store hv.ordered
    simp only [unpersist_iff, hload.some_iff, exists_and_left, exists_eq', and_true, v.fits_iff, hv.counts]
  · obtain ⟨-, rfl⟩ := (Val.load_store hv.ordered).some_iff.1 (unpersist_iff.1 hw)
    refine ⟨rfl, ?_⟩
    rw [persist_eq, Val.store, Val.toJson_bare, Val.store]
  · have h := Val.restored_of_load (unpersist_iff.1 hw)
    exact unpersist_iff.2 ((Val.load_store h.ordered).some_iff.2 ⟨h.fits, h.bare⟩)

/-- A coroutine that waits in the middle of its program for what `yield` stands for. -/
def waiting : Thread where
  frames := [
    ⟨.declare, 1, .declare "y" (some (.yield (some (.ident "x" ⟨18, 19, 1, 14⟩)) ⟨12, 19, 1, 8⟩)) ⟨4, 20, 1, 0⟩⟩]
  env := [("x", .obj [("of", .list [.num (Decimal.ofNat 3), .null]), ("to", .bound .send [.str "\"\n"])])]
  control := .none
  delivered := none
  status := .suspended
  guarded := false

theorem waiting_persists : ∃ text, Native.persist.apply [.thread waiting] = .ok (.str text) ∧
    Native.unpersist.apply [.str text] = .ok (.thread waiting.bare) := by
  have hordered : (Val.thread waiting).Ordered := by
    refine ⟨⟨⟨?_, ⟨trivial, trivial, trivial⟩, ⟨trivial, trivial⟩, trivial⟩, trivial⟩, trivial, trivial⟩
    exact List.pairwise_cons.2 ⟨List.forall_mem_singleton.2 (by decide), List.pairwise_singleton _ _⟩
  have hfinite : AllFinite (Val.thread waiting).numbers :=
    (allFinite_singleton _).2 (Decimal.isFinite_ofInt (by decide))
  have hwords : AllWords (Val.thread waiting).counts := by
    intro n hn
    obtain rfl := List.mem_singleton.1 hn
    decide
  obtain ⟨text, hp, hread, heq⟩ := persist_exact.1 (.thread waiting) ⟨hordered, hwords⟩
  obtain ⟨w, hw⟩ := hread.2 ⟨hfinite, by decide⟩
  obtain ⟨rfl, -⟩ := heq w hw
  exact ⟨text, hp, hw⟩

end VirtualComputer
