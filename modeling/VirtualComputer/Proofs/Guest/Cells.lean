import VirtualComputer.Guest.Assignment
import VirtualComputer.Proofs.Entries
import VirtualComputer.Proofs.Guest.Bare

/-!
# Cells of containers

A key addresses a cell of an object or a list (`Val.cell?`), which reading and writing share: reading finds what is in
the cell (`access_cell`), and writing a path puts something into the cell of its first key (`write_cell`), unless that
key is refused (`write_refused`).  What holds of one cell carries over to paths: a write succeeds where the last
container takes the last key (`write_succeeds`), and then it is found where it was made and changes no other cell on the
way (`write_written`); one that is refused further down has filled a missing cell with null, or has done nothing
(`write_stopped`).
-/

namespace VirtualComputer

/-- A finite number is negative or not. -/
theorem not_neg_iff {x : Float} (h : x.isFinite) : ¬ x < 0 ↔ 0 ≤ x := by
  have hzero : (0 : Float).toModel.unpack = .zero .positive := rfl
  have hlt : x < 0 ↔ x.toModel.unpack.lt (0 : Float).toModel.unpack = true := decide_eq_true_iff
  have hle : 0 ≤ x ↔ (0 : Float).toModel.unpack.le x.toModel.unpack = true := decide_eq_true_iff
  have hfinite : x.toModel.unpack.isFinite = true := h
  rw [hlt, hle, hzero]
  generalize x.toModel.unpack = u at hfinite
  cases u with
  | infinity s => cases hfinite
  | notANumber => cases hfinite
  | zero s => exact iff_of_true nofun rfl
  | finite s m e hm =>
    cases s with
    | positive => exact iff_of_true nofun rfl
    | negative => exact iff_of_false (fun h => h rfl) nofun

namespace Val

/-! ## One key -/

/-- A cell of a container: an entry of an object, or an item of a list. -/
inductive Cell where
  | entry (key : String)
  | item (n : ℕ)
  deriving DecidableEq, Repr

/-- The cell that a key addresses. -/
def cell? : Val → Val → Option Cell
  | .obj _, .str k => some (.entry k)
  | .list _, .num x => if isWhole x && 0 ≤ x then some (.item x.toUInt64.toNat) else none
  | _, _ => none

/-- What is in a cell, if it is there. -/
def inCell? : Val → Cell → Option Val
  | .obj entries, .entry k => Entries.get? k entries
  | .list items, .item n => items[n]?
  | _, _ => none

/-- The cell is there or can be made: lists grow at their end only. -/
def HasRoom : Val → Cell → Prop
  | .obj _, .entry _ => True
  | .list items, .item n => n ≤ items.length
  | _, _ => False

/-- The container with a value in a cell. -/
def putCell (c : Val) (p : Cell) (v : Val) : Val :=
  match c, p with
  | .obj entries, .entry k => .obj (Entries.insert k v entries)
  | .list items, .item n => .list (if n = items.length then items ++ [v] else items.set n v)
  | c, _ => c

/-- The key addresses a cell that can be written. -/
def Takes (c k : Val) (p : Cell) : Prop :=
  c.cell? k = some p ∧ c.HasRoom p

/-- What is wrong with a key that addresses no such cell. -/
def refusal : Val → Val → Mistake
  | .list _, .num x => .outOfRange x
  | c, k => .noAccess c.kind k.kind

variable {c k v : Val} {p q : Cell}

/-- Reading finds what is in the cell, or null where nothing is. -/
theorem access_cell (h : c.cell? k = some p) : c.access k = .ok ((c.inCell? p).getD .null) := by
  unfold cell? at h
  split at h
  · cases h
    rfl
  · split at h
    · next hx =>
      cases h
      rw [Bool.and_comm] at hx
      rw [access, if_pos hx]
      rfl
    · cases h
  · cases h

/-- There is room where something is. -/
theorem hasRoom_inCell (h : c.inCell? p = some v) : c.HasRoom p := by
  unfold inCell? at h
  split at h
  · trivial
  · exact Nat.le_of_lt (List.getElem?_eq_some_iff.1 h).1
  · cases h

theorem inCell_putCell (h : c.HasRoom p) (v : Val) : (c.putCell p v).inCell? p = some v := by
  unfold HasRoom at h
  split at h
  · exact Entries.get_insert_self _ _ _
  · next items n =>
    rw [putCell, inCell?]
    split
    · next hn => rw [hn, List.getElem?_concat_length]
    · exact List.getElem?_set_self (by omega)
  · cases h

theorem putCell_inCell (ho : c.Ordered) (h : c.inCell? p = some v) : c.putCell p v = c := by
  unfold inCell? at h
  split at h
  · rw [putCell, Entries.insert_get ho.1 h]
  · obtain ⟨hn, hv⟩ := List.getElem?_eq_some_iff.1 h
    rw [putCell, if_neg (by omega), ← hv, List.set_getElem_self]
  · cases h

theorem cell_putCell (c : Val) (p : Cell) (v k : Val) : (c.putCell p v).cell? k = c.cell? k := by
  unfold putCell
  split
  · cases k <;> rfl
  · cases k <;> rfl
  · rfl

/-- Whatever another key reads stays as it is. -/
theorem access_putCell_ne (hp : c.HasRoom p) (hk : c.cell? k ≠ some p) (v : Val) :
    (c.putCell p v).access k = c.access k := by
  unfold HasRoom at hp
  split at hp
  · next entries key =>
    cases k with
    | str s =>
      have hne : key ≠ s := fun h => hk (h ▸ rfl)
      rw [putCell, access, access, Entries.get_insert_ne hne]
    | _ => rfl
  · next items n =>
    cases k with
    | num x =>
      rw [putCell, access, access]
      split
      · next hx =>
        have hne : n ≠ x.toUInt64.toNat := by
          rintro rfl
          rw [Bool.and_comm] at hx
          exact hk (if_pos hx)
        split
        · next hn => grind
        · rw [List.getElem?_set_ne hne]
      · rfl
    | _ => rfl
  · cases hp

theorem ordered_inCell (ho : c.Ordered) : ((c.inCell? p).getD .null).Ordered := by
  cases h : c.inCell? p with
  | none => trivial
  | some v =>
    unfold inCell? at h
    split at h
    · exact Val.orderedEntries_iff.1 ho.2 _ (Entries.mem_get h)
    · exact Val.orderedItems_iff.1 ho _ (List.mem_of_getElem? h)
    · cases h

/-! ## Writing one key -/

/-- The numbers that address an item. -/
theorem addresses_iff {x : Float} : (isWhole x && 0 ≤ x) = true ↔ (!isWhole x || x < 0) = false := by
  cases hx : isWhole x with
  | false => simp
  | true =>
    have hfinite : x.isFinite := (Bool.and_eq_true_iff.1 hx).1
    simp [← not_neg_iff hfinite]

/-- A path is written by writing the rest of it inside the cell of its first key. -/
theorem write_cell (value : Val) (keys : List Val) (h : c.Takes k p) :
    Val.write value (k :: keys) c = (c.putCell p (Val.write value keys ((c.inCell? p).getD .null)).1,
      (Val.write value keys ((c.inCell? p).getD .null)).2) := by
  obtain ⟨hp, hroom⟩ := h
  unfold cell? at hp
  split at hp
  · cases hp
    rfl
  · next items x =>
    split at hp
    · next hx =>
      cases hp
      have hfits : (!isWhole x || x < 0 || items.length < x.toUInt64.toNat) = false := by
        rw [addresses_iff.1 hx, Bool.false_or]
        exact decide_eq_false (Nat.not_lt.2 hroom)
      rw [Val.write, hfits, putCell, inCell?]
      by_cases hend : x.toUInt64.toNat = items.length
      · simp [hend]
      · simp [hend]
    · cases hp
  · cases hp

/-- A key that is refused leaves all as it is. -/
theorem write_refused (value : Val) (keys : List Val) (h : ∀ p, ¬ c.Takes k p) :
    Val.write value (k :: keys) c = (c, some (c.refusal k)) := by
  unfold Val.write
  split
  · next hk => cases hk
  · next key keys' entries hk =>
    cases hk
    exact absurd ⟨rfl, trivial⟩ (h (.entry key))
  · next x keys' items hk =>
    cases hk
    have hmisfit : (!isWhole x || x < 0 || items.length < x.toUInt64.toNat) = true := by
      refine Bool.eq_true_of_not_eq_false fun hfits => ?_
      obtain ⟨hx, hroom⟩ := Bool.or_eq_false_iff.1 hfits
      exact h (.item x.toUInt64.toNat) ⟨if_pos (addresses_iff.2 hx), Nat.not_lt.1 (of_decide_eq_false hroom)⟩
    dsimp only
    rw [if_pos hmisfit]
    rfl
  · next hk hentry hitem =>
    cases hk
    unfold refusal
    split
    · exact (hitem _ _ rfl rfl).elim
    · rfl

/-- Null takes no key. -/
theorem write_null (value k : Val) (keys : List Val) :
    Val.write value (k :: keys) .null = (.null, some (.noAccess .null k.kind)) :=
  write_refused value keys fun _ h => nomatch h.1

/-! ## Paths -/

/-- Reads a path by indexing one key after the other. -/
def read : List Val → Val → Except Mistake Val
  | [], v => .ok v
  | k :: keys, c => do
    let v ← c.access k
    read keys v

/-- What is at the end of a path, if all its cells are there. -/
def find? : List Val → Val → Option Val
  | [], v => some v
  | k :: keys, c => do
    let p ← c.cell? k
    let v ← c.inCell? p
    find? keys v

theorem read_append (keys more : List Val) (v : Val) : v.read (keys ++ more) = v.read keys >>= read more := by
  induction keys generalizing v with
  | nil => rfl
  | cons k keys ih =>
    rw [List.cons_append, read, read]
    cases v.access k with
    | error m => rfl
    | ok w => exact ih w

theorem read_cons {keys : List Val} (h : c.read (k :: keys) = .ok v) :
    ∃ w, c.access k = .ok w ∧ w.read keys = .ok v := by
  rw [read] at h
  cases hw : c.access k with
  | error m =>
    rw [hw] at h
    cases h
  | ok w =>
    rw [hw] at h
    exact ⟨w, rfl, h⟩

theorem read_cell (h : c.cell? k = some p) (keys : List Val) :
    c.read (k :: keys) = ((c.inCell? p).getD .null).read keys := by
  rw [read, access_cell h]
  rfl

theorem find_cell (h : c.cell? k = some p) (keys : List Val) :
    c.find? (k :: keys) = (c.inCell? p).bind (find? keys) := by
  rw [find?, h]
  rfl

/-- Reading finds what is there. -/
theorem read_of_find {keys : List Val} (h : c.find? keys = some v) : c.read keys = .ok v := by
  induction keys generalizing c with
  | nil =>
    cases h
    rfl
  | cons k keys ih =>
    obtain ⟨p, hp, h⟩ := Option.bind_eq_some_iff.1 h
    obtain ⟨w, hw, h⟩ := Option.bind_eq_some_iff.1 h
    rw [read_cell hp, hw]
    exact ih h

/-- Inside null there is nothing. -/
theorem find_null {keys : List Val} (h : Val.null.find? keys = some v) : keys = [] ∧ v = .null := by
  cases keys with
  | nil =>
    cases h
    exact ⟨rfl, rfl⟩
  | cons k keys => cases h

/-! ## Writes that succeed -/

section Success

variable {value old new : Val} {keys : List Val}

/-- The first key of a path that has been written addresses a cell, and the rest has been written inside. -/
theorem write_cons (h : Val.write value (k :: keys) old = (new, none)) : ∃ p v, old.Takes k p ∧
    Val.write value keys ((old.inCell? p).getD .null) = (v, none) ∧ new = old.putCell p v := by
  by_cases htakes : ∃ p, old.Takes k p
  · obtain ⟨p, hp⟩ := htakes
    rw [write_cell value keys hp] at h
    obtain ⟨rfl, hnone⟩ := Prod.mk.inj h
    exact ⟨p, _, hp, Prod.ext rfl hnone, rfl⟩
  · rw [write_refused value keys (not_exists.1 htakes)] at h
    cases h

/-- What has been written is there. -/
theorem find_write (h : Val.write value keys old = (new, none)) : new.find? keys = some value := by
  induction keys generalizing old new with
  | nil =>
    cases h
    rfl
  | cons k keys ih =>
    obtain ⟨p, v, ⟨hp, hroom⟩, hv, rfl⟩ := write_cons h
    rw [find_cell ((cell_putCell old p v k).trans hp), inCell_putCell hroom]
    exact ih hv

/-- A container that the path comes through has been changed in the cell of the next key. -/
theorem write_through {pre rest : List Val} (h : Val.write value (pre ++ k :: rest) old = (new, none)) :
    ∃ c p v, old.read pre = .ok c ∧ c.Takes k p ∧ new.read pre = .ok (c.putCell p v) := by
  induction pre generalizing old new with
  | nil =>
    obtain ⟨p, v, hp, -, rfl⟩ := write_cons h
    exact ⟨old, p, v, rfl, hp, rfl⟩
  | cons j pre ih =>
    obtain ⟨q, w, ⟨hq, hroom⟩, hw, rfl⟩ := write_cons h
    obtain ⟨c, p, v, hold, hp, hnew⟩ := ih hw
    refine ⟨c, p, v, (read_cell hq pre).trans hold, hp, ?_⟩
    rw [read_cell ((cell_putCell old q w j).trans hq), inCell_putCell hroom]
    exact hnew

/-- A write succeeds if there is a container before the last key that takes it, and only then. -/
theorem write_succeeds {pre : List Val} : (∃ new, Val.write value (pre ++ [k]) old = (new, none)) ↔
    ∃ c p, old.find? pre = some c ∧ c.Takes k p := by
  induction pre generalizing old with
  | nil =>
    constructor
    · rintro ⟨new, h⟩
      obtain ⟨p, -, hp, -, -⟩ := write_cons h
      exact ⟨old, p, rfl, hp⟩
    · rintro ⟨c, p, hc, hp⟩
      cases hc
      exact ⟨_, write_cell value [] hp⟩
  | cons j pre ih =>
    constructor
    · rintro ⟨new, h⟩
      obtain ⟨q, w, hq, hw, -⟩ := write_cons h
      rw [find_cell hq.1]
      cases hcell : old.inCell? q with
      | some v =>
        rw [hcell] at hw
        exact ih.1 ⟨w, hw⟩
      | none =>
        rw [hcell] at hw
        cases pre with
        | nil => cases (write_null _ _ _).symm.trans hw
        | cons i pre => cases (write_null _ _ _).symm.trans hw
    · rintro ⟨c, p, hc, hp⟩
      obtain ⟨q, hq, hc⟩ := Option.bind_eq_some_iff.1 hc
      obtain ⟨v, hv, hc⟩ := Option.bind_eq_some_iff.1 hc
      obtain ⟨w, hw⟩ := ih.2 ⟨c, p, hc, hp⟩
      refine ⟨old.putCell q w, ?_⟩
      rw [List.cons_append, write_cell value _ ⟨hq, hasRoom_inCell hv⟩, hv, Option.getD_some, hw]

end Success

/-- One value is the other with a value written at a path. -/
structure Written (keys : List Val) (value old new : Val) : Prop where
  /-- The path reads as the value. -/
  read_back : new.read keys = .ok value
  /-- The containers on the way have another value in the cell of the next key, and are the same otherwise. -/
  through : ∀ pre k rest, keys = pre ++ k :: rest →
    ∃ c p v, old.read pre = .ok c ∧ c.Takes k p ∧ new.read pre = .ok (c.putCell p v)
  /-- A path that leaves for another cell, or for none, reads as before. -/
  apart : ∀ pre k rest c k' rest', keys = pre ++ k :: rest → old.read pre = .ok c → c.cell? k' ≠ c.cell? k →
    new.read (pre ++ k' :: rest') = old.read (pre ++ k' :: rest')

/-- A write that succeeds writes its path and nothing else. -/
theorem write_written {value old new : Val} {keys : List Val} (h : Val.write value keys old = (new, none)) :
    Written keys value old new where
  read_back := read_of_find (find_write h)
  through := by
    rintro pre k rest rfl
    exact write_through h
  apart := by
    rintro pre k rest c k' rest' rfl hold hne
    obtain ⟨c', p, v, hold', ⟨hp, hroom⟩, hnew⟩ := write_through h
    obtain rfl : c = c' := Except.ok.inj (hold.symm.trans hold')
    rw [read_append, read_append, hold, hnew]
    show (c.putCell p v).read (k' :: rest') = c.read (k' :: rest')
    rw [read, read, access_putCell_ne hroom (hp ▸ hne)]

/-! ## Writes that stop on the way -/

/-- A write has stopped at a key of its path: all is as it was, or the key stands behind a cell that was missing, which
has been filled with null. -/
inductive Stopped (keys : List Val) (old : Val) : Mistake → Val → Prop
  | kept (pre : List Val) {rest : List Val} {k c : Val} (hkeys : keys = pre ++ k :: rest) (hc : old.find? pre = some c)
      (hk : ∀ p, ¬ c.Takes k p) : Stopped keys old (c.refusal k) old
  | filled (pre : List Val) {rest : List Val} {k new : Val} (hkeys : keys = pre ++ k :: rest)
      (hpre : old.find? pre = none) (hnew : Val.write .null pre old = (new, none)) :
      Stopped keys old (.noAccess .null k.kind) new

/-- A write that fails has stopped at a key of its path. -/
theorem write_stopped {value old new : Val} {keys : List Val} {m : Mistake} (ho : old.Ordered)
    (h : Val.write value keys old = (new, some m)) : Stopped keys old m new := by
  induction keys generalizing old new with
  | nil => cases h
  | cons k keys ih =>
    by_cases htakes : ∃ p, old.Takes k p
    · obtain ⟨p, hp⟩ := htakes
      rw [write_cell value keys hp] at h
      rcases hw : Val.write value keys ((old.inCell? p).getD .null) with ⟨w, r⟩
      rw [hw] at h
      dsimp only at h
      cases h
      have hstopped := ih (ordered_inCell ho) hw
      cases hcell : old.inCell? p with
      | some v =>
        rw [hcell, Option.getD_some] at hstopped
        cases hstopped with
        | @kept pre rest k' c hkeys hc hk =>
          rw [putCell_inCell ho hcell]
          refine .kept (k :: pre) (congrArg _ hkeys) ?_ hk
          rw [find_cell hp.1, hcell]
          exact hc
        | @filled pre rest k' _ hkeys hpre hnew =>
          refine .filled (k :: pre) (congrArg _ hkeys) ?_ ?_
          · rw [find_cell hp.1, hcell]
            exact hpre
          · rw [write_cell .null pre hp, hcell, Option.getD_some, hnew]
      | none =>
        rw [hcell, Option.getD_none] at hstopped
        cases hstopped with
        | @kept pre rest k' c hkeys hc hk =>
          obtain ⟨rfl, rfl⟩ := find_null hc
          refine .filled [k] (congrArg _ hkeys) ?_ ?_
          · rw [find_cell hp.1, hcell]
            rfl
          · rw [write_cell .null [] hp, hcell]
            rfl
        | @filled pre rest k' _ hkeys hpre hnew =>
          cases pre with
          | nil => cases hpre
          | cons j pre => cases (write_null _ _ _).symm.trans hnew
    · rw [write_refused value keys (not_exists.1 htakes)] at h
      cases h
      exact .kept [] rfl rfl (not_exists.1 htakes)

/-- A path that goes on behind a missing cell stops there. -/
theorem write_filled {old new k : Val} {pre : List Val} (hpre : old.find? pre = none)
    (hnew : Val.write .null pre old = (new, none)) (value : Val) (rest : List Val) :
    Val.write value (pre ++ k :: rest) old = (new, some (.noAccess .null k.kind)) := by
  induction pre generalizing old new with
  | nil => cases hpre
  | cons j pre ih =>
    obtain ⟨p, v, hp, hv, rfl⟩ := write_cons hnew
    rw [find_cell hp.1] at hpre
    rw [List.cons_append, write_cell value _ hp]
    cases hcell : old.inCell? p with
    | some w =>
      rw [hcell] at hpre hv
      rw [Option.getD_some, ih hpre hv]
    | none =>
      rw [hcell] at hv
      cases pre with
      | nil =>
        cases hv
        rw [List.nil_append, Option.getD_none, write_null]
      | cons j' pre => cases (write_null _ _ _).symm.trans hv

/-- Filling a missing cell makes a difference. -/
theorem ne_of_filled {old new : Val} {pre : List Val} (hpre : old.find? pre = none)
    (hnew : Val.write .null pre old = (new, none)) : new ≠ old := by
  rintro rfl
  cases hpre.symm.trans (find_write hnew)

end Val

end VirtualComputer
