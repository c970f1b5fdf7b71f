import VirtualComputer.Guest.Value
import VirtualComputer.Proofs.Syntax.Bare

/-!
# Values without positions

`Val.bare` forgets the positions in all programs that a value holds.  `Val.Ordered` says that the entries of all
objects in a value are in order, as they are in every value that a program can come by.  `Val.numbers` and
`Val.counts` list the numbers in a value that its stored form depends on: those of the guest and of its programs, and
the counts of its frames.
-/

namespace VirtualComputer

/-! ## Forgetting positions -/

/-- The frame without source positions. -/
def Frame.bare (f : Frame) : Frame :=
  { f with node := f.node.bare }

mutual

/-- The value without source positions. -/
def Val.bare : Val → Val
  | .list items => .list (Val.bareItems items)
  | .obj entries => .obj (Val.bareEntries entries)
  | .bound n args => .bound n (Val.bareItems args)
  | .thread co => .thread (Val.bareThread co)
  | v => v

def Val.bareItems : List Val → List Val
  | [] => []
  | v :: vs => v.bare :: Val.bareItems vs

def Val.bareEntries : List (String × Val) → List (String × Val)
  | [] => []
  | (k, v) :: es => (k, v.bare) :: Val.bareEntries es

def Val.bareControl : Control Val → Control Val
  | .return v => .return v.bare
  | .throw v => .throw v.bare
  | .suspend v => .suspend v.bare
  | .none => .none
  | .break => .break
  | .continue => .continue

def Val.bareOption : Option Val → Option Val
  | none => none
  | some v => some v.bare

def Val.bareThread : Coroutine Val → Coroutine Val
  | ⟨frames, env, control, delivered, status, guarded⟩ =>
    ⟨frames.map Frame.bare, Val.bareEntries env, Val.bareControl control, Val.bareOption delivered, status, guarded⟩

end

/-- The coroutine without source positions. -/
def Coroutine.bare (co : Thread) : Thread :=
  Val.bareThread co

theorem Val.bareItems_eq (vs : List Val) : Val.bareItems vs = vs.map Val.bare := by
  induction vs with
  | nil => rfl
  | cons v vs ih => rw [Val.bareItems, ih, List.map_cons]

theorem Val.bareEntries_eq (es : List (String × Val)) : Val.bareEntries es = es.map fun e => (e.1, e.2.bare) := by
  induction es with
  | nil => rfl
  | cons e es ih => rw [Val.bareEntries, ih, List.map_cons]

theorem Val.bareOption_eq (v : Option Val) : Val.bareOption v = v.map Val.bare := by
  cases v <;> rfl

/-! ## Order -/

mutual

/-- Whether the entries of all objects in a value are in order. -/
def Val.Ordered : Val → Prop
  | .list items => Val.OrderedItems items
  | .obj entries => Entries.Ordered entries ∧ Val.OrderedEntries entries
  | .bound _ args => Val.OrderedItems args
  | .thread co => Val.OrderedThread co
  | _ => True

def Val.OrderedItems : List Val → Prop
  | [] => True
  | v :: vs => v.Ordered ∧ Val.OrderedItems vs

def Val.OrderedEntries : List (String × Val) → Prop
  | [] => True
  | (_, v) :: es => v.Ordered ∧ Val.OrderedEntries es

def Val.OrderedControl : Control Val → Prop
  | .return v | .throw v | .suspend v => v.Ordered
  | .none | .break | .continue => True

def Val.OrderedOption : Option Val → Prop
  | none => True
  | some v => v.Ordered

def Val.OrderedThread : Coroutine Val → Prop
  | ⟨_, env, control, delivered, _, _⟩ =>
    Val.OrderedEntries env ∧ Val.OrderedControl control ∧ Val.OrderedOption delivered

end

theorem Val.orderedItems_iff {vs : List Val} : Val.OrderedItems vs ↔ ∀ v ∈ vs, v.Ordered := by
  induction vs with
  | nil => simp [Val.OrderedItems]
  | cons v vs ih => simp [Val.OrderedItems, ih]

theorem Val.orderedEntries_iff {es : List (String × Val)} : Val.OrderedEntries es ↔ ∀ e ∈ es, e.2.Ordered := by
  induction es with
  | nil => simp [Val.OrderedEntries]
  | cons e es ih => simp [Val.OrderedEntries, ih]

/-! ## Numbers -/

mutual

/-- The numbers in a value, those of the programs of its threads included. -/
def Val.numbers : Val → List Float
  | .num x => [x]
  | .list items => Val.numbersItems items
  | .obj entries => Val.numbersEntries entries
  | .bound _ args => Val.numbersItems args
  | .thread co => Val.numbersThread co
  | _ => []

def Val.numbersItems : List Val → List Float
  | [] => []
  | v :: vs => v.numbers ++ Val.numbersItems vs

def Val.numbersEntries : List (String × Val) → List Float
  | [] => []
  | (_, v) :: es => v.numbers ++ Val.numbersEntries es

def Val.numbersControl : Control Val → List Float
  | .return v | .throw v | .suspend v => v.numbers
  | .none | .break | .continue => []

def Val.numbersOption : Option Val → List Float
  | none => []
  | some v => v.numbers

def Val.numbersThread : Coroutine Val → List Float
  | ⟨frames, env, control, delivered, _, _⟩ =>
    frames.flatMap (fun f => f.node.numbers) ++ Val.numbersEntries env ++ Val.numbersControl control ++
      Val.numbersOption delivered

end

/-! ## Counts -/

/-- The counts that a frame keeps. -/
def Frame.counts (f : Frame) : List Nat :=
  match f.kind with
  | .block next => [next, f.base]
  | _ => [f.base]

mutual

/-- The counts that the frames in a value keep. -/
def Val.counts : Val → List Nat
  | .list items => Val.countsItems items
  | .obj entries => Val.countsEntries entries
  | .bound _ args => Val.countsItems args
  | .thread co => Val.countsThread co
  | _ => []

def Val.countsItems : List Val → List Nat
  | [] => []
  | v :: vs => v.counts ++ Val.countsItems vs

def Val.countsEntries : List (String × Val) → List Nat
  | [] => []
  | (_, v) :: es => v.counts ++ Val.countsEntries es

def Val.countsControl : Control Val → List Nat
  | .return v | .throw v | .suspend v => v.counts
  | .none | .break | .continue => []

def Val.countsOption : Option Val → List Nat
  | none => []
  | some v => v.counts

def Val.countsThread : Coroutine Val → List Nat
  | ⟨frames, env, control, delivered, _, _⟩ =>
    frames.flatMap Frame.counts ++ Val.countsEntries env ++ Val.countsControl control ++ Val.countsOption delivered

end

end VirtualComputer
