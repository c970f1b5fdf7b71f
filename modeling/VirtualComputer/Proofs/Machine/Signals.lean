import VirtualComputer.Proofs.Json.Decoding
import VirtualComputer.Proofs.Machine.RoundTrip

/-!
# Records of signals

A signal is read back from its record, and from the text of its record with nothing in the place of every number that
is not finite (`signals_faithful`).  The arguments are found by their names, so it makes no difference in which order
they stand, nor what else stands with them.
-/

namespace VirtualComputer

open Json

/-! ## Scalars -/

/-- What is read in the place of a scalar: a number that is not finite has no text of its own. -/
def Scalar.reread : Scalar → Scalar
  | .number x => if x.isFinite then .number x else .nothing
  | a => a

theorem Scalar.read_settled (r : ℕ) (a : Scalar) : Scalar.ofJson? (settled r a.toJson) = some a.reread := by
  cases a with
  | nothing | bool b | str s => rfl
  | number x =>
    rw [toJson, settled, reread]
    split <;> rfl

def Signal.reread (s : Signal) : Signal :=
  ⟨s.name, s.args.map Scalar.reread⟩

/-- The keys that a record of a signal has a use for. -/
def Signal.Reserves (s : Signal) (key : String) : Prop :=
  key = "length" ∨ ∃ i < s.args.length, key = SignalRecord.argName i

instance (s : Signal) (key : String) : Decidable (s.Reserves key) :=
  inferInstanceAs (Decidable (key = "length" ∨ ∃ i < s.args.length, key = SignalRecord.argName i))

namespace SignalRecord

variable {s : Signal} {r : SignalRecord} {extra : List (String × Scalar)}

/-! ## Reading records -/

/-- The record that is read from the text of a record. -/
def reread (r : SignalRecord) : SignalRecord :=
  { r with values := r.values.map fun (k, a) => (k, a.reread) }

/-- The keys of the arguments are in order, none of them is that of the length, and the length is a word. -/
structure Orderly (r : SignalRecord) : Prop where
  ordered : Entries.Ordered r.values
  apart : ∀ e ∈ r.values, e.1 ≠ "length"
  word : Word.unsigned64.holds r.length

theorem settled_members (n : ℕ) (es : Entries Scalar) :
    settledMembers n (es.map fun (k, a) => (k, a.toJson)) = es.map fun (k, a) => (k, settled n a.toJson) := by
  induction es with
  | nil => rfl
  | cons e es ih => rw [List.map_cons, settledMembers, ih, List.map_cons]

theorem mapM_settled (n : ℕ) : ∀ es : Entries Scalar,
    (es.map fun (k, a) => (k, settled n a.toJson)).mapM
      (fun m : String × Json => (Scalar.ofJson? m.2).map fun a => (m.1, a)) =
    some (es.map fun (k, a) => (k, a.reread))
  | [] => rfl
  | (k, a) :: es => by
    rw [List.map_cons, List.mapM_cons, mapM_settled n es, Scalar.read_settled]
    rfl

/-- The members besides the length. -/
theorem filter_apart {members : List (String × Json)} (h : ∀ m ∈ members, m.1 ≠ "length") (j : Json) :
    (("length", j) :: members).filter (·.1 ≠ "length") = members := by
  rw [List.filter_cons_of_neg (by simp)]
  exact List.filter_eq_self.2 fun m hm => decide_eq_true (h m hm)

theorem one_apart {members : List (String × Json)} (h : ∀ m ∈ members, m.1 ≠ "length") (j : Json) :
    Fields.one? (("length", j) :: members) "length" = some (some j) := by
  have hnone : members.filter (·.1 = "length") = [] :=
    List.filter_eq_nil_iff.2 fun m hm hk => h m hm (of_decide_eq_true hk)
  rw [Fields.one?, Fields.valuesOf, List.filter_cons_of_pos (by simp), hnone]
  rfl

theorem args_settled (h : r.Orderly) {n : ℕ} (hn : 0 < n) :
    args? (settled n r.argsToJson) = some (r.length, r.reread.values) := by
  have hlength : asNat? (settled (n - 1) (.nat r.length)) = some r.length :=
    (reads_nat (n - 1) r.length).some_iff.2 ⟨(isWord_nat r.length).trans h.word, rfl⟩
  have hapart : ∀ m ∈ r.values.map fun (k, a) => (k, settled (n - 1) a.toJson), m.1 ≠ "length" := by
    intro m hm
    obtain ⟨e, he, rfl⟩ := List.mem_map.1 hm
    exact h.apart e he
  have hvalues : Entries.ofList r.reread.values = r.reread.values :=
    Entries.ofList_of_ordered (Entries.map_ordered _ h.ordered)
  rw [argsToJson, settled, if_pos hn, settledMembers, settled_members, args?, one_apart hapart]
  dsimp only
  rw [filter_apart hapart, mapM_settled]
  show ((asNat? (settled (n - 1) (.nat r.length))).bind fun length => some (length, Entries.ofList r.reread.values)) = _
  rw [hlength, hvalues]
  rfl

/-- The record that is read from a text. -/
def read? (text : String) : Option SignalRecord :=
  (Json.read? text).bind ofJson?

theorem read_text (h : r.Orderly) : read? r.toJson.text = some r.reread := by
  have hargs := args_settled h (show 0 < 126 by omega)
  rw [read?, Json.read_text, toJson]
  show ((args? (settled 126 r.argsToJson)).bind fun p : ℕ × Entries Scalar => some (mk r.name p.1 p.2)) = _
  rw [hargs]
  rfl

/-- Each argument is read in its own place. -/
theorem toSignal_reread (r : SignalRecord) : r.reread.toSignal = r.toSignal.reread := by
  refine congrArg (Signal.mk r.name) ?_
  show (List.range r.length).map _ = ((List.range r.length).map _).map _
  rw [List.map_map]
  refine List.map_congr_left fun i _ => ?_
  show (Entries.get? (argName i) (r.values.map fun (k, a) => (k, a.reread))).getD .nothing = _
  rw [Entries.get_map]
  cases hget : Entries.get? (argName i) r.values with
  | none =>
    rw [Function.comp_apply, hget]
    rfl
  | some a =>
    rw [Function.comp_apply, hget]
    rfl

/-! ## Further keys -/

/-- A record with further values, of which the later count. -/
def extended (extra : List (String × Scalar)) (r : SignalRecord) : SignalRecord :=
  { r with values := extra.foldl (fun es (k, a) => Entries.insert k a es) r.values }

theorem argName_ne_length (i : ℕ) : argName i ≠ "length" := by
  intro h
  have hhead := congrArg (fun s : String => s.toList.head?) h
  rw [argName, String.toList_append] at hhead
  cases hhead

theorem mem_namedFrom {e : String × Scalar} : ∀ {args : List Scalar} {n : ℕ}, e ∈ namedFrom n args →
    ∃ i, e.1 = argName i
  | a :: args, n, h => by
    rw [namedFrom] at h
    rcases List.mem_append.1 h with h | h
    · cases ha : a.isNothing with
      | true =>
        rw [ha] at h
        cases h
      | false =>
        rw [ha] at h
        exact ⟨n, congrArg Prod.fst (List.mem_singleton.1 h)⟩
    · exact mem_namedFrom h

theorem extended_orderly (hs : Word.unsigned64.holds s.args.length) (h : ∀ e ∈ extra, ¬s.Reserves e.1) :
    ((ofSignal s).extended extra).Orderly where
  ordered := Entries.foldl_ordered extra (Entries.ofList_ordered _)
  apart e he := by
    rcases Entries.mem_foldl extra _ he with he | he
    · obtain ⟨i, hi⟩ := mem_namedFrom (Entries.mem_ofList he)
      rw [hi]
      exact argName_ne_length i
    · exact fun hk => h e he (.inl hk)
  word := hs

/-- What nobody looks up makes no difference. -/
theorem extended_toSignal (h : ∀ e ∈ extra, ¬s.Reserves e.1) : ((ofSignal s).extended extra).toSignal = s := by
  refine Eq.trans (congrArg (Signal.mk s.name) (List.map_congr_left fun i hi => ?_)) (toSignal_ofSignal s)
  have hkeys : ∀ e ∈ extra, e.1 ≠ argName i := fun e he hk => h e he (.inr ⟨i, List.mem_range.1 hi, hk⟩)
  exact congrArg (Option.getD · Scalar.nothing) (Entries.get_foldl_ne extra _ hkeys)

theorem read_extended (hs : Word.unsigned64.holds s.args.length) (h : ∀ e ∈ extra, ¬s.Reserves e.1) :
    (read? ((ofSignal s).extended extra).toJson.text).map toSignal = some s.reread := by
  rw [read_text (extended_orderly hs h), Option.map_some, toSignal_reread, extended_toSignal h]

/-- A signal is the same after it has been recorded, and after its record has been written as a text it has nothing in
the place of numbers that are not finite; further keys make no difference to either.  The number of arguments is a word,
as all counts are. -/
theorem signals_faithful (s : Signal) :
    (ofSignal s).toSignal = s ∧
    (Word.unsigned64.holds s.args.length → (read? (ofSignal s).toJson.text).map toSignal = some s.reread) ∧
    ∀ extra : List (String × Scalar), (∀ e ∈ extra, ¬s.Reserves e.1) →
      ((ofSignal s).extended extra).toSignal = s ∧
      (Word.unsigned64.holds s.args.length →
        (read? ((ofSignal s).extended extra).toJson.text).map toSignal = some s.reread) :=
  ⟨toSignal_ofSignal s, fun hs => @read_extended s [] hs nofun, fun _ h => ⟨extended_toSignal h,
    fun hs => read_extended hs h⟩⟩

/-- An absent argument at the end, and a name beyond the arguments. -/
theorem keyed_faithful : let s : Signal := ⟨"key", [.str "down", .nothing, .bool true, .nothing]⟩
    let r := (ofSignal s).extended [("note", .nothing), ("arg4", .str "up")]
    (read? (ofSignal s).toJson.text).map toSignal = some s ∧ r.toSignal = s ∧
      (read? r.toJson.text).map toSignal = some s := by
  obtain ⟨-, hread, hextended⟩ := signals_faithful ⟨"key", [.str "down", .nothing, .bool true, .nothing]⟩
  obtain ⟨hsame, htext⟩ := hextended [("note", .nothing), ("arg4", .str "up")] (by decide)
  exact ⟨hread rfl, hsame, htext rfl⟩

end SignalRecord

end VirtualComputer
