import VirtualComputer.Json.Fields
import VirtualComputer.Proofs.Json.Reading

/-!
# Decoding what has been read

`Reads o ok a` says that a decoder gives `a` if `ok` holds and fails otherwise; it is passed through decoders that are
put together (`Reads.bind`, `reads_list`, `reads_optional`).  `Yields P o` says that whatever a decoder gives has a
property, and is passed through alike.
-/

namespace VirtualComputer.Json

variable {α β : Type}

/-! ## Exact results -/

/-- A decoder gives a value if a condition holds, and fails otherwise. -/
def Reads (o : Option α) (ok : Bool) (a : α) : Prop :=
  o = if ok then some a else none

theorem Reads.pure (a : α) : Reads (some a) true a := rfl

theorem Reads.bind {o : Option α} {f : α → Option β} {ok ok' : Bool} {a : α} {b : β} (h : Reads o ok a)
    (h' : Reads (f a) ok' b) : Reads (o.bind f) (ok && ok') b := by
  unfold Reads at h h' ⊢
  subst h
  cases ok
  · rfl
  · exact h'

theorem Reads.give {o : Option α} {ok : Bool} {a : α} (h : Reads o ok a) (f : α → β) :
    Reads (o.bind fun a => some (f a)) ok (f a) := by
  unfold Reads at h ⊢
  subst h
  cases ok <;> rfl

theorem Reads.map {o : Option α} {ok : Bool} {a : α} (h : Reads o ok a) (f : α → β) : Reads (o.map f) ok (f a) := by
  unfold Reads at h ⊢
  subst h
  cases ok <;> rfl

theorem Reads.and_true {o : Option α} {ok : Bool} {a : α} (h : Reads o ok a) : Reads o (ok && true) a := by
  rwa [Bool.and_true]

theorem Reads.some_iff {o : Option α} {ok : Bool} {a b : α} (h : Reads o ok a) : o = some b ↔ ok ∧ a = b := by
  unfold Reads at h
  subst h
  cases ok <;> simp

/-- A floating number is read exactly if it is finite. -/
theorem reads_float (r : ℕ) (x : Float) : Reads (asFloat? (settled r (.float x))) (fits r (.float x)) x := by
  rw [Reads, settled, fits]
  split <;> rfl

theorem isWord_nat (n : ℕ) : isWord n = Word.unsigned64.holds n := by
  rw [Bool.eq_iff_iff]
  simp only [isWord, Word.holds, Bool.or_eq_true, Bool.and_eq_true, decide_eq_true_eq]
  refine ⟨?_, Or.inr⟩
  rintro (⟨-, h⟩ | h)
  · exact ⟨Int.natCast_nonneg n, h.trans (by decide)⟩
  · exact h

/-- A numeral that is not taken as a whole number gives none. -/
theorem asInt_floating (w : Word) (n : Decimal.Numeral) : asInt? w (floating n) = none := by
  rw [floating]
  cases n.round .double <;> rfl

/-- A count is read exactly if it is a 64-bit word. -/
theorem reads_nat (r n : ℕ) : Reads (asNat? (settled r (.nat n))) (fits r (.nat n)) n := by
  rw [Reads, nat, settled, fits, reread, asNat?]
  by_cases h : isWord n
  · have hw : Word.unsigned64.holds n := by rw [← isWord_nat]; exact h
    rw [if_pos h, if_pos h, asInt?, if_pos hw]
    rfl
  · rw [if_neg h, if_neg h, asInt_floating]
    rfl

/-- A value stored as an object is told apart from none. -/
theorem reads_optional {decode : Json → Option α} {r : ℕ} {j : Json} {a : α} (hj : ∃ members, j = .obj members)
    (h : Reads (decode (settled r j)) (fits r j) a) :
    Reads (optional? decode (some (settled r j))) (fits r j) (some a) := by
  obtain ⟨members, rfl⟩ := hj
  have hsome : optional? decode (some (settled r (.obj members))) = (decode (settled r (.obj members))).map some := by
    cases r <;> rfl
  rw [hsome]
  exact h.map some

theorem reads_mapM {decode : Json → Option β} {f : α → Json} {g : α → β} {r : ℕ} : ∀ {as : List α},
    (∀ a ∈ as, Reads (decode (settled r (f a))) (fits r (f a)) (g a)) →
      Reads ((settledItems r (as.map f)).mapM decode) (fitsItems r (as.map f)) (as.map g)
  | [], _ => rfl
  | a :: as, h => by
    rw [List.map_cons, settledItems, List.mapM_cons]
    exact (h a List.mem_cons_self).bind ((reads_mapM fun b hb => h b (List.mem_cons_of_mem _ hb)).give (g a :: ·))

/-- A list is read exactly if it may nest and all items are read. -/
theorem reads_list {decode : Json → Option β} {f : α → Json} {g : α → β} {r : ℕ} {as : List α}
    (h : ∀ s < r, ∀ a ∈ as, Reads (decode (settled s (f a))) (fits s (f a)) (g a)) :
    Reads (list? decode (settled r (.arr (as.map f)))) (fits r (.arr (as.map f))) (as.map g) := by
  cases r with
  | zero => rfl
  | succ s => exact reads_mapM fun a ha => h s (Nat.lt_succ_self s) a ha

mutual

/-- Nothing that fits is read as something unusable. -/
theorem usable_settled : ∀ (r : ℕ) (j : Json), fits r j → isUsable (settled r j)
  | _, .null, _ | _, .bool _, _ | _, .str _, _ | _, .unusable, _ => rfl
  | _, .int i, h => by
    rw [fits] at h
    rw [settled, reread, if_pos h]
    rfl
  | _, .float x, h => by
    rw [fits] at h
    rw [settled, if_pos h]
    rfl
  | r, .arr items, h => by
    simp only [fits, Bool.and_eq_true, decide_eq_true_eq] at h
    rw [settled, if_pos h.1]
    exact usable_settledItems (r - 1) items h.2
  | r, .obj members, h => by
    simp only [fits, Bool.and_eq_true, decide_eq_true_eq] at h
    rw [settled, if_pos h.1]
    exact usable_settledMembers (r - 1) members h.2

theorem usable_settledItems : ∀ (r : ℕ) (items : List Json), fitsItems r items → areUsable (settledItems r items)
  | _, [], _ => rfl
  | r, j :: rest, h => by
    simp only [fitsItems, Bool.and_eq_true] at h
    rw [settledItems, areUsable, usable_settled r j h.1, usable_settledItems r rest h.2]
    rfl

theorem usable_settledMembers : ∀ (r : ℕ) (members : List (String × Json)), fitsMembers r members →
    haveUsable (settledMembers r members)
  | _, [], _ => rfl
  | r, (_, j) :: rest, h => by
    simp only [fitsMembers, Bool.and_eq_true] at h
    rw [settledMembers, haveUsable, usable_settled r j h.1, usable_settledMembers r rest h.2]
    rfl

end

/-- A check that everything which can be read passes makes no difference. -/
theorem reads_guarded {o : Option α} {ok b : Bool} {a : α} (h : Reads o ok a) (hb : ok → b) :
    Reads ((guard (b = true) : Option Unit).bind fun _ => o) ok a := by
  unfold Reads at h ⊢
  subst h
  cases ok with
  | true =>
    rw [hb rfl]
    rfl
  | false => cases b <;> rfl

/-! ## Properties of results -/

/-- Whatever a decoder gives has a property. -/
def Yields (P : α → Prop) (o : Option α) : Prop :=
  ∀ a, o = some a → P a

variable {P : α → Prop} {Q : β → Prop}

theorem Yields.none : Yields P .none := nofun

theorem Yields.pure {a : α} (h : P a) : Yields P (some a) := by
  rintro _ ⟨⟩
  exact h

theorem Yields.bind {o : Option α} {f : α → Option β} (h : Yields P o) (h' : ∀ a, P a → Yields Q (f a)) :
    Yields Q (o.bind f) := fun b hb =>
  let ⟨a, ha, hb⟩ := Option.bind_eq_some_iff.1 hb
  h' a (h a ha) b hb

theorem Yields.map {o : Option α} {f : α → β} (h : Yields P o) (h' : ∀ a, P a → Q (f a)) : Yields Q (o.map f) := by
  rw [Option.map_eq_bind]
  exact h.bind fun a ha => .pure (h' a ha)

/-- What is read exactly is the only result. -/
theorem Reads.yields {o : Option α} {ok : Bool} {a : α} (h : Reads o ok a) : Yields (· = a) o :=
  fun _ hb => (h.some_iff.1 hb).2.symm

/-- Nothing is known of the result. -/
theorem yields_any (o : Option α) : Yields (fun _ => True) o := fun _ _ => trivial

theorem yields_mapM {f : β → Option α} {bs : List β} (h : ∀ b ∈ bs, Yields P (f b)) :
    Yields (fun as => ∀ a ∈ as, P a) (bs.mapM f) := fun _ has a ha =>
  let ⟨b, hb, hfb⟩ := mem_of_mapM has a ha
  h b hb a hfb

section

variable {r : ℕ} {j : Json}

theorem isFinite_ofWord {i : ℤ} (h : isWord i) : (Decimal.ofInt i).isFinite := by
  simp only [isWord, Word.holds, Bool.or_eq_true, Bool.and_eq_true, decide_eq_true_eq] at h
  simp only [Word.least, Word.greatest] at h
  exact Decimal.isFinite_ofInt (by omega)

theorem yields_float (h : fits r j) : Yields (fun x => x.isFinite) (asFloat? j) := by
  cases j with
  | int i => exact .pure (isFinite_ofWord h)
  | float x => exact .pure h
  | _ => exact .none

theorem yields_nat (j : Json) : Yields (fun n : ℕ => isWord n) (asNat? j) := by
  unfold asNat?
  cases j with
  | int i =>
    rw [asInt?]
    split
    · next h =>
      refine .pure ?_
      have hi : (i.toNat : ℤ) = i := by
        simp only [Word.holds, Bool.and_eq_true, decide_eq_true_eq] at h
        exact Int.toNat_of_nonneg h.1
      rw [hi, isWord, h, Bool.or_true]
    · exact .none
  | _ => exact .none

/-- The levels of nesting left inside a list are one less. -/
theorem yields_list {decode : Json → Option α} (hj : fits r j)
    (h : ∀ k, fits (r - 1) k → Yields P (decode k)) :
    Yields (fun as : List α => 0 < r ∧ ∀ a ∈ as, P a) (list? decode j) := by
  cases j with
  | arr items =>
    simp only [fits, Bool.and_eq_true, decide_eq_true_eq] at hj
    exact fun as has => ⟨hj.1, yields_mapM (fun k hk => h k (fitsItems_iff.1 hj.2 k hk)) as has⟩
  | _ => exact .none

/-! ### Fields -/

/-- All fields of a record fit. -/
def Fields.Fit (r : ℕ) : Fields → Prop
  | .named members => ∀ m ∈ members, fits r m.2
  | .listed items => ∀ k ∈ items, fits r k

/-- A field fits, if it is there. -/
abbrev FieldFits (r : ℕ) (field : Option Json) : Prop :=
  ∀ k ∈ field, fits r k

theorem yields_fields (h : fits r j) : Yields (fun fields => 0 < r ∧ fields.Fit (r - 1)) (Fields.of? j) := by
  cases j with
  | arr items =>
    simp only [fits, Bool.and_eq_true, decide_eq_true_eq] at h
    exact .pure ⟨h.1, fitsItems_iff.1 h.2⟩
  | obj members =>
    simp only [fits, Bool.and_eq_true, decide_eq_true_eq] at h
    exact .pure ⟨h.1, fitsMembers_iff.1 h.2⟩
  | _ => exact .none

theorem yields_one {members : List (String × Json)} (h : ∀ m ∈ members, fits r m.2) (name : String) :
    Yields (FieldFits r) (Fields.one? members name) := by
  have hv : ∀ k ∈ Fields.valuesOf members name, fits r k := by
    intro k hk
    obtain ⟨m, hm, rfl⟩ := List.mem_map.1 hk
    exact h m (List.mem_of_mem_filter hm)
  unfold Fields.one?
  split
  · exact .pure nofun
  · next k hk =>
    refine .pure ?_
    rintro _ ⟨⟩
    exact hv k (by rw [hk]; exact List.mem_cons_self)
  · exact .none

theorem yields_collect {fields : Fields} (h : fields.Fit r) (names : List String) :
    Yields (fun values => ∀ v ∈ values, FieldFits r v) (fields.collect? names) := by
  cases fields with
  | named members => exact yields_mapM fun name _ => yields_one h name
  | listed items =>
    rw [Fields.collect?]
    split
    · refine .pure fun v hv => ?_
      obtain ⟨k, hk, rfl⟩ := List.mem_map.1 hv
      rintro _ ⟨⟩
      exact h k hk
    · exact .none

theorem yields_tagged {fields : Fields} (h : fields.Fit r) (tag : String) (kind : Json → Option String) :
    Yields (fun tagged => tagged.2.Fit r) (fields.tagged? tag kind) := by
  match fields, h with
  | .named members, h =>
    rw [Fields.tagged?]
    split
    · exact (yields_any _).map fun _ _ m hm => h m (List.mem_of_mem_filter hm)
    · exact .none
  | .listed [], _ => exact .none
  | .listed (k :: items), h =>
    exact (yields_any (kind k)).map fun _ _ m hm => h m (List.mem_cons_of_mem _ hm)

variable {field : Option Json} {decode : Json → Option α}

theorem yields_required (hv : FieldFits r field) (h : ∀ k, fits r k → Yields P (decode k)) :
    Yields P (required? decode field) := by
  cases field with
  | none => exact .none
  | some k => exact h k (hv k rfl)

theorem yields_count (field : Option Json) : Yields (fun n : ℕ => isWord n) (required? asNat? field) := by
  cases field with
  | none => exact .none
  | some k => exact yields_nat k

theorem yields_optional (hv : FieldFits r field) (h : ∀ k, fits r k → Yields P (decode k)) :
    Yields (fun o => ∀ a ∈ o, P a) (optional? decode field) := by
  unfold optional?
  split
  · exact .pure nofun
  · exact .pure nofun
  · next k _ =>
    refine (h k (hv k rfl)).map fun a ha => ?_
    rintro _ ⟨⟩
    exact ha

end

end VirtualComputer.Json
