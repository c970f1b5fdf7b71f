import Mathlib.Data.String.Basic
import VirtualComputer.Entries

/-!
# Entries stay in order

Inserting keeps the keys in order (`insert_ordered`), so every table made of a list is in order (`ofList_ordered`),
and a list in order is its own table (`ofList_of_ordered`).  A table holds no values but those put into it.
-/

namespace VirtualComputer.Entries

variable {α : Type}

/-! ## Members -/

theorem mem_insert {e : String × α} {key : String} {a : α} : ∀ {es : Entries α}, e ∈ insert key a es →
    e = (key, a) ∨ e ∈ es
  | [], h => .inl (List.mem_singleton.1 h)
  | (k, b) :: es, h => by
    rw [insert] at h
    split at h
    · exact List.mem_cons.1 h
    split at h
    · next hk =>
      subst hk
      exact (List.mem_cons.1 h).imp_right (List.mem_cons_of_mem _)
    · rcases List.mem_cons.1 h with h | h
      · exact .inr (h ▸ List.mem_cons_self)
      · exact (mem_insert h).imp_right (List.mem_cons_of_mem _)

theorem mem_foldl {e : String × α} : ∀ (pairs : List (String × α)) (es : Entries α),
    e ∈ pairs.foldl (fun es (k, a) => insert k a es) es → e ∈ es ∨ e ∈ pairs
  | [], _, h => .inl h
  | (k, a) :: pairs, es, h => by
    rcases mem_foldl pairs (insert k a es) h with h | h
    · exact (mem_insert h).elim (fun h => .inr (h ▸ List.mem_cons_self)) .inl
    · exact .inr (List.mem_cons_of_mem _ h)

/-- A table made of a list holds pairs of the list. -/
theorem mem_ofList {e : String × α} {pairs : List (String × α)} (h : e ∈ ofList pairs) : e ∈ pairs :=
  (mem_foldl pairs [] h).resolve_left nofun

/-! ## Values of keys -/

theorem mem_get {key : String} {a : α} : ∀ {es : Entries α}, get? key es = some a → (key, a) ∈ es
  | (k, b) :: es, h => by
    rw [get?] at h
    split at h
    · next hk =>
      cases h
      rw [hk]
      exact List.mem_cons_self
    · exact List.mem_cons_of_mem _ (mem_get h)

theorem get_insert_self (key : String) (a : α) : ∀ es : Entries α, get? key (insert key a es) = some a
  | [] => if_pos rfl
  | (k, b) :: es => by
    rw [insert]
    split
    · exact if_pos rfl
    · split
      · next hk => exact if_pos hk.symm
      · next hk => rw [get?, if_neg (Ne.symm hk), get_insert_self key a es]

theorem get_insert_ne {key other : String} (h : key ≠ other) (a : α) : ∀ es : Entries α,
    get? other (insert key a es) = get? other es
  | [] => if_neg h
  | (k, b) :: es => by
    rw [insert]
    split
    · exact if_neg h
    · split
      · next hk =>
        subst hk
        rw [get?, if_neg h, get?, if_neg h]
      · rw [get?, get?, get_insert_ne h a es]

theorem get_foldl {key : String} : ∀ (pairs : List (String × α)) (es : Entries α),
    (∃ a, get? key es = some a) ∨ key ∈ pairs.map Prod.fst →
      ∃ a, get? key (pairs.foldl (fun es (k, a) => insert k a es) es) = some a
  | [], _, h => h.resolve_right List.not_mem_nil
  | (k, a) :: pairs, es, h => by
    refine get_foldl pairs (insert k a es) ?_
    by_cases hk : k = key
    · subst hk
      exact .inl ⟨a, get_insert_self k a es⟩
    · rw [get_insert_ne hk]
      refine h.imp_right fun h => ?_
      exact (List.mem_cons.1 h).resolve_left (Ne.symm hk)

/-- A table made of a list has a value for every key of the list. -/
theorem get_ofList {key : String} {pairs : List (String × α)} (h : key ∈ pairs.map Prod.fst) :
    ∃ a, get? key (ofList pairs) = some a :=
  get_foldl pairs [] (.inr h)

/-- Pairs under other keys make no difference to the value of a key. -/
theorem get_foldl_ne {key : String} : ∀ (pairs : List (String × α)) (es : Entries α), (∀ e ∈ pairs, e.1 ≠ key) →
    get? key (pairs.foldl (fun es (k, a) => insert k a es) es) = get? key es
  | [], _, _ => rfl
  | (k, a) :: pairs, es, h => by
    obtain ⟨hk, hpairs⟩ := List.forall_mem_cons.1 h
    rw [List.foldl_cons, get_foldl_ne pairs _ hpairs]
    exact get_insert_ne hk a es

theorem get_map {β : Type} (key : String) (f : α → β) : ∀ es : Entries α,
    get? key (es.map fun (k, a) => (k, f a)) = (get? key es).map f
  | [] => rfl
  | (k, a) :: es => by
    rw [List.map_cons, get?, get?]
    split
    · rfl
    · exact get_map key f es

/-! ## Order -/

theorem insert_ordered {key : String} {a : α} : ∀ {es : Entries α}, Ordered es → Ordered (insert key a es)
  | [], _ => List.pairwise_singleton _ _
  | (k, b) :: es, h => by
    obtain ⟨hk, hes⟩ := List.pairwise_cons.1 h
    rw [insert]
    split
    · next hlt =>
      refine List.pairwise_cons.2 ⟨List.forall_mem_cons.2 ⟨hlt, fun e he => lt_trans hlt (hk e he)⟩, h⟩
    · next hge =>
      split
      · exact List.pairwise_cons.2 ⟨hk, hes⟩
      · next hne =>
        have hlt : k < key := lt_of_le_of_ne (not_lt.1 hge) (Ne.symm hne)
        refine List.pairwise_cons.2 ⟨fun e he => ?_, insert_ordered hes⟩
        rcases mem_insert he with rfl | he
        · exact hlt
        · exact hk e he

theorem foldl_ordered : ∀ (pairs : List (String × α)) {es : Entries α}, Ordered es →
    Ordered (pairs.foldl (fun es (k, a) => insert k a es) es)
  | [], _, h => h
  | _ :: pairs, _, h => foldl_ordered pairs (insert_ordered h)

/-- A table made of a list is in order. -/
theorem ofList_ordered (pairs : List (String × α)) : Ordered (ofList pairs) :=
  foldl_ordered pairs List.Pairwise.nil

/-- Only the keys are in order. -/
theorem map_ordered {β : Type} {es : Entries α} (f : α → β) (h : Ordered es) :
    Ordered (es.map fun (k, a) => (k, f a)) :=
  List.pairwise_map.2 h

/-- A value that is there already may be put there again. -/
theorem insert_get {key : String} {a : α} : ∀ {es : Entries α}, Ordered es → get? key es = some a →
    insert key a es = es
  | (k, b) :: es, ho, h => by
    obtain ⟨hk, hes⟩ := List.pairwise_cons.1 ho
    rw [get?] at h
    split at h
    · next heq =>
      cases h
      rw [insert, if_neg (heq ▸ lt_irrefl _), if_pos heq.symm]
    · next hne =>
      have hlt : k < key := hk (key, a) (mem_get h)
      rw [insert, if_neg (lt_asymm hlt), if_neg (Ne.symm hne), insert_get hes h]

/-- A key after all others goes to the end. -/
theorem insert_last {key : String} {a : α} : ∀ {es : Entries α}, (∀ e ∈ es, e.1 < key) →
    insert key a es = es ++ [(key, a)]
  | [], _ => rfl
  | (k, b) :: es, h => by
    obtain ⟨hk, hes⟩ := List.forall_mem_cons.1 h
    rw [insert, if_neg (lt_asymm hk), if_neg (ne_of_gt hk), insert_last hes]
    rfl

theorem foldl_of_ordered : ∀ (pairs : List (String × α)) {es : Entries α}, Ordered (es ++ pairs) →
    pairs.foldl (fun es (k, a) => insert k a es) es = es ++ pairs
  | [], es, _ => es.append_nil.symm
  | (k, a) :: pairs, es, h => by
    have hlast : insert k a es = es ++ [(k, a)] :=
      insert_last fun e he => (List.pairwise_append.1 h).2.2 e he _ List.mem_cons_self
    rw [List.foldl_cons]
    dsimp only
    rw [hlast, foldl_of_ordered pairs (by rwa [List.append_assoc]), List.append_assoc]
    rfl

/-- A list in order is its own table. -/
theorem ofList_of_ordered {es : Entries α} (h : Ordered es) : ofList es = es :=
  foldl_of_ordered es h

end VirtualComputer.Entries
