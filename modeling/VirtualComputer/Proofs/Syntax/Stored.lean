import VirtualComputer.Proofs.Json.Decoding
import VirtualComputer.Proofs.Syntax.Bare
import VirtualComputer.Syntax.Record

/-!
# Stored trees are read back

The stored form of an expression, a path segment or a statement is read exactly if it fits the depth that it is read
with, and then as the tree without positions (`Expr.reads`, `Segment.reads`, `Stmt.reads`).  Whatever is read from
something that fits has no positions and is stored in a form that fits (`Expr.yields`, `Stmt.yields`).
-/

namespace VirtualComputer

open Json

/-! ## Lists and options of trees -/

theorem Expr.toJsonAll_eq (es : List Expr) : Expr.toJsonAll es = es.map Expr.toJson := by
  induction es with
  | nil => rfl
  | cons e es ih => rw [Expr.toJsonAll, ih, List.map_cons]

/-- The stored form of a key with its expression. -/
def propertyJson (p : String × Expr) : Json :=
  .arr [.str p.1, p.2.toJson]

theorem Expr.toJsonProperties_eq (ps : List (String × Expr)) : Expr.toJsonProperties ps = ps.map propertyJson := by
  induction ps with
  | nil => rfl
  | cons p ps ih => rw [Expr.toJsonProperties, ih, List.map_cons, propertyJson]

theorem Expr.toJsonOption_eq (e : Option Expr) : Expr.toJsonOption e = ofOption Expr.toJson e := by
  cases e <;> rfl

theorem Stmt.toJsonAll_eq (body : List Stmt) : Stmt.toJsonAll body = body.map Stmt.toJson := by
  induction body with
  | nil => rfl
  | cons s body ih => rw [Stmt.toJsonAll, ih, List.map_cons]

theorem Stmt.toJsonOption_eq (s : Option Stmt) : Stmt.toJsonOption s = ofOption Stmt.toJson s := by
  cases s <;> rfl

/-! ## Positions are not stored -/

mutual

theorem Expr.toJson_bare : ∀ e : Expr, e.bare.toJson = e.toJson
  | .bool _ _ | .num _ _ | .str _ _ | .null _ | .ident _ _ => rfl
  | .list es _ => by rw [Expr.bare, Expr.toJson, Expr.toJson, Expr.toJson_bareAll es]
  | .object ps _ => by rw [Expr.bare, Expr.toJson, Expr.toJson, Expr.toJson_bareProperties ps]
  | .member e _ _ => by rw [Expr.bare, Expr.toJson, Expr.toJson, Expr.toJson_bare e]
  | .index e k _ => by rw [Expr.bare, Expr.toJson, Expr.toJson, Expr.toJson_bare e, Expr.toJson_bare k]
  | .call f es _ => by rw [Expr.bare, Expr.toJson, Expr.toJson, Expr.toJson_bare f, Expr.toJson_bareAll es]
  | .yield e _ => by rw [Expr.bare, Expr.toJson, Expr.toJson, Expr.toJson_bareOption e]
  | .logic _ l r _ => by rw [Expr.bare, Expr.toJson, Expr.toJson, Expr.toJson_bare l, Expr.toJson_bare r]

theorem Expr.toJson_bareAll : ∀ es : List Expr, Expr.toJsonAll (Expr.bareAll es) = Expr.toJsonAll es
  | [] => rfl
  | e :: es => by rw [Expr.bareAll, Expr.toJsonAll, Expr.toJsonAll, Expr.toJson_bare e, Expr.toJson_bareAll es]

theorem Expr.toJson_bareProperties : ∀ ps : List (String × Expr),
    Expr.toJsonProperties (Expr.bareProperties ps) = Expr.toJsonProperties ps
  | [] => rfl
  | (_, e) :: ps => by
    rw [Expr.bareProperties, Expr.toJsonProperties, Expr.toJsonProperties, Expr.toJson_bare e,
      Expr.toJson_bareProperties ps]

theorem Expr.toJson_bareOption : ∀ e : Option Expr, Expr.toJsonOption (Expr.bareOption e) = Expr.toJsonOption e
  | none => rfl
  | some e => Expr.toJson_bare e

end

theorem Expr.ofOption_bare (e : Option Expr) : ofOption Expr.toJson (e.map Expr.bare) = ofOption Expr.toJson e := by
  cases e with
  | none => rfl
  | some e => exact e.toJson_bare

theorem Segment.toJson_bare (g : Segment) : g.bare.toJson = g.toJson := by
  cases g with
  | property x span => rfl
  | key e span => rw [Segment.bare, Segment.toJson, Segment.toJson, e.toJson_bare]

mutual

theorem Stmt.toJson_bare : ∀ s : Stmt, s.bare.toJson = s.toJson
  | .block body _ => by rw [Stmt.bare, Stmt.toJson, Stmt.toJson, Stmt.toJson_bareAll body]
  | .declare _ e _ => by rw [Stmt.bare, Stmt.toJson, Stmt.toJson, Expr.ofOption_bare e]
  | .assign _ path e _ => by
    rw [Stmt.bare, Stmt.toJson, Stmt.toJson, List.map_map, e.toJson_bare,
      List.map_congr_left fun g _ => g.toJson_bare]
  | .branch e s t _ => by
    rw [Stmt.bare, Stmt.toJson, Stmt.toJson, e.toJson_bare, Stmt.toJson_bare s, Stmt.toJson_bareOption t]
  | .loop e s _ => by rw [Stmt.bare, Stmt.toJson, Stmt.toJson, e.toJson_bare, Stmt.toJson_bare s]
  | .return e _ => by rw [Stmt.bare, Stmt.toJson, Stmt.toJson, Expr.ofOption_bare e]
  | .attempt s _ t _ => by rw [Stmt.bare, Stmt.toJson, Stmt.toJson, Stmt.toJson_bare s, Stmt.toJson_bare t]
  | .expr e _ => by rw [Stmt.bare, Stmt.toJson, Stmt.toJson, e.toJson_bare]
  | .break _ | .continue _ => rfl

theorem Stmt.toJson_bareAll : ∀ body : List Stmt, Stmt.toJsonAll (Stmt.bareAll body) = Stmt.toJsonAll body
  | [] => rfl
  | s :: body => by
    rw [Stmt.bareAll, Stmt.toJsonAll, Stmt.toJsonAll, Stmt.toJson_bare s, Stmt.toJson_bareAll body]

theorem Stmt.toJson_bareOption : ∀ s : Option Stmt, Stmt.toJsonOption (Stmt.bareOption s) = Stmt.toJsonOption s
  | none => rfl
  | some s => Stmt.toJson_bare s

end

/-! ## Reading what has been stored -/

theorem Expr.toJson_obj (e : Expr) : ∃ members, e.toJson = .obj members := by
  cases e <;> exact ⟨_, rfl⟩

theorem Stmt.toJson_obj (s : Stmt) : ∃ members, s.toJson = .obj members := by
  cases s <;> exact ⟨_, rfl⟩

theorem reads_property {decode : Json → Option Expr} {r : ℕ} {p : String × Expr}
    (h : ∀ s < r, Reads (decode (settled s p.2.toJson)) (fits s p.2.toJson) p.2.bare) :
    Reads (property? decode (settled r (propertyJson p))) (fits r (propertyJson p)) (p.1, p.2.bare) := by
  cases r with
  | zero => rfl
  | succ s =>
    have hs := (h s (Nat.lt_succ_self s)).map fun e => (p.1, e)
    have hfits : fits (s + 1) (propertyJson p) = fits s p.2.toJson := by
      simp [propertyJson, fits, fitsItems]
    rw [hfits]
    exact hs

/-- A stored expression is read exactly if it fits. -/
theorem Expr.reads : ∀ (n r : ℕ) (_ : r ≤ n) (e : Expr),
    Reads (Expr.ofJson? n (settled r e.toJson)) (fits r e.toJson) e.bare
  | n, 0, _, e => by
    obtain ⟨members, h⟩ := e.toJson_obj
    rw [h]
    cases n <;> rfl
  | n + 1, r + 1, hr, e => by
    have ih (e : Expr) : Reads (Expr.ofJson? n (settled r e.toJson)) (fits r e.toJson) e.bare :=
      Expr.reads n r (by omega) e
    have ihs (s : ℕ) (hs : s < r) (e : Expr) : Reads (Expr.ofJson? n (settled s e.toJson)) (fits s e.toJson) e.bare :=
      Expr.reads n s (by omega) e
    cases e with
    | bool v span => exact .pure _
    | num v span => exact (reads_float r v).bind (.pure _)
    | str v span => exact .pure _
    | null span => exact .pure _
    | list es span =>
      have h := reads_list fun s hs e (_ : e ∈ es) => ihs s hs e
      rw [Expr.toJson, Expr.bare, Expr.toJsonAll_eq, Expr.bareAll_eq]
      exact h.bind (.pure _)
    | object ps span =>
      have h := reads_list fun s hs p (_ : p ∈ ps) =>
        reads_property fun s' hs' => ihs s' (hs'.trans hs) p.2
      rw [Expr.toJson, Expr.bare, Expr.toJsonProperties_eq, Expr.bareProperties_eq]
      exact h.bind (.pure _)
    | ident x span => exact .pure _
    | member e p span => exact (ih e).bind (.pure _)
    | index e k span => exact (ih e).bind ((ih k).bind (.pure _))
    | call f es span =>
      have h := reads_list fun s hs e (_ : e ∈ es) => ihs s hs e
      rw [Expr.toJson, Expr.bare, Expr.toJsonAll_eq, Expr.bareAll_eq]
      exact (ih f).bind (h.bind (.pure _))
    | yield e span =>
      cases e with
      | none => exact .pure _
      | some e => exact (reads_optional e.toJson_obj (ih e)).bind (.pure _)
    | logic op e l span => cases op <;> exact (ih e).bind ((ih l).bind (.pure _))

theorem Segment.toJson_obj (g : Segment) : ∃ members, g.toJson = .obj members := by
  cases g <;> exact ⟨_, rfl⟩

/-- A stored path segment is read exactly if it fits. -/
theorem Segment.reads {n r : ℕ} (hr : r ≤ n) (g : Segment) :
    Reads (Segment.ofJson? n (settled r g.toJson)) (fits r g.toJson) g.bare := by
  cases r with
  | zero =>
    obtain ⟨members, h⟩ := g.toJson_obj
    rw [h]
    rfl
  | succ r =>
    cases g with
    | property x span => exact .pure _
    | key e span => exact (Expr.reads n r (by omega) e).bind (.pure _)

/-- An optional part of a statement is read exactly if it fits. -/
theorem reads_option {α : Type} {decode : Json → Option α} {f : α → Json} {g : α → α} {r : ℕ} {o : Option α}
    (hf : ∀ a, ∃ members, f a = .obj members) (h : ∀ a, Reads (decode (settled r (f a))) (fits r (f a)) (g a)) :
    Reads (optional? decode (some (settled r (ofOption f o)))) (fits r (ofOption f o)) (o.map g) := by
  cases o with
  | none => rfl
  | some a => exact reads_optional (hf a) (h a)

/-- A stored statement is read exactly if it fits. -/
theorem Stmt.reads : ∀ (n r : ℕ) (_ : r ≤ n) (s : Stmt),
    Reads (Stmt.ofJson? n (settled r s.toJson)) (fits r s.toJson) s.bare
  | n, 0, _, s => by
    obtain ⟨members, h⟩ := s.toJson_obj
    rw [h]
    cases n <;> rfl
  | n + 1, r + 1, hr, s => by
    have ih (s : Stmt) : Reads (Stmt.ofJson? n (settled r s.toJson)) (fits r s.toJson) s.bare :=
      Stmt.reads n r (by omega) s
    have ihe (e : Expr) : Reads (Expr.ofJson? n (settled r e.toJson)) (fits r e.toJson) e.bare :=
      Expr.reads n r (by omega) e
    cases s with
    | block body span =>
      have h := reads_list fun r' (hr' : r' < r) s (_ : s ∈ body) => Stmt.reads n r' (by omega) s
      rw [Stmt.toJson, Stmt.bare, Stmt.toJsonAll_eq, Stmt.bareAll_eq]
      exact h.bind (.pure _)
    | declare x e span => exact (reads_option Expr.toJson_obj ihe).bind (.pure _)
    | assign x path e span =>
      have h := reads_list fun r' (hr' : r' < r) g (_ : g ∈ path) => Segment.reads (show r' ≤ n by omega) g
      exact h.bind ((ihe e).bind (.pure _))
    | branch e s t span =>
      rw [Stmt.toJson, Stmt.bare, Stmt.toJsonOption_eq, Stmt.bareOption_eq]
      exact (ihe e).bind ((ih s).bind ((reads_option Stmt.toJson_obj ih).bind (.pure _)))
    | loop e s span => exact (ihe e).bind ((ih s).bind (.pure _))
    | «return» e span => exact (reads_option Expr.toJson_obj ihe).bind (.pure _)
    | attempt s x t span => exact (ih s).bind ((ih t).bind (.pure _))
    | expr e span => exact (ihe e).bind (.pure _)
    | «break» span => exact .pure _
    | «continue» span => exact .pure _

/-! ## What is read -/

/-- Something without positions whose stored form fits. -/
structure Restored {α : Type} (bare : α → α) (toJson : α → Json) (r : ℕ) (a : α) : Prop where
  bare : bare a = a
  fits : fits r (toJson a)

section

variable {α : Type} {bare : α → α} {toJson : α → Json} {r : ℕ}

theorem Restored.list {as : List α} (h : ∀ a ∈ as, Restored bare toJson r a) :
    as.map bare = as ∧ fitsItems r (as.map toJson) :=
  ⟨(List.map_congr_left (g := id) fun a ha => (h a ha).bare).trans as.map_id, fitsItems_iff.2 fun j hj => by
    obtain ⟨a, ha, rfl⟩ := List.mem_map.1 hj
    exact (h a ha).fits⟩

theorem Restored.option {o : Option α} (h : ∀ a ∈ o, Restored bare toJson r a) :
    o.map bare = o ∧ Json.fits r (ofOption toJson o) := by
  cases o with
  | none => exact ⟨rfl, rfl⟩
  | some a => exact ⟨congrArg some (h a rfl).bare, (h a rfl).fits⟩

end

theorem yields_node {r : ℕ} {j : Json} (h : fits r j) (p : Pace) (kinds : List String) :
    Yields (fun k => 0 < r ∧ k.2.Fit (r - 1)) (node? p kinds j) :=
  (yields_fields h).bind fun _ hf k hk => ⟨hf.1, yields_tagged hf.2 _ _ k hk⟩

theorem fits_node {r : ℕ} (hr : 0 < r) (kind : String) (fields : List (String × Json)) :
    fits r (node kind fields) = fitsMembers (r - 1) fields := by
  simp [node, fits, fitsMembers, hr]

theorem yields_property {decode : Json → Option Expr} {r : ℕ} {j : Json} (hj : fits r j)
    (h : ∀ k, fits (r - 1) k → Yields (Restored Expr.bare Expr.toJson (r - 1)) (decode k)) :
    Yields (Restored (fun p => (p.1, p.2.bare)) propertyJson r) (property? decode j) := by
  unfold property?
  split
  · next k e =>
    simp only [fits, fitsItems, Bool.and_eq_true, decide_eq_true_eq] at hj
    obtain ⟨h0, -, he, -⟩ := hj
    refine (h e he).map fun e he => ⟨by rw [he.bare], ?_⟩
    simp only [propertyJson, fits, fitsItems, h0, he.fits, decide_true, Bool.and_self]
  · exact .none

/-! ### Expressions -/

namespace Expr

variable {r : ℕ} {e k : Expr} {es : List Expr}

theorem restored_num (hr : 0 < r) {x : Float} (hx : x.isFinite) : Restored bare toJson r (.num x .none) where
  bare := rfl
  fits := by
    rw [toJson, fits_node hr]
    simp only [fitsMembers, Json.fits, hx, Bool.and_self]

theorem restored_list (hr : 0 < r) (h : 0 < r - 1 ∧ ∀ e ∈ es, Restored bare toJson (r - 1 - 1) e) :
    Restored bare toJson r (.list es .none) where
  bare := by rw [Expr.bare, bareAll_eq, (Restored.list h.2).1]
  fits := by
    rw [toJson, fits_node hr, toJsonAll_eq]
    simp only [fitsMembers, Json.fits, h.1, (Restored.list h.2).2, decide_true, Bool.and_self]

theorem restored_object (hr : 0 < r) {ps : List (String × Expr)}
    (h : 0 < r - 1 ∧ ∀ p ∈ ps, Restored (fun p => (p.1, p.2.bare)) propertyJson (r - 1 - 1) p) :
    Restored bare toJson r (.object ps .none) where
  bare := by rw [Expr.bare, bareProperties_eq, (Restored.list h.2).1]
  fits := by
    rw [toJson, fits_node hr, toJsonProperties_eq]
    simp only [fitsMembers, Json.fits, h.1, (Restored.list h.2).2, decide_true, Bool.and_self]

theorem restored_member (hr : 0 < r) (he : Restored bare toJson (r - 1) e) (x : String) :
    Restored bare toJson r (.member e x .none) where
  bare := by rw [Expr.bare, he.bare]
  fits := by
    rw [toJson, fits_node hr]
    simp only [fitsMembers, Json.fits, he.fits, Bool.and_self]

theorem restored_index (hr : 0 < r) (he : Restored bare toJson (r - 1) e) (hk : Restored bare toJson (r - 1) k) :
    Restored bare toJson r (.index e k .none) where
  bare := by rw [Expr.bare, he.bare, hk.bare]
  fits := by
    rw [toJson, fits_node hr]
    simp only [fitsMembers, he.fits, hk.fits, Bool.and_self]

theorem restored_call (hr : 0 < r) (he : Restored bare toJson (r - 1) e)
    (h : 0 < r - 1 ∧ ∀ e ∈ es, Restored bare toJson (r - 1 - 1) e) : Restored bare toJson r (.call e es .none) where
  bare := by rw [Expr.bare, he.bare, bareAll_eq, (Restored.list h.2).1]
  fits := by
    rw [toJson, fits_node hr, toJsonAll_eq]
    simp only [fitsMembers, Json.fits, he.fits, h.1, (Restored.list h.2).2, decide_true, Bool.and_self]

theorem restored_yield (hr : 0 < r) {o : Option Expr} (h : ∀ e ∈ o, Restored bare toJson (r - 1) e) :
    Restored bare toJson r (.yield o .none) where
  bare := by rw [Expr.bare, bareOption_eq, (Restored.option h).1]
  fits := by
    rw [toJson, fits_node hr, toJsonOption_eq]
    simp only [fitsMembers, (Restored.option h).2, Bool.and_self]

theorem restored_logic (hr : 0 < r) (op : Connective) (he : Restored bare toJson (r - 1) e)
    (hk : Restored bare toJson (r - 1) k) : Restored bare toJson r (.logic op e k .none) where
  bare := by rw [Expr.bare, he.bare, hk.bare]
  fits := by
    rw [toJson, fits_node hr]
    simp only [fitsMembers, Json.fits, he.fits, hk.fits, Bool.and_self]

/-- What is read as an expression has no positions and can be stored again. -/
theorem yields : ∀ (n : ℕ) {r : ℕ} {j : Json}, fits r j → Yields (Restored bare toJson r) (ofJson? n j)
  | 0, _, _, _ => .none
  | n + 1, r, j, hj => by
    refine (yields_node hj .afterwards kinds).bind ?_
    rintro ⟨kind, fields⟩ ⟨hr, hf⟩
    have he {field : Option Json} (hv : FieldFits (r - 1) field) :
        Yields (Restored bare toJson (r - 1)) (required? (ofJson? n) field) :=
      yields_required hv fun k hk => yields n hk
    have hes {field : Option Json} (hv : FieldFits (r - 1) field) :
        Yields (fun es => 0 < r - 1 ∧ ∀ e ∈ es, Restored bare toJson (r - 1 - 1) e)
          (required? (list? (ofJson? n)) field) :=
      yields_required hv fun k hk => yields_list hk fun k hk => yields n hk
    dsimp only
    -- The kind that is named decides which fields are collected.
    split
    · refine (yields_collect hf _).bind fun values hv => ?_
      split
      · exact (yields_any _).bind fun v _ => .pure ⟨rfl, by rw [toJson, fits_node hr]; rfl⟩
      · exact .none
    · refine (yields_collect hf _).bind fun values hv => ?_
      split
      · next v =>
        refine (yields_required (hv v (by simp)) fun k hk => yields_float hk).bind fun x hx => ?_
        exact .pure (restored_num hr hx)
      · exact .none
    · refine (yields_collect hf _).bind fun values hv => ?_
      split
      · exact (yields_any _).bind fun v _ => .pure ⟨rfl, by rw [toJson, fits_node hr]; rfl⟩
      · exact .none
    · refine (yields_collect hf _).bind fun values hv => ?_
      split
      · exact .pure ⟨rfl, by rw [toJson, fits_node hr]; rfl⟩
      · exact .none
    · refine (yields_collect hf _).bind fun values hv => ?_
      split
      · next v => exact (hes (hv v (by simp))).bind fun es h => .pure (restored_list hr h)
      · exact .none
    · refine (yields_collect hf _).bind fun values hv => ?_
      split
      · next v =>
        refine (yields_required (hv v (by simp)) fun k hk => yields_list hk fun k hk =>
          yields_property hk fun k hk => yields n hk).bind fun ps h => ?_
        exact .pure (restored_object hr h)
      · exact .none
    · refine (yields_collect hf _).bind fun values hv => ?_
      split
      · exact (yields_any _).bind fun v _ => .pure ⟨rfl, by rw [toJson, fits_node hr]; rfl⟩
      · exact .none
    · refine (yields_collect hf _).bind fun values hv => ?_
      split
      · next v p =>
        exact (he (hv v (by simp))).bind fun e he => (yields_any _).bind fun x _ => .pure (restored_member hr he x)
      · exact .none
    · refine (yields_collect hf _).bind fun values hv => ?_
      split
      · next v w =>
        refine (he (hv v (by simp))).bind fun e he' => (he (hv w (by simp))).bind fun k hk => ?_
        exact .pure (restored_index hr he' hk)
      · exact .none
    · refine (yields_collect hf _).bind fun values hv => ?_
      split
      · next v w =>
        refine (he (hv v (by simp))).bind fun f hf' => (hes (hv w (by simp))).bind fun es h => ?_
        exact .pure (restored_call hr hf' h)
      · exact .none
    · refine (yields_collect hf _).bind fun values hv => ?_
      split
      · next v =>
        refine (yields_optional (hv v (by simp)) fun k hk => yields n hk).bind fun o h => ?_
        exact .pure (restored_yield hr h)
      · exact .none
    · refine (yields_collect hf _).bind fun values hv => ?_
      split
      · next o v w =>
        refine (yields_any _).bind fun name _ => (yields_any _).bind fun op _ =>
          (he (hv v (by simp))).bind fun l hl => (he (hv w (by simp))).bind fun e he' => ?_
        exact .pure (restored_logic hr op hl he')
      · exact .none
    · exact .none

end Expr

/-- What is read as a path segment has no positions and can be stored again. -/
theorem Segment.yields {n r : ℕ} {j : Json} (hj : fits r j) :
    Yields (Restored Segment.bare Segment.toJson r) (Segment.ofJson? n j) := by
  refine (yields_node hj .afterwards Segment.kinds).bind ?_
  rintro ⟨kind, fields⟩ ⟨hr, hf⟩
  dsimp only
  split
  · refine (yields_collect hf _).bind fun values hv => ?_
    split
    · exact (yields_any _).bind fun v _ => .pure ⟨rfl, by rw [Segment.toJson, fits_node hr]; rfl⟩
    · exact .none
  · refine (yields_collect hf _).bind fun values hv => ?_
    split
    · next v =>
      refine (yields_required (hv v (by simp)) fun k hk => Expr.yields n hk).bind fun e he => .pure ⟨?_, ?_⟩
      · rw [Segment.bare, he.bare]
      · rw [Segment.toJson, fits_node hr]
        simp only [fitsMembers, he.fits, Bool.and_self]
    · exact .none
  · exact .none

/-! ### Statements -/

namespace Stmt

variable {r : ℕ} {e : Expr} {o : Option Expr} {s t : Stmt}

theorem restored_block (hr : 0 < r) {body : List Stmt}
    (h : 0 < r - 1 ∧ ∀ s ∈ body, Restored bare toJson (r - 1 - 1) s) : Restored bare toJson r (.block body .none) where
  bare := by rw [Stmt.bare, bareAll_eq, (Restored.list h.2).1]
  fits := by
    rw [toJson, fits_node hr, toJsonAll_eq]
    simp only [fitsMembers, Json.fits, h.1, (Restored.list h.2).2, decide_true, Bool.and_self]

theorem restored_declare (hr : 0 < r) (x : String) (h : ∀ e ∈ o, Restored Expr.bare Expr.toJson (r - 1) e) :
    Restored bare toJson r (.declare x o .none) where
  bare := by rw [Stmt.bare, (Restored.option h).1]
  fits := by
    rw [toJson, fits_node hr]
    simp only [fitsMembers, Json.fits, (Restored.option h).2, Bool.and_self]

theorem restored_assign (hr : 0 < r) (x : String) {path : List Segment}
    (h : 0 < r - 1 ∧ ∀ g ∈ path, Restored Segment.bare Segment.toJson (r - 1 - 1) g)
    (he : Restored Expr.bare Expr.toJson (r - 1) e) : Restored bare toJson r (.assign x path e .none) where
  bare := by rw [Stmt.bare, (Restored.list h.2).1, he.bare]
  fits := by
    rw [toJson, fits_node hr]
    simp only [fitsMembers, Json.fits, h.1, (Restored.list h.2).2, he.fits, decide_true, Bool.and_self]

theorem restored_branch (hr : 0 < r) {no : Option Stmt} (he : Restored Expr.bare Expr.toJson (r - 1) e)
    (hs : Restored bare toJson (r - 1) s) (h : ∀ t ∈ no, Restored bare toJson (r - 1) t) :
    Restored bare toJson r (.branch e s no .none) where
  bare := by rw [Stmt.bare, he.bare, hs.bare, bareOption_eq, (Restored.option h).1]
  fits := by
    rw [toJson, fits_node hr, toJsonOption_eq]
    simp only [fitsMembers, he.fits, hs.fits, (Restored.option h).2, Bool.and_self]

theorem restored_loop (hr : 0 < r) (he : Restored Expr.bare Expr.toJson (r - 1) e)
    (hs : Restored bare toJson (r - 1) s) : Restored bare toJson r (.loop e s .none) where
  bare := by rw [Stmt.bare, he.bare, hs.bare]
  fits := by
    rw [toJson, fits_node hr]
    simp only [fitsMembers, he.fits, hs.fits, Bool.and_self]

theorem restored_return (hr : 0 < r) (h : ∀ e ∈ o, Restored Expr.bare Expr.toJson (r - 1) e) :
    Restored bare toJson r (.return o .none) where
  bare := by rw [Stmt.bare, (Restored.option h).1]
  fits := by
    rw [toJson, fits_node hr]
    simp only [fitsMembers, (Restored.option h).2, Bool.and_self]

theorem restored_attempt (hr : 0 < r) (x : String) (hs : Restored bare toJson (r - 1) s)
    (ht : Restored bare toJson (r - 1) t) : Restored bare toJson r (.attempt s x t .none) where
  bare := by rw [Stmt.bare, hs.bare, ht.bare]
  fits := by
    rw [toJson, fits_node hr]
    simp only [fitsMembers, Json.fits, hs.fits, ht.fits, Bool.and_self]

theorem restored_expr (hr : 0 < r) (he : Restored Expr.bare Expr.toJson (r - 1) e) :
    Restored bare toJson r (.expr e .none) where
  bare := by rw [Stmt.bare, he.bare]
  fits := by
    rw [toJson, fits_node hr]
    simp only [fitsMembers, he.fits, Bool.and_self]

/-- What is read as a statement has no positions and can be stored again. -/
theorem yields : ∀ (n : ℕ) {r : ℕ} {j : Json}, fits r j → Yields (Restored bare toJson r) (ofJson? n j)
  | 0, _, _, _ => .none
  | n + 1, r, j, hj => by
    refine (yields_node hj .afterwards kinds).bind ?_
    rintro ⟨kind, fields⟩ ⟨hr, hf⟩
    have he {field : Option Json} (hv : FieldFits (r - 1) field) :
        Yields (Restored Expr.bare Expr.toJson (r - 1)) (required? (Expr.ofJson? n) field) :=
      yields_required hv fun k hk => Expr.yields n hk
    have heo {field : Option Json} (hv : FieldFits (r - 1) field) :
        Yields (fun o => ∀ e ∈ o, Restored Expr.bare Expr.toJson (r - 1) e) (optional? (Expr.ofJson? n) field) :=
      yields_optional hv fun k hk => Expr.yields n hk
    have hs {field : Option Json} (hv : FieldFits (r - 1) field) :
        Yields (Restored bare toJson (r - 1)) (required? (ofJson? n) field) :=
      yields_required hv fun k hk => yields n hk
    dsimp only
    split
    · refine (yields_collect hf _).bind fun values hv => ?_
      split
      · next v =>
        refine (yields_required (hv v (by simp)) fun k hk => yields_list hk fun k hk => yields n hk).bind fun body h => ?_
        exact .pure (restored_block hr h)
      · exact .none
    · refine (yields_collect hf _).bind fun values hv => ?_
      split
      · next x v =>
        exact (yields_any _).bind fun x _ => (heo (hv v (by simp))).bind fun o h => .pure (restored_declare hr x h)
      · exact .none
    · refine (yields_collect hf _).bind fun values hv => ?_
      split
      · next x v w =>
        refine (yields_any _).bind fun x _ => (yields_required (hv v (by simp)) fun k hk => yields_list hk fun k hk =>
          Segment.yields hk).bind fun path h => (he (hv w (by simp))).bind fun e he' => ?_
        exact .pure (restored_assign hr x h he')
      · exact .none
    · refine (yields_collect hf _).bind fun values hv => ?_
      split
      · next u v w =>
        refine (he (hv u (by simp))).bind fun e he' => (hs (hv v (by simp))).bind fun s hs' =>
          (yields_optional (hv w (by simp)) fun k hk => yields n hk).bind fun no h => ?_
        exact .pure (restored_branch hr he' hs' h)
      · exact .none
    · refine (yields_collect hf _).bind fun values hv => ?_
      split
      · next v w =>
        refine (he (hv v (by simp))).bind fun e he' => (hs (hv w (by simp))).bind fun s hs' => ?_
        exact .pure (restored_loop hr he' hs')
      · exact .none
    · refine (yields_collect hf _).bind fun values hv => ?_
      split
      · next v => exact (heo (hv v (by simp))).bind fun o h => .pure (restored_return hr h)
      · exact .none
    · refine (yields_collect hf _).bind fun values hv => ?_
      split
      · next v x w =>
        refine (hs (hv v (by simp))).bind fun s hs' => (yields_any _).bind fun x _ =>
          (hs (hv w (by simp))).bind fun t ht => ?_
        exact .pure (restored_attempt hr x hs' ht)
      · exact .none
    · refine (yields_collect hf _).bind fun values hv => ?_
      split
      · next v => exact (he (hv v (by simp))).bind fun e he' => .pure (restored_expr hr he')
      · exact .none
    · refine (yields_collect hf _).bind fun values hv => ?_
      split
      · exact .pure ⟨rfl, by rw [toJson, fits_node hr]; rfl⟩
      · exact .none
    · refine (yields_collect hf _).bind fun values hv => ?_
      split
      · exact .pure ⟨rfl, by rw [toJson, fits_node hr]; rfl⟩
      · exact .none
    · exact .none

end Stmt

end VirtualComputer
