import VirtualComputer.Json.Reader
import VirtualComputer.Proofs.Json.Lexing

/-!
# Reading written texts

A value fits a depth if its lists and objects nest no deeper and its numbers are their own texts.  The text of any
value is read as `Json.settled` of it (`read_text`): where it does not fit, something unusable, null or some other
number stands instead.  Whatever is read from a text fits the deepest nesting that can be used (`fits_of_read`).
-/

namespace VirtualComputer.Json

open Decimal

/-! ## What is read in the place of a value -/

mutual

/-- What is read in the place of a value, with so many levels of nesting left. -/
def settled : ℕ → Json → Json
  | _, .null => .null
  | _, .bool b => .bool b
  | _, .int i => reread i
  | _, .float x => if x.isFinite then .float x else .null
  | _, .str s => .str s
  | r, .arr items => if 0 < r then .arr (settledItems (r - 1) items) else .unusable
  | r, .obj members => if 0 < r then .obj (settledMembers (r - 1) members) else .unusable
  | _, .unusable => .null

def settledItems : ℕ → List Json → List Json
  | _, [] => []
  | r, j :: rest => settled r j :: settledItems r rest

def settledMembers : ℕ → List (String × Json) → List (String × Json)
  | _, [] => []
  | r, (k, j) :: rest => (k, settled r j) :: settledMembers r rest

end

mutual

/-- Whether lists and objects nest no deeper than so many levels, and all numbers can be read as themselves. -/
def fits : ℕ → Json → Bool
  | _, .int i => isWord i
  | _, .float x => x.isFinite
  | r, .arr items => 0 < r && fitsItems (r - 1) items
  | r, .obj members => 0 < r && fitsMembers (r - 1) members
  | _, _ => true

def fitsItems : ℕ → List Json → Bool
  | _, [] => true
  | r, j :: rest => fits r j && fitsItems r rest

def fitsMembers : ℕ → List (String × Json) → Bool
  | _, [] => true
  | r, (_, j) :: rest => fits r j && fitsMembers r rest

end

theorem fitsItems_iff {r : ℕ} {items : List Json} : fitsItems r items ↔ ∀ j ∈ items, fits r j := by
  induction items with
  | nil => simp [fitsItems]
  | cons j items ih => simp [fitsItems, ih]

theorem fitsMembers_iff {r : ℕ} {members : List (String × Json)} :
    fitsMembers r members ↔ ∀ m ∈ members, fits r m.2 := by
  induction members with
  | nil => simp [fitsMembers]
  | cons m members ih => simp [fitsMembers, ih]

/-! ## Runs of the reader -/

/-- The reader after some tokens. -/
def reads (limit : ℕ) (r : Reader) (ts : List Token) : Option Reader :=
  ts.foldlM (Reader.step limit) r

theorem reads_cons {limit : ℕ} {r s : Reader} {t : Token} (h : r.step limit t = some s) (ts : List Token) :
    reads limit r (t :: ts) = reads limit s ts := by
  rw [reads, List.foldlM_cons, h]
  rfl

variable {limit : ℕ} {opened : List Container} {ts : List Token}

/-- The first token of a value closes nothing. -/
theorem reads_opening (j : Json) {items : List Json} :
    reads limit ⟨.list items :: opened, .valueOrClose⟩ (tokens j ++ ts) =
      reads limit ⟨.list items :: opened, .value⟩ (tokens j ++ ts) := by
  cases j <;> rfl

/-- The named members of an object make up the object. -/
theorem object_named (members : List (String × Json)) :
    Reader.object (members.map fun m => (some m.1, m.2)).reverse = .obj members := by
  have h : (members.map fun m => (some m.1, m.2)).mapM (m := Option)
      (fun m : Option String × Json => m.1.map fun k => (k, m.2)) = some members := by
    induction members with
    | nil => rfl
    | cons m members ih =>
      rw [List.map_cons, List.mapM_cons, ih]
      rfl
  rw [Reader.object, List.reverse_reverse, h]
  rfl

mutual

/-- After the tokens of a value the value is complete, as far as there is room for it. -/
theorem reads_value {limit : ℕ} {ts : List Token} : ∀ (j : Json) (opened : List Container),
    reads limit ⟨opened, .value⟩ (tokens j ++ ts) =
      reads limit (Reader.complete opened (settled (limit - opened.length) j)) ts
  | .null, _ | .bool _, _ | .int _, _ | .float _, _ | .str _, _ | .unusable, _ => by
    simp only [tokens, settled]
    rfl
  | .arr items, opened => by
    have h : Reader.close limit opened (.arr (settledItems (limit - opened.length - 1) items)) =
        Reader.complete opened (settled (limit - opened.length) (.arr items)) := by
      simp only [Reader.close, settled, Nat.sub_pos_iff_lt]
    rw [tokens, List.cons_append, reads_cons rfl, ← h]
    cases items with
    | nil => rfl
    | cons j items =>
      have hopen : reads limit ⟨.list [] :: opened, .valueOrClose⟩ (tokensItems (j :: items) ++ ts) =
          reads limit ⟨.list [] :: opened, .value⟩ (tokensItems (j :: items) ++ ts) := by
        cases items <;> simp only [tokensItems, List.append_assoc] <;> exact reads_opening j
      rw [hopen, reads_items (j :: items) nofun [] opened]
      rfl
  | .obj members, opened => by
    have h : Reader.close limit opened (.obj (settledMembers (limit - opened.length - 1) members)) =
        Reader.complete opened (settled (limit - opened.length) (.obj members)) := by
      simp only [Reader.close, settled, Nat.sub_pos_iff_lt]
    rw [tokens, List.cons_append, reads_cons rfl, ← h]
    cases members with
    | nil => rfl
    | cons m members =>
      have hopen : reads limit ⟨.object [] none :: opened, .keyOrClose⟩ (tokensMembers (m :: members) ++ ts) =
          reads limit ⟨.object [] none :: opened, .key⟩ (tokensMembers (m :: members) ++ ts) := by
        cases members <;> rfl
      exact hopen.trans (reads_members (m :: members) nofun [] none opened)

theorem reads_items {limit : ℕ} {ts : List Token} :
    ∀ (items : List Json) (_ : items ≠ []) (done : List Json) (opened : List Container),
      reads limit ⟨.list done :: opened, .value⟩ (tokensItems items ++ ts) = reads limit
        (Reader.close limit opened (.arr (done.reverse ++ settledItems (limit - opened.length - 1) items))) ts
  | [], h, _, _ => absurd rfl h
  | [j], _, done, opened => by
    rw [tokensItems, List.append_assoc, reads_value j, List.length_cons, ← Nat.sub_sub, Reader.complete,
      List.singleton_append, reads_cons rfl, List.reverse_cons]
    rfl
  | j :: j' :: items, _, done, opened => by
    simp only [tokensItems, List.append_assoc]
    rw [reads_value j, List.length_cons, ← Nat.sub_sub, Reader.complete, List.cons_append, reads_cons rfl,
      reads_items (j' :: items) nofun, List.reverse_cons, List.append_assoc]
    rfl

theorem reads_members {limit : ℕ} {ts : List Token} :
    ∀ (members : List (String × Json)) (_ : members ≠ []) (done : List (String × Json)) (key : Option String)
      (opened : List Container),
      reads limit ⟨.object (done.map fun m => (some m.1, m.2)).reverse key :: opened, .key⟩
          (tokensMembers members ++ ts) = reads limit
        (Reader.close limit opened (.obj (done ++ settledMembers (limit - opened.length - 1) members))) ts
  | [], h, _, _, _ => absurd rfl h
  | [(k, j)], _, done, key, opened => by
    simp only [tokensMembers, List.append_assoc, List.cons_append]
    rw [reads_cons rfl, reads_cons rfl, reads_value j, List.length_cons, ← Nat.sub_sub, Reader.complete,
      List.nil_append, reads_cons rfl, ← object_named]
    simp only [settledMembers, List.map_append, List.map_cons, List.map_nil, List.reverse_append, List.reverse_cons,
      List.reverse_nil, List.nil_append, List.singleton_append]
  | (k, j) :: m :: members, _, done, key, opened => by
    have h := @reads_members limit ts (m :: members) nofun
      (done ++ [(k, settled (limit - opened.length - 1) j)]) (some k) opened
    simp only [tokensMembers, List.append_assoc, List.cons_append]
    rw [reads_cons rfl, reads_cons rfl, reads_value j, List.length_cons, ← Nat.sub_sub, Reader.complete,
      reads_cons rfl]
    simp only [List.map_append, List.map_cons, List.map_nil, List.reverse_append, List.reverse_cons,
      List.reverse_nil, List.nil_append, List.singleton_append, List.append_assoc] at h
    exact h

end

/-- The text of a value is read as what is settled of it. -/
theorem read_text (j : Json) : read? j.text = some (settled nestingLimit j) := by
  have h := @reads_value nestingLimit [] j []
  rw [List.append_nil] at h
  rw [read?, text, String.toList_ofList, tokens_write, Option.bind_some, ofTokens?]
  exact congrArg (·.bind Reader.result?) h

/-! ## What is read from texts -/

/-- A scalar that a token stands for is nothing nested, and if a number, then its own text. -/
def Token.Sound : Token → Prop
  | .scalar j => ∀ r, fits r j
  | _ => True

theorem Written.fits {j : Json} (h : Written j) (r : ℕ) : fits r j := by
  cases h with
  | int h => exact h
  | float h => exact h
  | unusable => rfl

theorem sound_ofWord {cs : List Char} {t : Token} (h : Token.ofWord? cs = some t) : t.Sound := by
  unfold Token.ofWord? at h
  split at h
  · cases h; exact fun _ => rfl
  split at h
  · cases h; exact fun _ => rfl
  split at h
  · cases h; exact fun _ => rfl
  · obtain ⟨j, hj, rfl⟩ := Option.map_eq_some_iff.1 h
    exact (written_number hj).fits

/-- All tokens that a lexer has cut out are sound. -/
def Lexer.Sound (l : Lexer) : Prop :=
  ∀ t ∈ l.tokens, t.Sound

theorem sound_outside {ts : List Token} {c : Char} {l : Lexer} (hts : ∀ t ∈ ts, t.Sound)
    (h : Lexer.outside ts c = some l) : l.Sound := by
  unfold Lexer.outside at h
  split at h
  · cases h; exact hts
  split at h
  · cases h; exact hts
  split at h
  · cases h; exact hts
  · obtain ⟨t, ht, rfl⟩ := Option.map_eq_some_iff.1 h
    refine List.forall_mem_cons.2 ⟨?_, hts⟩
    unfold Token.ofPunctuation? at ht
    split at ht <;> cases ht <;> trivial

theorem sound_inside {ts : List Token} {seen : Seen} {c : Char} {l : Lexer} (hts : ∀ t ∈ ts, t.Sound)
    (h : Lexer.inside ts seen c = some l) : l.Sound := by
  unfold Lexer.inside at h
  split at h
  · cases h; exact List.forall_mem_cons.2 ⟨trivial, hts⟩
  split at h
  · cases h; exact hts
  split at h
  · cases h
  · cases h; exact hts

theorem sound_afterBackslash {ts : List Token} {seen : Seen} {c : Char} {l : Lexer} (hts : ∀ t ∈ ts, t.Sound)
    (h : Lexer.afterBackslash ts seen c = some l) : l.Sound := by
  unfold Lexer.afterBackslash at h
  split at h
  · cases h; exact hts
  · obtain ⟨d, -, rfl⟩ := Option.map_eq_some_iff.1 h
    exact hts

theorem tokens_closeHex (ts : List Token) (seen : Seen) (half : Option ℕ) (value : ℕ) :
    (Lexer.closeHex ts seen half value).tokens = ts := by
  unfold Lexer.closeHex
  dsimp only
  cases half with
  | none =>
    dsimp only
    split
    · rfl
    · split <;> rfl
  | some first =>
    dsimp only
    split <;> rfl

theorem sound_step {l m : Lexer} {c : Char} (hl : l.Sound) (h : l.step c = some m) : m.Sound := by
  obtain ⟨mode, ts⟩ := l
  cases mode with
  | between => exact sound_outside hl h
  | word seen =>
    simp only [Lexer.step] at h
    split at h
    · cases h; exact hl
    · obtain ⟨t, ht, hout⟩ := Option.bind_eq_some_iff.1 h
      exact sound_outside (List.forall_mem_cons.2 ⟨sound_ofWord ht, hl⟩) hout
  | text seen => exact sound_inside hl h
  | escaped seen => exact sound_afterBackslash hl h
  | hex seen half count value =>
    obtain ⟨d, -, rfl⟩ := Option.map_eq_some_iff.1 h
    split
    · exact hl
    · intro t ht
      rw [tokens_closeHex] at ht
      exact hl t ht
  | half seen first =>
    simp only [Lexer.step] at h
    split at h
    · cases h; exact hl
    · exact sound_inside hl h
  | halfEscaped seen first =>
    simp only [Lexer.step] at h
    split at h
    · cases h; exact hl
    · exact sound_afterBackslash hl h

/-- The tokens of a text are sound. -/
theorem sound_tokens {cs : List Char} {ts : List Token} (h : tokens? cs = some ts) : ∀ t ∈ ts, t.Sound := by
  have hrun (cs : List Char) : ∀ l : Lexer, l.Sound → ∀ ts, lex l cs = some ts → ∀ t ∈ ts, t.Sound := by
    induction cs with
    | nil =>
      rintro ⟨mode, ts⟩ hl us h
      change Lexer.finish _ = some us at h
      cases mode with
      | between =>
        cases h
        exact fun t ht => hl t (List.mem_reverse.1 ht)
      | word seen =>
        obtain ⟨t, ht, rfl⟩ := Option.map_eq_some_iff.1 h
        exact fun u hu => List.forall_mem_cons.2 ⟨sound_ofWord ht, hl⟩ u (List.mem_reverse.1 hu)
      | _ => cases h
    | cons c cs ih =>
      intro l hl us h
      rw [lex_cons] at h
      obtain ⟨m, hm, h⟩ := Option.bind_eq_some_iff.1 h
      exact ih m (sound_step hl hm) us h
  exact hrun cs ⟨.between, []⟩ nofun ts h

/-- What an open container holds fits below the containers around it. -/
def Container.Fits (r : ℕ) : Container → Prop
  | .list items => ∀ j ∈ items, fits r j
  | .object members _ => ∀ m ∈ members, fits r m.2

/-- What is in the open containers fits the levels of nesting left there, the innermost container first. -/
def OpenedFit (limit : ℕ) : List Container → Prop
  | [] => True
  | c :: opened => c.Fits (limit - opened.length - 1) ∧ OpenedFit limit opened

/-- What a reader has read fits. -/
structure Reader.Fits (limit : ℕ) (r : Reader) : Prop where
  opened : OpenedFit limit r.opened
  finished : ∀ j, r.expect = .finished j → fits limit j

theorem fits_complete {j : Json} (ho : OpenedFit limit opened) (hj : fits (limit - opened.length) j) :
    (Reader.complete opened j).Fits limit := by
  match opened, ho with
  | [], _ => exact ⟨trivial, by rintro _ ⟨⟩; exact hj⟩
  | .list items :: opened, ⟨hc, ho⟩ =>
    exact ⟨⟨List.forall_mem_cons.2 ⟨by rwa [List.length_cons, ← Nat.sub_sub] at hj, hc⟩, ho⟩, nofun⟩
  | .object members key :: opened, ⟨hc, ho⟩ =>
    exact ⟨⟨List.forall_mem_cons.2 ⟨by rwa [List.length_cons, ← Nat.sub_sub] at hj, hc⟩, ho⟩, nofun⟩

theorem fits_close_list {items : List Json} (ho : OpenedFit limit opened)
    (hi : ∀ j ∈ items, fits (limit - opened.length - 1) j) :
    (Reader.close limit opened (.arr items.reverse)).Fits limit := by
  refine fits_complete ho ?_
  split
  · next hlt =>
    simp only [fits, Bool.and_eq_true, decide_eq_true_eq]
    exact ⟨by omega, fitsItems_iff.2 fun j hj => hi j (List.mem_reverse.1 hj)⟩
  · rfl

/-- Every result of reading several things alike is that of one of them. -/
theorem mem_of_mapM {α β : Type} {f : α → Option β} : ∀ {as : List α} {bs : List β}, as.mapM f = some bs →
    ∀ b ∈ bs, ∃ a ∈ as, f a = some b
  | [], bs, h => by
    cases h
    nofun
  | a :: as, bs, h => by
    rw [List.mapM_cons] at h
    obtain ⟨b, hb, h⟩ := Option.bind_eq_some_iff.1 h
    obtain ⟨bs', hbs, h⟩ := Option.bind_eq_some_iff.1 h
    cases h
    refine List.forall_mem_cons.2 ⟨⟨a, List.mem_cons_self, hb⟩, fun c hc => ?_⟩
    obtain ⟨a', ha', hc⟩ := mem_of_mapM hbs c hc
    exact ⟨a', List.mem_cons_of_mem _ ha', hc⟩

theorem fits_object {members : List (Option String × Json)} {r : ℕ} (hr : 0 < r)
    (hm : ∀ m ∈ members, fits (r - 1) m.2) : fits r (Reader.object members) := by
  unfold Reader.object
  dsimp only
  cases h : members.reverse.mapM fun m : Option String × Json => m.1.map fun k => (k, m.2) with
  | none => rfl
  | some named =>
    have hn : ∀ n ∈ named, fits (r - 1) n.2 := by
      intro n hn
      obtain ⟨m, hmem, hmap⟩ := mem_of_mapM h n hn
      obtain ⟨k, -, rfl⟩ := Option.map_eq_some_iff.1 hmap
      exact hm m (List.mem_reverse.1 hmem)
    simp only [Option.map_some, Option.getD_some, fits, Bool.and_eq_true, decide_eq_true_eq]
    exact ⟨hr, fitsMembers_iff.2 hn⟩

theorem fits_close_object {members : List (Option String × Json)} (ho : OpenedFit limit opened)
    (hm : ∀ m ∈ members, fits (limit - opened.length - 1) m.2) :
    (Reader.close limit opened (Reader.object members)).Fits limit := by
  refine fits_complete ho ?_
  split
  · exact fits_object (by omega) hm
  · rfl

theorem fits_start {t : Token} {r : Reader} (ho : OpenedFit limit opened) (ht : t.Sound)
    (h : Reader.start opened t = some r) : r.Fits limit := by
  cases t with
  | scalar j =>
    cases h
    exact fits_complete ho (ht _)
  | text s =>
    cases h
    exact fits_complete ho (by cases s <;> rfl)
  | openList =>
    cases h
    exact ⟨⟨nofun, ho⟩, nofun⟩
  | openObject =>
    cases h
    exact ⟨⟨nofun, ho⟩, nofun⟩
  | _ => cases h

theorem fits_step {r s : Reader} {t : Token} (hr : r.Fits limit) (ht : t.Sound) (h : r.step limit t = some s) :
    s.Fits limit := by
  obtain ⟨opened, expect⟩ := r
  have ho : OpenedFit limit opened := hr.opened
  unfold Reader.step at h
  dsimp only at h
  split at h
  · exact fits_start ho ht h
  · cases h
    exact fits_close_list ho.2 ho.1
  · exact fits_start ho ht h
  · cases h
    exact fits_close_object ho.2 ho.1
  · cases h
    exact ⟨ho, nofun⟩
  · cases h
    exact ⟨ho, nofun⟩
  · cases h
    exact ⟨ho, nofun⟩
  · cases h
    exact ⟨ho, nofun⟩
  · cases h
    exact fits_close_list ho.2 ho.1
  · cases h
    exact ⟨ho, nofun⟩
  · cases h
    exact fits_close_object ho.2 ho.1
  · cases h

/-- Whatever a text denotes fits the deepest nesting that can be used. -/
theorem fits_of_read {text : String} {j : Json} (h : read? text = some j) : fits nestingLimit j := by
  obtain ⟨ts, hts, h⟩ := Option.bind_eq_some_iff.1 h
  obtain ⟨s, hs, h⟩ := Option.bind_eq_some_iff.1 h
  have hrun : ∀ (ts : List Token) (r : Reader), r.Fits nestingLimit → (∀ t ∈ ts, t.Sound) →
      reads nestingLimit r ts = some s → s.Fits nestingLimit := by
    intro ts
    induction ts with
    | nil =>
      intro r hr _ h
      cases h
      exact hr
    | cons t ts ih =>
      intro r hr ht h
      rw [reads, List.foldlM_cons] at h
      obtain ⟨r', hr', h⟩ := Option.bind_eq_some_iff.1 h
      exact ih r' (fits_step hr (ht t List.mem_cons_self) hr') (fun u hu => ht u (List.mem_cons_of_mem _ hu)) h
  have hfit := hrun ts ⟨[], .value⟩ ⟨trivial, nofun⟩ (sound_tokens hts) hs
  unfold Reader.result? at h
  split at h
  · next hf =>
    cases h
    exact hfit.finished _ hf
  · cases h

end VirtualComputer.Json
