import VirtualComputer.Grammar.Lines
import VirtualComputer.Proofs.Grammar.Positions

/-!
# Lines and columns by search

The beginnings of the lines are in order (`lineStarts_sorted`), so a search among them finds the line of a byte and,
with the characters since that line begins, the place that a cursor carries there (`Cursor.Reaches.placeAt`).  The range
of every node of a tree is therefore the one that is looked up for its two ends (`parse_located`).
-/

namespace VirtualComputer.Grammar

section

variable {cs before rest : List Char} {offset : ℕ}

/-- How many bytes some characters take. -/
def bytes (cs : List Char) : ℕ :=
  (String.ofList cs).utf8ByteSize

theorem bytes_nil : bytes [] = 0 := rfl

theorem bytes_append (cs ds : List Char) : bytes (cs ++ ds) = bytes cs + bytes ds := by
  rw [bytes, String.ofList_append, String.utf8ByteSize_append, bytes, bytes]

theorem bytes_singleton (c : Char) : bytes [c] = c.utf8Size := by
  rw [bytes, ← String.singleton_eq_ofList, String.utf8ByteSize_singleton]

theorem bytes_cons (c : Char) (cs : List Char) : bytes (c :: cs) = c.utf8Size + bytes cs := by
  rw [← List.singleton_append, bytes_append, bytes_singleton]

/-! ## The beginnings of the lines -/

theorem breaks_append (offset : ℕ) (cs ds : List Char) :
    breaks offset (cs ++ ds) = breaks offset cs ++ breaks (offset + bytes cs) ds := by
  induction cs generalizing offset with
  | nil => rfl
  | cons c cs ih =>
    rw [List.cons_append, breaks, breaks, ih, bytes_cons, Nat.add_assoc]
    split <;> rfl

/-- There is one for each line break. -/
theorem length_breaks (offset : ℕ) (cs : List Char) : (breaks offset cs).length = cs.count '\n' := by
  induction cs generalizing offset with
  | nil => rfl
  | cons c cs ih =>
    rw [breaks, List.count_cons]
    split
    · next hc => rw [List.length_cons, ih, if_pos (by simpa using hc)]
    · next hc => rw [ih, if_neg (by simpa using hc), Nat.add_zero]

theorem mem_breaks {e : ℕ} (he : e ∈ breaks offset cs) :
    offset < e ∧ e ≤ offset + bytes cs := by
  induction cs generalizing offset with
  | nil => cases he
  | cons c cs ih =>
    have hsize := c.utf8Size_pos
    rw [bytes_cons]
    rw [breaks] at he
    have hlater (he : e ∈ breaks (offset + c.utf8Size) cs) :
        offset < e ∧ e ≤ offset + (c.utf8Size + bytes cs) := by
      have h := ih he
      omega
    split at he
    · obtain rfl | he := List.mem_cons.1 he
      · omega
      · exact hlater he
    · exact hlater he

theorem breaks_sorted (offset : ℕ) (cs : List Char) : (breaks offset cs).Pairwise (· < ·) := by
  induction cs generalizing offset with
  | nil => exact .nil
  | cons c cs ih =>
    rw [breaks]
    split
    · exact .cons (fun e he => (mem_breaks he).1) (ih _)
    · exact ih _

/-- The lines begin one after another, as a search among their beginnings takes for granted. -/
theorem lineStarts_sorted (text : String) : (lineStarts text).Pairwise (· < ·) :=
  .cons (fun _ he => (mem_breaks he).1) (breaks_sorted 0 _)

/-- The last line begins behind the last line break. -/
theorem getLast_breaks (offset : ℕ) (cs : List Char) : (breaks offset cs).getLast?.getD offset =
    offset + bytes (cs.rdropWhile (· ≠ '\n')) := by
  induction cs using List.reverseRecOn with
  | nil => rfl
  | append_singleton cs c ih =>
    rw [breaks_append, breaks, breaks]
    split
    · next hc =>
      rw [List.rdropWhile_concat_neg _ _ _ (by simpa using hc), List.getLast?_append, List.getLast?_singleton,
        Option.some_or, Option.getD_some, bytes_append, bytes_singleton, Nat.add_assoc]
    · next hc => rw [List.rdropWhile_concat_pos _ _ _ (by simpa using hc), List.append_nil, ih]

/-- The lines that begin in a beginning of the text, and those that begin later. -/
theorem lineStarts_append {text : String} (h : text.toList = before ++ rest) :
    lineStarts text = (0 :: breaks 0 before) ++ breaks (bytes before) rest := by
  rw [lineStarts, h, breaks_append, Nat.zero_add, List.cons_append]

/-- A search for the end of that beginning passes over the former. -/
theorem partitionPoint_lineStarts {text : String} (h : text.toList = before ++ rest) :
    partitionPoint (· ≤ bytes before) (lineStarts text) = before.count '\n' + 1 := by
  have hbefore : ∀ e ∈ 0 :: breaks 0 before, decide (e ≤ bytes before) = true := by
    intro e he
    obtain rfl | he := List.mem_cons.1 he
    · exact decide_eq_true (Nat.zero_le _)
    · have hle := (mem_breaks he).2
      rw [Nat.zero_add] at hle
      exact decide_eq_true hle
  have hrest : (breaks (bytes before) rest).takeWhile (fun e => decide (e ≤ bytes before)) = [] := by
    refine List.takeWhile_eq_nil_iff.2 fun hl => ?_
    have hlt := (mem_breaks (List.get_mem _ ⟨0, hl⟩)).1
    simpa using hlt
  rw [partitionPoint, lineStarts_append h, List.takeWhile_append_of_pos hbefore, hrest, List.append_nil,
    List.length_cons, length_breaks]

/-- The last of the former begins behind the last line break. -/
theorem lineStarts_getElem {text : String} (h : text.toList = before ++ rest) :
    (lineStarts text)[before.count '\n']? = some (bytes (before.rdropWhile (· ≠ '\n'))) := by
  have hlength : (0 :: breaks 0 before).length = before.count '\n' + 1 := by rw [List.length_cons, length_breaks]
  have hlast : (0 :: breaks 0 before)[before.count '\n']? = (0 :: breaks 0 before).getLast? := by
    rw [List.getLast?_eq_getElem?, hlength, Nat.add_sub_cancel]
  rw [lineStarts_append h, List.getElem?_append_left (by omega), hlast, List.getLast?_cons, getLast_breaks,
    Nat.zero_add]

/-! ## Parts of a text -/

theorem dropBytes_append (cs ds : List Char) : dropBytes? (bytes cs) (cs ++ ds) = some ds := by
  induction cs with
  | nil => rw [bytes_nil, List.nil_append, dropBytes?]
  | cons c cs ih =>
    obtain ⟨n, hn⟩ := Nat.exists_eq_add_one.2 c.utf8Size_pos
    rw [bytes_cons, hn, Nat.add_right_comm, List.cons_append, dropBytes?, if_pos (by omega)]
    rw [show n + bytes cs + 1 - c.utf8Size = bytes cs by omega]
    exact ih

theorem takeBytes_append (cs ds : List Char) : takeBytes? (bytes cs) (cs ++ ds) = some cs := by
  induction cs with
  | nil => rw [bytes_nil, takeBytes?]
  | cons c cs ih =>
    obtain ⟨n, hn⟩ := Nat.exists_eq_add_one.2 c.utf8Size_pos
    rw [bytes_cons, hn, Nat.add_right_comm, List.cons_append, takeBytes?, if_pos (by omega)]
    rw [show n + bytes cs + 1 - c.utf8Size = bytes cs by omega, ih]
    rfl

/-- The part between two others is between the bytes that these end and begin with. -/
theorem slice_append (cs ds es : List Char) :
    slice? (bytes cs) (bytes (cs ++ ds)) (cs ++ ds ++ es) = some ds := by
  rw [slice?, bytes_append, if_pos (Nat.le_add_right _ _), List.append_assoc, dropBytes_append, Option.bind_some,
    Nat.add_sub_cancel_left, takeBytes_append]

/-! ## Places -/

/-- The place that is looked up for the end of a beginning of a text is the one behind that. -/
theorem placeAt_append {text : String} (h : text.toList = before ++ rest) :
    placeAt text (bytes before) = Place.origin.advanceAll before := by
  have hline : slice? (bytes (before.rdropWhile (· ≠ '\n'))) (bytes before) text.toList =
      some (before.rtakeWhile (· ≠ '\n')) := by
    have hslice := slice_append (before.rdropWhile (· ≠ '\n')) (before.rtakeWhile (· ≠ '\n')) rest
    rwa [List.rdropWhile_append_rtakeWhile, ← h] at hslice
  rw [placeAt, partitionPoint_lineStarts h, Nat.add_sub_cancel, lineStarts_getElem h, Cursor.origin_advanceAll]
  dsimp only [Option.getD_some]
  rw [hline, Option.map_some, Option.getD_some, bytes]

end

/-- A cursor is at the place that is looked up for its offset. -/
theorem Cursor.Reaches.placeAt {text : String} {c : Cursor} (h : (Cursor.ofText text).Reaches c) :
    placeAt text c.place.offset = c.place := by
  obtain ⟨before, hrest, hplace⟩ := h
  have hbehind : c.place = Place.origin.advanceAll before := hplace
  have hoffset : c.place.offset = bytes before := by rw [hbehind, Cursor.origin_advanceAll, bytes]
  rw [hoffset, hbehind]
  exact placeAt_append hrest

end VirtualComputer.Grammar

namespace VirtualComputer

open Grammar

/-- Every node of the tree of a text has the range that is looked up for its first byte and its end. -/
theorem parse_located {text : String} {program : Stmt} (h : parse text = .ok program) {n : Node}
    (hn : Node.Below (.stmt program) n) : n.span = spanAt text n.span.start n.span.stop := by
  obtain ⟨c, c', hc, hset⟩ := Node.set_of_below h hn
  obtain ⟨-, hspan, -, -⟩ := hset
  rw [hspan]
  show _ = Span.mk _ _ (placeAt text c.place.offset).line (placeAt text c.place.offset).column
  rw [hc.placeAt]
  rfl

end VirtualComputer
