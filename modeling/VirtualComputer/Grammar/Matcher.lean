import VirtualComputer.Syntax.Span

/-!
# Matching with ordered choice

A matcher reads a prefix of what is left of a text, or fails without reading.  Choice is ordered
and repetition greedy, and neither is ever reconsidered.  Beside its result every attempt reports
the furthest place at which a named rule was tried in vain, which is where a text that is not
accepted at all is said to be wrong.
-/

namespace VirtualComputer.Grammar

/-! ## Places -/

/-- A place in a text: bytes before it, line breaks before it, characters since the last one. -/
structure Place where
  offset : Nat
  line : Nat
  column : Nat
  deriving DecidableEq, Repr

namespace Place

def origin : Place := ⟨0, 0, 0⟩

/-- The place after one more character. -/
def advance (p : Place) (c : Char) : Place :=
  if c = '\n' then ⟨p.offset + c.utf8Size, p.line + 1, 0⟩
  else ⟨p.offset + c.utf8Size, p.line, p.column + 1⟩

/-- The place after a run of characters. -/
def advanceAll (p : Place) (cs : List Char) : Place :=
  cs.foldl advance p

/-- The one of two places that is further on. -/
def later (p q : Place) : Place :=
  if p.offset < q.offset then q else p

/-- The range from one place to another. -/
def spanTo (p q : Place) : Span :=
  ⟨p.offset, q.offset, p.line, p.column⟩

end Place

/-- A place together with the text that follows it. -/
structure Cursor where
  place : Place
  rest : List Char

/-- The beginning of a text. -/
def Cursor.ofText (text : String) : Cursor := ⟨.origin, text.toList⟩

/-! ## Matchers -/

/-- What a matcher answers: its value and where it stopped, if it matched, and the furthest place
at which a named rule was tried in vain. -/
structure Attempt (α : Type) where
  matched : Option (α × Cursor)
  furthest : Place

def Matcher (α : Type) : Type := Cursor → Attempt α

namespace Matcher

variable {α β : Type}

/-- Matches nothing of the text. -/
def give (a : α) : Matcher α := fun c => ⟨some (a, c), .origin⟩

/-- Matches never. -/
def fail : Matcher α := fun _ => ⟨none, .origin⟩

/-- Matches one part and then another that may depend on its value. -/
def andThen (p : Matcher α) (f : α → Matcher β) : Matcher β := fun c =>
  match p c with
  | ⟨none, k⟩ => ⟨none, k⟩
  | ⟨some (a, c'), k⟩ =>
    let r := f a c'
    ⟨r.matched, k.later r.furthest⟩

instance : Monad Matcher where
  pure := give
  bind := andThen

/-- The place reached. -/
def here : Matcher Place := fun c => ⟨some (c.place, c), .origin⟩

/-- Tries the second only where the first fails. -/
def orElse (p q : Matcher α) : Matcher α := fun c =>
  match p c with
  | ⟨some r, k⟩ => ⟨some r, k⟩
  | ⟨none, k⟩ =>
    let r := q c
    ⟨r.matched, k.later r.furthest⟩

/-- The first alternative that matches. -/
def firstOf : List (Matcher α) → Matcher α
  | [] => fail
  | p :: ps => p.orElse (firstOf ps)

/-- A part that may be absent. -/
def optional (p : Matcher α) : Matcher (Option α) :=
  orElse (p.andThen fun a => give (some a)) (give none)

/-- As many rounds as match, at most the given number. -/
def rounds (p : Matcher α) : Nat → Matcher (List α)
  | 0 => give []
  | n + 1 => fun c =>
    match p c with
    | ⟨none, k⟩ => ⟨some ([], c), k⟩
    | ⟨some (a, c'), k⟩ =>
      let r := rounds p n c'
      ⟨r.matched.map fun (as, c'') => (a :: as, c''), k.later r.furthest⟩

/-- Matches only where the other does not match; reads nothing. -/
def notHere (p : Matcher α) : Matcher Unit := fun c =>
  match (p c).matched with
  | some _ => ⟨none, .origin⟩
  | none => ⟨some ((), c), .origin⟩

/-- A rule whose failures count: the place where it was tried is reported. -/
def named (p : Matcher α) : Matcher α := fun c =>
  match p c with
  | ⟨some r, k⟩ => ⟨some r, k⟩
  | ⟨none, k⟩ => ⟨none, k.later c.place⟩

/-- Joins the value with the range of text that was matched. -/
def spanned (p : Matcher α) (f : α → Span → β) : Matcher β := do
  let start ← here
  let a ← p
  let stop ← here
  give (f a (start.spanTo stop))

/-- Matches the characters that a scan of the text splits off, and looks up what they denote. -/
def scan (split : List Char → Option (List Char × List Char)) : Matcher (List Char) := fun c =>
  match split c.rest with
  | none => ⟨none, .origin⟩
  | some (taken, rest) => ⟨some (taken, ⟨c.place.advanceAll taken, rest⟩), .origin⟩

end Matcher

/-- Splits off a given beginning. -/
def splitLiteral : List Char → List Char → Option (List Char × List Char)
  | [], cs => some ([], cs)
  | w :: ws, c :: cs => if w = c then (splitLiteral ws cs).map fun (t, r) => (c :: t, r) else none
  | _ :: _, [] => none

/-- Matches exactly the given characters. -/
def literal (text : String) : Matcher Unit :=
  (Matcher.scan (splitLiteral text.toList)).andThen fun _ => .give ()

/-! ## Blanks and comments -/

/-- What the characters being skipped belong to. -/
inductive Skipping where
  | blanks
  | lineComment
  | blockComment

/-- Whether a block comment is closed further on. -/
def isClosed : List Char → Bool
  | '*' :: '/' :: _ => true
  | _ :: cs => isClosed cs
  | [] => false

def isBlank (c : Char) : Bool :=
  c = ' ' || c = '\t' || c = '\r' || c = '\n'

/-- The cursor after all blanks and comments; a block comment that is never closed is none. -/
def skipFrom : Skipping → Place → List Char → Cursor
  | .blanks, p, '/' :: '/' :: cs => skipFrom .lineComment (p.advanceAll ['/', '/']) cs
  | .blanks, p, '/' :: '*' :: cs =>
    if isClosed cs then skipFrom .blockComment (p.advanceAll ['/', '*']) cs
    else ⟨p, '/' :: '*' :: cs⟩
  | .blanks, p, c :: cs => if isBlank c then skipFrom .blanks (p.advance c) cs else ⟨p, c :: cs⟩
  | .lineComment, p, '\n' :: cs => skipFrom .blanks (p.advance '\n') cs
  | .lineComment, p, c :: cs => skipFrom .lineComment (p.advance c) cs
  | .blockComment, p, '*' :: '/' :: cs => skipFrom .blanks (p.advanceAll ['*', '/']) cs
  | .blockComment, p, c :: cs => skipFrom .blockComment (p.advance c) cs
  | _, p, [] => ⟨p, []⟩

/-- Skips blanks and comments; it always matches. -/
def skip : Matcher Unit := fun c => ⟨some ((), skipFrom .blanks c.place c.rest), .origin⟩

namespace Matcher

variable {α : Type}

/-- As many rounds as match with blanks between them; blanks before a round that fails are not
part of the match. -/
def repeated (bound : Nat) (p : Matcher α) : Matcher (List α) := do
  match ← optional p with
  | none => give []
  | some first =>
    let others ← rounds (skip.andThen fun _ => p) bound
    give (first :: others)

end Matcher

end VirtualComputer.Grammar
