/-!
# Entries in order of their keys

A finite map from strings is a list of pairs whose keys increase, by code points.  `insert` keeps
the list in order and replaces the value of a key that is present already.
-/

namespace VirtualComputer

/-- Pairs of keys and values, with increasing keys. -/
abbrev Entries (α : Type) := List (String × α)

namespace Entries

variable {α : Type}

/-- The value of a key. -/
def get? (key : String) : Entries α → Option α
  | [] => none
  | (k, a) :: rest => if k = key then some a else get? key rest

/-- Puts a value under a key. -/
def insert (key : String) (value : α) : Entries α → Entries α
  | [] => [(key, value)]
  | (k, a) :: rest =>
    if key < k then (key, value) :: (k, a) :: rest
    else if key = k then (k, value) :: rest
    else (k, a) :: insert key value rest

/-- The entries of a list of pairs; of two values for one key the later counts. -/
def ofList (pairs : List (String × α)) : Entries α :=
  pairs.foldl (fun es (k, a) => insert k a es) []

/-- Whether the keys increase. -/
def Ordered (es : Entries α) : Prop :=
  es.Pairwise fun a b => a.1 < b.1

end Entries

end VirtualComputer
