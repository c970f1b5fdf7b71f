import VirtualComputer.Guest.Evaluation

/-!
# Assigning along a path

`Val.write` puts a value at the end of a path of keys inside another value.  On its way it adds
entries that are missing and extends lists by one; what it has added stays even when a later key
fits nothing.
-/

namespace VirtualComputer

/-- Writes a value at a path; also the mistake, if the path fits nothing. -/
def Val.write (value : Val) : List Val → Val → Val × Option Mistake
  | [], _ => (value, none)
  | .str k :: keys, .obj entries =>
    let (inner, mistake) := write value keys ((Entries.get? k entries).getD .null)
    (.obj (Entries.insert k inner entries), mistake)
  | .num x :: keys, .list items =>
    let place := x.toUInt64.toNat
    if !Val.isWhole x || x < 0 || items.length < place then (.list items, some (.outOfRange x))
    else
      let items := if place = items.length then items ++ [.null] else items
      let (inner, mistake) := write value keys (items[place]?.getD .null)
      (.list (items.set place inner), mistake)
  | k :: _, target => (target, some (.noAccess target.kind k.kind))

/-- Writes a value at a path inside a variable, the innermost of its name. -/
def writeVariable (x : String) (keys : List Val) (value : Val) :
    List (String × Val) → List (String × Val) × Option Mistake
  | [] => ([], some (.undeclared x))
  | (y, v) :: env =>
    if y = x then
      let (v, mistake) := Val.write value keys v
      ((y, v) :: env, mistake)
    else
      let (env, mistake) := writeVariable x keys value env
      ((y, v) :: env, mistake)

end VirtualComputer
