import VirtualComputer.Entries
import VirtualComputer.Json.Basic

/-!
# Catalogs

A catalog supplies what a machine boots: the boot program, the kernel program and the sources of
drivers.  It may have an address of its own, which is all of it that a record keeps.
-/

namespace VirtualComputer

structure Catalog where
  address : Option String
  boot : String
  kernel : String
  drivers : Entries String

namespace Catalog

/-- Publishes the entry points that snapshots need. -/
def defaultBoot : String := "
return \x7b
    persist: persistence.persist,
    unpersist: persistence.unpersist
\x7d
"

/-- Sleeps for the time allowed, prints what it is asked to, and obeys reboot and shutdown. -/
def defaultKernel : String := "
let timeout = system.timeout
while (true) \x7b
    let signal = yield timeout
    let name = signal[0]
    if (name == \"print\") \x7b
        print(signal[1])
    \x7d else if (name == \"reboot\") \x7b
        yield true
    \x7d else if (name == \"shutdown\") \x7b
        yield false
    \x7d
\x7d
"

/-- The catalog with the default programs. -/
def standard : Catalog := ⟨none, defaultBoot, defaultKernel, []⟩

/-- What a record keeps of a catalog. -/
def save (c : Catalog) : Json :=
  .obj [("address", Json.ofOption .str c.address)]

/-- The address in what a record keeps of a catalog, if there is one. -/
def savedAddress? : Json → Option String
  | .obj members => (members.reverse.find? (·.1 = "address")).bind (·.2.asStr?)
  | _ => none

/-- The catalog with the address that a record keeps. -/
def load (j : Json) (c : Catalog) : Catalog :=
  { c with address := savedAddress? j }

end Catalog

end VirtualComputer
