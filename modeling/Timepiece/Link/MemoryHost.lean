import Timepiece.Link.Session

/-!
# A host in memory

What a session asks of its host, answered from lists: the values that extensions
report, and the compiled watch sets by their numbers.

## Main definitions

* `MemoryHost` — the host.
* `MemoryHost.put`, `MemoryHost.insert` — changing a value, adding a watch set.
* `MemoryHost.services` — what a session sees of it.
-/

namespace Timepiece

/-- A host in memory. -/
structure MemoryHost where
  values : List (PropertyKey × Value) := []
  bundles : List Bundle := []
  /-- Whether there is someone who pages through notifications. -/
  pages : Bool := true

namespace MemoryHost

/-- Sets a value, or takes it away. -/
def put (host : MemoryHost) (key : PropertyKey) (value : Option Value) : MemoryHost :=
  let others := host.values.filter fun entry => entry.1 != key
  { host with values := (value.map fun v => (key, v)).toList ++ others }

/-- Adds a watch set, in place of one with the same number. -/
def insert (host : MemoryHost) (bundle : Bundle) : MemoryHost :=
  { host with bundles := bundle :: host.bundles.filter fun other => other.id != bundle.id }

/-- What a session sees of the host. -/
def services (host : MemoryHost) : Services where
  value := fun key => host.values.lookup key
  find := fun id => host.bundles.find? fun bundle => bundle.id == id
  pages := host.pages

end MemoryHost

end Timepiece
