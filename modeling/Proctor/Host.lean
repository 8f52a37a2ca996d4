import Proctor.Sandbox
import Proctor.Slots

/-!
Hosts: what one is set up with, and what its sessions share.
-/

namespace Proctor

structure Host where
  secret : Bytes
  hostname : String
  authority : String := ""
  dataLimit : Nat := 100000
  entryLimit : Nat := 500
  deriving DecidableEq, Repr

/-- The slots, which sessions hold by number, and the world of their sandboxes. -/
structure Host.State (σ : Type) where
  slots : Slots Nat
  world : World σ

end Proctor
