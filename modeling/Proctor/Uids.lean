/-!
User ids for sandboxes: one for each that is open, drawn at random from those that are free.
-/

namespace Proctor

structure Uids where
  reserved : List Nat := []
  deriving DecidableEq, Repr

namespace Uids

def first : Nat := 10000

def count : Nat := 1000

def all : List Nat :=
  List.range' first count

def free (u : Uids) : List Nat :=
  all.filter fun uid => !u.reserved.contains uid

/-- Reserves a free user id; `draw` picks which. None when all are reserved. -/
def reserve? (u : Uids) (draw : Nat) : Option (Nat × Uids) :=
  let free := u.free
  (free[draw % free.length]?).map fun uid => (uid, ⟨uid :: u.reserved⟩)

def release (u : Uids) (uid : Nat) : Uids :=
  ⟨u.reserved.erase uid⟩

end Uids

end Proctor
