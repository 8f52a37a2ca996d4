import Proctor.Bytes

/-!
Paths in archives. A path is stored without repeated slashes and inner dots, it must be relative, and
it must not climb.
-/

namespace Proctor.Archive

inductive Component
  | root
  | current
  | parent
  | normal (name : Bytes)
  deriving DecidableEq, Repr

namespace Component

def bytes : Component → Bytes
  | .root => [47]
  | .current => [46]
  | .parent => [46, 46]
  | .normal name => name

end Component

/-- Pieces between slashes, each with the text up to its end. `before` and `piece` are in reverse. -/
def pieces (before piece : Bytes) : Bytes → List (Bytes × Bytes)
  | [] => [(piece.reverse, (piece ++ before).reverse)]
  | b :: rest =>
    if b = 47 then (piece.reverse, (piece ++ before).reverse) :: pieces (b :: (piece ++ before)) [] rest
    else pieces before (b :: piece) rest

/-- The component that a piece stands for; a dot counts only at the very start. -/
def component? (isFirst : Bool) (piece : Bytes) : Option Component :=
  if piece = [] then none
  else if piece = [46] then (if isFirst then some .current else none)
  else if piece = [46, 46] then some .parent
  else some (.normal piece)

/-- The components of a path, each with the text of the path up to its end. -/
def components (path : Bytes) : List (Component × Bytes) :=
  let root : List (Component × Bytes) := match path with
    | 47 :: _ => [(.root, [47])]
    | _ => []
  root ++ (pieces [] [] path).zipIdx.filterMap fun ((piece, text), i) =>
    (component? (i == 0) piece).map (·, text)

inductive PathFault
  | absolute
  | climbing
  | empty
  | nul
  | tooLong
  deriving DecidableEq, Repr

/-- A fault, and what was stored of the path before it. -/
structure PathError where
  fault : PathFault
  stored : Bytes
  deriving DecidableEq, Repr

def PathFault.message : PathFault → String
  | .absolute => "paths in archives must be relative"
  | .climbing => "paths in archives must not have `..`"
  | .empty => "paths in archives must have at least one component"
  | .nul => "provided value contains a nul byte"
  | .tooLong => "provided value is too long"

def PathError.message (e : PathError) : String :=
  s!"{e.fault.message} when setting path for {Utf8.decodeLossy e.stored}"

/-- Bytes that a header has for a path. -/
def nameSize : Nat := 100

def store (stored piece : Bytes) : Except PathError Bytes :=
  if nameSize < stored.length + piece.length then .error ⟨.tooLong, stored⟩
  else if piece.contains 0 then .error ⟨.nul, stored⟩
  else .ok (stored ++ piece)

/-- Stores components behind what is stored. `alone` tells that the path has one component, and `cut`
that it may be cut off behind its last one, which can then be anything. -/
def storeComponents (alone cut : Bool) (stored : Bytes) : List Component → Except PathError Bytes
  | [] => .ok stored
  | c :: rest =>
    match c with
    | .root => .error ⟨.absolute, stored⟩
    | .parent =>
      if cut ∧ rest.isEmpty then storeNext stored c rest else .error ⟨.climbing, stored⟩
    | .current =>
      if alone then storeNext stored c rest else storeComponents alone cut stored rest
    | .normal _ => storeNext stored c rest
where
  /-- Components are stored with slashes between them. -/
  storeNext (stored : Bytes) (c : Component) (rest : List Component) : Except PathError Bytes := do
    let stored ← if stored.isEmpty then .ok stored else store stored [47]
    storeComponents alone cut (← store stored c.bytes) rest

/-- The name that a header holds for a path. A slash at the end stays. -/
def storedName (cut : Bool) (path : Bytes) : Except PathError Bytes := do
  let parts := (components path).map (·.1)
  let stored ← storeComponents (parts.length == 1) cut [] parts
  if stored.isEmpty then .error ⟨.empty, []⟩
  else if path.getLast? = some 47 then store stored [47]
  else .ok stored

/-- The directories above a path, the topmost first. -/
def parents (path : Bytes) : List Bytes :=
  (components path).dropLast.map (·.2)

/-- The path without dots, none when it is absolute, climbs, or is no text or no path. -/
def cleanPath? (path : Bytes) : Option String := do
  let names ← ((components path).filter (·.1 ≠ .current)).mapM fun
    | (.normal name, _) => Utf8.decode? name
    | _ => none
  if names.isEmpty then none else some ("/".intercalate names)

end Proctor.Archive
