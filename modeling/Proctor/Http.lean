import Proctor.Json.Basic

/-!
Requests over HTTP: methods, targets and answers.
-/

namespace Proctor.Http

inductive Method
  | get
  | head
  | post
  | other
  deriving DecidableEq, Repr

def Method.ofName (name : String) : Method :=
  if name = "GET" then .get
  else if name = "HEAD" then .head
  else if name = "POST" then .post
  else .other

structure Answer where
  status : Nat
  body : Option Json := none
  deriving Repr

namespace Answer

/-- An answer to a request for the head alone. -/
def withoutBody (a : Answer) : Answer :=
  { a with body := none }

def ofError (status : Nat) (message : String) : Answer :=
  { status, body := some (.ofPairs [("error", .text message)]) }

def badRequest : Nat := 400
def notFound : Nat := 404
def notAllowed : Nat := 405
def tooLarge : Nat := 413

end Answer

/-- The path of a target, up to its query or fragment. -/
def path (target : String) : List Char :=
  target.toList.takeWhile fun c => c ≠ '?' ∧ c ≠ '#'

end Proctor.Http
