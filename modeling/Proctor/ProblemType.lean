import Proctor.Json.Record
import Proctor.Limits
import Proctor.Signature
import Proctor.Text.Quoted

/-!
Problem types: a container image, template files, and the named actions that can run in it.
-/

namespace Proctor

/-- How the result of an action is judged: by its exit status alone, or by a report that it writes. -/
inductive Judge
  | status
  | xunit
  | check
  deriving DecidableEq, Repr

structure Action where
  command : String
  judge : String := ""
  message : String := ""
  interactive : Bool := false
  limits : Limits := {}
  deriving DecidableEq, Repr

namespace Action

/-- The tag of an action names its judge; none for a tag that names no judge. -/
def judge? (a : Action) : Option Judge :=
  if a.judge = "" then some .status
  else if a.judge = "xunit" then some .xunit
  else if a.judge = "check" then some .check
  else none

def unknownJudge (tag : String) : String :=
  s!"unknown parser {Text.quoted tag}"

def commandLine (a : Action) : List String :=
  Text.words a.command

def keys : List String := ["command", "parser", "message", "interactive"]

/-- An action is an object that holds its limits inline. Members it does not know are kept until its
end, with `depth` containers around it. -/
def ofJson? (depth : Nat) (j : Json) : Option Action := do
  if ¬Json.areOthersKeepable (depth + 1) keys j then none
  let limits ← (Json.objectFields? Limits.keys j).bind Limits.ofFields?
  match ← Json.objectFields? keys j with
  | [command, judge, message, interactive] =>
    some {
      command := ← Json.required Json.asText? command
      judge := ← Json.defaulted "" Json.asText? judge
      message := ← Json.defaulted "" Json.asText? message
      interactive := ← Json.defaulted false Json.asBool? interactive
      limits }
  | _ => none

def toJson (a : Action) : Json :=
  .ofPairs <|
    [("command", .text a.command)] ++ Json.memberUnless a.judge.isEmpty "parser" (.text a.judge) ++
    Json.memberUnless a.message.isEmpty "message" (.text a.message) ++
    [("interactive", .bool a.interactive)] ++ a.limits.members

def boolText (b : Bool) : String :=
  if b then "true" else "false"

/-- Names of the limits in signed fields. -/
def limitNames : List String :=
  ["max-cpu", "max-session", "max-timeout", "max-fd", "max-file-size", "max-memory", "max-threads"]

/-- Every part of an action with its field name. -/
def signedTexts (a : Action) : List (String × String) :=
  [("command", a.command), ("parser", a.judge), ("message", a.message),
    ("interactive", boolText a.interactive)] ++ limitNames.zip (a.limits.values.map Decimal.text)

end Action

structure ProblemType where
  name : String
  image : String
  files : KeyMap Bytes := .empty
  actions : KeyMap Action := .empty
  deriving DecidableEq, Repr

namespace ProblemType

/-- Reads a problem type that has `depth` containers around it. -/
def ofJson? (depth : Nat) (j : Json) : Option ProblemType := do
  match ← Json.fields? ["name", "image", "files", "actions"] j with
  | [name, image, files, actions] =>
    some {
      name := ← Json.required Json.asText? name
      image := ← Json.required Json.asText? image
      files := ← Json.defaulted .empty Json.asFiles? files
      actions := ← Json.defaulted .empty (Json.asMap? (Action.ofJson? (depth + 2))) actions }
  | _ => none

def toJson (t : ProblemType) : Json :=
  .ofPairs <|
    [("name", .text t.name), ("image", .text t.image)] ++
    Json.memberUnless t.files.isEmpty "files" (Json.ofFiles t.files) ++
    [("actions", Json.ofMap Action.toJson t.actions)]

def signedFields (t : ProblemType) : Signature.Fields :=
  t.actions.entries.foldl
    (fun f (name, a) => f.addTexts (a.signedTexts.map fun (part, text) => (s!"action-{name}-{part}", text)))
    ((Signature.Fields.empty.addTexts [("name", t.name), ("image", t.image)]).addFiles "file-" t.files)

def sign (t : ProblemType) (secret : Bytes) : String :=
  t.signedFields.sign secret

def verify (t : ProblemType) (secret : Bytes) (signature : String) : Except SignatureError Unit :=
  t.signedFields.verify secret signature "problem type"

end ProblemType

end Proctor
