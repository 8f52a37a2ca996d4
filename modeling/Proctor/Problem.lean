import Proctor.Binary64.Text
import Proctor.ProblemType

/-!
Problems, their numbered steps, and the files that a problem asks to have sent back.
-/

namespace Proctor

structure Step where
  problemId : Int := 0
  step : Int
  problemType : String
  note : String := ""
  instructions : String := ""
  weight : Binary64 := .one
  files : KeyMap Bytes := .empty
  whitelist : KeyMap Bool := .empty
  solution : KeyMap Bytes := .empty
  deriving DecidableEq, Repr

namespace Step

def keys : List String :=
  ["problemID", "step", "problemType", "note", "instructions", "weight", "files", "whitelist",
    "solution"]

def ofJson? (j : Json) : Option Step := do
  match ← Json.fields? keys j with
  | [problemId, step, problemType, note, instructions, weight, files, whitelist, solution] =>
    some {
      problemId := ← Json.defaulted 0 Json.asInteger? problemId
      step := ← Json.required Json.asInteger? step
      problemType := ← Json.required Json.asText? problemType
      note := ← Json.defaulted "" Json.asText? note
      instructions := ← Json.defaulted "" Json.asText? instructions
      weight := ← Json.defaulted .one Json.asBinary64? weight
      files := ← Json.defaulted .empty Json.asFiles? files
      whitelist := ← Json.defaulted .empty (Json.asMap? Json.asBool?) whitelist
      solution := ← Json.defaulted .empty Json.asFiles? solution }
  | _ => none

def toJson (s : Step) : Json :=
  .ofPairs <|
    [("problemID", .integer s.problemId), ("step", .integer s.step),
      ("problemType", .text s.problemType), ("note", .text s.note)] ++
    Json.memberUnless s.instructions.isEmpty "instructions" (.text s.instructions) ++
    [("weight", Json.ofBinary64 s.weight), ("files", Json.ofFiles s.files),
      ("whitelist", Json.ofMap .bool s.whitelist)] ++
    Json.memberUnless s.solution.isEmpty "solution" (Json.ofFiles s.solution)

def addFields (f : Signature.Fields) (s : Step) : Signature.Fields :=
  let stem := s!"step-{Decimal.signedText s.step}-"
  let f := f.addTexts [
    (stem ++ "problemType", s.problemType),
    (stem ++ "note", s.note),
    (stem ++ "weight", s.weight.plainText)]
  let f := f.addFiles (stem ++ "file-") s.files
  let f := f.addTexts (s.whitelist.entries.map fun (path, allowed) =>
    (stem ++ "whitelist-" ++ path, Action.boolText allowed))
  f.addFiles (stem ++ "solution-") s.solution

end Step

structure Problem where
  id : Int := 0
  unique : String
  note : String := ""
  problemType : String
  tags : List String := []
  options : List String := []
  createdAt : Instant
  updatedAt : Instant
  deriving DecidableEq, Repr

namespace Problem

def keys : List String :=
  ["id", "unique", "note", "problemType", "tags", "options", "createdAt", "updatedAt"]

def ofJson? (j : Json) : Option Problem := do
  match ← Json.fields? keys j with
  | [id, unique, note, problemType, tags, options, createdAt, updatedAt] =>
    some {
      id := ← Json.defaulted 0 Json.asInteger? id
      unique := ← Json.required Json.asText? unique
      note := ← Json.defaulted "" Json.asText? note
      problemType := ← Json.required Json.asText? problemType
      tags := ← Json.defaulted [] (Json.asList? Json.asText?) tags
      options := ← Json.defaulted [] (Json.asList? Json.asText?) options
      createdAt := ← Json.required Json.asInstant? createdAt
      updatedAt := ← Json.required Json.asInstant? updatedAt }
  | _ => none

def toJson (p : Problem) : Json :=
  .ofPairs [
    ("id", .integer p.id), ("unique", .text p.unique), ("note", .text p.note),
    ("problemType", .text p.problemType), ("tags", Json.ofTexts p.tags),
    ("options", Json.ofTexts p.options), ("createdAt", Json.ofInstant p.createdAt),
    ("updatedAt", Json.ofInstant p.updatedAt)]

/-- A problem is signed together with its steps. -/
def signedFields (p : Problem) (steps : List Step) : Signature.Fields :=
  let f := Signature.Fields.empty.addTexts [
    ("id", Decimal.signedText p.id), ("unique", p.unique), ("note", p.note),
    ("problemType", p.problemType)]
  let f := f.addAll "tags" (p.tags.map Utf8.encode)
  let f := f.addAll "options" (p.options.map Utf8.encode)
  let f := (f.addTime "createdAt" p.createdAt).addTime "updatedAt" p.updatedAt
  steps.foldl Step.addFields f

def sign (p : Problem) (steps : List Step) (secret : Bytes) : String :=
  (p.signedFields steps).sign secret

def verify (p : Problem) (steps : List Step) (secret : Bytes) (signature : String) :
    Except SignatureError Unit :=
  (p.signedFields steps).verify secret signature "problem"

/-- The parts of a text between commas. -/
def splitCommas (s : String) : List String :=
  (s.toList.splitOnP (· == ',')).map String.ofList

/-- The patterns of every `download` option, trimmed, without empty ones. -/
def downloadPatterns (p : Problem) : List String :=
  let lists := (p.options.filterMap splitOption).filter fun (key, _) => Text.trim key = "download"
  (lists.flatMap fun (_, value) => (splitCommas value).map Text.trim).filter (!·.isEmpty)

end Problem

end Proctor
