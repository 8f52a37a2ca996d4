import Proctor.Settings

/-!
The command line of a host.
-/

namespace Proctor

/-- The lines of the help text for settings. -/
def settingLines : List String :=
  Setting.all.map fun s =>
    let value := match s.default? with
      | some value => s!" (default: {value})"
      | none => ""
    s!"  --{s.name} <value>, or {s.variableName}{value}"

def helpText : String :=
  "\n".intercalate (["Runs signed grading actions in containers.", "", "Settings:"] ++ settingLines)

end Proctor

open Proctor in
def main (arguments : List String) : IO UInt32 := do
  let mut found : List (String × String) := []
  for s in Setting.all do
    match ← IO.getEnv s.variableName with
    | some value => found := (s.variableName, value) :: found
    | none => pure ()
  let startup := Startup.ofCommandLine arguments fun name => found.lookup name
  match startup with
  | .help => IO.println helpText
  | .misused error => IO.eprintln s!"error: {error.message}"
  | .failed _ => IO.eprintln (startup.errorLine?.getD "")
  | .ready settings _ => IO.println s!"{settings.hostname} is ready to listen on {settings.listen}"
  return UInt32.ofNat startup.status
