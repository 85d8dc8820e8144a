import CExpr.Builtin
import CExpr.CommandLine.Help
import CExpr.CommandLine.Run

/-!
The program: expressions go to standard output, one a line, and the log to standard error.
-/
open CExpr

def readConfigFile (path : String) : IO FileContent := do
  try
    return .ok (← IO.FS.readFile path).toList
  catch e =>
    return .error (match e with
      | .permissionDenied .. => .forbidden
      | .inappropriateType _ 21 _ => .directory
      | .inappropriateType .. => .notDirectory
      | .invalidArgument .. => .nameTooLong
      | _ => .missing)

def main (words : List String) : IO UInt32 := do
  match Arguments.ofWords (words.map String.toList) with
  | .error .help =>
    for line in Help.text do IO.println line
    return 0
  | .error exit =>
    for line in Help.usageLines do IO.eprintln line
    IO.eprintln s!"{Help.program}: error: {exit.message}"
    return UInt32.ofNat exit.code
  | .ok arguments =>
    let environment ← IO.getEnv configVariable
    let content ← match configPath? arguments.configPath environment with
      | some path => readConfigFile path
      | none => pure (.error .missing)
    let seed ← IO.rand 0 (2 ^ 62)
    let report := run seed arguments
      (Config.load arguments.configPath environment fun _ => content) fun _ => none
    for line in report.lines do IO.println line
    for record in report.logs do IO.eprintln s!"{record.level.name} - {record.message}"
    match report.status with
    | .ok code => return UInt32.ofNat code
    | .error failure =>
      IO.eprintln s!"{Help.program}: error: {failure.message}"
      return 1
