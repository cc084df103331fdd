import CallAudit.Command.Run

/-!
# The program

The program opens every path that its arguments could name, and leaves the rest to
`CallAudit.execute`.
-/

namespace CallAudit

/-- The paths that an argument could name: itself, and what stands behind an equals sign or the
letter of an option. -/
def mentionedPaths (argument : String) : List String :=
  let cs := argument.toList
  [cs, (cs.dropWhile (· != '=')).drop 1, cs.drop 2].map String.ofList

/-- The wording of an error of the system. -/
def systemMessage : IO.Error → String
  | .permissionDenied _ code details | .resourceExhausted _ code details
  | .inappropriateType _ code details | .invalidArgument _ code details
  | .noSuchThing _ code details | .otherError code details | .resourceBusy code details
  | .hardwareFault code details | .unsupportedOperation code details =>
    details ++ " (os error " ++ toString code ++ ")"
  | e => toString e

/-- What stands at a path whose file was not read. A path that cannot be followed to its end leads
nowhere. -/
def contentOnError (path : String) (e : IO.Error) : IO FileContent := do
  try
    let _ ← IO.FS.realPath path
    return .unreadable (systemMessage e)
  catch _ => return .missing

/-- What stands at a path. -/
def openPath (path : String) : IO FileContent := do
  try
    let bytes ← IO.FS.readBinFile path
    match String.fromUTF8? bytes with
    | some content => return .text content
    | none => return .binary
  catch e => contentOnError path e

end CallAudit

open CallAudit in
/-- Runs the program. -/
def main (arguments : List String) : IO UInt32 := do
  let paths := Suite.defaultPath :: arguments.flatMap mentionedPaths
  let contents ← paths.mapM fun path => return (path, ← openPath path)
  let exit := execute (fun path => (contents.lookup path).getD .missing) arguments
  IO.print exit.stdout
  IO.eprint exit.stderr
  return exit.code.toUInt32
