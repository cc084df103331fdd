import CallAudit.Check.Suite
import CallAudit.Command.Line
import CallAudit.Tree.Reader

/-!
# Running commands

A command opens its files, does its work and gives a summary, or fails with a message. A run of the
program ends with a code: zero if all is as it should be, one if it is not or the command fails, two
if there is no command.

## Main definitions

* `Tree.load`, `Suite.load`: trees and suites from files.
* `Command.run`: the summary of a command in a format.
* `Exit`, `execute`: what a run of the program writes, and its code.
-/

namespace CallAudit

/-- Why a file holds no tree. -/
inductive Tree.LoadError where
  | unreadable (path : String) (cause : String)
  | invalid (fault : Reading.Fault)
  deriving DecidableEq, Repr

/-- The wording of an error. -/
def Tree.LoadError.message : Tree.LoadError → String
  | .unreadable path cause => "Failed to read AST file '" ++ path ++ "': " ++ cause
  | .invalid fault => "Failed to parse AST JSON: " ++ fault.message

/-- The tree of a text. -/
def Tree.parse (s : String) : Except Tree.LoadError Tree := (Tree.ofText s).mapError .invalid

/-- The tree in a file. -/
def Tree.load (files : Files) (path : String) : Except Tree.LoadError Tree :=
  match (files path).read with
  | .ok content => Tree.parse content
  | .error cause => .error (.unreadable path cause)

/-- The suite in a file. -/
def Suite.load (files : Files) (path : String) : Except Suite.Error Suite :=
  if (files path).isPresent then
    match (files path).read with
    | .ok content => Suite.ofText path content
    | .error cause => .error (.unreadable path cause)
  else .error (.notFound path)

/-- The path of the suite: the one that is given, or the default. -/
def Suite.path (given : Option String) : String := given.getD Suite.defaultPath

namespace Command

/-- Why a command fails. -/
inductive Failure where
  | suite (cause : Suite.Error)
  | tree (cause : Tree.LoadError)
  | unknown (word : String)
  deriving DecidableEq, Repr

/-- The wording of a failure. -/
def Failure.message : Failure → String
  | .suite cause => cause.message
  | .tree cause => cause.message
  | .unknown word => "Unknown command: " ++ word

/-- What a command gives. -/
structure Result where
  text : String
  succeeded : Bool
  deriving DecidableEq, Repr

/-- The summary of the checks of a suite on a tree. -/
def runCheck (files : Files) (ast : String) (config : Option String) :
    Except Failure Summary.Checks := do
  let suite ← (Suite.load files (Suite.path config)).mapError .suite
  let tree ← (Tree.load files ast).mapError .tree
  .ok (.ofReported ast (Check.runAll suite.checks tree))

/-- The summary of a search in a tree. -/
def runDetect (files : Files) (ast : String) (called : Signature) (caller : Option Signature)
    (absent : Bool) : Except Failure Summary.Detection := do
  let tree ← (Tree.load files ast).mapError .tree
  let found := Query.occursIn ⟨some called, caller⟩ tree
  .ok { ast, called := called.display, caller := caller.map Signature.display, expected := !absent,
        found, verdict := .judge found !absent }

/-- The result of a command. -/
def run (files : Files) (format : Format) : Command → Except Failure Result
  | .check ast config =>
    (runCheck files ast config).map fun summary => ⟨summary.render format, summary.succeeded⟩
  | .detect ast called caller absent =>
    (runDetect files ast called caller absent).map fun summary =>
      ⟨summary.render format, summary.succeeded⟩
  | .unknown word _ => .error (.unknown word)

end Command

/-- What a run of the program writes, and its code. -/
structure Exit where
  code : Nat
  stdout : String
  stderr : String
  deriving DecidableEq, Repr

/-- The end of a run without a command. -/
def Exit.ofUsage (usage : Command.Usage) : Exit :=
  match usage with
  | .helpWanted => ⟨usage.exitCode, Command.Usage.synopsis ++ "\n", ""⟩
  | .versionWanted => ⟨usage.exitCode, Command.Usage.versionLine ++ "\n", ""⟩
  | usage => ⟨usage.exitCode, "", usage.message ++ "\n"⟩

/-- The end of a run with a command. -/
def Exit.ofResult : Except Command.Failure Command.Result → Exit
  | .ok result => ⟨if result.succeeded then 0 else 1, result.text ++ "\n", ""⟩
  | .error failure => ⟨1, "", "Error: " ++ failure.message ++ "\n"⟩

/-- A run of the program with the given files and arguments. -/
def execute (files : Files) (arguments : List String) : Exit :=
  match Command.parse files arguments with
  | .ok invocation => .ofResult (invocation.command.run files invocation.format)
  | .error usage => .ofUsage usage

end CallAudit
