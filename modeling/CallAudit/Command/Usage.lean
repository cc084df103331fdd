import CallAudit.Summary.Basic

/-!
# Options and usage faults

The options of the commands, and the ways in which arguments can fail to be a command.

## Main definitions

* `Command.Level`: the program itself, or one of its commands, each with its options.
* `Command.Opt`: the options.
* `Command.Usage`: why arguments are no command.
-/

namespace CallAudit.Command

/-- An option. -/
inductive Opt where
  | ast
  | config
  | called
  | calling
  | absent
  | format
  | help
  | version
  deriving DecidableEq, Repr

namespace Opt

/-- The long name. -/
def name : Opt → String
  | .ast => "ast"
  | .config => "config"
  | .called => "called"
  | .calling => "calling"
  | .absent => "absent"
  | .format => "format"
  | .help => "help"
  | .version => "version"

/-- The letter, if there is one. -/
def letter? : Opt → Option Char
  | .ast => some 'a'
  | .config => some 'c'
  | .format => some 'o'
  | .help => some 'h'
  | .version => some 'V'
  | .called | .calling | .absent => none

/-- Whether the option stands for itself, without a value. -/
def isSwitch : Opt → Bool
  | .absent | .help | .version => true
  | .ast | .config | .called | .calling | .format => false

/-- The option in messages. -/
def display : Opt → String
  | .ast => "--ast <AST>"
  | .config => "--config <CONFIG>"
  | .called => "--called <CALLED>"
  | .calling => "--calling <CALLING>"
  | .format => "--format <FORMAT>"
  | .absent => "--absent"
  | .help => "--help"
  | .version => "--version"

end Opt

/-- Where an argument stands: before a command, or behind one. -/
inductive Level where
  | top
  | check
  | detect
  deriving DecidableEq, Repr

namespace Level

/-- The options that are known at a level. -/
def options : Level → List Opt
  | .top => [.format, .help, .version]
  | .check => [.ast, .config, .format, .help]
  | .detect => [.ast, .called, .calling, .absent, .format, .help]

/-- The option with a long name. -/
def long? (level : Level) (name : String) : Option Opt :=
  level.options.find? fun opt => opt.name == name

/-- The option with a letter. -/
def short? (level : Level) (letter : Char) : Option Opt :=
  level.options.find? fun opt => opt.letter? == some letter

end Level

/-- Why arguments are no command. -/
inductive Usage where
  | missingRequired (options : List Opt)
  /-- An option without a value, or with one that is not among the possible ones. -/
  | invalidValue (option : Opt)
  /-- A value that was looked at and refused. -/
  | refusedValue (option : Opt) (reason : String)
  | repeated (option : Opt)
  /-- A value for an option that takes none. -/
  | unwantedValue (option : Opt)
  | unknownArgument (argument : String)
  | helpWanted
  | versionWanted
  /-- Help for a command that does not exist. -/
  | unknownTopic
  /-- No arguments at all. -/
  | nothingGiven
  /-- Options, but no command. -/
  | missingCommand
  deriving DecidableEq, Repr

namespace Usage

/-- The options or arguments that a fault is about. -/
def subjects : Usage → List String
  | .missingRequired options => options.map Opt.display
  | .invalidValue option => [option.display]
  | .refusedValue option _ => [option.display]
  | .repeated option => [option.display]
  | .unwantedValue option => [option.display]
  | .unknownArgument argument => [argument]
  | .helpWanted | .versionWanted | .unknownTopic | .nothingGiven | .missingCommand => []

/-- The reason for which a value was refused. -/
def reason? : Usage → Option String
  | .refusedValue _ reason => some reason
  | _ => none

/-- What a fault means for the caller: asking for help or for the version is none. -/
def exitCode : Usage → Nat
  | .helpWanted | .versionWanted => 0
  | _ => 2

/-- The forms of the commands. -/
def synopsis : String :=
  "Usage: call_check [-o table|json|toon] check --ast <AST> [--config <CONFIG>]\n" ++
  "       call_check [-o table|json|toon] detect --ast <AST> --called <CALLED> " ++
  "[--calling <CALLING>] [--absent]"

/-- The name and number of the program. -/
def versionLine : String := "call_check 0.1.0"

/-- A sentence on a fault. -/
def sentence : Usage → String
  | .missingRequired _ => "required options are missing"
  | .invalidValue _ => "an option has no value, or none of its possible values"
  | .refusedValue _ reason => reason
  | .repeated _ => "an option is given twice"
  | .unwantedValue _ => "an option takes no value"
  | .unknownArgument _ => "an argument is not known"
  | .helpWanted => "help"
  | .versionWanted => "version"
  | .unknownTopic => "there is no such command"
  | .nothingGiven => "nothing is given"
  | .missingCommand => "a command is missing"

/-- A fault with what it is about and the forms of the commands. -/
def message (u : Usage) : String :=
  "error: " ++ u.sentence ++
    (if u.subjects.isEmpty then "" else ": " ++ ", ".intercalate u.subjects) ++ "\n\n" ++ synopsis

end Usage

end CallAudit.Command
