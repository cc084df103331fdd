import CallAudit.Command.Files
import CallAudit.Command.Usage

/-!
# Command lines

A command line is read from left to right. An option with a separate value waits for it, and the
value is looked at when the next known option of the same level starts or the level ends; a value
that is attached to its option is looked at on the spot. An argument that is not known is reported
where it stands. The program itself, in front of a command, ends only after the command.

## Main definitions

* `Command`: the commands with the values of their options.
* `Command.Line.scan`: the arguments of a level up to the first word that is no value.
* `Command.parse`: the command of a command line and the format of its summary.
-/

namespace CallAudit

/-- A command with the values of its options. -/
inductive Command where
  | check (ast : String) (config : Option String)
  | detect (ast : String) (called : Signature) (caller : Option Signature) (absent : Bool)
  | unknown (word : String) (rest : List String)
  deriving DecidableEq, Repr

namespace Command

/-- The values of the options of a level. -/
structure Values where
  ast : Option String := none
  config : Option String := none
  called : Option Signature := none
  calling : Option Signature := none
  absent : Bool := false
  format : Option Format := none
  deriving DecidableEq, Repr

namespace Values

/-- Whether an option has been given. -/
def has (v : Values) : Opt → Bool
  | .ast => v.ast.isSome
  | .config => v.config.isSome
  | .called => v.called.isSome
  | .calling => v.calling.isSome
  | .absent => v.absent
  | .format => v.format.isSome
  | .help | .version => false

/-- The signature in the value of an option. -/
def signature (opt : Opt) (value : String) : Except Usage Signature :=
  (Signature.ofText value).mapError fun cause => .refusedValue opt cause.message

/-- The values with a new value for an option that has none yet. The file of a tree must exist, and
the path of a suite must not be empty. -/
def put (files : Files) (v : Values) (opt : Opt) (value : String) : Except Usage Values :=
  match opt with
  | .ast =>
    if (files value).isPresent then .ok { v with ast := some value }
    else .error (.refusedValue .ast ("File not found: " ++ value))
  | .config =>
    if value.isEmpty then .error (.invalidValue .config)
    else .ok { v with config := some value }
  | .called => (signature .called value).map fun sig => { v with called := some sig }
  | .calling => (signature .calling value).map fun sig => { v with calling := some sig }
  | .format =>
    match Format.options.lookup value with
    | some format => .ok { v with format := some format }
    | none => .error (.invalidValue .format)
  | .absent => .ok { v with absent := true }
  | .help => .error .helpWanted
  | .version => .error .versionWanted

/-- The values with a value for an option, which must not be given twice. -/
def store (files : Files) (v : Values) (opt : Opt) (value : String) : Except Usage Values :=
  if v.has opt then .error (.repeated opt) else v.put files opt value

/-- The command that runs checks, which needs a tree. -/
def check (v : Values) : Except Usage Command :=
  match v.ast with
  | some ast => .ok (.check ast v.config)
  | none => .error (.missingRequired [.ast])

/-- The command that searches, which needs a tree and a function. -/
def detect (v : Values) : Except Usage Command :=
  match v.ast, v.called with
  | some ast, some called => .ok (.detect ast called v.calling v.absent)
  | some _, none => .error (.missingRequired [.called])
  | none, some _ => .error (.missingRequired [.ast])
  | none, none => .error (.missingRequired [.ast, .called])

end Values

namespace Line

/-- The state of reading the arguments of a level. -/
structure State where
  values : Values := {}
  /-- The option whose value has not been looked at yet, and the value if it has come. -/
  pending : Option (Opt × Option String) := none
  /-- Whether a double dash has ended the options. -/
  ended : Bool := false
  deriving DecidableEq, Repr

/-- The state after the value of the pending option is looked at. -/
def State.settle (files : Files) (s : State) : Except Usage State :=
  match s.pending with
  | none => .ok s
  | some (opt, none) => .error (.invalidValue opt)
  | some (opt, some value) =>
    (s.values.store files opt value).map fun values => { s with values, pending := none }

/-- Whether the pending option waits for its value. -/
def State.isWaiting (s : State) : Bool :=
  match s.pending with
  | some (_, none) => true
  | _ => false

/-- The state with the value that the pending option waited for. -/
def State.supply (s : State) (value : String) : State :=
  { s with pending := s.pending.map fun (opt, _) => (opt, some value) }

/-- The state after an option with an attached value, or without one. -/
def State.take (files : Files) (s : State) (opt : Opt) (attached : Option String) :
    Except Usage State := do
  let s ← s.settle files
  match opt.isSwitch, attached with
  | false, none => .ok { s with pending := some (opt, none) }
  | _, value => do
    let values ← s.values.store files opt (value.getD "")
    .ok { s with values }

/-- The state after an option by its long name. -/
def State.takeLong (files : Files) (level : Level) (s : State) (name : String)
    (attached : Option String) : Except Usage State :=
  match level.long? name with
  | none => .error (.unknownArgument ("--" ++ name))
  | some opt =>
    if opt.isSwitch && attached.isSome then .error (.unwantedValue opt)
    else s.take files opt attached

/-- The state after options by their letters. What stands behind the letter of an option with a
value is the value, with or without an equals sign. -/
def State.takeShort (files : Files) (level : Level) (s : State) : List Char → Except Usage State
  | [] => .ok s
  | letter :: letters =>
    match level.short? letter with
    | none => .error (.unknownArgument (String.ofList ['-', letter]))
    | some opt =>
      if opt.isSwitch then do
        let s ← s.take files opt none
        s.takeShort files level letters
      else
        match letters with
        | [] => s.take files opt none
        | '=' :: value => s.take files opt (some (String.ofList value))
        | value => s.take files opt (some (String.ofList value))

/-- What an argument looks like. -/
inductive Shape where
  | separator
  | long (name : String) (attached : Option String)
  | short (letters : List Char)
  | word

/-- A long option and the value behind its equals sign. -/
def Shape.ofLong (cs : List Char) : Shape :=
  let name := cs.takeWhile (· != '=')
  match cs.drop name.length with
  | [] => .long (String.ofList name) none
  | _ :: value => .long (String.ofList name) (some (String.ofList value))

/-- What an argument looks like. A dash by itself is a word. -/
def Shape.of (argument : String) : Shape :=
  match argument.toList with
  | ['-', '-'] => .separator
  | '-' :: '-' :: cs => .ofLong cs
  | '-' :: c :: cs => .short (c :: cs)
  | _ => .word

/-- A word that is not the value of an option, and the arguments behind it. -/
abbrev Word := String × List String

/-- Reads the arguments of a level up to the first word that is not the value of an option. -/
def scan (files : Files) (level : Level) (s : State) : List String →
    Except Usage (State × Option Word)
  | [] => .ok (s, none)
  | argument :: rest =>
    if s.ended then .ok (s, some (argument, rest))
    else
      match Shape.of argument with
      | .separator => scan files level { s with ended := true } rest
      | .long name attached => do
        let s ← s.takeLong files level name attached
        scan files level s rest
      | .short letters => do
        let s ← s.takeShort files level letters
        scan files level s rest
      | .word =>
        if s.isWaiting then scan files level (s.supply argument) rest
        else .ok (s, some (argument, rest))

/-- The values of the options behind a command, which takes no words. -/
def options (files : Files) (level : Level) (arguments : List String) : Except Usage Values := do
  let (s, word) ← scan files level {} arguments
  match word with
  | some (argument, _) => .error (.unknownArgument argument)
  | none => (s.settle files).map State.values

/-- What asking for help on some topics leads to. -/
def help : List String → Usage
  | [] => .helpWanted
  | [topic] => if ["check", "detect", "help"].contains topic then .helpWanted else .unknownTopic
  | _ => .unknownTopic

/-- The command that starts with a word, and the format given behind it. A word that is no command,
or stands behind a double dash, takes everything behind it along. -/
def command (files : Files) (ended : Bool) (word : String) (rest : List String) :
    Except Usage (Command × Option Format) :=
  if ended then .ok (.unknown word rest, none)
  else if word = "check" then do
    let values ← options files .check rest
    values.check.map fun command => (command, values.format)
  else if word = "detect" then do
    let values ← options files .detect rest
    values.detect.map fun command => (command, values.format)
  else if word = "help" then .error (help rest)
  else .ok (.unknown word rest, none)

end Line

/-- A command and the format of its summary. -/
structure Invocation where
  command : Command
  format : Format
  deriving DecidableEq, Repr

/-- The command of a command line. The format behind the command comes before the one in front of
it, and both before the table. -/
def parse (files : Files) (arguments : List String) : Except Usage Invocation := do
  let (s, word) ← Line.scan files .top {} arguments
  match word with
  | none => do
    let s ← s.settle files
    .error (if s.values.format.isSome then .missingCommand else .nothingGiven)
  | some (word, rest) => do
    let (command, own) ← Line.command files s.ended word rest
    let s ← s.settle files
    .ok ⟨command, (own.or s.values.format).getD .table⟩

end Command

end CallAudit
