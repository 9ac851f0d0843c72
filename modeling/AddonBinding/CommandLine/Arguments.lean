namespace AddonBinding.CommandLine

inductive Command where
  | compile
  | check
  | manifest
deriving DecidableEq

namespace Command

def name : Command → String
  | .compile => "compile"
  | .check => "check"
  | .manifest => "manifest"

def all : List Command :=
  [.compile, .check, .manifest]

def ofName? (s : String) : Option Command :=
  all.find? (·.name == s)

end Command

inductive Flag where
  | debug
  | emitTypings
  | noManifest
  | toStdout
  | verbose
deriving DecidableEq

inductive Setting where
  | configuration
  | output
  | moduleName
deriving DecidableEq

inductive Switch where
  | flag (f : Flag)
  | setting (s : Setting)
  | help
  | version
deriving DecidableEq

inductive Stop where
  | usage
  | help (command : Option Command)
  | version
deriving DecidableEq

structure Spelling where
  short : Option Char := none
  long : String
  switch : Switch

def spellings (command : Option Command) : List Spelling :=
  [⟨'d', "debug", .flag .debug⟩, ⟨'c', "config", .setting .configuration⟩, ⟨'h', "help", .help⟩] ++
  match command with
  | none => [⟨'V', "version", .version⟩]
  | some .compile => [
    ⟨'o', "output", .setting .output⟩, ⟨'m', "module", .setting .moduleName⟩,
    ⟨none, "emit-dts", .flag .emitTypings⟩, ⟨none, "no-manifest", .flag .noManifest⟩,
    ⟨none, "stdout", .flag .toStdout⟩, ⟨'v', "verbose", .flag .verbose⟩]
  | some .check => []
  | some .manifest => [⟨'m', "module", .setting .moduleName⟩]

def switch? (command : Option Command) (p : Spelling → Bool) : Option Switch :=
  ((spellings command).find? p).map (·.switch)

structure Given where
  flags : List Flag := []
  settings : List (Setting × String) := []
  file : Option String := none
  pending : Option Setting := none
  ended : Bool := false

namespace Given

-- A flag is given once.
def raise (g : Given) (f : Flag) : Except Stop Given :=
  if f ∈ g.flags then .error .usage else .ok { g with flags := f :: g.flags }

-- A setting is given once, and only a module name may be empty.
def set (g : Given) (s : Setting) (value : String) : Except Stop Given :=
  if (g.settings.lookup s).isSome ∨ (value.isEmpty ∧ s ≠ .moduleName) then .error .usage
  else .ok { g with settings := (s, value) :: g.settings, pending := none }

def setting? (g : Given) (s : Setting) : Option String :=
  g.settings.lookup s

def hasFlag (g : Given) (f : Flag) : Bool :=
  g.flags.contains f

-- Only a command takes a file, and only one that has a name.
def operand (command : Option Command) (g : Given) (word : String) : Except Stop Given :=
  if command.isNone ∨ g.file.isSome ∨ word.isEmpty then .error .usage
  else .ok { g with file := some word }

def long (command : Option Command) (g : Given) (name : String) (value : Option String) :
    Except Stop Given :=
  match switch? command (·.long == name), value with
  | some (.flag f), none => g.raise f
  | some (.setting s), none => .ok { g with pending := some s }
  | some (.setting s), some value => g.set s value
  | some .help, none => .error (.help command)
  | some .version, none => .error .version
  | _, _ => .error .usage

-- Switches by their letters. The value of a setting is what follows its letter, if anything does.
def shorts (command : Option Command) (g : Given) : List Char → Except Stop Given
  | [] => .ok g
  | c :: rest =>
    match switch? command (·.short == some c) with
    | none => .error .usage
    | some .help => .error (.help command)
    | some .version => .error .version
    | some (.flag f) => do shorts command (← g.raise f) rest
    | some (.setting s) => match rest with
      | [] => .ok { g with pending := some s }
      | '=' :: value => g.set s (String.ofList value)
      | value => g.set s (String.ofList value)

-- One more argument. A setting that waits for its value takes any but a switch.
def read (command : Option Command) (g : Given) (word : String) : Except Stop Given :=
  match g.ended, g.pending, word.toList with
  | true, none, _ => g.operand command word
  | true, some _, _ => .error .usage
  | false, none, ['-', '-'] => .ok { g with ended := true }
  | false, none, '-' :: '-' :: rest =>
    let (name, value) := rest.span (· != '=')
    g.long command (String.ofList name) (value.tail?.map String.ofList)
  | false, none, '-' :: c :: rest => g.shorts command (c :: rest)
  | false, some _, '-' :: _ :: _ => .error .usage
  | false, some s, _ => g.set s word
  | false, none, _ => g.operand command word

end Given

structure Invocation where
  command : Command
  file : String
  before : Given
  after : Given

namespace Invocation

-- The file with the configuration; the command's own wins.
def configuration? (i : Invocation) : Option String :=
  i.after.setting? .configuration <|> i.before.setting? .configuration

def output? (i : Invocation) : Option String :=
  i.after.setting? .output

def moduleName? (i : Invocation) : Option String :=
  i.after.setting? .moduleName

def hasFlag (i : Invocation) (f : Flag) : Bool :=
  i.after.hasFlag f || i.before.hasFlag f

end Invocation

def readCommand (command : Command) (before : Given) (words : List String) :
    Except Stop Invocation := do
  let after ← words.foldlM (Given.read command) {}
  match after.file, after.pending with
  | some file, none => return { command, file, before, after }
  | _, _ => throw .usage

-- What help is asked for by the words after that word.
def readHelp : List String → Stop
  | [] => .help none
  | [word] => match Command.ofName? word with
    | some command => .help (some command)
    | none => if word = "help" then .help none else .usage
  | _ => .usage

-- Arguments are read from left to right, first those that come before a command and then its own.
-- The first one that is wrong, or that asks for something else, ends the reading.
def readFrom (before : Given) : List String → Except Stop Invocation
  | [] => .error .usage
  | word :: words =>
    let command := if before.ended ∨ before.pending.isSome then none else Command.ofName? word
    match command with
    | some command => readCommand command before words
    | none =>
      if word = "help" ∧ !before.ended ∧ before.pending.isNone then .error (readHelp words)
      else do readFrom (← before.read none word) words

def parse (words : List String) : Except Stop Invocation :=
  readFrom {} words

end AddonBinding.CommandLine
