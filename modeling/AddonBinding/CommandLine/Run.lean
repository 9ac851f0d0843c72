import AddonBinding.CommandLine.Help
import AddonBinding.Configuration.Load
import AddonBinding.Interface.Json
import AddonBinding.Output

namespace AddonBinding.CommandLine

inductive Report where
  | warning (message : String)
  | error (message : String) (causes : List String)

namespace Report

def label (colour : Bool) (number text : String) : String :=
  if colour then "\x1b[0m\x1b[1m\x1b[" ++ number ++ "m" ++ text ++ ":\x1b[0m" else text ++ ":"

def text (colour : Bool) : Report → String
  | .warning message => label colour "33" "warning" ++ " " ++ message ++ "\n"
  | .error message causes =>
    label colour "31" "error" ++ " " ++ message ++ "\n"
      ++ String.join (causes.map fun cause => "  caused by: " ++ cause ++ "\n")

end Report

inductive Failure where
  | noConfiguration (path : String)
  | configuration (e : ConfigurationError)
  | unreadable (file : String)
  | unparsable (file : String)
  | rejected (file : String) (r : Rejection)
  | output (dir : String) (e : OutputError)

def count (n : Nat) (noun : String) : String :=
  toString n ++ " " ++ noun ++ (if n = 1 then "" else "s")

namespace Failure

-- A rejection is reported fault by fault before its sum.
def reports : Failure → List Report
  | .noConfiguration path => [.error ("configuration file `" ++ path ++ "` not found") []]
  | .configuration e => [.error e.message []]
  | .unreadable file => [.error ("failed to read `" ++ file ++ "`") []]
  | .unparsable file => [.error ("failed to parse `" ++ file ++ "`") []]
  | .rejected file r =>
    r.faults.map (fun fault => .error (file ++ ": " ++ fault.message) [])
      ++ [.error ("could not compile `" ++ file ++ "` due to "
        ++ count r.faults.length "previous error") []]
  | .output dir e => [.error ("failed to write output to `" ++ dir ++ "`") [e.message]]

end Failure

structure Outcome where
  status : UInt8 := 0
  stdout : String := ""
  reports : List Report := []

namespace Outcome

def stderr (colour : Bool) (o : Outcome) : String :=
  String.join (o.reports.map (·.text colour))

def failed (f : Failure) (earlier : List Report) : Outcome where
  status := 1
  reports := earlier ++ f.reports

end Outcome

variable {m : Type → Type} [Monad m] [MonadFiles m]

-- The configuration in a file that has to be there, or the one in the working directory if there is
-- one.
def loadConfiguration : Option String → m (Except Failure Configuration)
  | some path => do
    match ← Configuration.load? path with
    | .error e => return .error (.configuration e)
    | .ok none => return .error (.noConfiguration path)
    | .ok (some c) => return .ok c
  | none => do
    match ← Configuration.load? Configuration.fileName with
    | .error e => return .error (.configuration e)
    | .ok c => return .ok (c.getD {})

def compileFile (options : Options) (file : String) : m (Except Failure CompiledUnit) := do
  match ← MonadFiles.readText? file with
  | none => return .error (.unreadable file)
  | some text => match Document.parse? text with
    | none => return .error (.unparsable file)
    | some document => match compile options document.interfaces with
      | .error r => return .error (.rejected file r)
      | .ok u => return .ok u

namespace Invocation

def options (i : Invocation) (c : Configuration) : Options :=
  { c.options with
    moduleName := i.moduleName?.getD c.options.moduleName
    verbose := c.options.verbose || i.hasFlag .verbose }

def output (i : Invocation) (c : Configuration) : Output where
  dir := i.output?.getD c.build.effectiveOutput
  manifest := !i.hasFlag .noManifest && c.build.effectiveManifest
  typings := i.hasFlag .emitTypings || c.build.effectiveTypings

def warnings (i : Invocation) (u : CompiledUnit) : List Report :=
  u.warnings.map fun w => .warning (i.file ++ ": " ++ w.message)

def emit (i : Invocation) (c : Configuration) (u : CompiledUnit) : m Outcome := do
  let output := i.output c
  match ← output.write u with
  | .error e => return .failed (.output output.dir e) (i.warnings u)
  | .ok () => return {
      reports := i.warnings u
      stdout := String.join (output.artifacts.map fun a =>
        "Wrote " ++ output.path u.manifest.moduleName a ++ "\n") }

def finish (i : Invocation) (c : Configuration) (u : CompiledUnit) : m Outcome :=
  match i.command with
  | .compile =>
    if i.hasFlag .toStdout then return { reports := i.warnings u, stdout := u.code } else i.emit c u
  | .check => return {
      reports := i.warnings u
      stdout := "Successfully checked " ++ i.file ++ " ("
        ++ count u.manifest.interfaces.length "interface" ++ ")\n" }
  | .manifest => return { reports := i.warnings u, stdout := u.manifest.text ++ "\n" }

def run (i : Invocation) : m Outcome := do
  match ← loadConfiguration i.configuration? with
  | .error f => return .failed f []
  | .ok c => match ← compileFile (i.options c) i.file with
    | .error f => return .failed f []
    | .ok u => i.finish c u

end Invocation

-- Run the command line; arguments that are wrong give the status 2.
def run (words : List String) : m Outcome :=
  match parse words with
  | .ok invocation => invocation.run
  | .error .version => return { stdout := versionText }
  | .error (.help command) => return { stdout := helpText command }
  | .error .usage =>
    return { status := 2, reports := [.error "invalid arguments, try '--help'" []] }

end AddonBinding.CommandLine
