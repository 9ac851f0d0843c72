import AddonBinding.CommandLine.Run

namespace AddonBinding.CommandLine

def succeeds (operation : IO Unit) : IO Bool :=
  try
    operation
    return true
  catch _ => return false

instance : MonadFiles IO where
  pathExists path :=
    try
      discard (IO.FS.Handle.mk path .read)
      return true
    catch
      | .noFileOrDirectory .. => return false
      | .inappropriateType .. => return false
      | .invalidArgument .. => return false
      | _ => return true
  readText? path :=
    try return some (← IO.FS.readFile path)
    catch _ => return none
  makeDirs path := succeeds (IO.FS.createDirAll path)
  writeText path text := succeeds (IO.FS.writeFile path text)

-- Colours are used on any terminal that has them, unless the environment asks for none.
def usesColour : IO Bool := do
  let terminal ← IO.getEnv "TERM"
  let plain ← IO.getEnv "NO_COLOR"
  return terminal.any (· != "dumb") && plain.isNone

end AddonBinding.CommandLine

def main (args : List String) : IO UInt32 := do
  let outcome ← AddonBinding.CommandLine.run args
  IO.print outcome.stdout
  IO.eprint (outcome.stderr (← AddonBinding.CommandLine.usesColour))
  return outcome.status.toUInt32
