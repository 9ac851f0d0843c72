import AddonBinding.Configuration.Toml
import AddonBinding.Files

namespace AddonBinding

inductive ConfigurationError where
  | unreadable (path : String)
  | invalid (path : String)
deriving DecidableEq

def ConfigurationError.message : ConfigurationError → String
  | .unreadable path => "failed to read `" ++ path ++ "`"
  | .invalid path => "invalid configuration in `" ++ path ++ "`"

namespace Configuration

variable {m : Type → Type} [Monad m] [MonadFiles m]

-- There is none if there is no such file.
def load? (path : String) : m (Except ConfigurationError (Option Configuration)) := do
  if !(← MonadFiles.pathExists path) then return .ok none
  match ← MonadFiles.readText? path with
  | none => return .error (.unreadable path)
  | some text => match parse? text with
    | none => return .error (.invalid path)
    | some c => return .ok (some c)

end Configuration

end AddonBinding
