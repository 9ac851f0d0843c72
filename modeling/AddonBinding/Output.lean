import AddonBinding.Compile
import AddonBinding.FileTree.Path
import AddonBinding.Files
import AddonBinding.Manifest.Json
import AddonBinding.Typings

namespace AddonBinding

inductive Artifact where
  | source
  | manifest
  | typings
deriving DecidableEq

namespace Artifact

def suffix : Artifact → String
  | .source => ".cc"
  | .manifest => ".manifest.json"
  | .typings => ".d.ts"

def text (u : CompiledUnit) : Artifact → String
  | .source => u.code
  | .manifest => u.manifest.text ++ "\n"
  | .typings => Typings.text u.manifest

end Artifact

structure Output where
  -- An empty text is the working directory.
  dir : String
  manifest : Bool := false
  typings : Bool := false

inductive OutputError where
  | directory (path : String)
  | file (path : String)
deriving DecidableEq

def OutputError.message : OutputError → String
  | .directory path => "failed to create output directory `" ++ path ++ "`"
  | .file path => "failed to write `" ++ path ++ "`"

namespace Output

def artifacts (o : Output) : List Artifact :=
  [.source] ++ (if o.manifest then [.manifest] else []) ++ (if o.typings then [.typings] else [])

def path (o : Output) (moduleName : String) (a : Artifact) : String :=
  Path.join o.dir (moduleName ++ a.suffix)

variable {m : Type → Type} [Monad m] [MonadFiles m]

-- Write files until one cannot be written, which is the answer then.
def writeEach (o : Output) (u : CompiledUnit) : List Artifact → m (Except OutputError Unit)
  | [] => return .ok ()
  | a :: rest => do
    let path := o.path u.manifest.moduleName a
    if ← MonadFiles.writeText path (a.text u) then o.writeEach u rest
    else return .error (.file path)

def write (o : Output) (u : CompiledUnit) : m (Except OutputError Unit) := do
  if o.dir.isEmpty then o.writeEach u o.artifacts
  else if ← MonadFiles.makeDirs o.dir then o.writeEach u o.artifacts
  else return .error (.directory o.dir)

end Output

end AddonBinding
