namespace AddonBinding

-- Access to files by their paths, with the answers that a program can tell apart. A file is never
-- changed by an operation that fails, but directories that it made on its way stay.
class MonadFiles (m : Type → Type) where
  pathExists : String → m Bool
  readText? : String → m (Option String)
  makeDirs : String → m Bool
  writeText : (path text : String) → m Bool

end AddonBinding
