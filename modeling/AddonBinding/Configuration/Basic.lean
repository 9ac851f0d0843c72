import AddonBinding.Options

namespace AddonBinding

-- What is none is left to the defaults.
structure BuildSettings where
  moduleName : Option String := none
  output : Option String := none
  typings : Option Bool := none
  manifest : Option Bool := none
  banner : Option String := none
  verbose : Option Bool := none
deriving DecidableEq

structure Configuration where
  build : BuildSettings := {}
  coercion : CoercionPolicy := {}
deriving DecidableEq

namespace BuildSettings

def effectiveModuleName (b : BuildSettings) : String :=
  b.moduleName.getD "binding"

def effectiveOutput (b : BuildSettings) : String :=
  b.output.getD "gen"

def effectiveTypings (b : BuildSettings) : Bool :=
  b.typings.getD false

def effectiveManifest (b : BuildSettings) : Bool :=
  b.manifest.getD true

end BuildSettings

namespace Configuration

def fileName : String :=
  "widl-nan.toml"

def options (c : Configuration) : Options where
  moduleName := c.build.effectiveModuleName
  coercion := c.coercion
  banner := c.build.banner
  verbose := c.build.verbose.getD false

end Configuration

end AddonBinding
