import AddonBinding.Coercion.Json
import AddonBinding.CommandLine.Run
import AddonBinding.Compile
import AddonBinding.Double.Bits
import AddonBinding.FileTree.Basic
import AddonBinding.Host.Module
import AddonBinding.Interface.Json
import AddonBinding.Main
import AddonBinding.Manifest.Json
import AddonBinding.Typings
import AddonBinding.Proofs.ManifestEntries
import AddonBinding.Proofs.ReportedFaults
import AddonBinding.Proofs.OneLine
import AddonBinding.Proofs.SourceLines
import AddonBinding.Proofs.Outline
import AddonBinding.Proofs.DefinedSymbols
import AddonBinding.Proofs.OwnCalls
import AddonBinding.Proofs.HelperDefinitions
import AddonBinding.Proofs.ConstantAttributes
import AddonBinding.Proofs.StringLiterals
import AddonBinding.Proofs.TextDefaults
import AddonBinding.Proofs.TypingsNames
import AddonBinding.Proofs.NearestDecimal
import AddonBinding.Proofs.ShortestDecimal
import AddonBinding.Proofs.NumeralText
import AddonBinding.Proofs.JsonReader
import AddonBinding.Proofs.JsonRecords
import AddonBinding.Proofs.DocumentRoundTrip
import AddonBinding.Proofs.ManifestRoundTrip
import AddonBinding.Proofs.ConstructorDispatch
import AddonBinding.Proofs.Presentation
import AddonBinding.Proofs.FileChanges
import AddonBinding.Proofs.CommandEffects
import AddonBinding.Proofs.RelaxedPolicy
import AddonBinding.Proofs.WrappedWords
import AddonBinding.Proofs.NearestDouble
import AddonBinding.Proofs.NumberGrammar
import AddonBinding.Proofs.RadixRounding
import AddonBinding.Proofs.ShortestDigits
import AddonBinding.Proofs.NumberLayout
import AddonBinding.Proofs.LiteralDefaults
import AddonBinding.Proofs.StandaloneFragments
import AddonBinding.Proofs.SourceNumbers
import AddonBinding.Proofs.NumericLiterals
