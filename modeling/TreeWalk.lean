import TreeWalk.Command.Program
import TreeWalk.Files.Tree
import TreeWalk.Main
import TreeWalk.Proofs.Grammar
import TreeWalk.Proofs.Unambiguous
import TreeWalk.Proofs.Reading
import TreeWalk.Proofs.ParserSound
import TreeWalk.Proofs.HeapLaws
import TreeWalk.Proofs.Invariant
import TreeWalk.Proofs.ParserComplete
import TreeWalk.Proofs.PlainStore
import TreeWalk.Proofs.Frame
import TreeWalk.Proofs.Raising
import TreeWalk.Proofs.Walk
import TreeWalk.Proofs.PairedWalks
import TreeWalk.Proofs.CallDepth
import TreeWalk.Proofs.Spelling
import TreeWalk.Proofs.Layout
import TreeWalk.Proofs.Rendering
import TreeWalk.Proofs.Lockstep
import TreeWalk.Proofs.ProperTrees
import TreeWalk.Proofs.Halting
import TreeWalk.Proofs.Locality
import TreeWalk.Proofs.Noninterference
import TreeWalk.Proofs.Splitting
import TreeWalk.Proofs.Relocation
import TreeWalk.Proofs.Meaning
import TreeWalk.Proofs.Descent
import TreeWalk.Proofs.EndOfInput
import TreeWalk.Proofs.FrontEnds
import TreeWalk.Proofs.CallTree
import TreeWalk.Proofs.ParserRules
import TreeWalk.Proofs.TwinReadings
import TreeWalk.Proofs.SourceOrder
import TreeWalk.Proofs.Braces
import TreeWalk.Proofs.OpenCalls
import TreeWalk.Proofs.YamlWords
import TreeWalk.Proofs.YamlLines
import TreeWalk.Proofs.YamlSpelling
import TreeWalk.Proofs.YamlRecords
import TreeWalk.Proofs.SettingsText
import TreeWalk.Proofs.ScopeHistory
import TreeWalk.Proofs.CheckOrder
import TreeWalk.Proofs.SettingsFile
import TreeWalk.Proofs.Moments
import TreeWalk.Proofs.Identity
import TreeWalk.Proofs.NulByte
import TreeWalk.Proofs.FileLaws
import TreeWalk.Proofs.RunArguments
import TreeWalk.Proofs.Coloring
