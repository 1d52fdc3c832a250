import Smalltalk.Source.Span
import Smalltalk.Text.Alphabetic
import Smalltalk.Text.Numeric
import Smalltalk.Text.Blank
import Smalltalk.Text.Escaped
import Smalltalk.Number.Shortest
import Smalltalk.Bytecode.Encoding
import Smalltalk.Token.Tokens
import Smalltalk.Reader.Unit
import Smalltalk.Scope.Lookup
import Smalltalk.LiteralTable
import Smalltalk.Compiler.Resolution
import Smalltalk.Compiler.Compile
import Smalltalk.ObjectFile.Listing
import Smalltalk.ObjectFile.Text
import Smalltalk.Files.Tree
import Smalltalk.Command.Run
import Smalltalk.Main
import Smalltalk.Proofs.Translation
import Smalltalk.Proofs.Trees
import Smalltalk.Proofs.Literals
import Smalltalk.Proofs.Grammar
import Smalltalk.Proofs.ReadSteps
import Smalltalk.Proofs.DefinitionSteps
import Smalltalk.Proofs.Reading
import Smalltalk.Proofs.ScopeTable
import Smalltalk.Proofs.Inheritance
import Smalltalk.Proofs.Lookup
import Smalltalk.Proofs.Declaration
import Smalltalk.Proofs.Layout
import Smalltalk.Proofs.UnitLayout
import Smalltalk.Proofs.Resolution
import Smalltalk.Proofs.Output
import Smalltalk.Proofs.Arrangement
import Smalltalk.Proofs.Emission
import Smalltalk.Proofs.Generation
import Smalltalk.Proofs.ClassGeneration
import Smalltalk.Proofs.Compilation
import Smalltalk.Proofs.Marks
import Smalltalk.Proofs.Completeness
import Smalltalk.Proofs.Verification
import Smalltalk.Proofs.LiteralUse
import Smalltalk.Proofs.Decoding
import Smalltalk.Proofs.MalformedCode
import Smalltalk.Proofs.Derivation
import Smalltalk.Proofs.Acceptance
import Smalltalk.Proofs.ClassGrammar
import Smalltalk.Proofs.PairedReading
import Smalltalk.Proofs.Lockstep
import Smalltalk.Proofs.Recovery
import Smalltalk.Proofs.Lexemes
import Smalltalk.Proofs.Scanning
import Smalltalk.Proofs.Respacing
import Smalltalk.Proofs.IntegerLiterals
import Smalltalk.Proofs.Spans
import Smalltalk.Proofs.SpanNesting
import Smalltalk.Proofs.BlockLiterals
import Smalltalk.Proofs.NestedBlocks
import Smalltalk.Proofs.Forest
import Smalltalk.Proofs.Registration
import Smalltalk.Proofs.Reports
import Smalltalk.Proofs.UnitReports
import Smalltalk.Proofs.DeclarationWalk
import Smalltalk.Proofs.FieldLayout
import Smalltalk.Proofs.BindingReports
import Smalltalk.Proofs.NameOccurrences
import Smalltalk.Proofs.Relabeling
import Smalltalk.Proofs.Renumbering
import Smalltalk.Proofs.Modularity
import Smalltalk.Proofs.Renaming
import Smalltalk.Proofs.PlaceFreeReading
import Smalltalk.Proofs.PlaceFreeCompilation
import Smalltalk.Proofs.ObjectText
import Smalltalk.Proofs.UnitGrammar
import Smalltalk.Proofs.Spelling
import Smalltalk.Proofs.Arity
import Smalltalk.Proofs.StringLiterals
import Smalltalk.Proofs.StringPushes
import Smalltalk.Proofs.BlockNumbering
import Smalltalk.Proofs.ListingLines
import Smalltalk.Proofs.FileTrees
import Smalltalk.Proofs.OutputFiles
import Smalltalk.Proofs.TableCalls
import Smalltalk.Proofs.AncestorWalks
import Smalltalk.Proofs.NearestVariables
import Smalltalk.Proofs.IndexedReading
import Smalltalk.Proofs.IndexedAgreement
import Smalltalk.Proofs.ReadingProgress
