import GrammarDiagnostics.Search
import GrammarDiagnostics.Message.Comparison
import GrammarDiagnostics.Session.Step
import GrammarDiagnostics.Proofs.Log.Attribution
import GrammarDiagnostics.Proofs.Session.Additions
import GrammarDiagnostics.Proofs.Session.Accessors
import GrammarDiagnostics.Proofs.Source.LineLookup
import GrammarDiagnostics.Proofs.Source.LineRecovery
import GrammarDiagnostics.Proofs.Session.Rendered
import GrammarDiagnostics.Proofs.Session.PerFile
import GrammarDiagnostics.Proofs.Session.Answers
import GrammarDiagnostics.Proofs.Session.Effects
import GrammarDiagnostics.Proofs.Session.Stability
import GrammarDiagnostics.Proofs.Session.Unasked
import GrammarDiagnostics.Proofs.Session.LineMaps
import GrammarDiagnostics.Proofs.Session.Reentrancy
import GrammarDiagnostics.Proofs.Session.Places
import GrammarDiagnostics.Proofs.Session.Arguments
import GrammarDiagnostics.Proofs.Session.Agreement
import GrammarDiagnostics.Proofs.Session.Partition
import GrammarDiagnostics.Proofs.Session.Moments
import GrammarDiagnostics.Proofs.Session.JournalOfRun
import GrammarDiagnostics.Proofs.Session.Discarding
import GrammarDiagnostics.Proofs.Message.Filling
import GrammarDiagnostics.Proofs.Session.Totality
import GrammarDiagnostics.Proofs.Source.LineConcatenation
import GrammarDiagnostics.Proofs.Source.LineEnds
import GrammarDiagnostics.Proofs.Message.Substitution
import GrammarDiagnostics.Proofs.Diagnostic.CatalogCheck
import GrammarDiagnostics.Proofs.Token.Alternatives
import GrammarDiagnostics.Proofs.Token.KindsShown
import GrammarDiagnostics.Proofs.Source.PrintedPosition
import GrammarDiagnostics.Proofs.Message.Unfilled
import GrammarDiagnostics.Proofs.Session.Errors
import GrammarDiagnostics.Proofs.Source.LineMapReuse
