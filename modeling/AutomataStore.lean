import AutomataStore.Text.Blank
import AutomataStore.Text.Utf8
import AutomataStore.Text.Numeral
import AutomataStore.Markup.Reference
import AutomataStore.Markup.Fault
import AutomataStore.Markup.Feed
import AutomataStore.Markup.Token
import AutomataStore.Markup.Attribute
import AutomataStore.Markup.Event
import AutomataStore.Document.Tree
import AutomataStore.Document.Reading
import AutomataStore.Document.Layout
import AutomataStore.Document.Sink
import AutomataStore.Json.Value
import AutomataStore.Order.Increasing
import AutomataStore.Machine.StateSet
import AutomataStore.Machine.Label
import AutomataStore.Machine.Automaton
import AutomataStore.Machine.Edit
import AutomataStore.Machine.Component
import AutomataStore.Machine.DependencyGraph
import AutomataStore.Machine.Command
import AutomataStore.Grammar.Production
import AutomataStore.Grammar.Rules
import AutomataStore.Structure
import AutomataStore.Storage.GrammarForm
import AutomataStore.Storage.Codec
import AutomataStore.Storage.Files
import AutomataStore.Json.Structure
import AutomataStore.Json.Options
import AutomataStore.Main
import AutomataStore.Proofs.TokenRuns
import AutomataStore.Proofs.WrittenTags
import AutomataStore.Proofs.EventForests
import AutomataStore.Proofs.RecursiveReading
import AutomataStore.Proofs.CanonicalForm
import AutomataStore.Proofs.IndentedForests
import AutomataStore.Proofs.WrittenDocuments
import AutomataStore.Proofs.RegularDocuments
import AutomataStore.Proofs.FormDocuments
import AutomataStore.Proofs.DocumentParts
import AutomataStore.Proofs.ToleratedChanges
import AutomataStore.Proofs.WrappedLayout
import AutomataStore.Proofs.FreshIds
import AutomataStore.Proofs.AutomatonInvariant
import AutomataStore.Proofs.Histories
import AutomataStore.Proofs.GrammarGraphs
import AutomataStore.Proofs.DeclaredAutomata
import AutomataStore.Proofs.ReadDocuments
import AutomataStore.Proofs.DecodedStructures
import AutomataStore.Proofs.Connectivity
import AutomataStore.Proofs.EditedComponents
import AutomataStore.Proofs.LimitedSinks
import AutomataStore.Proofs.Registrations
import AutomataStore.Proofs.SettledStructures
import AutomataStore.Proofs.EncodedPieces
import AutomataStore.Proofs.ParsedDocuments
import AutomataStore.Proofs.PreservedContent
import AutomataStore.Proofs.SelectedStructures
import AutomataStore.Proofs.EncodableStructures
import AutomataStore.Proofs.WrittenFiles
import AutomataStore.Proofs.StagedFiles
import AutomataStore.Proofs.JsonForms
import AutomataStore.Proofs.GrammarSymbols
import AutomataStore.Proofs.AddedStates
import AutomataStore.Proofs.RemovedStates
import AutomataStore.Proofs.SpelledText
import AutomataStore.Proofs.ProposedNames
import AutomataStore.Proofs.WorklistPasses
import AutomataStore.Proofs.LostGaps
