import PropertyRisk.Catalog
import PropertyRisk.Condition
import PropertyRisk.Condition.Comparison
import PropertyRisk.Condition.Evaluation
import PropertyRisk.Condition.Phrase
import PropertyRisk.Condition.Reading
import PropertyRisk.Condition.Writing
import PropertyRisk.Console.Arguments
import PropertyRisk.Console.Invocation
import PropertyRisk.Console.Program
import PropertyRisk.Console.Workspace
import PropertyRisk.Engine.Assessments
import PropertyRisk.Engine.Call
import PropertyRisk.Engine.Catalogs
import PropertyRisk.Engine.Judging
import PropertyRisk.Engine.Record
import PropertyRisk.Engine.Reevaluation
import PropertyRisk.Engine.RuleChanges
import PropertyRisk.Engine.RuleChecks
import PropertyRisk.Engine.RuleTrials
import PropertyRisk.Engine.RuleWording
import PropertyRisk.Engine.Workflow
import PropertyRisk.Error
import PropertyRisk.Http.Document
import PropertyRisk.Http.Endpoint
import PropertyRisk.Http.Form
import PropertyRisk.Http.Message
import PropertyRisk.Http.Service
import PropertyRisk.Http.Target
import PropertyRisk.Json.Reader
import PropertyRisk.Json.Strict
import PropertyRisk.Json.Writer
import PropertyRisk.Main
import PropertyRisk.Number.Binary64
import PropertyRisk.Number.Digit
import PropertyRisk.Number.Reading
import PropertyRisk.Number.Shortest
import PropertyRisk.Number.Whole
import PropertyRisk.Observation
import PropertyRisk.Op
import PropertyRisk.Proofs.Documents
import PropertyRisk.Proofs.Shelves
import PropertyRisk.Proofs.Timestamps
import PropertyRisk.Proofs.Triple
import PropertyRisk.Proofs.Views
import PropertyRisk.Rule
import PropertyRisk.Settings
import PropertyRisk.Settings.File
import PropertyRisk.Storage
import PropertyRisk.Store.Address
import PropertyRisk.Store.Cell
import PropertyRisk.Store.Memory
import PropertyRisk.Store.Path
import PropertyRisk.Store.Row
import PropertyRisk.Store.Saved
import PropertyRisk.Store.Shelf
import PropertyRisk.Store.Tables
import PropertyRisk.Store.World
import PropertyRisk.Text.Blank
import PropertyRisk.Text.Capital
import PropertyRisk.Text.Encoding
import PropertyRisk.Text.Percent
import PropertyRisk.Text.Printable
import PropertyRisk.Text.Quoted
import PropertyRisk.Text.Surrogate
import PropertyRisk.Text.Utf8
import PropertyRisk.Time.Calendar
import PropertyRisk.Time.Reading
import PropertyRisk.Time.Stamp
import PropertyRisk.Value
import PropertyRisk.Value.Depth
import PropertyRisk.Value.Key
import PropertyRisk.Value.Order
import PropertyRisk.Value.Text
import PropertyRisk.Vulnerability
import PropertyRisk.Proofs.MemoryLaws
import PropertyRisk.Proofs.Cells
import PropertyRisk.Proofs.TableLaws
import PropertyRisk.Proofs.Upkeep
import PropertyRisk.Proofs.QuietCalls
import PropertyRisk.Proofs.Sound
import PropertyRisk.Proofs.Founded
import PropertyRisk.Proofs.Failing
import PropertyRisk.Proofs.Reconciled
import PropertyRisk.Proofs.Fates
import PropertyRisk.Proofs.Processed
import PropertyRisk.Proofs.Agreement
import PropertyRisk.Proofs.Twins
import PropertyRisk.Proofs.TwinCalls
import PropertyRisk.Proofs.Chronology
import PropertyRisk.Proofs.Filing
import PropertyRisk.Proofs.Mirror
import PropertyRisk.Proofs.MirrorWrites
import PropertyRisk.Proofs.Interchange
import PropertyRisk.Proofs.Contracts
import PropertyRisk.Proofs.Asking
import PropertyRisk.Proofs.Effects
import PropertyRisk.Proofs.Visits
import PropertyRisk.Proofs.Forward
import PropertyRisk.Proofs.Unrepeated
import PropertyRisk.Proofs.Legible
import PropertyRisk.Proofs.Rejections
import PropertyRisk.Proofs.Abreast
import PropertyRisk.Proofs.Deduplication
import PropertyRisk.Proofs.Comparable
import PropertyRisk.Proofs.Judgements
import PropertyRisk.Proofs.Batches
import PropertyRisk.Proofs.Frames
import PropertyRisk.Proofs.RuleWrites
import PropertyRisk.Proofs.Versions
import PropertyRisk.Proofs.Rivals
import PropertyRisk.Proofs.Unanimous
import PropertyRisk.Proofs.Catalogued
import PropertyRisk.Proofs.WellFormed
import PropertyRisk.Proofs.Reprocessed
import PropertyRisk.Proofs.DryRun
import PropertyRisk.Proofs.Statements
import PropertyRisk.Proofs.Accesses
import PropertyRisk.Proofs.Turnover
import PropertyRisk.Proofs.Lifetimes
import PropertyRisk.Proofs.Orphans
import PropertyRisk.Proofs.Routes
import PropertyRisk.Proofs.Envelopes
import PropertyRisk.Proofs.Alike
import PropertyRisk.Proofs.Concealed
import PropertyRisk.Proofs.Canonical
import PropertyRisk.Proofs.Retained
import PropertyRisk.Proofs.Lossless
import PropertyRisk.Proofs.Punctual
import PropertyRisk.Proofs.Moments
import PropertyRisk.Proofs.Evidence
import PropertyRisk.Proofs.NodeTexts
import PropertyRisk.Proofs.Grammar
import PropertyRisk.Proofs.Indexed
import PropertyRisk.Proofs.References
import PropertyRisk.Proofs.Listing
import PropertyRisk.Proofs.Reexamined
import PropertyRisk.Proofs.Dependence
import PropertyRisk.Proofs.Rewriting
import PropertyRisk.Proofs.Widening
import PropertyRisk.Proofs.Membership
import PropertyRisk.Proofs.Rounding
import PropertyRisk.Proofs.Congruence
import PropertyRisk.Proofs.Ordering
import PropertyRisk.Proofs.Snapshots
import PropertyRisk.Proofs.Normalization
import PropertyRisk.Proofs.Resaving
import PropertyRisk.Proofs.OldestFirst
import PropertyRisk.Proofs.Revisions
import PropertyRisk.Proofs.Wording
