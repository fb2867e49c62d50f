import LegalEntity.Rehearsal.Session
import LegalEntity.Proofs.Index.OneLoad
import LegalEntity.Archive.Content
import LegalEntity.Cache.Key
import LegalEntity.Cache.Options
import LegalEntity.Codec
import LegalEntity.Error
import LegalEntity.Json.Parser
import LegalEntity.Json.Printer
import LegalEntity.Name.LegalForm
import LegalEntity.Name.Ranking
import LegalEntity.Retry.Policy
import LegalEntity.Retry.Status
import LegalEntity.Proofs.Cache.ReadBack
import LegalEntity.Proofs.Runs.Reliable
import LegalEntity.Proofs.Names.Stage
import LegalEntity.Proofs.Names.Admission
import LegalEntity.Proofs.Names.BoundedSearches
import LegalEntity.Proofs.Names.Chains
import LegalEntity.Proofs.Names.KeptOutcome
import LegalEntity.Proofs.Reference.Registry
import LegalEntity.Proofs.Reference.Values
import LegalEntity.Proofs.Reference.Directories
import LegalEntity.Proofs.Reference.Faults
import LegalEntity.Proofs.Runs.Queue
import LegalEntity.Proofs.Runs.Completion
import LegalEntity.Proofs.Reference.Transparency
import LegalEntity.Proofs.Runs.Scripted
import LegalEntity.Proofs.Runs.Slots
import LegalEntity.Proofs.Runs.Budget
import LegalEntity.Proofs.Runs.Ending
import LegalEntity.Proofs.Batch.Progress
import LegalEntity.Proofs.Batch.Isolation
import LegalEntity.Proofs.Names.Distance
import LegalEntity.Proofs.Names.SharedKey
import LegalEntity.Proofs.IndexFile.LastRow
import LegalEntity.Proofs.Index.AllOrNothing
import LegalEntity.Proofs.Origin.Life
import LegalEntity.Proofs.IndexFile.BrokenOff
import LegalEntity.Proofs.Cache.Agreement
import LegalEntity.Proofs.Index.Restart
import LegalEntity.Proofs.Names.Isolation
import LegalEntity.Proofs.Names.Tiers
import LegalEntity.Proofs.Index.Unanswered
import LegalEntity.Proofs.Index.Reach
import LegalEntity.Proofs.Settings.Setup
import LegalEntity.Proofs.Names.Ranked
import LegalEntity.Proofs.Names.Bands
import LegalEntity.Proofs.Names.Explained
import LegalEntity.Proofs.Names.Symmetry
import LegalEntity.Proofs.Names.WordOrder
import LegalEntity.Proofs.Names.Foremost
import LegalEntity.Proofs.Names.Namesake
import LegalEntity.Proofs.Names.LegalForms
import LegalEntity.Proofs.Retry.Envelope
import LegalEntity.Proofs.Retry.Range
import LegalEntity.Proofs.Retry.Schedule
import LegalEntity.Proofs.Archive.FirstCsv
import LegalEntity.Proofs.Registry.Items
import LegalEntity.Proofs.Cache.Replacement
import LegalEntity.Proofs.Written.Records
import LegalEntity.Proofs.Cache.NameKeys
