import Checklist.Main
import Checklist.Query.Editor
import Checklist.Proofs.ReplaceLine
import Checklist.Proofs.LineWrites
import Checklist.Proofs.Removing
import Checklist.Proofs.Sorting
import Checklist.Proofs.Composing
import Checklist.Proofs.DoneDates
import Checklist.Proofs.RunEndings
import Checklist.Proofs.VisitingNotes
import Checklist.Proofs.CommandEffects
import Checklist.Proofs.ItemLines
import Checklist.Proofs.AnyOrder
import Checklist.Proofs.Descriptions
import Checklist.Proofs.Filtering
import Checklist.Proofs.StatusRuns
import Checklist.Proofs.Toggling
import Checklist.Proofs.Appending
import Checklist.Proofs.NestedPhrases
import Checklist.Proofs.DaySorting
import Checklist.Proofs.RowBlocks
import Checklist.Proofs.UsableSpecs
import Checklist.Proofs.FileStamps
import Checklist.Proofs.Summaries
import Checklist.Proofs.SourceLines
import Checklist.Proofs.SavedSettings
