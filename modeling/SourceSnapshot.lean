import SourceSnapshot.Main
import SourceSnapshot.Proofs.Ignore.Lineage
import SourceSnapshot.Proofs.Ignore.Memory
import SourceSnapshot.Proofs.Ignore.History
import SourceSnapshot.Proofs.Ignore.Ancestors
import SourceSnapshot.Proofs.Scan.Visits
import SourceSnapshot.Proofs.Scan.Enumeration
import SourceSnapshot.Proofs.Pattern.Components
import SourceSnapshot.Proofs.Pattern.Globs
import SourceSnapshot.Proofs.Pattern.Segments
import SourceSnapshot.Proofs.Pattern.Expressions
import SourceSnapshot.Proofs.Pattern.Lines
import SourceSnapshot.Proofs.Ignore.Matching
import SourceSnapshot.Proofs.FileSystem.Alike
import SourceSnapshot.Proofs.FileSystem.Distinct
import SourceSnapshot.Proofs.Traversal.Agreement
import SourceSnapshot.Proofs.Traversal.Encounters
import SourceSnapshot.Proofs.Scan.Agreement
import SourceSnapshot.Proofs.Scan.Encounters
import SourceSnapshot.Proofs.Scan.Failures
import SourceSnapshot.Proofs.Tree.Agreement
import SourceSnapshot.Proofs.Tree.Nodes
import SourceSnapshot.Proofs.Tree.Encounters
import SourceSnapshot.Proofs.Snapshot.Correspondence
import SourceSnapshot.Proofs.Snapshot.Hidden
import SourceSnapshot.Proofs.Snapshot.History
import SourceSnapshot.Proofs.Ignore.Verdicts
import SourceSnapshot.Proofs.Scan.Accounting
import SourceSnapshot.Proofs.Pattern.Extension
import SourceSnapshot.Proofs.Ignore.SingleRule
import SourceSnapshot.Proofs.Pattern.Literals
import SourceSnapshot.Proofs.Ignore.Reinclusion
import SourceSnapshot.Proofs.Tree.Pruning
import SourceSnapshot.Proofs.FileSystem.Changes
import SourceSnapshot.Proofs.Traversal.Changes
import SourceSnapshot.Proofs.Scan.Isolation
import SourceSnapshot.Proofs.Pattern.Directories
import SourceSnapshot.Proofs.Pattern.Contents
import SourceSnapshot.Proofs.Pattern.Preference
import SourceSnapshot.Proofs.Ignore.DirectoryRules
import SourceSnapshot.Proofs.Ignore.ContentsRules
import SourceSnapshot.Proofs.Tree.Addresses
import SourceSnapshot.Proofs.Tree.WellFormed
import SourceSnapshot.Proofs.Tree.Branches
import SourceSnapshot.Proofs.Tree.Reading
import SourceSnapshot.Proofs.FileText
import SourceSnapshot.Proofs.Ignore.Monotonicity
import SourceSnapshot.Proofs.Text.LetterCase
import SourceSnapshot.Proofs.Pattern.LetterCase
import SourceSnapshot.Proofs.Ignore.LetterCase
import SourceSnapshot.Proofs.Text.Encoding
import SourceSnapshot.Proofs.Scan.Contents
import SourceSnapshot.Proofs.FileSystem.Descent
import SourceSnapshot.Proofs.Text.Breaks
import SourceSnapshot.Proofs.Ignore.Delivery
import SourceSnapshot.Proofs.Text.Escapes
import SourceSnapshot.Proofs.Pattern.Brackets
import SourceSnapshot.Proofs.Pattern.Ranges
import SourceSnapshot.Proofs.Pattern.Soundness
import SourceSnapshot.Proofs.Pattern.LastSegment
import SourceSnapshot.Proofs.Ignore.Acceptance
import SourceSnapshot.Proofs.Ignore.TrailingBlanks
import SourceSnapshot.Proofs.Ignore.Rejections
import SourceSnapshot.Proofs.Repository.Addresses
import SourceSnapshot.Proofs.Scan.Opening
import SourceSnapshot.Proofs.Repository.Credentials
import SourceSnapshot.Proofs.Snapshot.Deliveries
import SourceSnapshot.Proofs.Ignore.NormalForm
import SourceSnapshot.Proofs.CommandLine.Printing
import SourceSnapshot.Proofs.Ignore.Questions
import SourceSnapshot.Proofs.Traversal.Questions
import SourceSnapshot.Proofs.Scan.Questions
import SourceSnapshot.Proofs.Tree.Questions
import SourceSnapshot.Proofs.Snapshot.Questions
