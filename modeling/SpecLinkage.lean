import SpecLinkage.Order.SortedMap
import SpecLinkage.TagSet
import SpecLinkage.Language
import SpecLinkage.Markdown.Strip
import SpecLinkage.Json.Reader
import SpecLinkage.Report.Render
import SpecLinkage.CodePaths
import SpecLinkage.Extraction
import SpecLinkage.Workspace
import SpecLinkage.Policy.Basic
import SpecLinkage.Config
import SpecLinkage.Project
import SpecLinkage.Proofs.Order.Listing
import SpecLinkage.Proofs.Store.Indexed
import SpecLinkage.Proofs.Store.Consistency
import SpecLinkage.Proofs.Store.Queries
import SpecLinkage.Proofs.Store.Program
import SpecLinkage.Proofs.Store.Update
import SpecLinkage.Proofs.Store.Refinement
import SpecLinkage.Proofs.Disk.Places
import SpecLinkage.Proofs.Lock.Footprint
import SpecLinkage.Proofs.Lock.Failure
import SpecLinkage.Proofs.Store.Writing
import SpecLinkage.Proofs.Store.Atomic
import SpecLinkage.Proofs.Json.RoundTrip
import SpecLinkage.Proofs.Store.Reopen
import SpecLinkage.Proofs.Project.Documents
import SpecLinkage.Proofs.Disk.Spelling
import SpecLinkage.Proofs.Store.Follow
import SpecLinkage.Proofs.Project.Events
import SpecLinkage.Proofs.Project.History
import SpecLinkage.Proofs.Project.Identity
import SpecLinkage.Proofs.Candidate.Written
import SpecLinkage.Proofs.Candidate.RoundTrip
import SpecLinkage.Proofs.Store.Handles
import SpecLinkage.Proofs.Store.Serial
import SpecLinkage.Proofs.Lock.Contest
import SpecLinkage.Proofs.Lock.Exclusion
import SpecLinkage.Proofs.Lock.Course
import SpecLinkage.Proofs.Lock.Custody
import SpecLinkage.Proofs.Store.Refusal
import SpecLinkage.Proofs.Policy.Gate
import SpecLinkage.Proofs.Policy.Chains
import SpecLinkage.Proofs.Report.Agreement
import SpecLinkage.Proofs.Report.Html
import SpecLinkage.Proofs.Report.Colours
import SpecLinkage.Proofs.Policy.Fixes
import SpecLinkage.Proofs.Candidate.Lines
import SpecLinkage.Proofs.Candidate.Spans
import SpecLinkage.Proofs.Glob.Meaning
import SpecLinkage.Proofs.Glob.Plain
import SpecLinkage.Proofs.Markdown.Blanked
import SpecLinkage.Proofs.Markdown.Detection
import SpecLinkage.Proofs.Policy.CodePaths
import SpecLinkage.Proofs.Candidate.Validation
import SpecLinkage.Proofs.Candidate.Closers
import SpecLinkage.Proofs.Candidate.Positions
import SpecLinkage.Proofs.Candidate.Cursor
import SpecLinkage.Proofs.Candidate.Placement
import SpecLinkage.Proofs.Store.Loading
import SpecLinkage.Proofs.Chain.Invariance
import SpecLinkage.Proofs.SpecId.Documents
import SpecLinkage.Proofs.Chain.Collected
import SpecLinkage.Proofs.Policy.Duplicates
import SpecLinkage.Proofs.Policy.Repairs
import SpecLinkage.Proofs.Glob.Texts
import SpecLinkage.Proofs.Policy.TestPaths
import SpecLinkage.Proofs.Policy.Directories
import SpecLinkage.Proofs.Report.Placeholders
import SpecLinkage.Proofs.SpecId.ChainKeys
