import SpacingLint.Config.Load
import SpacingLint.Tree.Snapshot
import SpacingLint.Proofs.Lint.Spacing
import SpacingLint.Proofs.Tree.Protocol
import SpacingLint.Proofs.Analysis.Configured
import SpacingLint.Proofs.Analysis.Failure
import SpacingLint.Proofs.Tree.Extents
import SpacingLint.Proofs.Source.Language
import SpacingLint.Proofs.Text.Readable
import SpacingLint.Proofs.Tree.Snapshot
import SpacingLint.Proofs.Source.Mending
import SpacingLint.Proofs.Lint.Mending
import SpacingLint.Proofs.Tree.Nesting
import SpacingLint.Proofs.Source.Refusal
import SpacingLint.Proofs.Text.Positions
import SpacingLint.Proofs.Lint.Filling
import SpacingLint.Proofs.Text.Columns
import SpacingLint.Proofs.Source.Views
import SpacingLint.Proofs.Source.Replay
import SpacingLint.Proofs.Lint.Layers
import SpacingLint.Proofs.Config.Encoding
import SpacingLint.Proofs.Tree.Listing
