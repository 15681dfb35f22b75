import Flowgraph.Main
import Flowgraph.Proofs.Bodies
import Flowgraph.Proofs.Columns
import Flowgraph.Proofs.Compression
import Flowgraph.Proofs.Counts
import Flowgraph.Proofs.DeadCode
import Flowgraph.Proofs.Dominance
import Flowgraph.Proofs.Drawing
import Flowgraph.Proofs.Driver
import Flowgraph.Proofs.Faithful
import Flowgraph.Proofs.Handles
import Flowgraph.Proofs.LoopForms
import Flowgraph.Proofs.Nearest
import Flowgraph.Proofs.Pipeline
import Flowgraph.Proofs.Prologues
import Flowgraph.Proofs.Reports
import Flowgraph.Proofs.Scoped
import Flowgraph.Proofs.Sealed
import Flowgraph.Proofs.Search
import Flowgraph.Proofs.Slicing
import Flowgraph.Proofs.Tracks
import Flowgraph.Proofs.Validation
import Flowgraph.Proofs.Watching
import Flowgraph.Proofs.Wording
import Flowgraph.Syntax.Interchange
