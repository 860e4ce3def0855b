import Unslide.Directory
import Unslide.Main
import Unslide.Proofs.Layout
import Unslide.Proofs.Relocation
import Unslide.Proofs.Histories
import Unslide.Proofs.Provenance
import Unslide.Proofs.Session.Hiding
import Unslide.Proofs.Session.Pointwise
import Unslide.Proofs.Session.Padding
import Unslide.Proofs.Session.Traces
import Unslide.Proofs.Session.Registration
import Unslide.Proofs.Space.Mirror
import Unslide.Proofs.Tally
import Unslide.Proofs.Rereading
import Unslide.Proofs.Space.Handles
import Unslide.Proofs.Space.Translation
import Unslide.Proofs.Space.Refusing
import Unslide.Proofs.Space.Faultless
import Unslide.Proofs.Capture
import Unslide.Proofs.Accounting
import Unslide.Proofs.Readdressing
import Unslide.Proofs.Prefixes
import Unslide.Proofs.Inheritance
import Unslide.Proofs.Report
import Unslide.Proofs.Program
import Unslide.Proofs.Directory
import Unslide.Proofs.Commands
import Unslide.Proofs.Numbering
import Unslide.Proofs.Naming
import Unslide.Proofs.Space.Granting
import Unslide.Proofs.Space.Searching
import Unslide.Proofs.Space.Refilling
import Unslide.Proofs.Lines
