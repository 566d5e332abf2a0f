import Buildsmith.Kconfig.WindowView
import Buildsmith.Main
import Buildsmith.Project.Submodules
import Buildsmith.Proofs.Evaluation.Covering
import Buildsmith.Proofs.Session.Minimizing
import Buildsmith.Proofs.Session.Syncing
import Buildsmith.Proofs.Console.Cursor
import Buildsmith.Proofs.Session.Merging
import Buildsmith.Proofs.Session.Generating
import Buildsmith.Proofs.Binding.Declarations
import Buildsmith.Proofs.Header.Reading
import Buildsmith.Proofs.Session.Assigning
import Buildsmith.Proofs.Description.Grammar
import Buildsmith.Proofs.Description.Quoting
import Buildsmith.Proofs.Session.Demands
import Buildsmith.Proofs.Markdown.Anchors
import Buildsmith.Proofs.Release.Stamping
import Buildsmith.Proofs.Project.Components
import Buildsmith.Proofs.Project.Settings
import Buildsmith.Proofs.Terminal.Editing
