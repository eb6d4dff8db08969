import Landscape.Main
import Landscape.Proofs.Colors.Patches
import Landscape.Proofs.Files.Folders
import Landscape.Proofs.Relief.Symmetry
import Landscape.Proofs.Relief.Zeros
import Landscape.Proofs.Rendering.Buffers
import Landscape.Proofs.Rendering.Modes
import Landscape.Proofs.Rendering.OutputFolder
import Landscape.Proofs.Rendering.Pictures
import Landscape.Proofs.Rendering.Runs
import Landscape.Proofs.Rendering.WorkingFolder
import Landscape.Proofs.Settings.Nearest
import Landscape.Proofs.Settings.Pixels
import Landscape.Proofs.Surface.Means
import Landscape.Proofs.Surface.Nesting
