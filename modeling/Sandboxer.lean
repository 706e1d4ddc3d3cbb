import Sandboxer.Snapshot.CaptureExact
import Sandboxer.Resctl.Reservation
import Sandboxer.Vhost.Dma
import Sandboxer.Vhost.Touched
import Sandboxer.Resctl.Charge
import Sandboxer.Resctl.Limits
import Sandboxer.Usage.Recovery
import Sandboxer.Artifact.Published
import Sandboxer.Sandbox.Recovery
import Sandboxer.Init.Freeze
import Sandboxer.Init.Vsock
import Sandboxer.Init.MemReport
import Sandboxer.Config.Exported
import Sandboxer.Artifact.Compared
import Sandboxer.Versioned.Coalesced
import Sandboxer.Export.Tiles
import Sandboxer.Uffd.SourceStream
import Sandboxer.Diffstore.Sweep
import Sandboxer.Export.Holes
import Sandboxer.Uffd.Reclaim
import Sandboxer.Artifact.Flights
import Sandboxer.Init.Descriptor
