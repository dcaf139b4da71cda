import MeshWeave.Export.Basic
import MeshWeave.Host.PolygonSet
import MeshWeave.Listing.Recorder
import MeshWeave.Listing.Replay
import MeshWeave.Listing.TextWriter
import MeshWeave.Primitive.Lengths
import MeshWeave.Proofs.Export.RoundTrip
import MeshWeave.Proofs.Reader.Addressing
import MeshWeave.Proofs.Reader.Alignment
import MeshWeave.Proofs.Reader.Decoding
import MeshWeave.Proofs.Mesh.Concatenation
import MeshWeave.Proofs.Reader.Ignoring
import MeshWeave.Proofs.Export.Holes
import MeshWeave.Proofs.Reader.Channels
import MeshWeave.Proofs.Reader.Chunking
import MeshWeave.Proofs.Reader.Keeping
import MeshWeave.Proofs.Reader.Holes
import MeshWeave.Proofs.Reader.Declaring
import MeshWeave.Proofs.Export.Partition
import MeshWeave.Proofs.Reader.Refinement
import MeshWeave.Proofs.Reader.Trimming
import MeshWeave.Proofs.Export.Safety
import MeshWeave.Proofs.Listing.Order
import MeshWeave.Proofs.Listing.Lockstep
import MeshWeave.Proofs.Listing.Unambiguous
import MeshWeave.Proofs.Reader.Reordering
import MeshWeave.Proofs.Reader.Independence
import MeshWeave.Proofs.Export.FullOutput
import MeshWeave.Proofs.Export.Offsets
import MeshWeave.Proofs.Export.HoleStarts
import MeshWeave.Proofs.Export.Soundness
import MeshWeave.Proofs.Export.Triangulation
import MeshWeave.Proofs.Mesh.Confinement
import MeshWeave.Proofs.Mesh.Typing
import MeshWeave.Proofs.Source.Naming
import MeshWeave.Proofs.Listing.Acceptance
import MeshWeave.Proofs.Reader.Referring
import MeshWeave.Proofs.Reader.Materials
import MeshWeave.Proofs.Export.HoleRecords
import MeshWeave.Proofs.Export.Boundaries
import MeshWeave.Proofs.Primitive.Undoing
import MeshWeave.Proofs.Text.Escaping
