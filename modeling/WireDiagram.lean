import WireDiagram.Check.Diagram
import WireDiagram.Draft.Agreement.Drawing
import WireDiagram.Draft.Agreement.Page
import WireDiagram.Draft.Packing
import WireDiagram.Draft.Placement
import WireDiagram.Proofs.Admission
import WireDiagram.Proofs.Area
import WireDiagram.Proofs.Arrangement
import WireDiagram.Proofs.Blocks
import WireDiagram.Proofs.BoundedMap
import WireDiagram.Proofs.Boxes
import WireDiagram.Proofs.Capacity
import WireDiagram.Proofs.Centring
import WireDiagram.Proofs.Commutation
import WireDiagram.Proofs.Composition
import WireDiagram.Proofs.Connection
import WireDiagram.Proofs.Consistency
import WireDiagram.Proofs.Cutting
import WireDiagram.Proofs.Decoding
import WireDiagram.Proofs.Drawability
import WireDiagram.Proofs.Embedding
import WireDiagram.Proofs.FewestPages
import WireDiagram.Proofs.Fitting
import WireDiagram.Proofs.Ink
import WireDiagram.Proofs.Junction
import WireDiagram.Proofs.Layout
import WireDiagram.Proofs.Legibility
import WireDiagram.Proofs.Levels
import WireDiagram.Proofs.Meetings
import WireDiagram.Proofs.Mirror
import WireDiagram.Proofs.Outline
import WireDiagram.Proofs.Oversights
import WireDiagram.Proofs.Painting
import WireDiagram.Proofs.Panels
import WireDiagram.Proofs.Pictures
import WireDiagram.Proofs.RandomTraces
import WireDiagram.Proofs.Reading
import WireDiagram.Proofs.Recognition
import WireDiagram.Proofs.Recording
import WireDiagram.Proofs.Reflection
import WireDiagram.Proofs.Relisting
import WireDiagram.Proofs.Safety
import WireDiagram.Proofs.Schedule
import WireDiagram.Proofs.Seams
import WireDiagram.Proofs.Splitting
import WireDiagram.Proofs.Symmetry
import WireDiagram.Proofs.Tallies
import WireDiagram.Recorder
import WireDiagram.Sampling
