import LiveTemplate.Command.Invocation
import LiveTemplate.Main
import LiveTemplate.Proofs.Agreement
import LiveTemplate.Proofs.AttributeMaps
import LiveTemplate.Proofs.AttributeWrites
import LiveTemplate.Proofs.BoundAttributes
import LiveTemplate.Proofs.Building
import LiveTemplate.Proofs.Copies
import LiveTemplate.Proofs.Cutting
import LiveTemplate.Proofs.Derivations
import LiveTemplate.Proofs.DetachedWrite
import LiveTemplate.Proofs.Discovery
import LiveTemplate.Proofs.Dispatch
import LiveTemplate.Proofs.Engines
import LiveTemplate.Proofs.Escaping
import LiveTemplate.Proofs.Filling
import LiveTemplate.Proofs.Frames
import LiveTemplate.Proofs.Histories
import LiveTemplate.Proofs.Idempotence
import LiveTemplate.Proofs.InPlace
import LiveTemplate.Proofs.Insertion
import LiveTemplate.Proofs.Instances
import LiveTemplate.Proofs.Locality
import LiveTemplate.Proofs.MarkupUpdates
import LiveTemplate.Proofs.Mounting
import LiveTemplate.Proofs.Navigation
import LiveTemplate.Proofs.NormalForm
import LiveTemplate.Proofs.OrderPreservation
import LiveTemplate.Proofs.Outlines
import LiveTemplate.Proofs.Overriding
import LiveTemplate.Proofs.Parallel
import LiveTemplate.Proofs.PlainText
import LiveTemplate.Proofs.Recovery
import LiveTemplate.Proofs.References
import LiveTemplate.Proofs.Refusals
import LiveTemplate.Proofs.Registers
import LiveTemplate.Proofs.Rendering
import LiveTemplate.Proofs.RoundTrip
import LiveTemplate.Proofs.Runs
import LiveTemplate.Proofs.Separation
import LiveTemplate.Proofs.Sessions
import LiveTemplate.Proofs.Settling
import LiveTemplate.Proofs.Steadiness
import LiveTemplate.Proofs.Stepwise
import LiveTemplate.Proofs.Substitution
import LiveTemplate.Proofs.Success
import LiveTemplate.Proofs.Tracing
import LiveTemplate.Proofs.TreeOrder
import LiveTemplate.Proofs.Values
import LiveTemplate.Proofs.Wiring
