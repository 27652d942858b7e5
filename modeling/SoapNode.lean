import SoapNode.Config.Value
import SoapNode.Proofs.Client.Calls
import SoapNode.Proofs.Handler.Closing
import SoapNode.Text.Upper
import SoapNode.Xml.Outline
import SoapNode.Proofs.Tube.Nesting
import SoapNode.Proofs.Security.Validation
import SoapNode.Proofs.Tube.Copies
import SoapNode.Proofs.Tube.Shadows
import SoapNode.Proofs.Handler.Respect
import SoapNode.Proofs.Stage.Uniform
import SoapNode.Proofs.Tube.Templates
import SoapNode.Proofs.Stage.Layers
import SoapNode.Proofs.Server.Answers
import SoapNode.Proofs.Stage.Independence
import SoapNode.Proofs.Message.Detached
import SoapNode.Proofs.Server.Doctypes
import SoapNode.Proofs.Xml.Repeats
import SoapNode.Proofs.Message.Marking
import SoapNode.Proofs.Tube.Walks
import SoapNode.Proofs.Tube.Forks
import SoapNode.Proofs.Tube.Custody
import SoapNode.Proofs.Tube.Courses
import SoapNode.Proofs.Stage.Dumping
import SoapNode.Proofs.Stage.Brevity
import SoapNode.Proofs.Server.Dumps
import SoapNode.Proofs.Message.Coherence
import SoapNode.Proofs.Message.FaultEnvelopes
import SoapNode.Proofs.Message.Acceptance
import SoapNode.Proofs.Message.Pulling
import SoapNode.Proofs.Message.Presence
import SoapNode.Proofs.Message.Embedding
import SoapNode.Proofs.Handler.Order
import SoapNode.Proofs.Stage.Understanding
import SoapNode.Proofs.Stage.Correlation
import SoapNode.Proofs.Stage.Invocation
import SoapNode.Proofs.Property.Laws
import SoapNode.Proofs.Property.Packets
import SoapNode.Proofs.Property.Keys
import SoapNode.Proofs.Time.Calendar
import SoapNode.Proofs.Time.Rfc3339
import SoapNode.Proofs.Security.Limits
import SoapNode.Proofs.Xml.Lexical
import SoapNode.Proofs.Soap.FaultShapes
import SoapNode.Proofs.Soap.Quotations
