import SchemaEditor.Action.Codec
import SchemaEditor.Event.View
import SchemaEditor.Facade.KindCodec
import SchemaEditor.Main
import SchemaEditor.Model.Fingerprint
import SchemaEditor.Model.View
import SchemaEditor.Session.Codec
import SchemaEditor.Proofs.Command.Inspection
import SchemaEditor.Proofs.Command.Listing
import SchemaEditor.Proofs.Event.Delivery
import SchemaEditor.Proofs.Event.Navigation
import SchemaEditor.Proofs.Graph.StandardFacets
import SchemaEditor.Proofs.Graph.Identity
import SchemaEditor.Proofs.Graph.NameConsistency
import SchemaEditor.Proofs.Graph.Nearest
import SchemaEditor.Proofs.Graph.Pruning
import SchemaEditor.Proofs.Graph.Refusal
import SchemaEditor.Proofs.Graph.Renaming
import SchemaEditor.Proofs.Graph.WhereUsed
import SchemaEditor.Proofs.Model.Arena
import SchemaEditor.Proofs.Session.Availability
import SchemaEditor.Proofs.Session.Findings
import SchemaEditor.Proofs.Session.Indicators
import SchemaEditor.Proofs.Session.Judgment
import SchemaEditor.Proofs.Session.Mandatory
import SchemaEditor.Proofs.Session.Permissions
import SchemaEditor.Proofs.Session.ReadOnly
import SchemaEditor.Proofs.Session.Reversal
import SchemaEditor.Proofs.Session.RoundTrip
import SchemaEditor.Proofs.Session.SiblingNames
import SchemaEditor.Proofs.Session.TypeCycles
import SchemaEditor.Proofs.Snapshot.Acceptance
import SchemaEditor.Proofs.Snapshot.RoundTrip
import SchemaEditor.Proofs.Facade.Call
import SchemaEditor.Proofs.Usage.Steps
import SchemaEditor.Proofs.Graph.Hiding
import SchemaEditor.Proofs.Versioning.Editability
import SchemaEditor.Proofs.Model.Succession
import SchemaEditor.Proofs.Version
import SchemaEditor.Proofs.Model.Subtree
import SchemaEditor.Proofs.Toml.Quoted
import SchemaEditor.Proofs.Toml.Value
import SchemaEditor.Proofs.Command.Configure
