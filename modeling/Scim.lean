import Scim.Json.Decode
import Scim.Main
import Scim.Node.Ancestry
import Scim.Proofs.Number.Text
import Scim.Proofs.Number.Range
import Scim.Proofs.Number.Limit
import Scim.Proofs.Token.Cursor
import Scim.Proofs.Token.Rescan
import Scim.Proofs.Token.Names
import Scim.Proofs.Token.SubAttribute
import Scim.Proofs.Token.Partition
import Scim.Proofs.Token.Respelled
import Scim.Proofs.Guarded.InRange
import Scim.Proofs.Node.Ancestry
import Scim.Proofs.Node.Grouping
import Scim.Proofs.Node.Writable
import Scim.Proofs.Node.Rerooting
import Scim.Proofs.Parse.Bodies
import Scim.Proofs.Parse.Closing
import Scim.Proofs.Parse.Grammar
import Scim.Proofs.Parse.Empty
import Scim.Proofs.Parse.RoundTrip
import Scim.Proofs.Parse.Literals
import Scim.Proofs.Parse.AttributeNames
import Scim.Proofs.Parse.Canonical
import Scim.Proofs.Parse.Composition
import Scim.Proofs.Parse.ValuePaths
import Scim.Proofs.Parse.PathsAsFilters
import Scim.Proofs.Parse.PathRoundTrip
import Scim.Proofs.Parse.Ignored
import Scim.Proofs.Parse.Refusals
import Scim.Proofs.Parse.Predicates
import Scim.Proofs.Parse.ErrorKinds
import Scim.Proofs.Parse.Spelling
import Scim.Proofs.Parse.Fallbacks
import Scim.Proofs.Obtainable
import Scim.Proofs.Json.Drafts
