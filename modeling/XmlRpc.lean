import XmlRpc.Text.Charset
import XmlRpc.Text.Blank
import XmlRpc.Text.Unprintable
import XmlRpc.Text.Quoted
import XmlRpc.Text.Utf8
import XmlRpc.Number.Numeral
import XmlRpc.Number.Integer
import XmlRpc.Number.Decimal
import XmlRpc.Number.Double
import XmlRpc.Number.Cast
import XmlRpc.Number.Shortest
import XmlRpc.Number.Written
import XmlRpc.ValueError
import XmlRpc.Scalar
import XmlRpc.Members
import XmlRpc.Node
import XmlRpc.Node.Equality
import XmlRpc.Node.Json
import XmlRpc.Node.Outline
import XmlRpc.Node.Wire
import XmlRpc.Arguments
import XmlRpc.Script
import XmlRpc.Json
import XmlRpc.Markup.Entity
import XmlRpc.Markup.Tag
import XmlRpc.Markup.Element
import XmlRpc.Markup.Event
import XmlRpc.Markup.Transcript
import XmlRpc.Markup.Document
import XmlRpc.Reply.Malformed
import XmlRpc.Reply.Value
import XmlRpc.Reply.Fault
import XmlRpc.Reply
import XmlRpc.Call
import XmlRpc.Source
import XmlRpc.Source.Files
import XmlRpc.Command
import XmlRpc.Main
import XmlRpc.Proofs.Continuation
import XmlRpc.Proofs.Truncation
import XmlRpc.Proofs.Escaping
import XmlRpc.Proofs.WrittenPieces
import XmlRpc.Proofs.Content
import XmlRpc.Proofs.NodeContent
import XmlRpc.Proofs.RoundTrip
import XmlRpc.Proofs.CallShape
import XmlRpc.Proofs.EndTags
import XmlRpc.Proofs.ReadNames
import XmlRpc.Proofs.DecodedNodes
import XmlRpc.Proofs.Reencoding
import XmlRpc.Proofs.LaidOut
import XmlRpc.Proofs.Nesting
import XmlRpc.Proofs.Listing
import XmlRpc.Proofs.IntegerTexts
import XmlRpc.Proofs.FaultReply
import XmlRpc.Proofs.Bracketing
import XmlRpc.Proofs.TreeBytes
import XmlRpc.Proofs.ReplyBytes
import XmlRpc.Proofs.Classification
import XmlRpc.Proofs.Runs
import XmlRpc.Proofs.Roles
import XmlRpc.Proofs.Defects
import XmlRpc.Proofs.Layout
import XmlRpc.Proofs.DoubleWrapping
import XmlRpc.Proofs.Overwriting
import XmlRpc.Proofs.JsonPaths
import XmlRpc.Proofs.IntegerScalars
import XmlRpc.Proofs.NearestDouble
import XmlRpc.Proofs.DecimalTexts
import XmlRpc.Proofs.DoubleScalars
import XmlRpc.Proofs.DoubleTexts
import XmlRpc.Proofs.Casting
import XmlRpc.Proofs.WholeDoubles
import XmlRpc.Proofs.ArgumentWords
import XmlRpc.Proofs.Appended
import XmlRpc.Proofs.OpenNames
import XmlRpc.Proofs.DocumentOrder
import XmlRpc.Proofs.EndTags
