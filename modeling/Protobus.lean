import Protobus.Topic.Refinement
import Protobus.Wire.Envelope
import Protobus.Wire.Grammar
import Protobus.Library.ProtowireReference
import Protobus.Wire.Codec
import Protobus.Library.Transition
import Protobus.PubChannel.Model
import Protobus.PubChannel.Frame
import Protobus.PubChannel.Tags
import Protobus.PubChannel.Life
import Protobus.PubChannel.Outcome
import Protobus.PubChannel.Slots
import Protobus.PubChannel.Owner
import Protobus.PubChannel.Attribution
import Protobus.Amqp.Headers
import Protobus.Consumer.Model
import Protobus.Consumer.Ladder
import Protobus.Consumer.Broker
import Protobus.Consumer.Loss
import Protobus.Stream.Client
import Protobus.Stream.Call
import Protobus.Stream.Agreement
import Protobus.Stream.Endings
import Protobus.Consumer.Settlement
import Protobus.Consumer.Copies
import Protobus.Lifecycle.Listener
import Protobus.Dispatcher.Model
import Protobus.Lifecycle.Service
import Protobus.Dispatcher.Calls
import Protobus.Dispatcher.Replies
import Protobus.Library.Ledger
import Protobus.Stream.Accounting
import Protobus.Session.Model
import Protobus.Session.Readiness
import Protobus.Session.Finish
import Protobus.Library.Names
import Protobus.Rpc.Options
import Protobus.Rpc.Model
import Protobus.Rpc.Dispatch
import Protobus.Rpc.Addressing
import Protobus.Errors.Disclosure
import Protobus.Errors.Replies
import Protobus.Lifecycle.Selection
import Protobus.Stream.Framing
import Protobus.Library.Registry
import Protobus.Lifecycle.Enrolment
import Protobus.Consumer.Permits
import Protobus.Consumer.Channel
import Protobus.Dispatcher.Repair
import Protobus.Lifecycle.Bindings
import Protobus.Stream.Iterator
import Protobus.Amqp.Integers
import Protobus.Library.Numeral
import Protobus.Pbtypes.Bigint
import Protobus.Generator.GoName
import Protobus.Session.History
import Protobus.Library.Multimap
import Protobus.Consumer.Cancels
import Protobus.Lifecycle.Drain
import Protobus.Library.Search
import Protobus.Customtypes.Model
import Protobus.Customtypes.Exact
import Protobus.Library.Lexer
import Protobus.Protoload.Lexical
import Protobus.Protoload.Imports
import Protobus.Protoload.Injection
import Protobus.Protoload.Places
import Protobus.Protoload.Plain
import Protobus.Fakebroker.Model
import Protobus.Fakebroker.Wiring
import Protobus.Fakebroker.Books
import Protobus.Fakebroker.Conservation
import Protobus.Fakebroker.Serving
import Protobus.Fakebroker.Layout
import Protobus.Topology.Plan
import Protobus.Topology.Deployment
import Protobus.Topology.Retry
import Protobus.Fakebroker.Ordering
import Protobus.Fakebroker.Confirms
import Protobus.Topology.Calls
import Protobus.PubChannel.Resend
import Protobus.Rpc.Transparency
import Protobus.Rpc.Registration
import Protobus.Generator.Bindings
import Protobus.Rpc.Dynamic
import Protobus.Lifecycle.Closers
import Protobus.Library.Postorder
import Protobus.Generator.Request
import Protobus.Environment.Config
import Protobus.Topology.Events
