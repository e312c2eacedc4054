import TunerBroker.Address.Reader
import TunerBroker.Scenario
import TunerBroker.Proofs.Consumers.ReferenceCount
import TunerBroker.Proofs.Streams.Connections
import TunerBroker.Proofs.Closes.Release
import TunerBroker.Proofs.Opens.Cancellation
import TunerBroker.Proofs.Payload.Delivery
import TunerBroker.Proofs.Closes.Desertion
import TunerBroker.Proofs.Access.Gate
import TunerBroker.Proofs.Closes.SweepOrder
import TunerBroker.Proofs.Access.SessionHistory
import TunerBroker.Proofs.Consumers.Exclusive
import TunerBroker.Proofs.Streams.Lifetime
import TunerBroker.Proofs.Sources.Apart
import TunerBroker.Proofs.Access.Strictness
import TunerBroker.Proofs.Access.Consultation
import TunerBroker.Proofs.Access.AddressMatch
import TunerBroker.Proofs.Closes.DepartureOrder
import TunerBroker.Proofs.Opens.Membership
import TunerBroker.Proofs.Streams.Feed
import TunerBroker.Proofs.Opens.OpenRace
import TunerBroker.Proofs.Alarms.CarefulRuns
