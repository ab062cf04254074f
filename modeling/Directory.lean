import Directory.Proofs.Ber.Complement
import Directory.Proofs.Ber.Length
import Directory.Proofs.Ber.Walk
import Directory.Proofs.Buffering
import Directory.Proofs.Message.Hidden
import Directory.Proofs.Message.Shortest
import Directory.Proofs.Output.FailStop
import Directory.Proofs.Request.Acts
import Directory.Proofs.Request.Ledger
import Directory.Proofs.Request.Reasons
import Directory.Proofs.Request.Signals
import Directory.Proofs.Server.OneLife
import Directory.Proofs.Server.Startup
import Directory.Proofs.Session.Address
import Directory.Proofs.Session.Announcement
import Directory.Proofs.Session.Delivery
import Directory.Proofs.Session.Dispatch
import Directory.Proofs.Session.Sides
import Directory.Rehearsal.Output
import Directory.Rehearsal.Reader
import Directory.Rehearsal.Server
import Directory.Rehearsal.Sink
