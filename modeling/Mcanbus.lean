import Mcanbus.Frame.RoundTrip
import Mcanbus.Frame.Canonical
import Mcanbus.Frame.Display
import Mcanbus.Socket.Batch
import Mcanbus.Socket.Transfer
import Mcanbus.Socket.Entries
import Mcanbus.Socket.Timestamp
import Mcanbus.Isotp.Reassembly
import Mcanbus.Isotp.BlockFlow
import Mcanbus.Isotp.Transmit
import Mcanbus.Isotp.Acceptance
import Mcanbus.Isotp.Foreign
import Mcanbus.Isotp.WaitBudget
import Mcanbus.Isotp.Loss
import Mcanbus.Isotp.Deadline
import Mcanbus.Isotp.Stale
import Mcanbus.Isotp.Bounds
import Mcanbus.Reader.Ownership
import Mcanbus.Reader.FanOut
import Mcanbus.Reader.Isolation
import Mcanbus.Reader.Culling
import Mcanbus.Iface.Attributes
import Mcanbus.Server.Access
import Mcanbus.Server.HexId
import Mcanbus.Isotp.Dialogue
import Mcanbus.Sys.Delivery
import Mcanbus.Sys.Cycle
import Mcanbus.Sys.Client
import Mcanbus.Isotp.Errors
import Mcanbus.Server.Relay
import Mcanbus.Server.Inventory
import Mcanbus.Server.Diagnosis
import Mcanbus.Reader.Drain
