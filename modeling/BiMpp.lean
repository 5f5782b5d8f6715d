import BiMpp.Base.Run
import BiMpp.Base.Chain
import BiMpp.Host.Isolation
import BiMpp.Host.Wakeup
import BiMpp.Host.BulkOrder
import BiMpp.Host.UrbList
import BiMpp.Device.Handshake
import BiMpp.Device.Events
import BiMpp.Firmware.Control
import BiMpp.Usbip.System
import BiMpp.Host.Transfers
import BiMpp.Usbip.Requests
import BiMpp.Usbip.Stages
import BiMpp.Usbip.Status
import BiMpp.Usbip.Replies
import BiMpp.Base.Grouped
import BiMpp.Host.Fifo
import BiMpp.Host.Reassembly
import BiMpp.Host.Outcome
import BiMpp.Usbip.ControlOrder
import BiMpp.Usbip.Framing
import BiMpp.Usbip.Readiness
import BiMpp.Usbip.Publication
import BiMpp.Usbip.Connections
import BiMpp.Firmware.BusReset
import BiMpp.Usbip.Bounds
import BiMpp.Base.Locks
import BiMpp.Usbip.Threads
import BiMpp.Usbip.Locking
import BiMpp.Device.Refusal
import BiMpp.Host.Service
import BiMpp.Host.Segmentation
import BiMpp.Device.Copy
import BiMpp.Host.Extent
import BiMpp.Usbip.Memory
import BiMpp.Usbip.Sequence
import BiMpp.Host.Toggle
import BiMpp.Host.Cancel
import BiMpp.Usbip.Destroy
import BiMpp.Usbip.PacketSize
import BiMpp.Base.Search
import BiMpp.Base.Store
import BiMpp.Firmware.Calls
import BiMpp.Firmware.Echo
import BiMpp.Flash.Capacity
import BiMpp.Flash.Scsi
import BiMpp.Flash.Commands
import BiMpp.Chardev.Buffers
import BiMpp.Pci.Search
import BiMpp.Flash.FindDevice
import BiMpp.Usbip.UrbWait
import BiMpp.Device.Steps
import BiMpp.Firmware.Descriptors
import BiMpp.Firmware.Keys
import BiMpp.Host.Outgoing
import BiMpp.Host.Stream
import BiMpp.Usbip.ControlReads
import BiMpp.Usbip.Delivery
import BiMpp.Usbip.ControlReplies
import BiMpp.Base.Decoding
import BiMpp.Flash.Disk
import BiMpp.Usbip.Accounting
import BiMpp.Usbip.Client
import BiMpp.Host.Progress
import BiMpp.Usbip.Fetching
import BiMpp.Pci.Listing
import BiMpp.Usbip.Handling
import BiMpp.Usbip.Survival
