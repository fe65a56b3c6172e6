import Esp8266.Avrisp.Programmer
import Esp8266.Buffers.Cbuf
import Esp8266.Buffers.CbufQueue
import Esp8266.Connections.ReferenceRuns
import Esp8266.Connections.References
import Esp8266.Dhcp.ClientUpdate
import Esp8266.Dhcp.Eviction
import Esp8266.Dhcp.LeaseRuns
import Esp8266.Dhcp.LeaseSearch
import Esp8266.Dhcp.LeaseTable
import Esp8266.Dhcp.Leases
import Esp8266.Dhcp.Packet
import Esp8266.Dhcp.PacketBounds
import Esp8266.Dns.Exactness
import Esp8266.Dns.Forwarder
import Esp8266.Dns.ForwarderRuns
import Esp8266.Dns.Matching
import Esp8266.Dns.Request
import Esp8266.Eboot.CopyRaw
import Esp8266.Eboot.Gzip
import Esp8266.Eboot.Install
import Esp8266.Eboot.Restart
import Esp8266.Eeprom.Coherence
import Esp8266.Eeprom.State
import Esp8266.Files.Directories
import Esp8266.Files.Timestamps
import Esp8266.Firmware.Agreement
import Esp8266.Firmware.Checksum
import Esp8266.Firmware.Elf2Bin
import Esp8266.Firmware.Installed
import Esp8266.Firmware.Layout
import Esp8266.Flash.Read
import Esp8266.Flash.ReadMemory
import Esp8266.Flash.Sdk
import Esp8266.Flash.Write
import Esp8266.Gdb.LoadStore
import Esp8266.Http.ChunkedTransfer
import Esp8266.Http.Chunks
import Esp8266.Http.Client
import Esp8266.Http.KeepAlive
import Esp8266.Http.Redirects
import Esp8266.Http.RequestHeaders
import Esp8266.Http.UrlParsing
import Esp8266.Http.WriteToStream
import Esp8266.I2c.Addressed
import Esp8266.I2c.Bus
import Esp8266.I2c.Receive
import Esp8266.I2c.Slave
import Esp8266.I2c.Transmit
import Esp8266.I2s.Driver
import Esp8266.I2s.Queue
import Esp8266.I2s.Receive
import Esp8266.I2s.Runs
import Esp8266.I2s.Transmit
import Esp8266.Library.ByteOrder
import Esp8266.Library.CString
import Esp8266.Library.CrashLogic
import Esp8266.Library.Ctype
import Esp8266.Library.Delimiter
import Esp8266.Library.DeltaList
import Esp8266.Library.Fields
import Esp8266.Library.Heap
import Esp8266.Library.LinkedList
import Esp8266.Library.Machine
import Esp8266.Library.Matching
import Esp8266.Library.Memory
import Esp8266.Library.Numeral
import Esp8266.Library.Overwrite
import Esp8266.Library.PathNames
import Esp8266.Library.Ring
import Esp8266.Library.SubstituteRight
import Esp8266.Library.Substring
import Esp8266.Library.WordBytes
import Esp8266.Library.WrappingCounter
import Esp8266.Llmnr.Exactness
import Esp8266.Llmnr.Responder
import Esp8266.Lwip.Pbuf
import Esp8266.Mdns.Answers
import Esp8266.Mdns.CacheInvariant
import Esp8266.Mdns.Equality
import Esp8266.Mdns.Header
import Esp8266.Mdns.HostProbing
import Esp8266.Mdns.Lifetime
import Esp8266.Mdns.Message
import Esp8266.Mdns.Names
import Esp8266.Mdns.Process
import Esp8266.Mdns.Query
import Esp8266.Mdns.QueryCache
import Esp8266.Mdns.ReadDomain
import Esp8266.Mdns.ReadTxt
import Esp8266.Mdns.ReplyMasks
import Esp8266.Mdns.SendBuffer
import Esp8266.Mdns.Service
import Esp8266.Mdns.ServiceTxt
import Esp8266.Mdns.Termination
import Esp8266.Mdns.Tiebreak
import Esp8266.Mesh.EncryptedConnections
import Esp8266.Mesh.Flooding
import Esp8266.Mesh.FloodingRuns
import Esp8266.Mesh.FragmentBytes
import Esp8266.Mesh.Fragments
import Esp8266.Mesh.JsonTranslator
import Esp8266.Mesh.Lockstep
import Esp8266.Mesh.PeerTable
import Esp8266.Mesh.Reassembly
import Esp8266.Mesh.ReassemblyRuns
import Esp8266.Mesh.Serialization
import Esp8266.Mesh.SessionKeys
import Esp8266.Net.AddressGrammar
import Esp8266.Net.IPAddress
import Esp8266.Net.Ipv6Parse
import Esp8266.Net.Ipv6Print
import Esp8266.Net.Ipv6RoundTrip
import Esp8266.Netbios.Exactness
import Esp8266.Netbios.NameService
import Esp8266.Netdump.Inside
import Esp8266.Netdump.Packet
import Esp8266.Netdump.TcpDump
import Esp8266.Ota.Authentication
import Esp8266.Ota.HttpUpdate
import Esp8266.Ota.Invitation
import Esp8266.Schedule.Queue
import Esp8266.Schedule.Recurrent
import Esp8266.Schedule.Runner
import Esp8266.Ssdp.Requests
import Esp8266.Ssdp.Searches
import Esp8266.Ssdp.StartLine
import Esp8266.Streams.Find
import Esp8266.Streams.Paths
import Esp8266.Streams.PeekBuffer
import Esp8266.Streams.ReadStringUntil
import Esp8266.Streams.S2Stream
import Esp8266.Streams.SendGeneric
import Esp8266.Streams.SendRegular
import Esp8266.Strings.Aliased
import Esp8266.Strings.Conversion
import Esp8266.Strings.Operations
import Esp8266.Strings.Prefix
import Esp8266.Strings.Replace
import Esp8266.Strings.Representation
import Esp8266.Strings.Storage
import Esp8266.Strings.Substitution
import Esp8266.Tcp.Receive
import Esp8266.Tcp.ReceiveRuns
import Esp8266.Tcp.Write
import Esp8266.Tcp.WriteRuns
import Esp8266.Timer1.Interrupt
import Esp8266.Timer1.Requests
import Esp8266.Timing.PolledTimeout
import Esp8266.Timing.SystemTime
import Esp8266.Tls.Fingerprint
import Esp8266.Tls.Policy
import Esp8266.Tls.Receive
import Esp8266.Tls.ReceiveCalls
import Esp8266.Tls.ReceiveRuns
import Esp8266.Tls.Validator
import Esp8266.Uart.Receive
import Esp8266.Uart.Runs
import Esp8266.Udp.Context
import Esp8266.Udp.Delivery
import Esp8266.Udp.SendBuffer
import Esp8266.Update.Accounting
import Esp8266.Update.Digest
import Esp8266.Update.Finish
import Esp8266.Update.Hashed
import Esp8266.Update.Outcome
import Esp8266.Update.Range
import Esp8266.Update.Reset
import Esp8266.Update.Signed
import Esp8266.Update.Staged
import Esp8266.Update.State
import Esp8266.Vm.Cache
import Esp8266.Vm.Emulation
import Esp8266.Vm.Exceptions
import Esp8266.Vm.FlatMemory
import Esp8266.Waveform.PhaseLocked
import Esp8266.Waveform.PhaseRuns
import Esp8266.Waveform.Pwm
import Esp8266.Waveform.PwmSchedule
import Esp8266.Web.Arguments
import Esp8266.Web.Digest
import Esp8266.Web.Form
import Esp8266.Web.FormEncoding
import Esp8266.Web.FormParts
import Esp8266.Web.HandlerList
import Esp8266.Web.Parameters
import Esp8266.Web.Requests
import Esp8266.Web.StaticFiles
import Esp8266.Web.StaticServing
import Esp8266.Web.Text
import Esp8266.Web.Upload
import Esp8266.Web.UriBraces
import Esp8266.Wifi.Multi
import Esp8266.Gdb.Packets
import Esp8266.I2c.Master
import Esp8266.Strings.Base64
import Esp8266.Web.BasicAuthentication
