import Forte.Lib.BigEndian
import Forte.Asn1.Serialize
import Forte.Asn1.BufferSize
import Forte.Asn1.Deserialize
import Forte.Asn1.Encoding
import Forte.Asn1.Reading
import Forte.Asn1.RoundTrip
import Forte.Asn1.Receive
import Forte.Asn1.Fragments
import Forte.Asn1.Recovery
import Forte.Management.Container
import Forte.Management.ExecutionState
import Forte.Management.Addressing
import Forte.Lib.References
import Forte.Network.Network
import Forte.Network.Commands
import Forte.Network.Outcomes
import Forte.Network.Naming
import Forte.Network.Gathering
import Forte.Execution.RingBuffer
import Forte.Execution.TimerHandler
import Forte.Execution.EventChain
import Forte.Datatypes.Elementary
import Forte.Datatypes.Storage
import Forte.Datatypes.XmlText
import Forte.Lib.Scanner
import Forte.Management.Command
import Forte.Management.CommandParser
import Forte.Management.Grammar
import Forte.Management.Acceptance
import Forte.Lib.SortedTable
import Forte.Network.Monitoring
import Forte.Network.Watching
import Forte.Management.Accesses
import Forte.Datatypes.Datum
import Forte.Management.ShownValues
import Forte.Datatypes.Members
import Forte.Lib.Replay
import Forte.Management.CommonState
import Forte.Management.InitialValues
import Forte.Datatypes.Literal
import Forte.Datatypes.DurationText
import Forte.Datatypes.StringText
import Forte.Datatypes.StringFixed
import Forte.Execution.TimerExactness
import Forte.Communication.LayerIds
import Forte.Communication.ComStack
import Forte.Datatypes.Endianess
import Forte.Communication.EndianChannel
import Forte.Communication.LocalGroups
import Forte.Communication.LocalComLayer
import Forte.Execution.Breakpoints
import Forte.Communication.IPComLayer
import Forte.Execution.DelayBlocks
import Forte.Execution.ResourceReplayer
import Forte.Lib.Links
import Forte.Process.IOMapper
import Forte.Communication.ComId
import Forte.Management.Creation
import Forte.Asn1.ArrayIndexing
import Forte.Communication.RawChannel
import Forte.Management.BootFile
import Forte.Communication.MQTTClient
import Forte.Communication.HTTPAnswers
import Forte.Communication.HTTPPackets
import Forte.Datatypes.VariableType
import Forte.Datatypes.Readings
import Forte.Management.ValueWrites
import Forte.Network.Atomicity
import Forte.Lib.TwoPass
import Forte.Management.Children
import Forte.Management.Identifiers
import Forte.Datatypes.Transcoding
import Forte.Datatypes.WideText
import Forte.Datatypes.NumberLiteral
import Forte.Datatypes.DurationLiteral
import Forte.Lib.Counter
import Forte.Network.Composite
import Forte.Network.Neutrality
import Forte.Network.Counting
import Forte.Network.Dangling
import Forte.Execution.RemoteControl
import Forte.Datatypes.AnyInt
import Forte.Execution.EventMessage
import Forte.StructuredText.ForIterator
import Forte.Management.TypeLibrary
import Forte.Management.GenericNames
import Forte.StructuredText.IntegerArithmetic
import Forte.Communication.CANLayer
import Forte.Convert.StructDemux
import Forte.Convert.StructValue
import Forte.Datatypes.ArrayAssignment
import Forte.Datatypes.ArrayRuns
import Forte.Datatypes.NestedArrays
import Forte.Communication.ParameterParser
import Forte.Datatypes.BitStrings
import Forte.Datatypes.PartialAccess
import Forte.Lib.NativeBits
import Forte.Lib.PlaceValues
import Forte.Functions.Bcd
import Forte.Datatypes.IntValues
import Forte.Functions.Shifts
import Forte.Functions.TimeOfDay
import Forte.Functions.DateTime
import Forte.Datatypes.ElementAccess
import Forte.Datatypes.WideEscapes
import Forte.Datatypes.WideStorage
import Forte.Datatypes.WideConversion
import Forte.Datatypes.WideRuns
import Forte.Datatypes.WideLiteral
import Forte.Functions.Strings
import Forte.Functions.StringRanges
import Forte.Communication.StructMember
import Forte.Communication.MemberPaths
import Forte.Datatypes.NumberScanning
import Forte.Datatypes.TimeOfDayLiteral
import Forte.Communication.HTTPMessages
import Forte.Execution.TimerBlocks
import Forte.Communication.ModbusData
import Forte.Communication.ModbusParameters
import Forte.Communication.OpcUaActions
import Forte.Execution.ForcedPorts
import Forte.Lib.Transducer
import Forte.Lib.ControlChart
import Forte.Execution.EventCounters
import Forte.Execution.EdgeTriggers
import Forte.Execution.EventTrains
import Forte.Execution.Rendezvous
import Forte.Execution.PulseBlocks
import Forte.Functions.Assembling
