import ADEiger.TransitionSystem
import ADEiger.Channel
import ADEiger.CString
import ADEiger.RestNames
import ADEiger.FileWriter
import ADEiger.FileWriterHistory
import ADEiger.FileWriterOrder
import ADEiger.FileWriterTokens
import ADEiger.FileWriterReap
import ADEiger.FileWriterPending
import ADEiger.FileWriterSave
import ADEiger.Connection
import ADEiger.RestSocketPool
import ADEiger.RestOwnResponse
import ADEiger.RestOwnership
import ADEiger.RestRetries
import ADEiger.RestDescriptors
import ADEiger.EigerParam
import ADEiger.EigerParamSystem
import ADEiger.EigerParamEnum
import ADEiger.EigerParamReread
import ADEiger.EigerParamPut
import ADEiger.EigerParamClamp
import ADEiger.EigerParamTable
import ADEiger.EigerParamFetch
import ADEiger.ClientWrites
import ADEiger.Json
import ADEiger.Frozen
import ADEiger.FrozenDocument
import ADEiger.RestPut
import ADEiger.EigerParamString
import ADEiger.RestResponse
import ADEiger.RestHeader
import ADEiger.RestBlob
import ADEiger.Driver
import ADEiger.DriverStop
import ADEiger.DriverStream
import ADEiger.DriverReceiver
import ADEiger.ExpectedImages
import ADEiger.StreamApi
import ADEiger.StreamSeries
import ADEiger.StreamFraming
import ADEiger.StreamMessages
import ADEiger.Loop
import ADEiger.TinyCbor
import ADEiger.TinyCborProgress
import ADEiger.Cbor
import ADEiger.TinyCborHeads
import ADEiger.TinyCborItems
import ADEiger.TinyCborStrings
import ADEiger.TinyCborContainers
import ADEiger.TinyCborAdvance
import ADEiger.Stream2
import ADEiger.Stream2Progress
import ADEiger.Rfc3339
import ADEiger.Rfc3339Calendar
import ADEiger.Rfc3339Grammar
import ADEiger.Rfc3339Instants
import ADEiger.Stream2Api
import ADEiger.Stream2Threshold
import ADEiger.Stream2Fields
import ADEiger.Stream2Arrays
import ADEiger.Stream2Items
import ADEiger.Stream2Readers
import ADEiger.Stream2Entries
import ADEiger.Stream2WellFormed
import ADEiger.Stream2Runs
import ADEiger.Stream2FieldOrder
import ADEiger.FrameCopy
import ADEiger.FrameShape
import ADEiger.EigerParamFailure
import ADEiger.MonitorImage
import ADEiger.StreamTask
import ADEiger.StreamHeaderWait
import ADEiger.SaveFile
import ADEiger.ParseH5File
import ADEiger.Binary64
import ADEiger.AcquisitionSizes
import ADEiger.Stream2Times
import ADEiger.PollTask
import ADEiger.FileNames
import ADEiger.StateWaits
import ADEiger.DriverStart
import ADEiger.DriverImages
import ADEiger.Inevitable
import ADEiger.FileWriterDrain
import ADEiger.Monitor
import ADEiger.DriverCommands
import ADEiger.CborEncode
import ADEiger.Stream2Encode
import ADEiger.Stream2RoundTrip
import ADEiger.RestReturn
import ADEiger.StreamDelivery
import ADEiger.FrozenNesting
import ADEiger.Coupling
import ADEiger.DriverFiles
import ADEiger.Stream2Normal
import ADEiger.DriverStreams
import ADEiger.DriverStreamsWait
import ADEiger.DrvUser
import ADEiger.RestSequence
