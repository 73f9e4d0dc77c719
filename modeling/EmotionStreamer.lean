import EmotionStreamer.Runs
import EmotionStreamer.Loops
import EmotionStreamer.Circles
import EmotionStreamer.Leases
import EmotionStreamer.Footprints
import EmotionStreamer.Pipes
import EmotionStreamer.Slices
import EmotionStreamer.Fifo
import EmotionStreamer.LittleEndian
import EmotionStreamer.PushBack
import EmotionStreamer.ConfigComments
import EmotionStreamer.ConfigReader
import EmotionStreamer.Preprocessor
import EmotionStreamer.StreamerConst
import EmotionStreamer.PortMapperState
import EmotionStreamer.PortMapperAlloc
import EmotionStreamer.PortMapperService
import EmotionStreamer.PortMapperOps
import EmotionStreamer.PortMapperBounds
import EmotionStreamer.PortMapperGrants
import EmotionStreamer.PortMapperFile
import EmotionStreamer.Accesses
import EmotionStreamer.PortMapperThreads
import EmotionStreamer.PortMapperInterleaving
import EmotionStreamer.PortCircuit
import EmotionStreamer.PortClients
import EmotionStreamer.TryConnect
import EmotionStreamer.Slots
import EmotionStreamer.ConnectionSet
import EmotionStreamer.CStrings
import EmotionStreamer.Registration
import EmotionStreamer.ServersTable
import EmotionStreamer.ServersListing
import EmotionStreamer.ServerLifetime
import EmotionStreamer.Rotation
import EmotionStreamer.RotationClock
import EmotionStreamer.Paths
import EmotionStreamer.PathWalks
import EmotionStreamer.DirListing
import EmotionStreamer.ListingFiles
import EmotionStreamer.PeekWorkers
import EmotionStreamer.RotationParsing
import EmotionStreamer.InfoRequests
import EmotionStreamer.FirstSeen
import EmotionStreamer.AddressCache
import EmotionStreamer.AddressCacheFile
import EmotionStreamer.ConfigFiles
import EmotionStreamer.ConfigServer
import EmotionStreamer.ConfigClient
import EmotionStreamer.SockIo
import EmotionStreamer.StaleErrno
import EmotionStreamer.Framing
import EmotionStreamer.Requests
import EmotionStreamer.ServerBrowser
import EmotionStreamer.ServersShown
import EmotionStreamer.RequestPaths
import EmotionStreamer.Upload
import EmotionStreamer.SendFile
import EmotionStreamer.Download
import EmotionStreamer.Replies
import EmotionStreamer.Converter
import EmotionStreamer.FrameScan
import EmotionStreamer.FrameIndex
import EmotionStreamer.FrameRanges
import EmotionStreamer.FrameOrder
import EmotionStreamer.StreamChunk
import EmotionStreamer.ServerStream
import EmotionStreamer.WavStream
import EmotionStreamer.ChunkQueue
import EmotionStreamer.ChunkQueueFifo
import EmotionStreamer.QueueBar
import EmotionStreamer.ClientReceive
import EmotionStreamer.ClientThreads
import EmotionStreamer.ClientBackPressure
import EmotionStreamer.ClientThrottle
import EmotionStreamer.ClientArrival
import EmotionStreamer.ClientPlayer
import EmotionStreamer.ClientDrain
import EmotionStreamer.WavPlayback
import EmotionStreamer.FrameIntegrity
import EmotionStreamer.ClientBounds
import EmotionStreamer.ClientSession
import EmotionStreamer.ClientShutdown
import EmotionStreamer.ClientEnding
