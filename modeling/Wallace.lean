import Wallace.Runs
import Wallace.RigModel
import Wallace.RigExclusion
import Wallace.RigRecovery
import Wallace.RigGuard
import Wallace.Kfifo
import Wallace.TtyModel
import Wallace.TtyStream
import Wallace.DockTxModel
import Wallace.Masks
import Wallace.DockTxOwner
import Wallace.DockRxModel
import Wallace.DockRxRearm
import Wallace.Bytes
import Wallace.GptModel
import Wallace.GptSafe
import Wallace.GptSound
import Wallace.GptReads
import Wallace.ObjModel
import Wallace.ObjRead
import Wallace.ObjStream
import Wallace.ObjBuild
import Wallace.ObjSound
import Wallace.Files
import Wallace.TicketModel
import Wallace.TicketSteps
import Wallace.TicketGate
import Wallace.TicketDone
import Wallace.TicketBlocks
import Wallace.SartModel
import Wallace.SartPower
import Wallace.NewcModel
import Wallace.NewcEntry
import Wallace.NewcRoundTrip
import Wallace.SpmiModel
import Wallace.SpmiFlat
import Wallace.History
import Wallace.Script
import Wallace.InitClosed
import Wallace.Mounts
import Wallace.SdrootModel
import Wallace.SdrootClean
import Wallace.ChannelModel
import Wallace.ChannelIdle
import Wallace.Scan
import Wallace.Shell
import Wallace.UsbRootModel
import Wallace.UsbRootIdentity
import Wallace.UsbRootUnique
import Wallace.HidPower
import Wallace.KeyValue
import Wallace.LeaseRecord
import Wallace.UsbBulkPty
import Wallace.GptExtent
import Wallace.Crc
import Wallace.GptDamage
import Wallace.NewcCanonical
import Wallace.NewcStrict
import Wallace.TicketAtomic
import Wallace.ObjRebuild
import Wallace.InstallModel
import Wallace.InstallSafe
import Wallace.Align
import Wallace.BootargsCheck
import Wallace.GradedProbe
import Wallace.IbootReserve
import Wallace.NewcEnds
import Wallace.Stage2Map
import Wallace.TlbRetry
import Wallace.Checks
import Wallace.Escapes
import Wallace.PciePlan
import Wallace.PciePower
import Wallace.ShutdownClean
import Wallace.PmgrEdit
import Wallace.PmgrVariant
import Wallace.AlpineB0
import Wallace.BootTree
import Wallace.BtPairing
import Wallace.SartDefer
import Wallace.TtyPorts
import Wallace.UsbBridge
import Wallace.DockPoll
import Wallace.IbootRewrite
import Wallace.MaskedObject
import Wallace.NvmeFlush
import Wallace.NvmePrp
import Wallace.NvmeQueue
import Wallace.SdrootApply
import Wallace.DailyGated
import Wallace.HidFirmware
