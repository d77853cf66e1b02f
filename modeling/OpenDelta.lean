import OpenDelta.Zip.Archive
import OpenDelta.Zip.Structure
import OpenDelta.Zip.FixedPoint
import OpenDelta.Zip.Extract
import OpenDelta.Data.FileStore
import OpenDelta.Data.JavaString
import OpenDelta.Service.Config
import OpenDelta.Service.DeltaInfo
import OpenDelta.Service.Download
import OpenDelta.Service.Build
import OpenDelta.Service.Check
import OpenDelta.Service.Effects
import OpenDelta.Service.Chain
import OpenDelta.Service.Outcome
import OpenDelta.Service.Routes
import OpenDelta.Service.Documents
import OpenDelta.Service.Newest
import OpenDelta.Service.Revoked
import OpenDelta.Service.Advertised
import OpenDelta.Service.ForcedFull
import OpenDelta.Service.Integrity
import OpenDelta.Data.TextLines
import OpenDelta.Flash.FlashUpdate
import OpenDelta.Flash.Recovery
import OpenDelta.Flash.Secure
import OpenDelta.Zip.Offsets
import OpenDelta.Zip.Sizes
import OpenDelta.Data.Runs
import OpenDelta.Service.Requests
import OpenDelta.Schedule.Scheduler
import OpenDelta.Schedule.Alarms
import OpenDelta.Flash.Survival
import OpenDelta.Server.Publication
import OpenDelta.Data.Computation
import OpenDelta.Native.Calls
import OpenDelta.Native.Adjust
import OpenDelta.Native.Dedelta
import OpenDelta.Native.ReadErrors
import OpenDelta.Flash.GiveUp
import OpenDelta.Zip.Fields
import OpenDelta.Zip.Scan
import OpenDelta.Service.InitialFile
import OpenDelta.Service.PastWork
import OpenDelta.Zip.Bounds
import OpenDelta.Data.Walk
import OpenDelta.Service.FetchLoop
import OpenDelta.Service.Metered
import OpenDelta.Service.Patching
import OpenDelta.Service.Space
import OpenDelta.Service.Misflagged
import OpenDelta.Server.Buffers
import OpenDelta.Server.SignApk
import OpenDelta.Service.Gates
import OpenDelta.Data.TextOrder
import OpenDelta.Service.BuildNames
import OpenDelta.Data.Calendar
import OpenDelta.Schedule.CustomAlarm
import OpenDelta.Service.Accounting
import OpenDelta.Service.Snooze
import OpenDelta.Service.Steps
import OpenDelta.Service.Masking
import OpenDelta.Service.Interleaving
import OpenDelta.Server.Releases
import OpenDelta.Service.Reconstruction
import OpenDelta.Data.CopyWithin
import OpenDelta.Data.RunningSums
import OpenDelta.Data.Turning
import OpenDelta.Vcdiff.AddressCache
import OpenDelta.Vcdiff.Adler32
import OpenDelta.Vcdiff.Carrying
import OpenDelta.Vcdiff.Cases
import OpenDelta.Vcdiff.Chunks
import OpenDelta.Vcdiff.Client
import OpenDelta.Vcdiff.Room
import OpenDelta.Vcdiff.Safety
