import R4Recovery.JournalReplaySafe
import R4Recovery.JournalRoundTrip
import R4Recovery.PartitionCrash
import R4Recovery.PartitionRoundTrip
import R4Recovery.GptRepairSafe
import R4Recovery.StorageAdmission
import Mathlib.Logic.Basic
import R4Recovery.PartitionTableAgree
import R4Recovery.InstallationAgree
import R4Recovery.CacheCrash
import R4Recovery.FatReplaceSafe
import R4Recovery.JournalSlots
import R4Recovery.UploadClaimStore
import R4Recovery.UploadClaimText
import R4Recovery.RxHandoffExact
import R4Recovery.SendCatalogExact
import R4Recovery.TcpProgress
import R4Recovery.DriverWorkExact
import R4Recovery.UpdatePlanExact
import R4Recovery.BatchJournalExact
import R4Recovery.LinkedQueue
import Mathlib.Data.List.Count
import Mathlib.Data.List.Basic
import Mathlib.Data.List.Pairwise
import Mathlib.Data.List.Sublists
import R4Recovery.PageIndex
import R4Recovery.PageIndexRun
import R4Recovery.PageCacheRun
import R4Recovery.TcpStream
import R4Recovery.TcpSend
import R4Recovery.TcpTable
import R4Recovery.PathSpelling
import R4Recovery.PartitionEdit
import R4Recovery.PartitionSpace
import R4Recovery.SparseImage
import R4Recovery.RecoveryState
import R4Recovery.Bitmap
import R4Recovery.NtfsFormat
import R4Recovery.NtfsMap
import R4Recovery.NtfsRecord
import R4Recovery.NtfsFixups
import R4Recovery.Lznt1Codec
import R4Recovery.NtfsSpace
import R4Recovery.NtfsScan
import R4Recovery.NtfsShrink
import R4Recovery.NtfsRelocate
import R4Recovery.FatTable
import Mathlib.Order.Interval.Finset.Nat
import R4Recovery.PrefixCode
import R4Recovery.NameCodec
import R4Recovery.Package
import R4Recovery.PackageSound
import R4Recovery.BootSource
import R4Recovery.NtfsIndex
import R4Recovery.NtfsEnumerate
import R4Recovery.FatCursor
import R4Recovery.FatEnumerate
import R4Recovery.FatRange
import R4Recovery.FatRangeExact
import R4Recovery.FatListing
import R4Recovery.FatReplace
import R4Recovery.DmaSegments
import R4Recovery.DmaSegmentsExact
import R4Recovery.BitScan
import R4Recovery.PhysFrames
import R4Recovery.PhysFramesSound
import R4Recovery.PhysFramesScan
import R4Recovery.PhysFramesExact
import R4Recovery.PhysFramesRun
import R4Recovery.Checked
import R4Recovery.HiveFormat
import R4Recovery.HiveValid
import R4Recovery.HivePath
import R4Recovery.HiveTree
import R4Recovery.Fields
import R4Recovery.HiveBuild
import R4Recovery.HiveBuildTree
import R4Recovery.HiveBuildOrder
import R4Recovery.HiveBuildCodec
import R4Recovery.HiveBuildWritten
import R4Recovery.HiveBuildValid
import R4Recovery.HiveRoundTrip
import R4Recovery.SdkPathNormal
import R4Recovery.HttpStreamExact
import R4Recovery.HttpDecodePayload
import R4Recovery.HttpUrlExact
import R4Recovery.Text
import R4Recovery.BootScan
import R4Recovery.BootScanSafe
import R4Recovery.BootScanAgree
import Mathlib.Order.WellFoundedSet
import Mathlib.Logic.Relation
import Mathlib.Logic.Function.Basic
import Mathlib.Data.List.FinRange
import Mathlib.Data.Finset.Card
import Mathlib.Data.Fintype.Basic
import R4Recovery.FatGeometry
import R4Recovery.InternalName
