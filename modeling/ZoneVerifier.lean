import ZoneVerifier.AtomicCovers
import ZoneVerifier.BitwiseTransfer
import ZoneVerifier.BranchExact
import ZoneVerifier.ByteSwap
import ZoneVerifier.CacheClean
import ZoneVerifier.CallChain
import ZoneVerifier.CanonicalHashRef
import ZoneVerifier.DeriveStep
import ZoneVerifier.FieldLookup
import ZoneVerifier.GeneratorComplete
import ZoneVerifier.GoalCode
import ZoneVerifier.Injection
import ZoneVerifier.IntervalCompare
import ZoneVerifier.IteratorKept
import ZoneVerifier.Leaving
import ZoneVerifier.MapAccess
import ZoneVerifier.MulTransfer
import ZoneVerifier.ObjectLayout
import ZoneVerifier.PacketEnd
import ZoneVerifier.PathSlicing
import ZoneVerifier.PointerShift
import ZoneVerifier.ProofFile
import ZoneVerifier.Pruning
import ZoneVerifier.RcuSections
import ZoneVerifier.RefRelease
import ZoneVerifier.RefineMap
import ZoneVerifier.RegionAccess
import ZoneVerifier.ShlTransfer
import ZoneVerifier.SizedAlloc
import ZoneVerifier.SliceRun
