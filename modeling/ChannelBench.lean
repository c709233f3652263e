import ChannelBench.CRun
import ChannelBench.CSequence
import ChannelBench.VList
import ChannelBench.VListRuns
import ChannelBench.EvictionPasses
import ChannelBench.EvictionPassRules
import ChannelBench.EvictionSearch
import ChannelBench.EvictionRounds
import ChannelBench.EvictionNoise
import ChannelBench.EvictionColours
import ChannelBench.EvictionMinimal
import ChannelBench.TimeStats
import ChannelBench.ProbeSets
import ChannelBench.CArray
import ChannelBench.CShuffle
import ChannelBench.CMemory
import ChannelBench.CJump
import ChannelBench.CRing
import ChannelBench.CBitmap
import ChannelBench.CGather
import ChannelBench.ProberState
import ChannelBench.ProberPrepare
import ChannelBench.ProberLinks
import ChannelBench.ProberMonitor
import ChannelBench.CMachine
import ChannelBench.ProberBookkeeping
import ChannelBench.ProberProbes
import ChannelBench.ProberRings
import ChannelBench.ProberRuns
import ChannelBench.ProberCounting
import ChannelBench.PpState
import ChannelBench.PpRings
import ChannelBench.RingTable
import ChannelBench.ProbeSaturation
import ChannelBench.ProberPartition
import ChannelBench.L1State
import ChannelBench.CPath
import ChannelBench.L1Links
import ChannelBench.L1Lists
import ChannelBench.L1Safety
import ChannelBench.L1Walks
import ChannelBench.L1Runs
import ChannelBench.L1iState
import ChannelBench.L1iProbes
import ChannelBench.FlushState
import ChannelBench.FlushCosts
import ChannelBench.Shuffles
import ChannelBench.CString
import ChannelBench.TraceScan
import ChannelBench.TraceKey
import ChannelBench.TraceHistogram
import ChannelBench.TraceCut
import ChannelBench.TraceMatch
import ChannelBench.TraceCleanup
import ChannelBench.TraceStart
import ChannelBench.TraceAttack
import ChannelBench.CDoubly
import ChannelBench.DcacheState
import ChannelBench.DcacheBuffer
import ChannelBench.DcacheAttack
import ChannelBench.CCipher
import ChannelBench.AesTables
import ChannelBench.AesCipher
import ChannelBench.AesState
import ChannelBench.AesRounds
import ChannelBench.AesKeys
import ChannelBench.AesRoundTrip
import ChannelBench.CLimbs
import ChannelBench.MpiAddition
import ChannelBench.MpiWords
import ChannelBench.MpiShifts
import ChannelBench.MpiProducts
import ChannelBench.MpiKaratsuba
import ChannelBench.MpiMultiply
import ChannelBench.MpiDivide
import ChannelBench.MpiQuotients
import ChannelBench.MpiRoundTrips
import ChannelBench.MpiPow
import ChannelBench.MpiPowSteps
import ChannelBench.MpiPowRuns
import ChannelBench.MpiPowSetup
import ChannelBench.MpiPowFinish
import ChannelBench.MpiPowers
import ChannelBench.MpiSigns
import ChannelBench.MpiCoder
import ChannelBench.MpiLeak
import ChannelBench.TlbState
import ChannelBench.TlbWalk
import ChannelBench.CTimeline
import ChannelBench.TickRecorders
import ChannelBench.TickPartition
import ChannelBench.TickDeadlines
import ChannelBench.CParties
import ChannelBench.CEndpoint
import ChannelBench.IpcRoundTrip
import ChannelBench.FuncTest
import ChannelBench.BenchFrames
import ChannelBench.BenchRegions
import ChannelBench.CapSlots
