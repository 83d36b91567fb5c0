import PIMSim.PIM.DirtyData
import PIMSim.PIM.Flush
import PIMSim.PIM.FlushAddress
import PIMSim.PIM.Writeback
import PIMSim.PIM.LockTable
import PIMSim.Memory.Layout
import PIMSim.Memory.Merge
import PIMSim.Procs.PageConverter
import PIMSim.PIM.Conservation
import PIMSim.PIM.Mutex
import PIMSim.PIM.Progress
import PIMSim.Partitioner.Delivery
import PIMSim.DDR.Lockstep
import PIMSim.DDR.Refresh
import PIMSim.DDR.MultiChannel
import PIMSim.DDR.ActivationWindow
import PIMSim.DDR.Coupling
import PIMSim.DDR.Done
import PIMSim.Procs.ALU
import PIMSim.Memory.Callback
import PIMSim.Memory.Ownership
import PIMSim.PIM.Pipeline
import PIMSim.Library.History
import PIMSim.PIM.Outstanding
import PIMSim.PIM.AdderOrder
import PIMSim.PIM.Inclusion
import PIMSim.Gem5.WriteBack
import PIMSim.Gem5.Registration
import PIMSim.Gem5.Result
import PIMSim.Gem5.FlushPIM
import PIMSim.Gem5.PIMCommand
import PIMSim.Gem5.AbstractMemory
import PIMSim.Gem5.PendingQueue
import PIMSim.Gem5.Blocking
import PIMSim.Gem5.WakeUp
import PIMSim.Gem5.HandOver
import PIMSim.Procs.Retirement
import PIMSim.Procs.WindowKeys
import PIMSim.Procs.Latency
import PIMSim.PIM.PIMCore
import PIMSim.Library.Recency
import PIMSim.Procs.Replacement
import PIMSim.Procs.SharedReplacement
import PIMSim.Procs.BlockSize
import PIMSim.Library.Spacing
import PIMSim.Memory.MergeBounds
import PIMSim.Library.Service
import PIMSim.PIM.CacheService
import PIMSim.Procs.Buffers
import PIMSim.Procs.Capacity
import PIMSim.PIM.Capacity
import PIMSim.PIM.PIMCapacity
import PIMSim.General.PCTrace
import PIMSim.Partitioner.Statistics
import PIMSim.PIM.Computation
import PIMSim.PIM.Adder
import PIMSim.PIM.StoreRetry
import PIMSim.PIM.Translation
import PIMSim.PIM.Blocks
import PIMSim.Library.BitString
import PIMSim.General.FlagBit
import PIMSim.General.Command
import PIMSim.Library.Text
import PIMSim.TraceReader.TraceText
import PIMSim.TraceReader.Comments
import PIMSim.TraceReader.Grammar
import PIMSim.TraceReader.Totality
import PIMSim.DDR.ClockDomain
import PIMSim.Library.Convert
import PIMSim.Configs.DRAMIni
import PIMSim.Library.Staggered
import PIMSim.DDR.Countdowns
import PIMSim.DDR.QueueDepth
import PIMSim.DDR.Sizes
import PIMSim.Library.Fields
import PIMSim.HMC.Packet
import PIMSim.Library.Arrays
import PIMSim.HMC.Cube
import PIMSim.HMC.ProcessRqst
import PIMSim.Memory.CeilingLog
import PIMSim.DDR.BankStore
import PIMSim.HMC.AddressDecode
import PIMSim.HMC.Responses
import PIMSim.HMC.Links
import PIMSim.Configs.Settings
import PIMSim.Configs.ReadConfigs
import PIMSim.Configs.PIMSettings
import PIMSim.HMC.Pending
import PIMSim.Procs.Feeding
import PIMSim.Procs.ProcFeeding
import PIMSim.PIM.PIMFeeding
import PIMSim.HMC.Traffic
import PIMSim.HMC.Progress
import PIMSim.HMC.HMCMem
import PIMSim.HMC.Matching
import PIMSim.HMC.Answering
import PIMSim.HMC.TagLimit
import PIMSim.General.AddressRange
