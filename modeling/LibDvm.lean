import LibDvm.Lib.NodeList
import LibDvm.Lib.Align
import LibDvm.Lib.Store
import LibDvm.Lib.WriteBack
import LibDvm.Lib.Machine
import LibDvm.Lib.Explained
import LibDvm.Lib.Known
import LibDvm.Lib.Words
import LibDvm.Lib.Pull
import LibDvm.Lib.Recency
import LibDvm.Lib.Registry
import LibDvm.Lib.Calendar
import LibDvm.Lib.Monitor
import LibDvm.Lib.Program
import LibDvm.Lib.Layers
import LibDvm.Lib.Window
import LibDvm.Lib.Lifetimes
import LibDvm.Lib.Misses
import LibDvm.Lib.Span
import LibDvm.Disc.Model
import LibDvm.Disc.Create
import LibDvm.Disc.Heap
import LibDvm.Cache.Model
import LibDvm.Cache.Listed
import LibDvm.Cache.Rep
import LibDvm.Cache.Ops
import LibDvm.Cache.Loop
import LibDvm.Cache.Invariant
import LibDvm.Cache.Geometry
import LibDvm.Cache.Bounds
import LibDvm.Cache.Recency
import LibDvm.Cache.Logical
import LibDvm.Cache.Access
import LibDvm.Cache.Stream
import LibDvm.Cache.Transparency
import LibDvm.Cache.Atomic
import LibDvm.Cache.Threads
import LibDvm.Cache.Crash
import LibDvm.Cache.PowerCut
import LibDvm.Cache.Traffic
import LibDvm.Cache.Misses
import LibDvm.Block.Model
import LibDvm.Block.Isolation
import LibDvm.Block.FileSystems
import LibDvm.Block.PowerCut
import LibDvm.Prober.Model
import LibDvm.Prober.Table
import LibDvm.Prober.Size
import LibDvm.Prober.Classify
import LibDvm.Prober.Probe
import LibDvm.Volume.Model
import LibDvm.Volume.Drivers
import LibDvm.Volume.Ownership
import LibDvm.Volume.Orphaned
import LibDvm.Volume.Naming
import LibDvm.Volume.Startup
import LibDvm.Volume.Shutdown
import LibDvm.Volume.Contents
import LibDvm.Volume.Calico
import LibDvm.Mount.Model
import LibDvm.Mount.InUse
import LibDvm.Mount.Tiles
import LibDvm.NitroFs.Model
import LibDvm.NitroFs.Listing
import LibDvm.NitroFs.Reading
import LibDvm.NitroFs.Session
import LibDvm.Fat.Model
import LibDvm.Fat.FatFs
import LibDvm.Fat.Position
import LibDvm.Fat.Truncate
import LibDvm.Fat.Open
import LibDvm.Fat.Time
import LibDvm.Fat.Attributes
import LibDvm.Fat.Session
import LibDvm.Fat.Listing
import LibDvm.Ext.Model
import LibDvm.Ext.WriteBack
import LibDvm.Ext.Balance
import LibDvm.Ext.Listing
