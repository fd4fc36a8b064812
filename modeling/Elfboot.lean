import Elfboot.Run
import Elfboot.Loop
import Elfboot.Dyadic
import Elfboot.Circular
import Elfboot.Word
import Elfboot.Mm
import Elfboot.PageAlloc
import Elfboot.BuddyInv
import Elfboot.BuddyOps
import Elfboot.BuddyBoot
import Elfboot.BuddyRuns
import Elfboot.BuddyLists
import Elfboot.BuddyCoalesce
import Elfboot.Memblock
import Elfboot.RegionList
import Elfboot.RegionOrder
import Elfboot.MemblockTable
import Elfboot.MemblockRuns
import Elfboot.E820
import Elfboot.Errno
import Elfboot.Buffer
import Elfboot.Super
import Elfboot.Ext2
import Elfboot.Ext2Block
import Elfboot.Ext2Read
import Elfboot.Slub
import Elfboot.SlubInv
import Elfboot.SlubOps
import Elfboot.SlubRuns
import Elfboot.SlubBooks
import Elfboot.Str
import Elfboot.Loader
import Elfboot.LoaderParse
import Elfboot.LoaderRuns
import Elfboot.LoaderEnds
import Elfboot.ModuleImage
import Elfboot.ModuleReloc
import Elfboot.FsTree
import Elfboot.Lookup
import Elfboot.LookupFollows
import Elfboot.LookupCache
import Elfboot.Traversal
import Elfboot.Pci
import Elfboot.PciFinds
import Elfboot.Slots
import Elfboot.Ahci
import Elfboot.AhciTables
import Elfboot.FileRead
import Elfboot.ShortRead
import Elfboot.FileCaught
import Elfboot.Lxboot
import Elfboot.MemblockAlloc
import Elfboot.Copy
import Elfboot.Input
import Elfboot.Tty
import Elfboot.Symbol
import Elfboot.ModuleSymbols
import Elfboot.Printf
import Elfboot.PrintfPieces
import Elfboot.Ext2Dir
import Elfboot.IsoDir
import Elfboot.Forest
import Elfboot.Tree
import Elfboot.BlockCount
import Elfboot.Ext2Walk
import Elfboot.IsoWalk
import Elfboot.WordWrites
import Elfboot.ModuleApply
import Elfboot.StrTwin
import Elfboot.LoaderOption
import Elfboot.Checked
import Elfboot.ModuleLoad
import Elfboot.ModuleEnds
import Elfboot.ModuleLeak
import Elfboot.ModuleStale
import Elfboot.DiskAddress
import Elfboot.FileRuns
import Elfboot.Objects
import Elfboot.Ext2Mount
import Elfboot.Ext2Steady
import Elfboot.Ext2Super
import Elfboot.Ext2Leak
import Elfboot.BootChunks
import Elfboot.SizeClass
import Elfboot.MemblockBounds
import Elfboot.Fuel
import Elfboot.PrintfLoops
import Elfboot.PrintfEnds
import Elfboot.PrintfSigned
import Elfboot.SymbolCaller
import Elfboot.PciMatch
import Elfboot.PciCalls
import Elfboot.Kbd
import Elfboot.Spans
import Elfboot.Tokenizers
import Elfboot.Strtoul
import Elfboot.Mboot1Info
import Elfboot.Mboot1Search
import Elfboot.MenuRuns
import Elfboot.IdeReports
import Elfboot.Division
import Elfboot.Libata
import Elfboot.StringCopy
import Elfboot.ModuleAgrees
import Elfboot.SymtabAgrees
import Elfboot.Memmove
import Elfboot.Crc32
import Elfboot.SlubStats
import Elfboot.MemblockTotal
import Elfboot.LoaderBlocks
import Elfboot.ConsoleText
import Elfboot.Typing
import Elfboot.BootRam
import Elfboot.IdeRead
import Elfboot.IdeDrive
import Elfboot.IdeAtapi
import Elfboot.MountRuns
import Elfboot.HeapRuns
import Elfboot.DeviceRuns
