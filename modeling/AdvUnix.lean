import AdvUnix.Lib.Bytes
import AdvUnix.Lib.StepMachine
import AdvUnix.Elf.Loader
import AdvUnix.Sdb.Text
import AdvUnix.Sdb.Kernel
import AdvUnix.Sdb.Debugger
import AdvUnix.Sdb.Tracee
import AdvUnix.Sdb.BreakTable
import AdvUnix.Sdb.Stops
import AdvUnix.Sdb.Core
import AdvUnix.Sdb.Native
import AdvUnix.Sdb.Sample
import AdvUnix.Sdb.Transparency
import AdvUnix.Sdb.BreakDelete
import AdvUnix.Sdb.NoMiss
import AdvUnix.Sdb.Restore
import AdvUnix.Lib.Lockstep
import AdvUnix.Sdb.Restart
import AdvUnix.Sdb.LifeCycle
import AdvUnix.Elf.Tables
import AdvUnix.Elf.Correct
import AdvUnix.Elf.Safety
import AdvUnix.Sdb.Loading
import AdvUnix.Lib.X86
import AdvUnix.Libmini.Jmp
import AdvUnix.Lib.Triple
import AdvUnix.Logger.Hooks
import AdvUnix.Logger.Transparent
import AdvUnix.Lib.WordSet
import AdvUnix.Libmini.Sigset
import AdvUnix.Lib.LastWrite
import AdvUnix.Libmini.Signal
import AdvUnix.Libmini.Perror
import AdvUnix.Lsof.Links
import AdvUnix.Sdb.Prompt
import AdvUnix.Sdb.Dump
import AdvUnix.Lib.EventLog
import AdvUnix.Sdb.Protocol
import AdvUnix.Sdb.Robust
import AdvUnix.Lib.Getopt
import AdvUnix.Logger.CommandLine
import AdvUnix.Lib.Descriptors
import AdvUnix.Logger.Descriptors
import AdvUnix.Sdb.SingleStep
import AdvUnix.Libmini.Arguments
import AdvUnix.Sdb.Numerals
import AdvUnix.Sdb.SetGet
import AdvUnix.Sdb.Edits
import AdvUnix.Sdb.Missing
import AdvUnix.Sdb.Cache
import AdvUnix.Lib.Paths
import AdvUnix.Sdb.Paths
import AdvUnix.Lib.X86Routine
import AdvUnix.Libmini.JmpResult
import AdvUnix.Libmini.Sleep
import AdvUnix.Logger.Previews
import AdvUnix.Lib.Words
import AdvUnix.Lsof.Passwd
import AdvUnix.Lsof.MapsFormat
import AdvUnix.Lsof.Maps
import AdvUnix.Lsof.MappedFiles
import AdvUnix.Lsof.OpenFiles
import AdvUnix.Sdb.Vmmap
import AdvUnix.Logger.Arrays
import AdvUnix.Logger.Buffers
import AdvUnix.Lib.CopyLoop
import AdvUnix.Libmini.Loops
import AdvUnix.Libmini.Mask
import AdvUnix.Lsof.FdInfo
import AdvUnix.Lsof.ProcessInfo
import AdvUnix.Lsof.Program
import AdvUnix.Sdb.Ids
import AdvUnix.Sdb.Listing
import AdvUnix.Sdb.Session
import AdvUnix.Elf.Ownership
import AdvUnix.Logger.Record
import AdvUnix.Sdb.Teardown
import AdvUnix.Libmini.Calls
import AdvUnix.Lib.Interleaving
import AdvUnix.Logger.Shared
