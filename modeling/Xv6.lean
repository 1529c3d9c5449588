import Xv6.Lib.Runs
import Xv6.Lib.Writes
import Xv6.Lib.Frame
import Xv6.Lib.Scan
import Xv6.Lib.Fifo
import Xv6.Lib.Ring
import Xv6.Lib.Bytes
import Xv6.Lib.Alloc
import Xv6.Lib.Dlist
import Xv6.Lib.Slots
import Xv6.Lib.Lang
import Xv6.Lib.Total
import Xv6.Lib.Pool
import Xv6.Param
import Xv6.Riscv
import Xv6.Log.Ops
import Xv6.Log.Crash
import Xv6.Vm.State
import Xv6.Vm.Walk
import Xv6.Vm.Table
import Xv6.Fs.SwapFile
import Xv6.Fs.Pipe
import Xv6.Dev.Console
import Xv6.Paging.Meta
import Xv6.Paging.Policy
import Xv6.Paging.Uvm
import Xv6.Paging.Map
import Xv6.Paging.Fault
import Xv6.Paging.Invariant
import Xv6.Proc.Proc
import Xv6.Proc.Exec
import Xv6.Proc.Machine
import Xv6.Proc.Paging
import Xv6.Proc.Replacement
import Xv6.Fs.Tree
import Xv6.Fs.Links
import Xv6.Fs.Blocks
import Xv6.Lib.Endian
import Xv6.Fs.Layout
import Xv6.Fs.Mkfs
import Xv6.Fs.Mount
import Xv6.Fs.MkfsSpec
import Xv6.Fs.MkfsRun
import Xv6.Fs.MkfsMount
import Xv6.Fs.Bcache
import Xv6.Fs.Path
import Xv6.Fs.Dirs
import Xv6.Fs.Named
import Xv6.Fs.Itoa
import Xv6.User.Grep
import Xv6.User.Umalloc
import Xv6.User.ShGrammar
import Xv6.User.Sh
import Xv6.User.ShLex
import Xv6.User.ShParse
import Xv6.User.ShComplete
import Xv6.Dev.Virtio
