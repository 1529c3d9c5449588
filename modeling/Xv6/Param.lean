import Mathlib.Data.Nat.Basic

namespace Xv6

-- kernel/param.h
def NPROC : Nat := 64

theorem NPROC_pos : 0 < NPROC := by decide

theorem one_lt_NPROC : 1 < NPROC := by decide

def NFILE : Nat := 100
def MAXOPBLOCKS : Nat := 10
def LOGSIZE : Nat := MAXOPBLOCKS * 3
def NBUF : Nat := MAXOPBLOCKS * 3
def ROOTDEV : Nat := 1
def FSSIZE : Nat := 1000
def MAX_PYSC_PAGES : Nat := 16
def MAX_TOTAL_PAGES : Nat := 32

-- kernel/fs.h
def ROOTINO : Nat := 1
def BSIZE : Nat := 1024
def NDIRECT : Nat := 12
def NINDIRECT : Nat := BSIZE / 4
def MAXFILE : Nat := NDIRECT + NINDIRECT
def DIRSIZ : Nat := 14
def BPB : Nat := BSIZE * 8

-- mkfs/mkfs.c: the log area mkfs lays out holds LOGSIZE blocks, header included.
def nlog : Nat := LOGSIZE

end Xv6
