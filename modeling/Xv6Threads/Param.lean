import Mathlib.Data.Nat.Notation

/-! The sizes of `param.h` and `mkfs.c`, and the types of inodes of `stat.h`, as far as several parts of the system use
them. -/
namespace Xv6Threads

/-- Open files of a process. -/
def nofile : ℕ := 16

/-- Blocks that a file system operation may write. -/
abbrev maxOpBlocks : ℕ := 10

def logSize : ℕ := maxOpBlocks*3

/-- Buffers in the cache, `MAXOPBLOCKS*3`. -/
abbrev nbuf : ℕ := 30

/-- Blocks of the file system. -/
abbrev fssize : ℕ := 1000

/-- `NINODES` -/
abbrev ninodes : ℕ := 200

def tDir : ℕ := 1

def tFile : ℕ := 2

end Xv6Threads
