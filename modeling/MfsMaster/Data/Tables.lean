/-
  MfsMaster.Data.Tables
  **CHUNK TABLES** (`filesystem.c`): the functions that change the chunk table of a
  file together with the files of the chunks in it, for the leader and the replica
  alike.
-/
import MfsMaster.Fs.Attrs
import MfsMaster.Chunk.Modify

namespace MfsMaster

/-- `MAX_INDEX`. -/
def maxIndex : Nat := 0x7FFFFFFF

/-- The chunk table with at least `n` entries. -/
def growTab (n : Nat) (tab : List Nat) : List Nat :=
  tab ++ List.replicate (n - tab.length) 0

namespace FsNode

def setChunktab (tab : List Nat) (n : FsNode) : FsNode := { n with chunktab := tab }

def setLength (length : UInt64) (n : FsNode) : FsNode := { n with length := length }

def setAtime (ts : UInt32) (n : FsNode) : FsNode := { n with atime := ts }

def setMtimeAtime (ts : UInt32) (n : FsNode) : FsNode := { n with mtime := ts, atime := ts }

end FsNode

namespace Master

/-! ## §1. Single chunks. -/

variable (s : Master)

/-- `chunk_add_file`. -/
def chunkAddFile (chunkid sclassid : Nat) : Master :=
  s.modChunk chunkid fun c => chunkAddFileInt s.sclasses c sclassid

/-- `chunk_add_file` for every chunk of a list. -/
def addFiles (sclassid : Nat) (tab : List Nat) : Master :=
  tab.foldl (fun s chunkid => if 0 < chunkid then s.chunkAddFile chunkid sclassid else s) s

/-- A chunk under a new number. -/
def putChunk (chunkid : Nat) (c : Chunk) : Master :=
  { s with chunks := fun j => if j = chunkid then some c else s.chunks j }

/-- `chunk_delete`. -/
def chunkDelete (chunkid : Nat) : Master :=
  { s with chunks := fun j => if j = chunkid then none else s.chunks j }

/-- `chunk_new(nextchunkid++)` with what is done to the new chunk. -/
def addChunk (c : Chunk) : Master :=
  { s.putChunk s.nextchunkid c with nextchunkid := s.nextchunkid + 1 }

/-- Unlocking a chunk at `ts`. -/
def unlockChunk (ts : UInt32) (c : Chunk) : Chunk :=
  { c with lockedto := ts - 1, writeinprogress := false }

/-! ## §2. Changes with their statistics. -/

/-- A change of a file together with the statistics of the directories above it:
`fsnodes_get_stats(p,&psr,0)`, the change, `fsnodes_get_stats(p,&nsr,1)` and
`fsnodes_add_sub_stats` for every parent. -/
def changeData (i : Nat) (change : Master → Master) : Master :=
  let psr := s.fsnodesGetStats i
  let s := (change s).fixRatio i
  s.addSubStatsAbove i (s.fsnodesGetStats i) psr

/-- `mtime` and `ctime` are set and the archive mode is checked, if `canmodmtime`. -/
def touchData (i : Nat) (ts : UInt32) (canmodmtime : Bool) : Master :=
  if canmodmtime then
    ((s.modNode i (.setMtimeCtime ts)).fsnodesCheckarchmode i ts
      (archModeCtime ||| archModeMtime)).1
  else s

/-- `fsnodes_setlength`; only a node with data has a length and a table. -/
def fsnodesSetlength (i : Nat) (length : UInt64) : Master :=
  match s.nodes i with
  | none => s
  | some n =>
    if !n.type.hasData then s else
    let chunks := chunksForLength length
    let s := s.changeData i fun s =>
      ((s.modNode i (.setLength length)).deleteFiles n.sclassid (n.chunktab.drop chunks)).modNode i
        (.setChunktab (n.chunktab.take chunks))
    s.modNode i .clearSnapshot

/-- The number of the last chunk of a length: 0 for the first chunk and for no chunk. -/
def lastIndex (length : UInt64) : Nat := (lastChunk length).1

/-- The work of `fsnodes_append_slice_of_chunks`: after its first `dstchunks` chunks the file `dst`
gets the chunks `slice` of the file `src` (0 where it has none), and the length `length`. -/
def appendChunks (ts : UInt32) (dst src : Nat) (dstobj : FsNode) (dstchunks : Nat)
    (slice : List Nat) (length : UInt64) : Master :=
  let newchunks := slice.length + dstchunks
  let tab := growTab newchunks dstobj.chunktab
  let s := s.changeData dst fun s =>
    ((s.deleteFiles dstobj.sclassid (tab.drop dstchunks)).addFiles dstobj.sclassid slice).modNode dst
      fun n => (n.setChunktab (tab.take dstchunks ++ slice
        ++ List.replicate (tab.length - newchunks) 0)).setLength length
  let s := (s.modNode dst (.setMtimeAtime ts)).modNode src (.setAtime ts)
  let s := (s.fsnodesCheckarchmode dst ts (archModeMtime ||| archModeAtime)).1
  (s.fsnodesCheckarchmode src ts archModeAtime).1

/-- `fsnodes_append_slice_of_chunks`. -/
def fsnodesAppendSliceOfChunks (ts : UInt32) (dst src : Nat) (dstobj srcobj : FsNode)
    (sliceFrom sliceTo : Nat) : Status × Master :=
  let last := lastIndex srcobj.length
  -- an old client appends the whole file
  let whole := sliceFrom = 0xFFFFFFFF ∧ sliceTo = 0
  let sliceFrom := if whole then 0 else sliceFrom
  let sliceTo := if whole then last else sliceTo
  if last < sliceTo ∨ last < sliceFrom ∨ sliceTo < sliceFrom then (.einval, s)
  else
    let srcchunks := if 0 < srcobj.length then sliceTo - sliceFrom + 1 else 0
    let dstchunks := chunksForLength dstobj.length
    let newchunks := srcchunks + dstchunks
    if 2 ^ 32 ≤ newchunks ∨ newchunks = 0 ∨ maxIndex < newchunks - 1 then (.indextoobig, s)
    else
      let length := if last ≤ sliceTo then
          (UInt64.ofNat dstchunks <<< 26) + srcobj.length - (UInt64.ofNat sliceFrom <<< 26)
        else UInt64.ofNat newchunks <<< 26
      (.ok, s.appendChunks ts dst src dstobj dstchunks
        (growTab srcchunks ((srcobj.chunktab.drop sliceFrom).take srcchunks)) length)

/-- The node and its chunk table for `indx`, as the functions of the data path look them up. -/
def dataNode (inode indx : Nat) (notData : Status) : Except Status FsNode := do
  let n ← require (s.nodes inode) .enoent
  refuse (!n.type.hasData) notData
  refuse (maxIndex < indx) .indextoobig
  return n

/-- `fs_univ_rollback` before the chunk is unlocked. -/
def rollbackTable (inode indx prevchunkid chunkid : Nat) (n : FsNode) : Master :=
  if prevchunkid = chunkid then s
  else s.changeData inode fun s =>
    let s := if 0 < prevchunkid then s.chunkAddFile prevchunkid n.sclassid else s
    (s.chunkDeleteFile chunkid n.sclassid).modNode inode
      (.setChunktab (n.chunktab.set indx prevchunkid))

/-- The tests of `fs_univ_rollback`. -/
def rollbackCheck (inode indx : Nat) : Except Status FsNode := do
  let n ← s.dataNode inode indx .eperm
  refuse (n.chunktab.length ≤ indx) .einval
  return n

end Master

end MfsMaster
