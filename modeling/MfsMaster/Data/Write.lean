/-
  MfsMaster.Data.Write
  **WRITING, TRUNCATING, APPENDING AND REPAIRING** on the leader: `fs_writechunk`,
  `fs_try_setlength`, `fs_append_slice` and `fs_repair` with the chunk functions below
  them, and the part of `matoclserv.c` that decides which request waits.
-/
import Mathlib
import MfsMaster.Data.Reports

namespace MfsMaster.System

open Master

/-! ## §1. Chunks. -/

/-- What distinguishes `chunk_multi_modify` from `chunk_multi_truncate`: the change of a chunk of
one file, the operation that copies a shared one, and whether a write is in progress after it. -/
structure ChunkChange where
  inPlace : Chunk → Bool × Chunk
  dupOp : Operation
  writes : Bool

def ChunkChange.modify : ChunkChange :=
  { inPlace := modifyInPlace, dupOp := .duplicate, writes := true }

def ChunkChange.truncate : ChunkChange :=
  { inPlace := fun c => (true, truncateInPlace c), dupOp := .duptrunc, writes := false }

/-- The lock a change leaves. -/
def ChunkChange.finish (ch : ChunkChange) (ts : UInt32) (c : Chunk) : Chunk :=
  (c.lock ts).setWriteinprogress (c.writeinprogress || ch.writes)

/-- The answer of a change: the chunk and `opflag`. -/
abbrev Changed := Except Status (Nat × Bool)

variable (sys : System) (srv : Servers)

/-- A new chunk (`ochunkid==0`). -/
def createChunk (sclassid : Nat) : System × Changed :=
  if srv.csids.isEmpty then
    (sys, .error (if srv.overloaded || !srv.csalldata then .eagain
      else if srv.anyServer && srv.csstable then .nospace else .nochunkservers))
  else
    (sys.modFs fun s => s.addChunk
        (ChunkChange.modify.finish srv.now (createOn s.sclasses sclassid srv.csids)),
      .ok (sys.fs.nextchunkid, true))

/-- The change of a chunk of one file. -/
def changeOwn (ch : ChunkChange) (chunkid : Nat) (c : Chunk) :
    System × Changed :=
  let m := ch.inPlace c
  (sys.modFs (·.putChunk chunkid (ch.finish srv.now m.2)), .ok (chunkid, m.1))

/-- The copy of a shared chunk for the file that changes it. -/
def changeShared (ch : ChunkChange) (chunkid sclassid : Nat)
    (oc : Chunk) : System × Changed :=
  let tab := sys.fs.sclasses
  (sys.modFs fun s => (s.putChunk chunkid (chunkDeleteFileInt tab oc sclassid).2).addChunk
      (ch.finish srv.now (duplicateOf tab sclassid ch.dupOp oc)),
    .ok (sys.fs.nextchunkid, true))

/-- `chunk_univ_multi_modify` and `chunk_univ_multi_truncate` of an existing chunk, on the
leader. -/
def changeChunk (ch : ChunkChange) (continueop : Bool)
    (ochunkid sclassid : Nat) : System × Changed :=
  let sys := sys.dropDisconnected srv ochunkid
  match sys.fs.chunks ochunkid with
  | none => (sys, .error .nochunk)
  | some oc =>
    if (srv.now ≤ oc.lockedto ∨ srv.replock ochunkid) ∧ !continueop then (sys, .error .locked)
    else if oc.fhead = .few 0 then (sys, .error .chunklost)
    else
      let p := chunkPrepareToModify srv sys.fs.sclasses oc
      let sys := sys.commit srv ochunkid p.2
      if p.1 ≠ .ok then (sys, .error p.1)
      else if oc.fhead = .few 1 then sys.changeOwn srv ch ochunkid p.2.1
      else sys.changeShared srv ch ochunkid sclassid p.2.1

/-- `chunk_multi_modify`. -/
def chunkMultiModify (continueop : Bool) (ochunkid sclassid : Nat) :
    System × Changed :=
  if ochunkid = 0 then sys.createChunk srv sclassid
  else sys.changeChunk srv .modify continueop ochunkid sclassid

/-- `chunk_multi_truncate`. -/
def chunkMultiTruncate (ochunkid sclassid : Nat) :
    System × Changed :=
  sys.changeChunk srv .truncate false ochunkid sclassid

/-! ## §2. `fs_writechunk`. -/

/-- `MFSCHUNKSIZE+MFSHDRSIZE`. -/
def fullChunk : UInt32 := 0x04002000

/-- The entry of a chunk table, 0 beyond its end. -/
def entryAt (n : FsNode) (indx : Nat) : Nat := n.chunktab.getD indx 0

/-- The demand of `sizediff` more bytes for a file. -/
def sizeDemand (s : Master) (n : FsNode) (lengdiff : UInt64) (sizediff : UInt32) : Demand :=
  { inodes := 0, length := lengdiff, size := sizediff.toUInt64
    realsize := ((s.sclasses.sclassGetKeeparchMaxstorageEights n.sclassid).toUInt32 * sizediff
      / 8).toUInt64 }

/-- `nlength`: the length a write makes sure of. -/
def writeLength (n : FsNode) (indx : Nat) : UInt64 :=
  if indx ≤ (lastChunk n.length).1 then n.length else UInt64.ofNat indx <<< 26

/-- What a write of the chunk `indx` may need. -/
def writeDemand (s : Master) (n : FsNode) (indx : Nat) : Demand :=
  let last := lastChunk n.length
  let sizediff : UInt32 :=
    if last.1 < indx ∨ entryAt n indx = 0 then fullChunk
    else if indx = last.1 then fullChunk - last.2.toUInt32
    else 0
  sizeDemand s n (writeLength n indx - n.length) sizediff

/-- The tests of `fs_writechunk`. -/
def writeCheck (inode indx : Nat) (canusereserve : Bool) :
    Except Status FsNode := do
  refuse (!srv.availspace && !canusereserve) .nospace
  let n ← require (sys.fs.nodes inode) .enoent
  refuse (!n.type.hasData) .eperm
  refuse (hasBit n.eattr eattrImmutable) .eperm
  refuse (maxIndex < indx) .indextoobig
  refuse (sys.fs.fsnodesTestQuota inode (writeDemand sys.fs n indx)) .quota
  return n

/-- What a request for a chunk returns. -/
structure ChunkReply where
  status : Status
  indx : Nat
  prevchunkid : Nat
  chunkid : Nat
  opflag : Bool
  deriving Repr, DecidableEq

def ChunkReply.error (st : Status) : ChunkReply :=
  { status := st, indx := 0, prevchunkid := 0, chunkid := 0, opflag := false }

/-- The end of a successful `fs_writechunk`: the table, the length and the statistics. -/
def writeTable (s : Master) (inode indx nchunkid : Nat) (nlength : UInt64) (psr : StatsRecord) :
    Master :=
  let s := s.modNode inode fun n => n.setChunktab (n.chunktab.set indx nchunkid)
  let s := s.modNode inode fun n => if n.length < nlength then n.setLength nlength else n
  let s := s.fixRatio inode
  (s.addSubStatsAbove inode (s.fsnodesGetStats inode) psr).modNode inode .clearSnapshot

/-- `fs_writechunk` after its tests. -/
def writeBody (inode indx : Nat) (continueop canmodtime : Bool) (n : FsNode) :
    ChunkReply × System :=
  let psr := sys.fs.fsnodesGetStats inode
  let ochunkid := entryAt n indx
  let sys := sys.modFs (·.modNode inode (.setChunktab (growTab (indx + 1) n.chunktab)))
  let r := sys.chunkMultiModify srv continueop ochunkid n.sclassid
  match r.2 with
  | .error st => ({ ChunkReply.error st with prevchunkid := ochunkid }, r.1)
  | .ok (nchunkid, opflag) =>
    let sys := r.1.modFs (writeTable · inode indx nchunkid (writeLength n indx) psr)
    let sys := sys.changelog (.write srv.now inode indx opflag canmodtime nchunkid)
    (⟨.ok, indx, ochunkid, nchunkid, opflag⟩, sys.modFs (·.touchData inode srv.now canmodtime))

/-- `fs_writechunk`. -/
def fsWritechunk (inode indx : Nat)
    (continueop canmodtime canusereserve : Bool) : ChunkReply × System :=
  match sys.writeCheck srv inode indx canusereserve with
  | .error st => (.error st, sys)
  | .ok n => sys.writeBody srv inode indx continueop canmodtime n

/-! ## §3. `fs_try_setlength`. -/

/-- `TRUNCATE_FLAG_*` and the rights of a request to change a length. -/
structure LengthRequest where
  session : Session
  cred : Cred
  inode : Nat
  flags : UInt8
  length : UInt64
  noTruncate : Bool
  noSetlength : Bool

/-- What a longer file may need.  That the table has an entry `lastchunk_pre` is not tested in the
source; here an entry beyond the table is 0. -/
def lengthDemand (s : Master) (n : FsNode) (length : UInt64) : Demand :=
  let pre := lastChunk n.length
  let post := lastChunk length
  let sizediff : UInt32 :=
    if entryAt n pre.1 = 0 then 0
    else if pre.1 < post.1 then fullChunk - pre.2.toUInt32
    else post.2.toUInt32 - pre.2.toUInt32
  -- `size_diff` is a `uint64_t` here, so that the product cannot overflow
  { inodes := 0, length := length - n.length, size := sizediff.toUInt64
    realsize := (s.sclasses.sclassGetKeeparchMaxstorageEights n.sclassid).toUInt64
      * sizediff.toUInt64 / 8 }

/-- The tests of `fs_try_setlength`: the file and, unless this is only an update, the length. -/
def lengthCheck (q : LengthRequest) : Except Status (Nat × FsNode × Option UInt64) := do
  let s := sys.fs
  let opened := hasBit q.flags truncateFlagOpened
  refuse q.session.flags.readonly .erofs
  let p ← require (s.nodeFindOpened q.session opened q.inode) .enoent
  refuse (hasBit p.2.eattr eattrImmutable) .eperm
  refuse (hasBit p.2.eattr eattrAppendonly
    && !hasBit q.flags (truncateFlagReserve ||| truncateFlagUpdate)) .eperm
  refuse (!opened && !s.fsnodesAccessExt p.1 p.2 q.cred modeMaskW q.session.flags) .eacces
  refuse (!p.2.type.hasData) .eperm
  if hasBit q.flags truncateFlagUpdate then return (p.1, p.2, none)
  else
    let reserve := hasBit q.flags truncateFlagReserve
    let vleng := if sys.vleng p.1 < p.2.length then p.2.length else sys.vleng p.1
    let length := if reserve then q.length + vleng else q.length
    refuse (reserve && length < q.length) .indextoobig
    refuse (!reserve && q.noTruncate && length < p.2.length) .eperm
    refuse (!reserve && q.noSetlength && p.2.length < length) .eperm
    refuse (p.2.length < length && maxIndex < lastIndex length) .indextoobig
    refuse (p.2.length < length
      && s.fsnodesTestQuota p.1 (lengthDemand s p.2 length)) .quota
    return (p.1, p.2, if reserve then none else some length)

/-- `fs_try_setlength`: `DELAYED` when a chunk has to be cut. -/
def fsTrySetlength (q : LengthRequest) : ChunkReply × System :=
  match sys.lengthCheck q with
  | .error st => (.error st, sys)
  | .ok (_, _, none) => (.error .ok, sys)
  | .ok (i, n, some length) =>
    let indx := (length >>> 26).toUInt32.toNat
    let ochunkid := entryAt n indx
    if length ≠ n.length ∧ length &&& 0x03FFFFFF ≠ 0 ∧ 0 < ochunkid then
      let r := sys.chunkMultiTruncate srv ochunkid n.sclassid
      match r.2 with
      | .error st => ({ ChunkReply.error st with indx := indx, prevchunkid := ochunkid }, r.1)
      | .ok (nchunkid, opflag) =>
        let sys := r.1.modFs (·.modNode i fun n => n.setChunktab (n.chunktab.set indx nchunkid))
        (⟨.delayed, indx, ochunkid, nchunkid, opflag⟩,
          sys.changelog (.trunc srv.now i indx nchunkid))
    else (.error .ok, sys)

/-! ## §4. Requests that wait. -/

/-- `matoclserv_fuse_write_chunk_common`: a write with an operation under way waits for it; one
without is answered at once, and its chunk unlocked again when it cannot be used. -/
def fuseWriteChunk (client : Nat) (ses : Session)
    (type : SwType) (inode indx : Nat) (continueop canmodtime canusereserve : Bool) :
    ChunkReply × System :=
  if ses.flags.readonly ∧ type = .write then (.error .erofs, sys) else
  let r := sys.fsWritechunk srv inode indx continueop canmodtime canusereserve
  if r.1.status ≠ .ok then r
  else if r.1.opflag then
    (r.1, { r.2 with swchunks :=
      ⟨r.1.chunkid, r.1.prevchunkid, client, ses, inode, indx, 0, 0, type⟩ :: r.2.swchunks })
  else if type = .create ∨ csdataAnswer srv (r.2.fs.chunks r.1.chunkid) ≠ .ok then
    (r.1, (r.2.fsWriteend srv 0 0 r.1.chunkid false).2)
  else r

/-- `matoclserv_fuse_truncate_common`. -/
def fuseTruncate (client : Nat) (q : LengthRequest) :
    Status × System :=
  let r := sys.fsTrySetlength srv q
  if r.1.status = .delayed then
    (.delayed, { r.2 with swchunks :=
      ⟨r.1.chunkid, r.1.prevchunkid, client, q.session, q.inode, r.1.indx, q.length, q.flags,
        .truncate⟩ :: r.2.swchunks })
  else if r.1.status = .ok then r.2.fsDoSetlength srv q.session q.inode q.flags q.length
  else (r.1.status, r.2)

/-! ## §5. `fs_repair`. -/

/-- The tests of `fs_repair`. -/
def repairCheck (s : Master) (ses : Session) (c : Cred) (inode : Nat) :
    Except Status (Nat × FsNode) := do
  refuse ses.flags.readonly .erofs
  let p ← require (s.fsnodesNodeFindExt ses.rootinode ses.flags inode) .enoent
  refuse (!p.2.type.hasData) .eperm
  refuse (hasBit p.2.eattr eattrImmutable) .eperm
  refuse (!s.fsnodesAccessExt p.1 p.2 c modeMaskW ses.flags) .eacces
  return p

/-- One chunk of a file: `none` when it is left as it is, else `nversion`. -/
def repairChunk (s : Master) (srv : Servers) (sclassid chunkid : Nat) (erase : Bool) :
    Option Nat × Master :=
  if chunkid = 0 then (none, s)
  else match s.chunks chunkid with
    | none => (some 0, s)
    | some c =>
      let r := chunkRepair srv s.sclasses chunkid sclassid erase c
      (r.1, s.putChunk chunkid r.2)

/-- One round of the loop of `fs_repair`. -/
def repairEntry (i sclassid : Nat) (erase : Bool) (sys : System) (e : Nat × Nat) :
    System :=
  let r := repairChunk sys.fs srv sclassid e.1 erase
  match r.1 with
  | none => { sys with fs := r.2 }
  | some nversion =>
    let sys := ({ sys with fs := r.2 } : System).changelog (.repair srv.now i e.2 nversion)
    let sys := sys.modFs (·.touchData i srv.now true)
    if 0 < nversion then sys
    else sys.modFs (·.modNode i fun n => n.setChunktab (n.chunktab.set e.2 0))

/-- `fs_repair`. -/
def fsRepair (ses : Session) (c : Cred) (inode : Nat)
    (erase : Bool) : Status × System :=
  match repairCheck sys.fs ses c inode with
  | .error st => (st, sys)
  | .ok (i, n) =>
    let psr := sys.fs.fsnodesGetStats i
    let sys := n.chunktab.zipIdx.foldl (repairEntry srv i n.sclassid erase) sys
    (.ok, sys.modFs fun s =>
      let s := s.fixRatio i
      s.addSubStatsAbove i (s.fsnodesGetStats i) psr)

/-! ## §6. `fs_append_slice`. -/

def appendSliceFromNeg : UInt8 := 1
def appendSliceToNeg : UInt8 := 2

/-- The slice `[from,to)` of a request, counted from the end where `flags` say so, as the closed
interval of chunks that is appended; `none` when it is empty. -/
def sliceOf (flags : UInt8) (last sliceFrom sliceTo : Nat) : Option (Nat × Nat) :=
  let sliceFrom := if hasBit flags appendSliceFromNeg then last + 1 - sliceFrom else sliceFrom
  if hasBit flags appendSliceToNeg ∧ last + 1 < sliceTo then none
  else
    let sliceTo := if hasBit flags appendSliceToNeg then last + 1 - sliceTo else sliceTo
    if sliceTo ≤ sliceFrom then none
    else
      let sliceTo := min (sliceTo - 1) last
      if sliceTo < sliceFrom then none else some (sliceFrom, sliceTo)

/-- The size of the chunk `i` of a file of which `last` is the last one. -/
def chunkSizeAt (last : Nat × UInt64) (i : Nat) : UInt64 :=
  if i < last.1 then fullChunk.toUInt64 else if i = last.1 then last.2 else 0

/-- What appending a slice may need, and the new length. -/
def appendDemand (s : Master) (p sp : FsNode) (slice : Nat × Nat) : UInt64 × Demand :=
  let last := lastChunk sp.length
  let addlength := if last.1 ≤ slice.2 then sp.length - (UInt64.ofNat slice.1 <<< 26)
    else UInt64.ofNat (1 + slice.2 - slice.1) <<< 26
  let dstchunks := chunksForLength p.length
  let lastdst := lastChunk p.length
  let newlength := (UInt64.ofNat dstchunks <<< 26) + addlength
  let gained := ((List.range' slice.1 (slice.2 + 1 - slice.1)).map fun i =>
    if 0 < entryAt sp i then chunkSizeAt last i else 0).sum
  let filled := (p.chunktab.zipIdx.map fun e =>
    if e.1 = 0 then 0
    else if lastdst.1 < e.2 ∨ dstchunks = 0 then 0 - fullChunk.toUInt64
    else if e.2 = lastdst.1 then fullChunk.toUInt64 - lastdst.2
    else 0).sum
  let sizediff := gained + filled
  (newlength, { inodes := 0, length := newlength - p.length, size := sizediff
                realsize := ((s.sclasses.sclassGetKeeparchMaxstorageEights p.sclassid).toUInt64
                  * sizediff) / 8 })

/-- The tests of `fs_append_slice`: the file and the one appended to it. -/
def appendCheck (s : Master) (ses : Session) (c : Cred) (inode inodeSrc : Nat) :
    Except Status ((Nat × FsNode) × (Nat × FsNode)) := do
  refuse (inode == inodeSrc) .einval
  refuse ses.flags.readonly .erofs
  let sp ← require (s.fsnodesNodeFindExt ses.rootinode ses.flags inodeSrc) .enoent
  let p ← require (s.fsnodesNodeFindExt ses.rootinode ses.flags inode) .enoent
  refuse (!sp.2.type.hasData) .eperm
  refuse (!s.fsnodesAccessExt sp.1 sp.2 c modeMaskR ses.flags) .eacces
  refuse (!p.2.type.hasData) .eperm
  refuse (hasBit p.2.eattr eattrImmutable) .eperm
  refuse (!s.fsnodesAccessExt p.1 p.2 c modeMaskW ses.flags) .eacces
  return (p, sp)

/-- `fs_append_slice`. -/
def fsAppendSlice (ts : UInt32) (ses : Session) (c : Cred) (flags : UInt8)
    (inode inodeSrc sliceFrom sliceTo : Nat) : Status × System :=
  match appendCheck sys.fs ses c inode inodeSrc with
  | .error st => (st, sys)
  | .ok (p, sp) =>
    if sp.2.length = 0 then (.ok, sys)
    else match sliceOf flags (lastIndex sp.2.length) sliceFrom sliceTo with
      | none => (.ok, sys)
      | some slice =>
        let d := appendDemand sys.fs p.2 sp.2 slice
        if d.1 < p.2.length then (.einval, sys)
        else if sys.fs.fsnodesTestQuota p.1 d.2 then (.quota, sys)
        else
          let r := sys.fs.fsnodesAppendSliceOfChunks ts p.1 sp.1 p.2 sp.2 slice.1 slice.2
          if r.1 = .ok then
            (.ok, (sys.modFs fun _ => r.2).changelog (.append ts p.1 sp.1 slice.1 slice.2))
          else (r.1, sys)

end MfsMaster.System
