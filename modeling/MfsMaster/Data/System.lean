/-
  MfsMaster.Data.System
  **THE LEADER'S DATA PATH** (`filesystem.c`, `chunks.c`, `matoclserv.c`).

  A write or a truncation changes the chunk table of a file at once; the chunk servers
  answer later.  Between the two the request waits in `swchunks`.  A failure, or the
  end of the client's connection, takes the change of the table back (`fs_rollback`).

  The state of the leader is its metadata, the waiting requests, the reservations of
  appending clients and the change log.
-/
import MfsMaster.Data.Tables
import Mathlib.Data.List.Sort

namespace MfsMaster

/-! ## §1. State. -/

/-- The records of the data path. -/
inductive DataRecord where
  | write (ts : UInt32) (inode indx : Nat) (opflag canmodmtime : Bool) (chunkid : Nat)
  | trunc (ts : UInt32) (inode indx chunkid : Nat)
  | length (ts : UInt32) (inode : Nat) (length : UInt64) (canmodmtime : Bool)
  | unlock (ts : UInt32) (chunkid : Nat)
  | rollback (ts : UInt32) (inode indx prevchunkid chunkid : Nat)
  | repair (ts : UInt32) (inode indx nversion : Nat)
  | setversion (chunkid version : Nat)
  | chunkflagsclr (ts : UInt32) (chunkid : Nat)
  | chunkadd (ts : UInt32) (chunkid version : Nat) (lockedto : UInt32)
  | chunkdel (ts : UInt32) (chunkid version : Nat)
  | append (ts : UInt32) (inode inodeSrc sliceFrom sliceTo : Nat)
  | access (ts : UInt32) (inode : Nat)
  | amtime (ts : UInt32) (inode : Nat) (atime mtime ctime : UInt32)
  | attr (ts : UInt32) (inode : Nat) (mode : UInt16) (uid gid : Nat) (atime mtime : UInt32)
      (winattr : UInt8) (aclmode : UInt16)
  deriving Repr, DecidableEq

/-- `swc->type`. -/
inductive SwType where
  | create
  | write
  | truncate
  deriving Repr, DecidableEq

/-- The session of a client, as far as the data path reads it. -/
structure Session where
  rootinode : Nat
  flags : SesFlags
  deriving Repr, DecidableEq

/-- `swchunks`: a request that waits for the answers of chunk servers. -/
structure SwChunk where
  chunkid : Nat
  prevchunkid : Nat
  client : Nat
  session : Session
  inode : Nat
  indx : Nat
  fleng : UInt64
  flags : UInt8
  type : SwType
  deriving Repr, DecidableEq

/-- The leader. -/
structure System where
  fs : Master
  swchunks : List SwChunk
  /-- `appendres_getvleng`. -/
  vleng : Nat → UInt64
  log : List DataRecord

def truncateFlagOpened : UInt8 := 0x01
def truncateFlagUpdate : UInt8 := 0x02
def truncateFlagTimefix : UInt8 := 0x04
def truncateFlagReserve : UInt8 := 0x08

/-- `fsnodes_node_find_ext` with `skipancestor`. -/
def Master.nodeFindOpened (s : Master) (ses : Session) (opened : Bool) (inode : Nat) :
    Option (Nat × FsNode) :=
  if opened ∧ ses.rootinode ≠ rootId ∧ ses.rootinode ≠ 0 ∧ !ses.flags.metarestore then
    if s.isDir ses.rootinode then
      let i := if inode = rootId then ses.rootinode else inode
      (s.nodes i).map fun n => (i, n)
    else none
  else s.fsnodesNodeFindExt ses.rootinode ses.flags inode

namespace System

variable (sys : System)

/-- `changelog`. -/
def changelog (r : DataRecord) : System := { sys with log := sys.log ++ [r] }

/-- A change of the metadata. -/
def modFs (f : Master → Master) : System := { sys with fs := f sys.fs }

/-! ## §2. Effects. -/

/-- `chunk_unlock`.  What follows once the chunk is unlocked is a step of its own: requests that
wait for the lock are tried again, and entries of lost servers are dropped. -/
def chunkUnlock (srv : Servers) (chunkid : Nat) : Status × System :=
  match sys.fs.chunks chunkid with
  | none => (.nochunk, sys)
  | some c =>
    let c := Master.unlockChunk srv.now c
    if srv.urgent then
      let c' := chunkStateFix (srv.job.run c)
      let sys := sys.modFs (·.putChunk chunkid c')
      (.ok, if c'.version = c.version then sys else sys.changelog (.setversion chunkid c'.version))
    else (.ok, sys.modFs (·.putChunk chunkid c))

/-- `fs_rollback`. -/
def fsRollback (srv : Servers) (inode indx prevchunkid chunkid : Nat) :
    Status × System :=
  match sys.fs.rollbackCheck inode indx with
  | .error st => (st, sys)
  | .ok n =>
    let sys := sys.modFs (·.rollbackTable inode indx prevchunkid chunkid n)
    let sys := sys.changelog (.rollback srv.now inode indx prevchunkid chunkid)
    (.ok, (sys.chunkUnlock srv chunkid).2)

/-- The part of `fs_writeend` that changes the file: a write beyond the end. -/
def writeendLength (srv : Servers) (inode : Nat) (length : UInt64)
    (canmodtime : Bool) : Except Status System := do
  let n ← require (sys.fs.nodes inode) .enoent
  refuse (!n.type.hasData) .eperm
  if n.length < length then
    refuse (sys.fs.fsnodesTestQuota inode ⟨0, length - n.length, 0, 0⟩) .quota
    let sys := sys.modFs fun s => (s.fsnodesSetlength inode length).touchData inode srv.now canmodtime
    let sys := sys.changelog (.length srv.now inode length canmodtime)
    -- appendres_setrleng
    return { sys with vleng := fun i =>
      if i = inode ∧ sys.vleng i ≤ length then 0 else sys.vleng i }
  else return sys

/-- `fs_writeend`. -/
def fsWriteend (srv : Servers) (inode : Nat) (length : UInt64) (chunkid : Nat)
    (canmodtime : Bool) : Status × System :=
  match if 0 < length then sys.writeendLength srv inode length canmodtime else .ok sys with
  | .error st => (st, sys)
  | .ok sys => (sys.changelog (.unlock srv.now chunkid)).chunkUnlock srv chunkid

variable {sys sys' : System} {srv : Servers} {inode : Nat} {length : UInt64} {canmodtime : Bool}

/-- The first part of `fs_writeend` leaves everything as it is, or makes a file longer. -/
theorem writeend_cases
    (h : (if 0 < length then sys.writeendLength srv inode length canmodtime else .ok sys)
      = .ok sys') :
    sys' = sys ∨ ∃ n, sys.fs.nodes inode = some n ∧ n.type.hasData = true ∧ n.length < length ∧
      sys' = { (sys.modFs fun s =>
          (s.fsnodesSetlength inode length).touchData inode srv.now canmodtime).changelog
            (.length srv.now inode length canmodtime) with
        vleng := fun i => if i = inode ∧ sys.vleng i ≤ length then 0 else sys.vleng i } := by
  split at h
  · simp only [writeendLength, except_bind_eq_ok, require_eq_ok, refuse_eq_ok, exists_const] at h
    obtain ⟨n, hn, hd, h⟩ := h
    split at h
    next hlt =>
      simp only [except_bind_eq_ok, refuse_eq_ok, exists_const] at h
      obtain ⟨_, h⟩ := h
      cases h
      exact .inr ⟨n, hn, by simpa using hd, hlt, rfl⟩
    · cases h
      exact .inl rfl
  · cases h
    exact .inl rfl

variable (sys) (srv) (chunkid : Nat)

/-- `fs_end_setlength`. -/
def fsEndSetlength : Status × System :=
  (sys.changelog (.unlock srv.now chunkid)).chunkUnlock srv chunkid

/-- `fs_do_setlength`. -/
def fsDoSetlength (ses : Session) (inode : Nat) (flags : UInt8)
    (length : UInt64) : Status × System :=
  match sys.fs.nodeFindOpened ses (hasBit flags truncateFlagOpened) inode with
  | none => (.enoent, sys)
  | some (i, n) =>
    if hasBit flags truncateFlagReserve then
      let v := if sys.vleng i < n.length then n.length else sys.vleng i
      (.ok, { sys with vleng := fun j => if j = i then length + v else sys.vleng j })
    else
      let sys :=
        if hasBit flags truncateFlagUpdate then
          if n.length < length then
            (sys.modFs (·.fsnodesSetlength i length)).changelog (.length srv.now i length false)
          else sys
        else
          let chtime := !(length == n.length && hasBit flags truncateFlagTimefix)
          (sys.modFs fun s => (s.fsnodesSetlength i length).touchData i srv.now chtime).changelog
            (.length srv.now i length chtime)
      -- appendres_clear
      (.ok, { sys with vleng := fun j => if j = i then 0 else sys.vleng j })

/-- The answer of `chunk_get_version_and_csdata` to a write, `EAGAIN` for a chunk that has only
parts. -/
def csdataAnswer : Option Chunk → Status
  | none => .nochunk
  | some c =>
    let l := c.slist.filter fun s => s.valid.usable && srv.valid s.csid
    let has := fun (first n : Nat) => (List.range n).all fun i => l.any fun s => s.ecid == first + i
    if l.any SEntry.isCopy then .ok
    else if has 0x20 8 || has 0x10 4 then .eagain
    else if c.allGequiv = 0 ∧ srv.csalldata ∧ !c.allowreadzeros then .chunklost
    else .ok

/-- What `matoclserv_chunk_status` does for the request it found. -/
def answerRequest (swc : SwChunk) (st : Status) : System :=
  match swc.type with
  | .create => if st = .ok then (sys.fsWriteend srv swc.inode 0 swc.chunkid false).2 else sys
  | .write =>
    let st := if st = .ok then csdataAnswer srv (sys.fs.chunks swc.chunkid) else st
    if st = .ok then sys
    else (sys.fsRollback srv swc.inode swc.indx swc.prevchunkid swc.chunkid).2
  | .truncate =>
    if st = .ok then
      ((sys.fsEndSetlength srv swc.chunkid).2.fsDoSetlength srv swc.session swc.inode swc.flags
        swc.fleng).2
    else (sys.fsRollback srv swc.inode swc.indx swc.prevchunkid swc.chunkid).2

/-- `matoclserv_chunk_status`. -/
def matoclservChunkStatus (st : Status) : System :=
  match sys.swchunks.find? fun w => w.chunkid == chunkid with
  | none => sys
  | some swc =>
    let sys := { sys with swchunks := sys.swchunks.erase swc }
    if srv.connected swc.client then sys.answerRequest srv swc st else sys

/-- One effect of a chunk function. -/
def effect (sys : System) : Effect → System
  | .setversion v => sys.changelog (.setversion chunkid v)
  | .chunkflagsclr => sys.changelog (.chunkflagsclr srv.now chunkid)
  | .status st => sys.matoclservChunkStatus srv chunkid st

/-- Store a chunk a function has worked on, then do what it leaves to be done. -/
def commit (r : Chunk × List Effect) : System :=
  r.2.foldl (effect srv chunkid) (sys.modFs (·.putChunk chunkid r.1))

/-- `chunk_remove_disconnected_chunks` for the chunk of a call. -/
def dropDisconnected : System :=
  match sys.fs.chunks chunkid with
  | none => sys
  | some c =>
    match chunkRemoveDisconnectedChunks srv c with
    | none =>
      (sys.changelog (.chunkdel srv.now chunkid c.version)).modFs (·.chunkDelete chunkid)
    | some r => sys.commit srv chunkid r

/-- One request of `matoclserv_beforedisconnect` is rolled back and forgotten. -/
def rollbackWaiting (sys : System) (w : SwChunk) : System :=
  let sys := (sys.fsRollback srv w.inode w.indx w.prevchunkid w.chunkid).2
  { sys with swchunks := sys.swchunks.erase w }

/-- `matoclserv_beforedisconnect`: the requests of a client, in the order of the hash table. -/
def matoclservBeforedisconnect (client : Nat) : System :=
  ((sys.swchunks.filter fun w => w.client == client).insertionSort
    fun v w => v.chunkid % 256 ≤ w.chunkid % 256).foldl (rollbackWaiting srv) sys

variable {srv} {sys}

end System

end MfsMaster
