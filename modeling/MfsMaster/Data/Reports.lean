/-
  MfsMaster.Data.Reports
  **WHAT CHUNK SERVERS TELL THE LEADER**, on the whole of its state: answers to
  operations, reports about chunks, chunks that appear and chunks that are forgotten.
-/
import MfsMaster.Data.System

namespace MfsMaster

/-- A report of a chunk server about a chunk or part of it. -/
inductive Report where
  | has (csid ecid version : Nat) (marked : Bool)
  | damaged (csid ecid : Nat)
  | lost (csid ecid : Nat)
  | deleted (csid ecid : Nat) (ok : Bool)
  deriving Repr, DecidableEq

/-- The report on the record of a chunk. -/
def Report.apply (c : Chunk) : Report → Chunk
  | .has csid ecid version marked => chunkServerHasChunk c csid ecid version marked
  | .damaged csid ecid => chunkDamaged c csid ecid
  | .lost csid ecid => chunkLost c csid ecid
  | .deleted csid ecid ok => chunkGotDeleteStatus c csid ecid ok

/-- The copy or part a report is about. -/
def Report.ecid : Report → Nat
  | .has _ ecid _ _ | .damaged _ ecid | .lost _ ecid | .deleted _ ecid _ => ecid

/-- `UNUSED_DELETE_TIMEOUT`. -/
def unusedDeleteTimeout : UInt32 := 86400 * 7

namespace System

variable (sys : System) (srv : Servers) (chunkid : Nat)

/-- The rest of `chunk_operation_status`, once the entries of lost servers are gone. -/
def answerStatus (csid ecid : Nat) (status : Status) :
    System :=
  if !chunkCheckEcid ecid then sys
  else match sys.fs.chunks chunkid with
    | none => sys
    | some c => sys.commit srv chunkid (chunkOperationStatus srv c csid ecid status)

/-- A chunk no file and no server has anything of is forgotten. -/
def forgetChunk : System :=
  match sys.fs.chunks chunkid with
  | none => sys
  | some c =>
    if chunkDeletable srv c then
      (sys.changelog (.chunkdel srv.now chunkid c.version)).modFs (·.chunkDelete chunkid)
    else sys

/-- The chunk loop on one chunk that is not forgotten, once the entries of lost servers are
gone. -/
def chunkJobs : System :=
  match sys.fs.chunks chunkid with
  | none => sys
  | some c => sys.commit srv chunkid (chunkDoFastJob srv c)

/-- A chunk that only a chunk server knows of. -/
def addUnknown (ts : UInt32) (chunkid version : Nat) (lockedto : UInt32) : System :=
  let c := { chunkNew with version := version30 version, lockedto := lockedto }
  (sys.modFs fun s =>
      { s.putChunk chunkid c with nextchunkid := max s.nextchunkid (chunkid + 1) }).changelog
    (.chunkadd ts chunkid c.version lockedto)

/-- The chunk a report is about is made when it is not there. -/
def reportUnknown : Report → System
  | .has _ _ version _ =>
    if chunkid = 0 ∨ sys.fs.nextchunkid + 1000000000 < chunkid then sys
    else sys.addUnknown srv.now chunkid version (srv.now + unusedDeleteTimeout)
  | .damaged _ _ =>
    if sys.fs.nextchunkid + 1000000000 < chunkid then sys
    else sys.addUnknown srv.now chunkid 0 0
  | _ => sys

/-- `chunk_server_has_chunk` (once the entries of lost servers are gone), `chunk_damaged`,
`chunk_lost` and `chunk_got_delete_status`, before a chunk may be forgotten. -/
def chunkReport (r : Report) : System :=
  if !chunkCheckEcid r.ecid then sys
  else
    let sys := if (sys.fs.chunks chunkid).isNone then sys.reportUnknown srv chunkid r else sys
    sys.modFs (·.modChunk chunkid r.apply)

end System

end MfsMaster
