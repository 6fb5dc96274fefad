/-
  MfsMaster.Chunk.Control
  **CHANGING A CHUNK ON ITS SERVERS** (`chunks.c`): version increases, duplication and
  truncation, the answers of the servers, servers that go away, and repair.

  Each function works on one chunk record and returns it with the EFFECTS it has
  outside of it, in order: records of the change log and answers for a client that
  waits for the operation (`matoclserv_chunk_status`).  What the functions ask of the
  rest of the master during a call is a parameter (`Servers`).
-/
import MfsMaster.Chunk.Copies

namespace MfsMaster

/-! ## §1. Surroundings. -/

/-- `chunk_do_jobs` as it runs on the chunk at hand, once the entries of lost servers are gone:
it works on the copies and leaves the files, the flags and the lock alone. -/
structure Jobs where
  run : Chunk → Chunk
  fhead : ∀ c, (run c).fhead = c.fhead
  sclassid : ∀ c, (run c).sclassid = c.sclassid
  flags : ∀ c, (run c).archFlag = c.archFlag ∧ (run c).trashFlag = c.trashFlag
  lockedto : ∀ c, (run c).lockedto = c.lockedto

/-- No job is done. -/
def Jobs.idle : Jobs :=
  { run := id, fhead := fun _ => rfl, sclassid := fun _ => rfl, flags := fun _ => ⟨rfl, rfl⟩
    lockedto := fun _ => rfl }

/-- What the chunk functions ask of the rest of the master during one call: the jobs, and answers
about chunk servers. -/
structure Servers where
  /-- `main_time()`. -/
  now : UInt32
  /-- `cstab[csid].valid`. -/
  valid : Nat → Bool
  /-- `discservers!=NULL || discservers_next!=NULL`. -/
  disc : Bool
  csstable : Bool
  /-- `matocsserv_receiving_chunks_state()&TRANSFERRING_NEW_CHUNKS`. -/
  receiving : Bool
  /-- `chunk_counters_in_progress()==0 && csdb_have_all_servers()`. -/
  csalldata : Bool
  /-- `chunk_replock_test(chunkid,ts)`. -/
  replock : Nat → Bool
  /-- Every finished operation of the chunk failed for lack of space. -/
  nospace : Bool
  /-- `chunk_can_be_fixed`. -/
  canBeFixed : Chunk → Bool
  /-- Strict labels, and no server matches the mode without flags. -/
  strictUnmatched : Bool
  /-- `chunk_creation_servers`. -/
  csids : List Nat
  overloaded : Bool
  /-- `matocsserv_servers_count()>0`. -/
  anyServer : Bool
  /-- `matocsserv_have_availspace()`. -/
  availspace : Bool
  /-- The chunk waits to be ready (`chunk_not_ready_for_io`) or is on the danger list. -/
  urgent : Bool
  /-- `eptr->mode==DATA`: the connection of the client is not about to be closed. -/
  connected : Nat → Bool
  job : Jobs

/-- Effects of a chunk function: `SETVERSION` and `CHUNKFLAGSCLR` records, and answers to a
waiting client. -/
inductive Effect where
  | setversion (version : Nat)
  | chunkflagsclr
  | status (st : Status)
  deriving Repr, DecidableEq

/-- The `version` field has 30 bits. -/
def version30 (v : Nat) : Nat := v % 2 ^ 30

/-- `LOCKTIMEOUT`. -/
def lockTimeout : UInt32 := 120

variable (srv : Servers) (c : Chunk)

/-- The jobs on a chunk; a version they corrected is logged. -/
def chunkDoFastJob : Chunk × List Effect :=
  let c' := chunkStateFix (srv.job.run c)
  (c', if c'.version = c.version then [] else [.setversion c'.version])

/-! ## §2. Raising the version. -/

/-- An entry when the version goes up to `version`: a copy is asked to follow, a part stays
behind.  `td` says which states count as marked for removal. -/
def raiseEntry (td : Valid → Bool) (version : Nat) (s : SEntry) : SEntry :=
  if s.valid.usable then
    if s.isCopy then { s with valid := if td s.valid then .tdbusy else .busy, version := version }
    else s.setValid (if td s.valid then .tdwver else .wver)
  else s

/-- All entries with the version raised by one; the counters are derived again when a part was
left behind. -/
def raiseEntries (td : Valid → Bool) (c : Chunk) : Chunk :=
  let c' := { c with slist := c.slist.map (raiseEntry td (c.version + 1)) }
  if c.slist.any fun s => s.valid.usable && !s.isCopy then chunkStateFix c' else c'

/-- `chunk_emergency_increase_version`. -/
def chunkEmergencyIncreaseVersion : Chunk × List Effect :=
  let td := fun v => v == .tdvalid || v == .tdbusy
  let c' := raiseEntries td c
  if c.slist.any fun s => s.valid.usable && s.isCopy then
    let v := version30 (c.version + 1)
    ({ c' with interrupted := false, operation := .setVersion, version := v
               allowreadzeros := false }, [.setversion v])
  else (c', [.status .chunklost])

/-- A copy with the version before the last increase is the current one again. -/
def revertEntry (version : Nat) (s : SEntry) : SEntry :=
  if (s.version + 1) % 2 ^ 32 = version ∧ s.isCopy then
    match s.valid with
    | .wver => s.setValid .valid
    | .tdwver => s.setValid .tdvalid
    | _ => s
  else s

/-- `verfixed`: the increase of the version was not completed anywhere, so it is taken back. -/
def revertVersion : Chunk × List Effect :=
  if c.slist.any fun s => (s.version + 1) % 2 ^ 32 == c.version && s.isCopy && s.valid.stale then
    ({ c with slist := c.slist.map (revertEntry c.version), version := c.version - 1
              allowreadzeros := false }, [.setversion (c.version - 1)])
  else (c, [])

/-! ## §3. Servers that went away. -/

/-- The test before a chunk without files and copies is forgotten. -/
def chunkDeletable : Bool :=
  c.lockedto < srv.now && c.operation == .none && c.slist.isEmpty && c.fhead == .few 0
    && srv.csalldata

def isVersionOp (op : Operation) : Bool := op == .setVersion || op == .truncate

def isReplication (op : Operation) : Bool := op == .replicate || op == .localsplit

/-- The end of an operation of which no answer is outstanding, found when entries of lost
servers were dropped. -/
def finishDisconnected : Chunk × List Effect :=
  let validcopies := c.slist.any fun s => s.isCopy && s.valid.readable
  let r := if !validcopies && isVersionOp c.operation then revertVersion c else (c, [])
  let fin : Chunk × List Effect :=
    if isReplication c.operation then
      let c := { r.1 with operation := .none }
      let j := if srv.urgent then chunkDoFastJob srv c else (c, [])
      (j.1, j.2 ++ if j.1.operation = .none then [.status .ok] else [])
    else if validcopies then chunkEmergencyIncreaseVersion r.1
    else ({ r.1 with operation := .none }, [.status (if srv.nospace then .nospace else .notdone)])
  (fin.1, r.2 ++ fin.2)

/-- `chunk_remove_disconnected_chunks`; `none` when the chunk was forgotten. -/
def chunkRemoveDisconnectedChunks : Option (Chunk × List Effect) :=
  if !srv.disc || c.slist.all fun s => srv.valid s.csid then some (c, [])
  else
    let c := { c with slist := c.slist.filter fun s => srv.valid s.csid, needverincrease := true }
    if chunkDeletable srv c then none
    else if c.operation = .none then some (chunkStateFix c, [])
    else if c.slist.any fun s => s.valid.pending then
      some (chunkStateFix { c with interrupted := c.interrupted || !isReplication c.operation }, [])
    else
      let r := finishDisconnected srv c
      some (chunkStateFix r.1, r.2)

/-! ## §4. Before a change. -/

/-- `vc`: the full copies that can be read. -/
def validCopies : Nat :=
  (c.slist.filter fun s => s.isCopy && s.valid.readable).length

/-- The flags of a chunk whose mode would be an erasure code are cleared. -/
def clearEcFlags (tab : SClassTab) (c : Chunk) : Chunk × List Effect :=
  let sm := tab.sclassGetKeeparchStoragemode c.sclassid c.archFlag c.trashFlag
  if sm.ecDataChksumParts ≠ 0 ∧ (c.archFlag ∨ c.trashFlag) then
    (chunkStateSetFlags c false false, [.chunkflagsclr])
  else (c, [])

/-- A job for a chunk that is not ready: `none` when it started an operation. -/
def prepareJob (needed : Bool) (c : Chunk) : Bool × Chunk × List Effect :=
  if needed then
    let j := chunkDoFastJob srv c
    (j.1.operation == .none, j.1, j.2)
  else (true, c, [])

/-- The answer of `chunk_prepare_to_modify` once no job is to be started. -/
def prepareAnswer (gequiv : Nat) (c : Chunk) : Status :=
  let vc := validCopies c
  if 0 < vc ∧ vc < gequiv ∧ srv.canBeFixed c then .eagain
  else if vc = 0 then
    if 0 < c.allGequiv then (if srv.strictUnmatched && srv.csalldata then .nospace else .eagain)
    else if srv.csalldata then .chunklost
    else .csnotpresent
  else .ok

/-- `chunk_prepare_to_modify`. -/
def chunkPrepareToModify (tab : SClassTab) (c : Chunk) :
    Status × Chunk × List Effect :=
  if c.operation ≠ .none then (.chunkbusy, c, [])
  else if c.slist.any fun s => s.valid.pending then (.eagain, c, [])
  else
    let vc := validCopies c
    let f := clearEcFlags tab c
    let gequiv := tab.sclassCalcGoalEquivalent
      (tab.sclassGetKeeparchStoragemode f.1.sclassid f.1.archFlag f.1.trashFlag)
    let j := prepareJob srv (vc == 0 && 0 < f.1.allGequiv) f.1
    let effs := f.2 ++ j.2.2
    if !j.1 then (.chunkbusy, j.2.1, effs)
    else
      let vc := validCopies j.2.1
      if !srv.csstable || srv.receiving then
        if vc < gequiv then (.eagain, j.2.1, effs)
        else (prepareAnswer srv gequiv j.2.1, j.2.1, effs)
      else
        let k := prepareJob srv (0 < vc && vc < gequiv) j.2.1
        let effs := effs ++ k.2.2
        if !k.1 then (.chunkbusy, k.2.1, effs)
        else (prepareAnswer srv gequiv k.2.1, k.2.1, effs)

end MfsMaster
