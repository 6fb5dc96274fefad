/-
  MfsMaster.Chunk.Modify
  **MODIFICATIONS, ANSWERS AND REPORTS** (`chunks.c`), on one chunk record.

      modifyInPlace, truncateInPlace, duplicateOf, createOn
                              — the branches of `chunk_univ_multi_modify` and
                                `chunk_univ_multi_truncate` on the leader
      chunkOperationStatus    — an answer of a chunk server
      chunkServerHasChunk, chunkDamaged, chunkLost, chunkGotDeleteStatus
                              — reports of a chunk server
      chunkRepair             — the repair of a chunk without usable copies
-/
import MfsMaster.Chunk.Control

namespace MfsMaster

/-! ## §1. Modifications. -/

/-- The change of a chunk of one file: the version goes up when the last increase may not be
known everywhere, or when parts have to be left behind.  `opflag` says whether it did. -/
def modifyInPlace (c : Chunk) : Bool × Chunk :=
  if c.needverincrease || c.slist.any fun s => !s.isCopy && s.valid.readable then
    (true, { raiseEntries (· == .tdvalid) c with
      interrupted := false, operation := .setVersion, version := version30 (c.version + 1) })
  else (false, c)

/-- The truncation of a chunk of one file. -/
def truncateInPlace (c : Chunk) : Chunk :=
  { raiseEntries (· == .tdvalid) c with
    interrupted := false, operation := .truncate, version := version30 (c.version + 1) }

/-- A new chunk of one file with copies under way on the given servers. -/
def newOn (tab : SClassTab) (sclassid : Nat) (op : Operation) (csids : List Nat) : Chunk :=
  let c := chunkAddFileInt tab { chunkNew with version := 1 } sclassid
  -- `allvc` is a `uint8_t`
  let n := min 15 (csids.length % 256)
  let slist := csids.foldl (fun l csid => chunkNewCopy ⟨csid, .busy, 0, 1⟩ l) c.slist
  chunkStateSetCounters { c with operation := op, slist := slist } .copies n n

/-- The new chunk of a first write. -/
def createOn (tab : SClassTab) (sclassid : Nat) (csids : List Nat) : Chunk :=
  newOn tab sclassid .create
    (csids.take (tab.sclassGetCreateStoragemode sclassid).labelscnt.toNat)

/-- The servers with a usable full copy. -/
def copyServers (oc : Chunk) : List Nat :=
  (oc.slist.filter fun s => s.valid.usable && s.isCopy).map SEntry.csid

/-- The copy of a shared chunk, made where the shared one has its copies; the operation
(`DUPLICATE` or `DUPTRUNC`) is set with the first of them. -/
def duplicateOf (tab : SClassTab) (sclassid : Nat) (op : Operation) (oc : Chunk) : Chunk :=
  newOn tab sclassid (if (copyServers oc).isEmpty then .none else op) (copyServers oc)

/-- `c->lockedto = ts+LOCKTIMEOUT`. -/
def Chunk.lock (ts : UInt32) (c : Chunk) : Chunk := { c with lockedto := ts + lockTimeout }

/-- `chunk_write_counters`, without the counters of the servers. -/
def Chunk.setWriteinprogress (b : Bool) (c : Chunk) : Chunk := { c with writeinprogress := b }

/-! ## §2. Answers of chunk servers. -/

/-- Is this the entry of the server and the part? -/
def SEntry.at (csid ecid : Nat) (s : SEntry) : Bool := s.csid == csid && s.ecid == ecid

/-- What an answer does to the entry it is about; `none` when the entry goes away. -/
def answerEntry (op : Operation) (status : Status) (s : SEntry) : Option SEntry :=
  let td := s.valid == .tdbusy || s.valid == .tdvalid
  if status = .ok then some (s.setValid (if td then .tdvalid else .valid))
  else if status = .notdone then
    -- the operation was not even started
    if isVersionOp op then
      some { s with
        valid := if td then .tdwver else .wver, version := (s.version + 2 ^ 32 - 1) % 2 ^ 32 }
    else if op = .create ∨ op = .duplicate ∨ op = .duptrunc then none
    else some s
  else some s.invalidate

/-- The list after an answer about the entry of `csid` and `ecid`. -/
def answerEntries (op : Operation) (csid ecid : Nat) (status : Status) (l : List SEntry) :
    List SEntry :=
  l.filterMap fun s =>
    if s.at csid ecid then answerEntry op status s else some s

/-- The chunk after the entry was answered for. -/
def answered (c : Chunk) (csid ecid : Nat) (status : Status) : Chunk :=
  let hit := c.slist.any (SEntry.at csid ecid)
  { c with
    slist := answerEntries c.operation csid ecid status c.slist
    interrupted := c.interrupted || (hit && status != .ok && status != .notdone) }

/-- Is what the answer was about (copies, or one of the codes) there in full? -/
def answerComplete (c : Chunk) (ecid : Nat) : Bool :=
  let l := c.slist.filter fun s => s.valid.readable
  (ecid == 0 && l.any SEntry.isCopy)
    || (0x10 ≤ ecid && ecid ≤ 0x1C && 4 ≤ distinctParts (l.filter SEntry.isEc4))
    || (0x20 ≤ ecid && ecid ≤ 0x30 && 8 ≤ distinctParts (l.filter SEntry.isEc8))

variable (srv : Servers)

/-- The end of an operation of which every answer is there; `full` was computed before a version
increase was taken back. -/
def finishOperation (full : Bool) (c : Chunk) : Chunk × List Effect :=
  if full then
    if c.interrupted then chunkEmergencyIncreaseVersion c
    else ({ c with operation := .none, needverincrease := false }, [.status .ok])
  else
    ({ c with operation := .none }, [.status (if srv.nospace then .nospace else .notdone)])

variable (c : Chunk)

/-- `chunk_operation_status`, after the entries of lost servers were dropped. -/
def chunkOperationStatus (csid ecid : Nat) (status : Status) :
    Chunk × List Effect :=
  let hit := c.slist.any (SEntry.at csid ecid)
  let a := answered c csid ecid status
  let opfinished := !a.slist.any fun s => s.valid.pending
  let validcopies := a.slist.any fun s => s.isCopy && s.valid.readable
  let r := if opfinished && !validcopies && isVersionOp a.operation then revertVersion a
    else (a, [])
  let c' := if (hit && status != .ok) || !r.2.isEmpty then chunkStateFix r.1 else r.1
  if opfinished then
    let fin := finishOperation srv (answerComplete a ecid) c'
    (fin.1, r.2 ++ fin.2)
  else (c', r.2)

/-! ## §3. Reports of chunk servers. -/

/-- Change the first entry that a test is true of. -/
def modFirst (p : SEntry → Bool) (f : SEntry → SEntry) : List SEntry → List SEntry
  | [] => []
  | s :: l => if p s then f s :: l else s :: modFirst p f l

/-- A report about an entry that is known: only the mark for removal is taken over. -/
def reportKnown (marked : Bool) (s : SEntry) : SEntry :=
  if s.valid.pending then s.setValid (if marked then .tdbusy else .busy)
  else if s.valid.readable then s.setValid (if marked then .tdvalid else .valid)
  else s

/-- The entry of a copy or part that was not known. -/
def reportedEntry (csid ecid version : Nat) (marked : Bool) : SEntry :=
  if c.version ≠ version then ⟨csid, if marked then .tdwver else .wver, ecid, version⟩
  else ⟨csid, if marked then .tdvalid else .valid, ecid, c.version⟩

/-- `chunk_server_has_chunk` on an existing chunk, after the entries of lost servers were
dropped; `version` is what the server reports without its top bit, which is `marked`. -/
def chunkServerHasChunk (csid ecid version : Nat) (marked : Bool) : Chunk :=
  if c.slist.any (SEntry.at csid ecid) then
    let l := modFirst (SEntry.at csid ecid) (reportKnown marked) c.slist
    if l = c.slist then c else chunkStateFix { c with slist := l }
  else
    let c' := { c with
      slist := chunkNewCopy (reportedEntry c csid ecid version marked) c.slist
      needverincrease := true }
    if c.version ≠ version then c'
    else if ecid = 0 ∧ c.storageMode = .copies ∧ c.allGequiv < 15 ∧ (marked ∨ c.regGequiv < 15) then
      chunkStateSetCounters c' .copies (c.allGequiv + 1) (c.regGequiv + if marked then 0 else 1)
    else chunkStateFix c'

/-- `chunk_damaged` on an existing chunk. -/
def chunkDamaged (csid ecid : Nat) : Chunk :=
  if c.slist.any (SEntry.at csid ecid) then
    chunkStateFix { c with
      slist := modFirst (SEntry.at csid ecid) SEntry.invalidate c.slist, needverincrease := true }
  else { c with slist := chunkNewCopy ⟨csid, .invalid, ecid, 0⟩ c.slist, needverincrease := true }

/-- `chunk_lost` on an existing chunk, before the chunk itself may be forgotten. -/
def chunkLost (csid ecid : Nat) : Chunk :=
  if c.slist.any (SEntry.at csid ecid) then
    chunkStateFix { c with
      slist := c.slist.filter fun s => !s.at csid ecid, needverincrease := true }
  else c

/-- `chunk_got_delete_status` on an existing chunk, before the chunk itself may be forgotten. -/
def chunkGotDeleteStatus (csid ecid : Nat) (ok : Bool) : Chunk :=
  if ok then
    let unexpected := c.slist.any fun s => s.at csid ecid && s.valid != .del
    let c' := { c with slist := c.slist.filter fun s => !s.at csid ecid }
    if unexpected then chunkStateFix c' else c'
  else
    { c with slist := c.slist.map fun s =>
      if s.at csid ecid ∧ s.valid = .del then s.setValid .invalid else s }

/-! ## §4. Repair. -/

/-- The highest version in a list, 0 for the empty one. -/
def bestVersion (l : List SEntry) : Nat :=
  l.foldl (fun v s => max v s.version) 0

/-- The entries of one code that a repair can build on: usable or only of another version. -/
def repairParts (code : SEntry → Bool) (l : List SEntry) : List SEntry :=
  l.filter fun s => srv.valid s.csid && code s && (s.valid.usable || s.valid.stale)

/-- The list after a repair with the parts of one code: those of another version are asked to
follow, what is not of this code is given up. -/
def repairWithParts (code : SEntry → Bool) (version : Nat) (s : SEntry) : SEntry :=
  if srv.valid s.csid && code s then
    match s.valid with
    | .wver => { s with valid := .busy, version := version }
    | .tdwver => { s with valid := .tdbusy, version := version }
    | _ => s
  else if !code s && s.valid.readable then s.setValid .invalid
  else s

/-- The list after a repair with copies of the highest version. -/
def repairWithCopies (version : Nat) (s : SEntry) : SEntry :=
  if s.isCopy then
    if s.version = version ∧ srv.valid s.csid then
      match s.valid with
      | .wver => s.setValid .valid
      | .tdwver => s.setValid .tdvalid
      | _ => s
    else s
  else if s.valid.readable then s.setValid .invalid
  else s

/-- The chunk repaired with the parts of one code. -/
def repairEc (code : SEntry → Bool) (c : Chunk) : Nat × Chunk :=
  let v := bestVersion (repairParts srv code c.slist)
  (v, chunkStateFix { c with
    version := version30 v, slist := c.slist.map (repairWithParts srv code v)
    interrupted := false, operation := .setVersion })

/-- The part of `chunk_repair` that changes the chunk: `nversion`, 0 when the file gives the
chunk up. -/
def repairBody (tab : SClassTab) (sclassid : Nat) (erase : Bool) (c : Chunk) :
    Nat × Chunk :=
  let stale := c.slist.filter fun s => srv.valid s.csid && s.isCopy && s.valid.stale
  let v := bestVersion stale
  if v = 0 then
    let ec8 := repairParts srv SEntry.isEc8 c.slist
    let ec4 := repairParts srv SEntry.isEc4 c.slist
    let full8 := 8 ≤ distinctParts ec8
    let full4 := 4 ≤ distinctParts ec4
    if full8 ∧ (full4 → bestVersion ec4 < bestVersion ec8) then repairEc srv SEntry.isEc8 c
    else if full4 then repairEc srv SEntry.isEc4 c
    else if erase then (0, (chunkDeleteFileInt tab c sclassid).2)
    else (c.version + 2 ^ 31, { c with allowreadzeros := true })
  else
    (v, chunkStateFix { c with
      version := version30 v, slist := c.slist.map (repairWithCopies srv v)
      needverincrease := true })

/-- `chunk_repair` on an existing chunk: `none` when nothing is to be done. -/
def chunkRepair (tab : SClassTab) (chunkid sclassid : Nat) (erase : Bool)
    (c : Chunk) : Option Nat × Chunk :=
  if srv.now ≤ c.lockedto ∨ srv.replock chunkid ∨ 0 < c.allGequiv then (none, c)
  else
    let c := c.setWriteinprogress false
    if c.slist.any fun s => srv.valid s.csid && s.isCopy && s.valid.usable then (none, c)
    else
      let r := repairBody srv tab sclassid erase c
      (some r.1, r.2)

end MfsMaster
