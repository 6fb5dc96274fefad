/-
  MfsMaster.Chunk.Status
  **THE ENDS OF REPLICATIONS AND SPLITS, AND STATUS DATA** (`chunks.c`), on one chunk
  record.

      chunkGotReplicateStatus   — a copy or part was made, or could not be made
      chunkGotLocalsplitStatus  — a copy was split into parts on its server, or not
      chunkGotStatusData        — a server says what it has of a chunk; in fix mode the
                                  entries of the server are replaced by that
-/
import MfsMaster.Chunk.Modify

namespace MfsMaster

/-! ## §1. Replication. -/

/-- The end of a replication or a split: jobs that waited for it are started when `check`
(`chunk_io_ready_check`), and a waiting client is answered unless the chunk is on the danger list
by then. -/
def finishReplication (srv : Servers) (check ondangerlist : Bool) (c : Chunk) :
    Chunk × List Effect :=
  let c := { c with operation := .none }
  let j := if check && srv.urgent then chunkDoFastJob srv c else (c, [])
  (j.1, j.2 ++ if j.1.operation = .none ∧ !ondangerlist then [.status .ok] else [])

/-- The list after the answer to a replication with high priority, and whether the counters are
to be derived again. -/
def replicatedEntries (c : Chunk) (csid ecid version : Nat) (status : Status) :
    List SEntry × Bool :=
  let awaited := fun (s : SEntry) => s.at csid ecid && s.valid == .busy
  if status ≠ .ok ∧ c.slist.any awaited then (c.slist.filter fun s => !awaited s, true)
  else if status ≠ .ok ∨ version ≠ c.version then
    (c.slist.map fun s => if s.at csid ecid then s.invalidate else s,
      c.slist.any (SEntry.at csid ecid))
  else (c.slist.map fun s => if awaited s then s.setValid .valid else s, false)

/-- The answer to a replication with high priority. -/
def replicatedHigh (c : Chunk) (csid ecid version : Nat) (status : Status) : Chunk :=
  let r := replicatedEntries c csid ecid version status
  let c' := { c with slist := r.1 }
  if r.2 then chunkStateFix c' else c'

/-- The answer to a replication with low priority. -/
def replicatedLow (srv : Servers) (c : Chunk) (csid ecid version : Nat) (status : Status) : Chunk :=
  if status ≠ .ok then c
  else match c.slist.find? (SEntry.at csid ecid) with
    | some s =>
      -- the server had had that chunk before
      if s.valid = .valid ∧ version ≠ c.version then
        chunkStateFix { c with
          slist := modFirst (SEntry.at csid ecid)
            (fun s => { s with valid := .invalid, version := version }) c.slist }
      else c
    | none =>
      if srv.now ≤ c.lockedto ∨ version ≠ c.version then
        { c with slist := chunkNewCopy ⟨csid, .invalid, ecid, version⟩ c.slist }
      else
        chunkStateFix { c.setWriteinprogress false with
          slist := chunkNewCopy ⟨csid, .valid, ecid, version⟩ c.slist }

/-- `chunk_got_replicate_status` on an existing chunk; `ondangerlist` is the field of the chunk
once the jobs are done. -/
def chunkGotReplicateStatus (srv : Servers) (ondangerlist : Bool) (c : Chunk)
    (csid ecid version : Nat) (status : Status) : Chunk × List Effect :=
  if c.operation = .replicate then
    let c := replicatedHigh c csid ecid version status
    if c.slist.any fun s => s.valid == .busy then (c, [])
    else finishReplication srv (status != .etimedout) ondangerlist c
  else (replicatedLow srv c csid ecid version status, [])

/-! ## §2. Splits. -/

/-- A part that a split on the server was to make. -/
def splitAwaited (csid : Nat) (s : SEntry) : Bool :=
  s.csid == csid && 0x10 ≤ s.ecid && s.valid.pending

/-- `chunk_got_localsplit_status` on an existing chunk, after the entries of lost servers were
dropped; `operation` is the one of the chunk before that. -/
def chunkGotLocalsplitStatus (srv : Servers) (ondangerlist : Bool) (operation : Operation)
    (c : Chunk) (csid version : Nat) (status : Status) : Chunk × List Effect :=
  if operation ≠ .localsplit then (c, [])
  else
    let failed : Bool := status ≠ .ok ∨ version ≠ c.version
    let settleEntry := fun (s : SEntry) =>
      if splitAwaited csid s then
        if failed then s.invalidate
        else s.setValid (if s.valid = .tdbusy then .tdvalid else .valid)
      else s
    let c' := { c with slist := c.slist.map settleEntry }
    finishReplication srv true ondangerlist
      (if failed && c.slist.any (splitAwaited csid) then chunkStateFix c' else c')

/-! ## §3. Status data. -/

/-- What a server says about one copy or part; `version` is without its top bit, which is
`marked`. -/
structure PartData where
  ecid : Nat
  version : Nat
  marked : Bool
  damaged : Bool
  deriving Repr, DecidableEq

/-- The entry that agrees with what the server says. -/
def statusEntry (c : Chunk) (csid : Nat) (p : PartData) : SEntry :=
  let v : Valid :=
    if p.damaged then .invalid
    else if p.marked then (if p.version ≠ c.version then .tdwver else .tdvalid)
    else (if p.version ≠ c.version then .wver else .valid)
  ⟨csid, v, p.ecid, p.version⟩

/-- The list of one server is ordered by part. -/
def insertPart (s : SEntry) : List SEntry → List SEntry
  | [] => [s]
  | si :: l => if si.ecid < s.ecid then si :: insertPart s l else s :: si :: l

/-- The entries the server should have, in order. -/
def statusEntries (c : Chunk) (csid : Nat) (parts : List PartData) : List SEntry :=
  parts.foldl (fun l p => insertPart (statusEntry c csid p) l) []

/-- The comparison of the list of the chunk with that of one server. -/
def statusMismatch (csid : Nat) : List SEntry → List SEntry → Bool
  | [], reported => !reported.isEmpty
  | s :: l, reported =>
    if s.csid ≠ csid then statusMismatch csid l reported
    else match reported with
      | [] => s.valid != .del || statusMismatch csid l []
      | r :: rest =>
        if s.valid = .del then statusMismatch csid l (if s.ecid = r.ecid then rest else r :: rest)
        else if s.ecid ≠ r.ecid ∨ s.version ≠ r.version ∨ s.valid.pending ∨ s.valid ≠ r.valid then
          true
        else statusMismatch csid l rest

/-- The entries of one server are replaced. -/
def replaceServer (csid : Nat) (reported : List SEntry) : List SEntry → List SEntry
  | [] => reported
  | s :: l =>
    if s.csid < csid then s :: replaceServer csid reported l
    else if s.csid = csid then replaceServer csid reported l
    else reported ++ s :: l

/-- `chunk_got_status_data` on an existing chunk. -/
def chunkGotStatusData (c : Chunk) (csid : Nat) (parts : List PartData) (fixmode : Bool) : Chunk :=
  if c.operation ≠ .none then c
  else
    let reported := statusEntries c csid parts
    if statusMismatch csid c.slist reported && fixmode then
      { c with slist := replaceServer csid reported c.slist }
    else c

end MfsMaster
