/-
  MfsMaster.Chunk.Jobs
  **THE JOBS ON A CHUNK** (`chunk_do_jobs` in `chunks.c`).

  The function walks through a fixed list of things that can be wrong with the copies and
  parts of a chunk and does the first one it can: it corrects states and versions, deletes
  entries, or asks servers for new ones.  Each of them is a STAGE here, `none` when the
  function goes on past it:

      fixBusy, fixCopyVersion, fixPartVersion, hopeless       — states and versions
      deleteInvalid, cancelReplication, deleteUnused          — entries nobody needs
      deleteMarkedPart, sameServer, deleteOverParts           — parts
      recoverParts … joinParts                                — new parts and copies
      deleteCopies, deleteParts, deleteExtraParts             — after a conversion
      deleteExtraCopies, deleteMarkedCopy, replicateCopy      — copies

  What the function asks of the rest of the master is `JobEnv`: the servers that can be
  read and written, the labels they match, and whether a command could be sent.
-/
import MfsMaster.Chunk.Modify

namespace MfsMaster

/-! ## §1. Surroundings. -/

/-- `LABELS_MODE_*`. -/
inductive LabelsMode where
  | loose
  | std
  | strict
  deriving Repr, DecidableEq

/-- The numbers of servers that match the labels of a storage mode (`sm->replallowed` and so on):
any label, only the first, only the second, both. -/
structure LabelCounts where
  replallowed : Nat
  allvalid : Nat
  dataReplallowed : Nat
  dataAllvalid : Nat
  chksumReplallowed : Nat
  chksumAllvalid : Nat
  bothReplallowed : Nat
  bothAllvalid : Nat
  deriving Repr, DecidableEq

/-- The answer of `do_advanced_match`: the server of a label and the label of a server, by
position. -/
structure Matching where
  label : Nat → Option Nat
  server : Nat → Option Nat

/-- What `chunk_do_jobs` asks of the rest of the master.  Where an answer depends on the storage
mode, the argument `keep` tells the mode of the class without flags from the one with them. -/
structure JobEnv where
  now : UInt32
  extrajob : Nat
  /-- `cstab[csid].valid`. -/
  valid : Nat → Bool
  /-- `matocsserv_servers_count()`. -/
  scount : Nat
  /-- `matocsserv_replallowed_servers()`. -/
  replservers : Nat
  /-- `chunk_replock_test(c->chunkid,now)`. -/
  replock : Bool
  /-- `chunk_delay_is_protected(c->chunkid)`. -/
  dontdelete : Bool
  /-- The entry at this place of the list could be deleted: the server is below its limit of
  deletions and the command was sent. -/
  sent : Nat → Bool
  labelsMode : ( keep : Bool) → LabelsMode
  counts : ( keep : Bool) → LabelCounts
  /-- `matocsserv_server_matches_labelexpr(cstab[csid].ptr,sm->labelexpr[label])`. -/
  labelled : ( keep : Bool) → ( csid : Nat) → ( label : Nat) → Bool
  /-- `chunk_calculate_endanger_priority(c,1)`. -/
  endanger : Chunk → Nat
  /-- `chunk_priority_should_block(i)`. -/
  shouldBlock : Nat → Bool
  /-- `csdb_stop_chunk_jobs()`. -/
  stopJobs : Bool
  /-- No chunk waits in the queues of chunks with one copy. -/
  oneCopyEmpty : Bool
  /-- The server is below its limit of replications it is read for. -/
  reads : Nat → Bool
  /-- `matocsserv_getservers_lessrepl`. -/
  lessrepl : List Nat
  /-- `matocsserv_getservers_ordered`: by usage. -/
  ordered : List Nat
  /-- `matocsserv_get_server_groups`, sorted by rack: servers to write to, overloaded ones, those at
  their limit. -/
  groupOk : List Nat
  groupOverloaded : List Nat
  groupLimited : List Nat
  /-- `matocsserv_can_split_chunks`. -/
  canSplit : Nat → Bool
  splitSent : Bool
  /-- The command to make `ecid` on the server `dst` was sent. -/
  replSent : ( ecid : Nat) → ( dst : Nat) → Bool
  /-- `chunk_get_undergoal_replicate_srccsid` finds a source for the server. -/
  hasSource : Nat → Bool
  advancedMatch : ( keep : Bool) → List Nat → Matching
  /-- The server at this position is matched after `do_extend_match`. -/
  extendedMatch : ( keep : Bool) → List Nat → Nat → Bool
  /-- `DoNotUseSameIP || DoNotUseSameRack`. -/
  useTopology : Bool
  /-- `matocsserv_has_avail_space`. -/
  availSpace : Nat → Bool
  /-- Chunks wait in other queues, or the class failed too often. -/
  noRebalance : Bool
  /-- The part and the server that even out the usage best, among the parts (with their servers) that
  may move and the servers that may not be used. -/
  rebalance : List (Nat × Nat) → List Nat → Option (Nat × Nat)

/-! ## §2. Counting. -/

namespace SEntry

/-- Counted as a copy: neither `ecid&0x20` nor `ecid&0x10`. -/
def countsAsCopy (s : SEntry) : Bool := !s.ecid.testBit 5 && !s.ecid.testBit 4

/-- A copy or a part of one of the codes: the entries that are counted. -/
def counted (s : SEntry) : Bool := s.countsAsCopy || s.isEc4 || s.isEc8

/-- A part with a number between two others. -/
def between (lo hi : Nat) (s : SEntry) : Bool := lo ≤ s.ecid && s.ecid ≤ hi

end SEntry

namespace Valid

def isValid (v : Valid) : Bool := v == .valid

def isTdvalid (v : Valid) : Bool := v == .tdvalid

/-- `WVER`, `TDWVER` or `INVALID`. -/
def useless : Valid → Bool
  | .wver | .tdwver | .invalid => true
  | _ => false

end Valid

/-- The number of copies in some of the states. -/
def copiesIn (st : Valid → Bool) (l : List SEntry) : Nat :=
  (l.filter fun s => s.countsAsCopy && st s.valid).length

/-- The parts of a code in some of the states. -/
def partsIn (code : SEntry → Bool) (st : Valid → Bool) (l : List SEntry) : List SEntry :=
  l.filter fun s => code s && st s.valid

variable (l : List SEntry)

/-- `regularecgoalequiv`. -/
def regularEc : Nat := (chunkCalcEcge (l.filter fun s => s.valid.regular)).1

/-- `allecgoalequiv`. -/
def allEc : Nat := (chunkCalcEcge (l.filter fun s => s.valid.usable)).1

/-- `validecgoalequiv`: the servers the parts are on do not count. -/
def validEc : Nat :=
  max (distinctParts (partsIn SEntry.isEc8 Valid.readable l) - 7)
    (distinctParts (partsIn SEntry.isEc4 Valid.readable l) - 3)

/-- Is something usable left? -/
def anyUsable : Bool := 0 < copiesIn Valid.usable l + allEc l

/-- Is there an entry in one of the states? -/
def anyIn (st : Valid → Bool) (l : List SEntry) : Bool := l.any fun s => s.counted && st s.valid

def anyPending : Bool := anyIn Valid.pending l

/-- Some part of a code is there more than once. -/
def overParts (code : SEntry → Bool) (st : Valid → Bool) (l : List SEntry) : List Nat :=
  ((partsIn code st l).map SEntry.ecid).filter fun e =>
    2 ≤ ((partsIn code st l).map SEntry.ecid).count e

/-- `parts_on_the_same_server`: two parts of one kind follow each other on one server. -/
def adjacentParts (kind : SEntry → Bool) : Option Nat → List SEntry → Bool
  | _, [] => false
  | last, s :: l =>
    if kind s && s.valid.isValid then last == some s.csid || adjacentParts kind (some s.csid) l
    else adjacentParts kind last l

def partsOnTheSameServer (l : List SEntry) : Bool :=
  adjacentParts (fun s => s.ecid.testBit 5) none l
    || adjacentParts (fun s => !s.ecid.testBit 5 && s.ecid.testBit 4) none l

/-! ## §3. The storage mode of a run. -/

/-- The mode a run works for.  `data` is 0 for copies, and `minecid`, `maxecid` are the first and
last part of the code. -/
structure JobMode where
  sm : StorageMode
  keep : Bool
  usekeep : Nat
  strict : Bool
  goal : Nat
  data : Nat
  minecid : Nat
  maxecid : Nat
  dataLimit : Int
  chksumLimit : Int

/-- The entries of the code, or the copies. -/
def JobMode.code (m : JobMode) (s : SEntry) : Bool := s.between m.minecid m.maxecid

/-- The first part that the goal does not ask for. -/
def JobMode.endecid (m : JobMode) : Nat := m.minecid + (m.data - 1) + m.goal

/-- `chunk_check_forcekeep_condidiotns_for_ec`: `usekeep` and `ec_strict_mode`. -/
def checkForcekeep (n : LabelCounts) (labelscnt data chksum : Nat) (mode : LabelsMode)
    (hasCopies hasEc4 hasEc8 : Bool) (replallowed allvalid : Nat) : Nat × Bool :=
  -- too few servers to convert, or to stay
  let cantEnter := n.replallowed < data + 2 * chksum ∨ (labelscnt = 2
    ∧ (n.dataReplallowed + n.bothReplallowed < data + chksum
      ∨ n.chksumReplallowed + n.bothReplallowed < 2 * chksum))
  let cantStay := n.allvalid < data + chksum ∨ (labelscnt = 2
    ∧ (n.dataAllvalid + n.bothAllvalid < data ∨ n.chksumAllvalid + n.bothAllvalid < chksum))
  let fits := data + chksum ≤ n.replallowed ∧ (labelscnt = 1
    ∨ (data ≤ n.dataReplallowed + n.bothReplallowed
      ∧ chksum ≤ n.chksumReplallowed + n.bothReplallowed))
  if (data = 8 ∧ hasEc4) ∨ (data = 4 ∧ hasEc8) then (1, false)
  else if data ≠ 8 ∧ data ≠ 4 then (1, false)
  else match mode, hasCopies with
    | .loose, true => (if replallowed < data + 2 * chksum then 2 else 0, false)
    | .loose, false => (if allvalid < data + chksum then 3 else 0, false)
    | .std, true => (if cantEnter then 2 else 0, false)
    | .std, false => (if allvalid < data + chksum then 3 else 0, decide fits)
    | .strict, true => (if cantEnter then 2 else 0, true)
    | .strict, false => (if cantStay then 3 else 0, true)

variable (env : JobEnv)

/-- `chunk_get_labels_mode_for_ec`. -/
def labelsModeForEc (sm : StorageMode) : LabelsMode :=
  if sm.hasLabels ∧ sm.labelscnt ≠ 0 then env.labelsMode false else .loose

/-- `ec_data_parts_on_both` and `ec_chksum_parts_on_both`: entries on servers that match both
labels.  The source counts in 16 bits; a chunk has fewer than 2^16 such parts. -/
def onBoth (part : SEntry → Bool) (l : List SEntry) : Nat :=
  (l.filter fun s => part s && env.labelled false s.csid 0 && env.labelled false s.csid 1).length

/-- The data parts of either code. -/
def isDataPart (s : SEntry) : Bool := s.between 0x10 0x13 || s.between 0x20 0x27

/-- The checksum parts `chunk_do_jobs` counts; of the 8-part code it is only the last one. -/
def isChksumPart (s : SEntry) : Bool := s.between 0x14 0x1C || (0x28 ≤ s.ecid && 0x30 ≤ s.ecid)

/-- The parts of the code of a mode: data parts, first and last part. -/
def codeOf (data : Nat) : Option (Nat × Nat) :=
  if data = 8 then some (0x20, 0x30)
  else if data = 4 then some (0x10, 0x1C)
  else if data = 0 then some (0, 0)
  else none

/-- The goal, as far as there are servers for it; `none` for a mode the jobs do not handle. -/
def reduceGoal (scount data goal : Nat) : Option Nat :=
  if data = 0 then some (min goal scount)
  else if scount < data then none
  else some (min goal (scount - (data - 1)))

/-- The mode of a chunk, `none` when the function gives up. -/
def jobMode (tab : SClassTab) (c : Chunk) : Option JobMode :=
  let sm := tab.sclassGetKeeparchStoragemode c.sclassid c.archFlag c.trashFlag
  let dataOf := fun (sm : StorageMode) => sm.ecDataChksumParts.toNat / 16
  let chksumOf := fun (sm : StorageMode) => sm.ecDataChksumParts.toNat % 16
  let f := if sm.ecDataChksumParts = 0 then (0, false)
    else checkForcekeep (env.counts false) sm.labelscnt.toNat (dataOf sm) (chksumOf sm)
      (labelsModeForEc env sm) (0 < copiesIn Valid.isValid c.slist)
      (!(partsIn SEntry.isEc4 Valid.isValid c.slist).isEmpty)
      (!(partsIn SEntry.isEc8 Valid.isValid c.slist).isEmpty) env.replservers env.scount
  let n := env.counts false
  let limited := sm.ecDataChksumParts ≠ 0 ∧ f.1 = 0 ∧ sm.labelscnt = 2
  let dataLimit : Int := (n.chksumAllvalid + n.bothAllvalid : Int) - 2 * chksumOf sm
    - onBoth env isDataPart c.slist
  let chksumLimit : Int := (n.dataAllvalid + n.bothAllvalid : Int) - (dataOf sm + chksumOf sm)
    - onBoth env isChksumPart c.slist
  let sm' := if f.1 = 0 then sm else tab.sclassGetKeeparchStoragemode c.sclassid false false
  let data := dataOf sm'
  let goal := if sm'.ecDataChksumParts = 0 then sm'.labelscnt.toNat else chksumOf sm' + 1
  match reduceGoal env.scount data goal, codeOf data with
  | some goal, some (lo, hi) => some
    { sm := sm', keep := f.1 ≠ 0, usekeep := f.1, strict := f.2
      goal := goal, data := data, minecid := lo, maxecid := hi
      dataLimit := if limited then dataLimit else 0
      chksumLimit := if limited then chksumLimit else 0 }
  | _, _ => none

/-! ## §4. Deleting entries. -/

/-- Delete every entry that a test is true of. -/
def delWhere (p : SEntry → Bool) (l : List SEntry) : List SEntry :=
  l.mapIdx fun i s => if p s && env.sent i then s.setValid .del else s

/-- Could one of the entries be deleted? -/
def anySent (p : SEntry → Bool) (l : List SEntry) : Bool :=
  (l.mapIdx fun i s => p s && env.sent i).any id

/-- The place of the first entry that can be deleted. -/
def firstSent (p : SEntry → Bool) (l : List SEntry) : Option Nat :=
  (l.mapIdx fun i s => p s && env.sent i).findIdx? id

/-- Delete the entry at a place. -/
def delAt (i : Nat) (l : List SEntry) : List SEntry := l.modify i (SEntry.setValid .del)

/-- Delete the entry at a place if the command can be sent. -/
def tryDelAt (i : Nat) (l : List SEntry) : List SEntry :=
  if env.sent i then delAt i l else l

/-- Delete up to `n` valid entries of the part `ecid`, server by server, until a command cannot be
sent. -/
def delOn (env : JobEnv) (ecid : Nat) : List Nat → Nat → List SEntry → List SEntry
  | [], _, l => l
  | _ :: _, 0, l => l
  | csid :: rest, n + 1, l =>
    match l.findIdx? fun s => s.csid == csid && s.ecid == ecid with
    | none => delOn env ecid rest (n + 1) l
    | some i =>
      if (l[i]?.any fun s => s.valid.isValid) then
        if env.sent i then delOn env ecid rest n (delAt i l) else l
      else delOn env ecid rest (n + 1) l

def Chunk.setSlist (l : List SEntry) (c : Chunk) : Chunk := { c with slist := l }

/-! ## §5. States and versions. -/

/-- `c->fhead>FLISTNULLINDX`. -/
def Chunk.hasFiles (c : Chunk) : Bool := c.fhead != .few 0

/-- An unfinished entry is given up. -/
def dropPending (s : SEntry) : SEntry := if s.valid.pending then s.invalidate else s

/-- The version is the one before or after. -/
def adjacentVersion (best version : Nat) : Bool :=
  0 < best && ((best + 1) % 2 ^ 32 == version || version + 1 == best)

/-- Unexpected busy copies. -/
def fixBusy (c : Chunk) : Option Chunk :=
  if anyPending c.slist ∧ c.operation = .none
      ∧ 0 < copiesIn Valid.readable c.slist + validEc c.slist then
    some (c.setSlist (c.slist.map dropPending))
  else none

/-- The stale entries of the highest version are the current ones. -/
def adopt (valid : Nat → Bool) (code : SEntry → Bool) (best : Nat) (s : SEntry) : SEntry :=
  if code s && s.version == best && valid s.csid then
    match s.valid with
    | .wver => s.setValid .valid
    | .tdwver => s.setValid .tdvalid
    | _ => s
  else s

/-- There are only copies of a wrong version. -/
def fixCopyVersion (c : Chunk) : Option Chunk :=
  let best := bestVersion (partsIn SEntry.isCopy Valid.stale c.slist)
  if adjacentVersion best c.version then
    some { c with version := version30 best, needverincrease := true, allowreadzeros := false
                  slist := c.slist.map (adopt env.valid SEntry.isCopy best) }
  else none

/-- `chunk_fix_wrong_version_ec`. -/
def chunkFixWrongVersionEc (gequiv lo hi : Nat) (c : Chunk) : Option Chunk :=
  let stale := partsIn (SEntry.between lo hi) Valid.stale c.slist
  let best := bestVersion stale
  if adjacentVersion best c.version
      ∧ gequiv ≤ distinctParts (stale.filter fun s => s.version == best) then
    some { c with version := version30 best, allowreadzeros := false
                  slist := c.slist.map (adopt env.valid (SEntry.between lo hi) best) }
  else none

/-- If possible fix a chunk with wrong versions. -/
def fixVersion (goal : Nat) (c : Chunk) : Option Chunk :=
  if !anyUsable c.slist ∧ anyIn Valid.stale c.slist ∧ c.hasFiles then
    if goal ≤ copiesIn Valid.stale c.slist then fixCopyVersion env c
    else if 7 + goal ≤ distinctParts (partsIn SEntry.isEc8 Valid.stale c.slist) then
      chunkFixWrongVersionEc env (7 + goal) 0x20 0x30 c
    else if 3 + goal ≤ distinctParts (partsIn SEntry.isEc4 Valid.stale c.slist) then
      chunkFixWrongVersionEc env (7 + goal) 0x10 0x1C c
    else none
  else none

/-- A chunk with files and nothing usable is left alone. -/
def hopeless (c : Chunk) : Option Chunk :=
  if c.hasFiles ∧ ((!anyUsable c.slist ∧ anyIn Valid.useless c.slist) ∨ c.slist = []) then
    some c
  else none

/-! ## §6. Entries nobody needs. -/

variable (m : JobMode) (c : Chunk)

/-- `can_delete_invalid_chunks`. -/
def canDeleteInvalid : Nat :=
  let l := c.slist
  let n := env.counts m.keep
  let servers := fun (part : SEntry → Bool) => uniqServ none (l.filter part)
  let full := fun (v : Valid) => v != .del
  if !c.hasFiles ∧ c.lockedto < env.now ∧ !env.replock then 1
  else if m.goal ≤ regularEc l ∨ m.goal ≤ copiesIn Valid.regular l then 1
  else if 0 < regularEc l ∨ 0 < copiesIn Valid.regular l then
    if !m.strict then
      if env.replservers ≤ servers SEntry.isEc4 ∨ env.replservers ≤ servers SEntry.isEc8
        ∨ env.replservers ≤ copiesIn full l
        ∨ (env.extrajob = 0 ∧ env.replservers ≤ copiesIn (fun _ => true) l) then 2 else 0
    else if m.sm.labelscnt = 1 then
      if n.replallowed ≤ servers SEntry.isEc4 ∨ n.replallowed ≤ servers SEntry.isEc8 then 2 else 0
    else if m.sm.labelscnt = 2 then
      let data := n.dataReplallowed + n.bothReplallowed
      let chksum := n.chksumReplallowed + n.bothReplallowed
      if data ≤ servers (SEntry.between 0x10 0x13) ∨ chksum ≤ servers (SEntry.between 0x14 0x1C)
        ∨ data ≤ servers (SEntry.between 0x20 0x27) ∨ chksum ≤ servers (SEntry.between 0x28 0x30)
      then 2 else 0
    else 0
  else 0

/-- What the deletion of invalid entries is tried on. -/
def deletable (s : SEntry) : Bool :=
  s.valid.useless || (env.extrajob == 0 && s.valid == .del)

/-- Delete invalid and wrong-version entries. -/
def deleteInvalid : Option Chunk :=
  if env.dontdelete then none
  else if canDeleteInvalid env m c = 1 then
    if anySent env (deletable env) c.slist then
      some (c.setSlist (delWhere env (deletable env) c.slist))
    else none
  else if canDeleteInvalid env m c = 2 then
    -- to make space: one entry only
    (firstSent env (deletable env) c.slist).map fun i => c.setSlist (delAt i c.slist)
  else none

/-- A replication that did not end since the last loop. -/
def cancelReplication : Option Chunk :=
  if env.extrajob = 0 ∧ isReplication c.operation ∧ !env.replock then
    some { c with slist := c.slist.map dropPending, operation := .none }
  else none

/-- The chunk is in use, or has unexpected busy copies. -/
def inUse : Option Chunk :=
  if c.operation ≠ .none ∨ env.now ≤ c.lockedto ∨ env.replock ∨ anyPending c.slist then some c
  else none

/-- Delete an unused chunk. -/
def deleteUnused : Option Chunk :=
  if env.extrajob = 0 ∧ !c.hasFiles then
    some (c.setSlist (delWhere env (fun s => s.valid.readable) c.slist))
  else none

/-- `chunk_priority`. -/
def jobPriority : Nat := if env.extrajob < 2 then env.endanger c else 0

/-- `CHUNK_PRIORITY_WRONGLABELS`. -/
def priorityWrongLabels : Nat := 8

/-- `CHUNK_PRIORITY_HIGH`. -/
def priorityHigh (p : Nat) : Bool := p ≤ 2

/-- Something more important is to be done first. -/
def postponed : Option Chunk :=
  if (env.extrajob = 0 ∧ (List.range (jobPriority env c)).any env.shouldBlock)
      ∨ (env.extrajob < 2 ∧ env.stopJobs) then some c
  else none

/-! ## §7. Parts. -/

/-- `can_delete_mark_for_removal`. -/
def canDeleteMarked (l : List SEntry) : Bool :=
  let n := env.counts m.keep
  let servers := fun (part : SEntry → Bool) =>
    uniqServ none (partsIn (fun s => m.code s && part s) Valid.readable l)
  let isData := fun (s : SEntry) => decide (s.ecid < m.minecid + m.data)
  if !m.strict then env.replservers ≤ servers fun _ => true
  else if m.sm.labelscnt = 1 then n.replallowed ≤ servers fun _ => true
  else if m.sm.labelscnt = 2 then
    n.dataReplallowed + n.bothReplallowed ≤ servers isData
      || n.chksumReplallowed + n.bothReplallowed ≤ servers fun s => !isData s
  else false

/-- Parts occupy all servers: one that is marked for removal and there twice is deleted. -/
def deleteMarkedPart : Option Chunk :=
  let l := c.slist
  if !env.dontdelete ∧ regularEc l < m.goal ∧ m.data ≠ 0
      ∧ !(partsIn m.code Valid.isTdvalid l).isEmpty ∧ env.oneCopyEmpty
      ∧ canDeleteMarked env m l then
    let doubled := overParts m.code Valid.readable l
    match firstSent env (fun s => s.valid.isTdvalid && m.code s && doubled.contains s.ecid) l with
    | some i => some (c.setSlist (delAt i l))
    | none => some c
  else none

/-- The server with more than one valid part, and the part before the second one; without such a
server, those of the last part. -/
def crowded (code : SEntry → Bool) : Option (Nat × Nat) → List SEntry → Option (Nat × Nat)
  | last, [] => last
  | last, s :: l =>
    if s.valid.isValid && code s then
      if last.map Prod.fst = some s.csid then last else crowded code (some (s.csid, s.ecid)) l
    else crowded code last l

/-- The place of the first entry that a test is true of, on the server `csid` if there is one. -/
def placeOn (csid : Option Nat) (p : SEntry → Bool) (l : List SEntry) : Option Nat :=
  (l.findIdx? fun s => p s && some s.csid == csid).or (l.findIdx? p)

/-- `chunk_check_label_for_ec_part`, with what is left of the limit. -/
def checkLabelForEcPart (chksum : Bool) (limit : Int) (csid : Nat) :
    Bool × Int :=
  let is := env.labelled m.keep csid
  if m.sm.labelscnt = 0 then (true, limit)
  else if m.sm.ecDataChksumParts = 0 then
    ((List.range m.sm.labelscnt.toNat).any is, limit)
  else if m.sm.labelscnt = 1 then (is 0, limit)
  else if m.sm.labelscnt = 2 then
    if is 0 && is 1 && 0 < limit then (true, limit - 1)
    else ((is 0 && !chksum) || (is 1 && chksum), limit)
  else (true, limit)

/-- The servers of a list that match the labels, those that do not, in order. -/
def splitByLabel (env : JobEnv) (m : JobMode) (chksum : Bool) : Int → List Nat →
    List Nat × List Nat × Int
  | limit, [] => ([], [], limit)
  | limit, csid :: rest =>
    let r := checkLabelForEcPart env m chksum limit csid
    let next := splitByLabel env m chksum r.2 rest
    if r.1 then (csid :: next.1, next.2) else (next.1, csid :: next.2.1, next.2.2)

/-- `chunk_get_available_servers_for_parts`. -/
def availableServersForParts (recovery chksum : Bool) (lo hi : Nat)
    (l : List SEntry) : List Nat :=
  let limit := if chksum then m.chksumLimit else m.dataLimit
  let free := env.lessrepl.filter fun csid => !l.any fun s => s.csid == csid && s.between lo hi
  let r := splitByLabel env m chksum limit free
  let servers := if m.strict then r.1 else r.1 ++ r.2.1
  if servers.isEmpty && recovery then
    let r := splitByLabel env m chksum r.2.2 env.lessrepl
    if !m.strict && env.labelsMode m.keep == .std then r.1 ++ r.2.1 else r.1
  else servers

/-- `chunk_replicate`: `none` when it fails. -/
def chunkReplicate (ecid dst : Nat) : Option Chunk :=
  if !chunkCheckEcid ecid || (c.slist.any fun s => s.csid == dst && s.ecid == ecid)
      || !env.replSent ecid dst then none
  else some { c with operation := .replicate
                     slist := chunkNewCopy ⟨dst, .busy, ecid, c.version⟩ c.slist }

/-- One replication after the other, up to the first that fails; `true` when none did. -/
def replicateAll (env : JobEnv) : List (Nat × Nat) → Chunk → Chunk × Bool
  | [], c => (c, true)
  | (ecid, dst) :: rest, c =>
    match chunkReplicate env c ecid dst with
    | some c' => replicateAll env rest c'
    | none => (c, false)

variable (c : Chunk)

/-- The first replication that does not fail. -/
def replicateAny (todo : List (Nat × Nat)) : Chunk :=
  (todo.findSome? fun p => chunkReplicate env c p.1 p.2).getD c

/-- The label a part of a code has to match. -/
def labelOfPart (ecid : Nat) : Nat :=
  if m.sm.labelscnt = 1 ∨ ecid < m.minecid + m.data then 0 else 1

/-- The part that leaves the crowded server: one with a wrong label if there is one. -/
def partToMove (csid ecid : Nat) (l : List SEntry) : Nat :=
  if m.sm.labelscnt = 0 then ecid
  else match l.find? fun s => s.valid.isValid && m.code s && s.csid == csid
      && !env.labelled m.keep s.csid (labelOfPart m s.ecid) with
    | some s => s.ecid
    | none => ecid

/-- Where the part goes: a server with the right label, or any when the labels are not strict. -/
def placeForPart (ecid : Nat) (l : List SEntry) : Option Nat :=
  let chksum := m.minecid + m.data ≤ ecid
  let limit := if chksum then m.chksumLimit else m.dataLimit
  let free := env.lessrepl.filter fun csid =>
    !l.any fun s => s.csid == csid && m.minecid ≤ s.ecid && s.ecid < m.endecid
  let r := splitByLabel env m chksum limit free
  r.1.head?.or (if m.strict then none else r.2.1.head?)

/-- Two or more parts on the same server: an extra checksum or a duplicate is deleted, or a part is
moved. -/
def sameServer : Option Chunk :=
  let l := c.slist
  if m.data = 0 ∨ !partsOnTheSameServer l then none
  else
    let at' := crowded m.code none l
    let csid := at'.map Prod.fst
    let doubled := overParts m.code Valid.isValid l
    match placeOn csid (fun s => s.valid.isValid && m.endecid ≤ s.ecid) l with
    | some i => some (c.setSlist (tryDelAt env i l))
    | none =>
      match placeOn csid (fun s => s.valid.isValid && m.code s && doubled.contains s.ecid) l with
      | some i => some (c.setSlist (tryDelAt env i l))
      | none =>
        match at' with
        | none => some c
        | some (csid, ecid) =>
          let ecid := partToMove env m csid ecid l
          if env.reads csid then
            match placeForPart env m ecid l with
            | some dst => some ((chunkReplicate env c ecid dst).getD c)
            | none => some c
          else some c

/-- The servers a part is deleted from, fullest first; with labels, those of a wrong label before
the others. -/
def overServers (ecid : Nat) (l : List SEntry) : List Nat :=
  let holders := env.ordered.reverse.filter fun csid =>
    l.any fun s => s.csid == csid && s.ecid == ecid && s.valid.isValid
  let right := fun csid => env.labelled m.keep csid (labelOfPart m ecid)
  if m.sm.labelscnt = 0 then env.ordered.reverse
  else holders.filter (fun csid => !right csid) ++ holders.filter right

/-- Duplicates of one part. -/
def delOverPart (l : List SEntry) (ecid : Nat) : List SEntry :=
  let n := (l.filter fun s => s.ecid == ecid && s.valid.isValid).length % 256
  delOn env ecid (overServers env m ecid l) (n - 1) l

/-- Extra copies of parts. -/
def deleteOverParts : Option Chunk :=
  if m.data ≠ 0 ∧ !(overParts m.code Valid.isValid c.slist).isEmpty then
    some (c.setSlist (((List.range (m.endecid - m.minecid)).map (m.minecid + ·)).foldl
      (delOverPart env m) c.slist))
  else none

/-! ## §8. New parts and copies. -/

/-- `survivors`: the first parts of a code that can be read, when there are enough. -/
def survivors (data lo hi : Nat) (l : List SEntry) : List Nat :=
  let ready := (List.range (hi - lo + 1)).filter fun i => l.any fun s =>
    s.valid.readable && s.ecid == lo + i && env.reads s.csid
  if data ≤ ready.length ∧ 0 < validEc l then ready.take data else []

def survivors8 (l : List SEntry) : List Nat := survivors env 8 0x20 0x30 l

def survivors4 (l : List SEntry) : List Nat := survivors env 4 0x10 0x1C l

/-- The survivors of the code of the mode. -/
def survivorsOf (l : List SEntry) : List Nat :=
  if m.data = 8 then survivors8 env l else if m.data = 4 then survivors4 env l else []

/-- `preferedsrccsid`: a copy to read from, a valid one if there is one. -/
def preferredSource (l : List SEntry) : Option Nat :=
  ((l.find? fun s => s.isCopy && env.reads s.csid && s.valid.isValid).or
    (l.find? fun s => s.isCopy && env.reads s.csid && s.valid.isTdvalid)).map SEntry.csid

/-- Nothing to replicate from. -/
def noSource : Option Chunk :=
  if (preferredSource env c.slist).isNone ∧ survivors8 env c.slist = []
      ∧ survivors4 env c.slist = [] then some c
  else none

/-- The parts `lo + i` for the numbers that have to be made, each on a server of its own. -/
def makeParts (lo : Nat) (parts servers : List Nat) (c : Chunk) : Chunk × Bool :=
  replicateAll env ((parts.map (lo + ·)).zip servers) c

/-- The numbers of the parts of a code that are valid. -/
def hasValidPart (lo i : Nat) (l : List SEntry) : Bool :=
  l.any fun s => s.valid.isValid && s.ecid == lo + i

/-- The number of a part is marked for removal only. -/
def markedOnly (lo i : Nat) (l : List SEntry) : Bool :=
  (l.any fun s => s.valid.isTdvalid && s.ecid == lo + i) && !hasValidPart lo i l

/-- No copies, and parts that are only on disks marked for removal. -/
def moveMarkedParts : Option Chunk :=
  let l := c.slist
  let marked := fun i => markedOnly m.minecid i l
  let alive := survivorsOf env m l
  if m.data ≠ 0 ∧ copiesIn Valid.readable l = 0 ∧ alive.any marked then
    let ofData := (List.range m.data).any marked
    let numbers := if ofData then List.range m.data else List.range' m.data (m.goal - 1)
    let servers := availableServersForParts env m false (!ofData) m.minecid (m.endecid - 1) l
    some (makeParts env m.minecid (numbers.filter fun i => marked i && alive.contains i) servers c).1
  else none

/-- No copies, and data parts of a code are missing: they are recovered. -/
def recoverParts (data lo : Nat) (alive : List Nat) (c : Chunk) :
    Option Chunk :=
  let l := c.slist
  let readable := fun i => l.any fun s => s.valid.readable && s.ecid == lo + i
  if copiesIn Valid.readable l = 0 ∧ !(List.range data).all readable ∧ data ≤ alive.length then
    let servers := availableServersForParts env m true false lo (lo + (data - 2) + m.goal) l
    some (makeParts env lo ((List.range data).filter fun i => !hasValidPart lo i l) servers c).1
  else none

/-- The parts a local split makes. -/
def splitParts (src : Nat) (l : List SEntry) : List Nat :=
  (List.range (m.endecid - m.minecid)).filter fun i =>
    !hasValidPart m.minecid i l && !(survivorsOf env m l).contains i
      && !l.any fun s => s.csid == src && s.ecid == m.minecid + i

/-- A server with a copy makes the missing parts itself. -/
def localSplit : Option Chunk :=
  match preferredSource env c.slist with
  | none => none
  | some src =>
    let missing := splitParts env m src c.slist
    if m.data ≠ 0 ∧ regularEc c.slist < m.goal ∧ env.canSplit src ∧ missing ≠ [] then
      if env.splitSent then
        some { c with
          operation := .localsplit
          slist := missing.foldl (fun l i =>
            chunkNewCopy ⟨src, .busy, m.minecid + i, c.version⟩ l) c.slist }
      else some c
    else none

/-- Checksum parts are missing. -/
def makeChecksums : Option Chunk :=
  let l := c.slist
  let readable := fun i => l.any fun s => s.valid.readable && s.ecid == m.minecid + i
  if m.data ≠ 0 ∧ regularEc l < m.goal ∧ (List.range m.data).all readable
      ∧ m.data ≤ (survivorsOf env m l).length then
    let servers := availableServersForParts env m false true m.minecid (m.endecid - 1) l
    some (makeParts env m.minecid
      ((List.range' m.data (m.goal - 1)).filter fun i => !hasValidPart m.minecid i l) servers c).1
  else none

/-- Data parts are missing and there is a copy. -/
def splitCopy : Option Chunk :=
  let l := c.slist
  if m.data ≠ 0 ∧ !((List.range m.data).all fun i => hasValidPart m.minecid i l)
      ∧ (preferredSource env l).isSome then
    let servers := availableServersForParts env m false false m.minecid (m.endecid - 1) l
    some (makeParts env m.minecid
      ((List.range m.data).filter fun i => !hasValidPart m.minecid i l) servers c).1
  else none

/-- The servers of a list that have no copy. -/
def withoutCopy (l : List SEntry) (servers : List Nat) : List Nat :=
  servers.filter fun csid => !l.any fun s => s.csid == csid && s.isCopy

/-- `sm->has_labels || DoNotUseSameIP || DoNotUseSameRack`. -/
def byLabels : Bool := m.sm.hasLabels || env.useTopology

/-- The elements of a list at the places a test is true of. -/
def atPlaces (p : Nat → Bool) (l : List Nat) : List Nat :=
  (l.zipIdx.filter fun e => p e.2).map Prod.fst

/-- No copies, and all data parts of a code: they are joined. -/
def joinParts : Option Chunk :=
  let l := c.slist
  if m.data = 0 ∧ copiesIn Valid.readable l = 0
      ∧ (survivors8 env l = List.range 8 ∨ survivors4 env l = List.range 4) then
    let free := withoutCopy l env.lessrepl
    let servers := if byLabels env m then
        atPlaces (fun i => ((env.advancedMatch m.keep free).server i).isSome) free
      else free.take m.goal
    some (replicateAll env (servers.map fun dst => (0, dst)) c).1
  else none

/-! ## §9. After a conversion. -/

/-- Enough parts: the copies go. -/
def deleteCopies : Option Chunk :=
  let l := c.slist
  if !env.dontdelete ∧ m.data ≠ 0 ∧ 0 < copiesIn Valid.isValid l ∧ m.goal ≤ regularEc l then
    some (c.setSlist (delWhere env (fun s => s.valid.isValid && s.isCopy) l))
  else none

/-- Enough copies: the parts go. -/
def deleteParts : Option Chunk :=
  let l := c.slist
  if !env.dontdelete ∧ m.data = 0
      ∧ (!(partsIn SEntry.isEc8 Valid.isValid l).isEmpty
        ∨ !(partsIn SEntry.isEc4 Valid.isValid l).isEmpty)
      ∧ m.goal ≤ copiesIn Valid.isValid l then
    some (c.setSlist (delWhere env (fun s => s.valid.isValid && !s.isCopy) l))
  else none

/-- More parts than the goal asks for. -/
def deleteExtraParts : Option Chunk :=
  let l := c.slist
  if m.data ≠ 0 ∧ m.goal < regularEc l then
    some (c.setSlist (delWhere env (fun s => s.valid.isValid && m.endecid ≤ s.ecid) l))
  else none

/-- Parts on servers with wrong labels. -/
def moveLabelledParts : Option Chunk :=
  let l := c.slist
  let wrong := fun i => l.any fun s => s.valid.isValid && s.ecid == m.minecid + i && m.code s
    && !env.labelled m.keep s.csid (labelOfPart m s.ecid)
  let any := (List.range (m.maxecid - m.minecid + 1)).any wrong
  if m.data ≠ 0 ∧ jobPriority env c = priorityWrongLabels ∧ m.sm.labelscnt ≠ 0 ∧ any then
    let numbers := fun (from' n : Nat) => (List.range' from' n).filter fun i => wrong i
      && l.any fun s => env.reads s.csid && s.valid.isValid && s.ecid == m.minecid + i
    let servers := fun (label : Nat) (l : List SEntry) => env.lessrepl.filter fun csid =>
      (!l.any fun s => s.csid == csid && m.code s) && env.labelled m.keep csid label
    let r := if (List.range m.data).any wrong then
        makeParts env m.minecid (numbers 0 m.data) (servers 0 l) c
      else (c, true)
    let extra := (List.range' m.data (m.maxecid - m.minecid + 1 - m.data)).any wrong
    let chksumLabel := if m.sm.labelscnt = 1 then 0 else 1
    some (if r.2 && extra then
        (makeParts env m.minecid (numbers m.data (m.goal - 1)) (servers chksumLabel r.1.slist) r.1).1
      else r.1)
  else none

/-! ## §10. Copies. -/

/-- The servers with a valid copy, in an order. -/
def copyHolders (l : List SEntry) (servers : List Nat) : List Nat :=
  servers.filter fun csid => l.any fun s => s.csid == csid && s.isCopy && s.valid.isValid

/-- More copies than the goal asks for. -/
def deleteExtraCopies : Option Chunk :=
  let l := c.slist
  let vc := copiesIn Valid.isValid l
  if m.data = 0 ∧ m.goal < vc then
    let n := (vc - m.goal) % 256
    if byLabels env m then
      let holders := copyHolders l env.ordered
      let spare := atPlaces (fun i => !env.extendedMatch m.keep holders i) holders
      some (c.setSlist (delOn env 0 spare n l))
    else
      let l' := delOn env 0 env.ordered.reverse n l
      some { c with slist := l', needverincrease := c.needverincrease || l' != l }
  else none

/-- All servers are occupied: a copy that is marked for removal makes space. -/
def deleteMarkedCopy : Option Chunk :=
  let l := c.slist
  let vc := copiesIn Valid.isValid l
  let tdc := copiesIn Valid.isTdvalid l
  let marked := fun (s : SEntry) => s.valid.isTdvalid && s.isCopy && env.availSpace s.csid
  if m.data = 0 ∧ env.scount ≤ vc + tdc ∧ vc < m.goal ∧ 0 < tdc ∧ 1 < vc + tdc ∧ env.oneCopyEmpty
      ∧ env.scount ≤ vc + (l.filter marked).length then
    (firstSent env marked l).map fun i =>
      { c with slist := delAt i l, needverincrease := true }
  else none

/-- The servers a copy can go to with labels, in the order they are tried. -/
def labelledServers (std busy : List Nat) (l : List SEntry) : List Nat :=
  let copies := (l.filter fun s => s.valid.isValid && s.isCopy).map SEntry.csid
  let servers := copies ++ withoutCopy l std ++ busy
  let maxstd := (copies ++ withoutCopy l std).length
  let matching := env.advancedMatch m.keep servers
  let unmatched := atPlaces (fun j => copies.length ≤ j && j < maxstd
    && (matching.server j).isNone) servers
  (List.range m.sm.labelscnt.toNat).flatMap fun i =>
    match matching.label i with
    | none => if env.labelsMode m.keep = .strict then [] else unmatched
    | some p =>
      if maxstd ≤ p then (if env.labelsMode m.keep = .loose then unmatched else [])
      else if copies.length ≤ p then (servers[p]?).toList
      else []

/-- Too few copies, or copies with wrong labels. -/
def replicateCopy : Option Chunk :=
  let l := c.slist
  let vc := copiesIn Valid.isValid l
  let high := priorityHigh (jobPriority env c)
  let std := if high then env.groupOk ++ env.groupOverloaded else env.groupOk
  let busy := (if high then [] else withoutCopy l env.groupOverloaded)
    ++ env.groupLimited.filter fun csid => !l.any fun s => s.csid == csid
  let limit := (env.groupOk ++ env.groupOverloaded ++ env.groupLimited).length
  let source := l.any fun s => s.isCopy && env.reads s.csid && s.valid.readable
  if m.data = 0 ∧ (jobPriority env c = priorityWrongLabels ∨ vc < m.goal)
      ∧ 0 < copiesIn Valid.readable l then
    if source ∧ std ≠ [] then
      let servers := if byLabels env m then labelledServers env m std busy l
        else if m.goal ≤ limit ∨ vc < limit then withoutCopy l std
        else []
      some (replicateAny env c ((servers.filter env.hasSource).map fun dst => (0, dst)))
    else some c
  else none

/-- The chunk is as its mode wants it, in copies or in parts. -/
def settled (l : List SEntry) : Bool :=
  let other := if m.data = 8 then SEntry.isEc4 else SEntry.isEc8
  if m.data = 0 then m.goal == copiesIn Valid.isValid l
  else m.goal == regularEc l && copiesIn Valid.readable l == 0
    && (partsIn other Valid.readable l).isEmpty

/-- Evening out the usage of the servers. -/
def rebalance (env : JobEnv) (m : JobMode) (c : Chunk) : Option Chunk :=
  let l := c.slist
  let sources := ((partsIn m.code Valid.isValid l).map fun s => (s.ecid, s.csid))
  let used := (l.filter m.code).map SEntry.csid
  if env.extrajob ≠ 0 ∨ env.noRebalance ∨ !settled m l then some c
  else match env.rebalance sources used with
    | some (ecid, dst) =>
      if (sources.any fun p => p.1 == ecid) && env.ordered.contains dst && !used.contains dst then
        some ((chunkReplicate env c ecid dst).getD c)
      else some c
    | none => some c

/-! ## §11. `chunk_do_jobs`. -/

/-- Before the stages: no write is in progress on a chunk that is not locked, and an operation that
no server is busy with is over. -/
def settle : Chunk :=
  { c with
    writeinprogress := c.writeinprogress && !decide (c.lockedto < env.now)
    operation := if anyPending c.slist then c.operation else .none }

/-- The stages of a chunk that nothing else works on. -/
def idleStages : List (Option Chunk) :=
  if c.lockedto < env.now ∧ !env.replock then [fixBusy c, fixVersion env m.goal c, hopeless c] else []

/-- The stages, in order. -/
def stages : List (Option Chunk) :=
  idleStages env m c ++
    [deleteInvalid env m c, cancelReplication env c, inUse env c, deleteUnused env c,
      postponed env c, deleteMarkedPart env m c, sameServer env m c, deleteOverParts env m c,
      noSource env c, moveMarkedParts env m c,
      recoverParts env m 8 0x20 (survivors8 env c.slist) c,
      recoverParts env m 4 0x10 (survivors4 env c.slist) c, localSplit env m c,
      makeChecksums env m c, splitCopy env m c, joinParts env m c, deleteCopies env m c,
      deleteParts env m c, deleteExtraParts env m c, moveLabelledParts env m c,
      deleteExtraCopies env m c, deleteMarkedCopy env m c, replicateCopy env m c,
      rebalance env m c]

/-- `chunk_do_jobs`, once the entries of lost servers are gone. -/
def chunkDoJobs (tab : SClassTab) (c : Chunk) : Chunk :=
  let c := settle env c
  match jobMode env tab c with
  | none => c
  | some m => ((stages env m c).findSome? id).getD c

end MfsMaster
