/-
  MfsMaster.Chunk.Copies
  **THE COPIES AND PARTS OF A CHUNK** (`chunks.c`): the states an entry of the list can
  be in, the order of the list, and `chunk_state_fix`, which derives from the list how
  many losses the chunk survives.
-/
import MfsMaster.Chunk.Files
import Mathlib.Data.List.Dedup

namespace MfsMaster

/-! ## §1. States of an entry. -/

namespace Valid

/-- Not `INVALID`, `DEL`, `WVER` or `TDWVER`. -/
def usable : Valid → Bool
  | .busy | .valid | .tdbusy | .tdvalid => true
  | _ => false

/-- `BUSY` or `TDBUSY`. -/
def pending : Valid → Bool
  | .busy | .tdbusy => true
  | _ => false

/-- `VALID` or `TDVALID`. -/
def readable : Valid → Bool
  | .valid | .tdvalid => true
  | _ => false

/-- `WVER` or `TDWVER`. -/
def stale : Valid → Bool
  | .wver | .tdwver => true
  | _ => false

/-- `VALID` or `BUSY`: not on a server marked for removal. -/
def regular : Valid → Bool
  | .busy | .valid => true
  | _ => false

end Valid

namespace SEntry

/-- A full copy. -/
def isCopy (s : SEntry) : Bool := s.ecid == 0

/-- A part of the 4-part code: `0x10..0x1C`. -/
def isEc4 (s : SEntry) : Bool := 0x10 ≤ s.ecid && s.ecid ≤ 0x1C

/-- A part of the 8-part code: `0x20..0x30`. -/
def isEc8 (s : SEntry) : Bool := 0x20 ≤ s.ecid && s.ecid ≤ 0x30

def setValid (v : Valid) (s : SEntry) : SEntry := { s with valid := v }

/-- `INVALID` with version 0. -/
def invalidate (s : SEntry) : SEntry := { s with valid := .invalid, version := 0 }

end SEntry

/-- `chunk_check_ecid`. -/
def chunkCheckEcid (ecid : Nat) : Bool :=
  ecid == 0 || (0x20 ≤ ecid && ecid ≤ 0x30) || (0x10 ≤ ecid && ecid ≤ 0x1C)

/-- `chunk_new_copy`: the list is ordered by server and part. -/
def chunkNewCopy (s : SEntry) : List SEntry → List SEntry
  | [] => [s]
  | si :: l =>
    if si.csid < s.csid ∨ (si.csid = s.csid ∧ si.ecid < s.ecid) then si :: chunkNewCopy s l
    else s :: si :: l

/-! ## §2. `chunk_state_fix`. -/

/-- `bitcount` of a mask of parts: the number of different parts. -/
def distinctParts (l : List SEntry) : Nat :=
  (l.map SEntry.ecid).dedup.length

/-- `uniqserv`: the changes of server along the list, `last` being the one before it. -/
def uniqServ : Option Nat → List SEntry → Nat
  | _, [] => 0
  | last, s :: l => (if last = some s.csid then 0 else 1) + uniqServ (some s.csid) l

/-- The parts of one code: enough different ones, on enough servers. -/
def partsGequiv (dataParts : Nat) (parts : List SEntry) : Nat :=
  min (distinctParts parts) (uniqServ none parts % 256) - (dataParts - 1)

/-- `chunk_calc_ecge`: how many losses the parts survive, plus one, and the code this is
true of. -/
def chunkCalcEcge (l : List SEntry) : Nat × StorageKind :=
  let ge8 := partsGequiv 8 (l.filter SEntry.isEc8)
  let ge4 := partsGequiv 4 (l.filter SEntry.isEc4)
  if ge8 < ge4 then (ge4, .ec4)
  else if 0 < ge8 then (ge8, .ec8)
  else (0, .copies)

/-- The storage mode `chunk_state_fix` decides on from the usable entries. -/
def storageKindOf (l : List SEntry) : StorageKind :=
  let allc := (l.filter SEntry.isCopy).length % 256
  let ec := chunkCalcEcge l
  let d8 := distinctParts (l.filter SEntry.isEc8)
  let d4 := distinctParts (l.filter SEntry.isEc4)
  if allc = 0 ∧ ec.1 = 0 then
    if d4 < d8 then .ec8 else if 0 < d4 then .ec4 else .copies
  else if ec.1 ≤ allc then .copies
  else ec.2

/-- What `chunk_state_fix` derives from a list: the storage mode, `allecge` and `regecge`. -/
def countersOf (l : List SEntry) : StorageKind × Nat × Nat :=
  let all := l.filter fun s => s.valid.usable
  let reg := all.filter fun s => s.valid.regular
  let mode := storageKindOf all
  let gequiv := fun (l : List SEntry) =>
    min 15 (if mode = .copies then (l.filter SEntry.isCopy).length % 256 else (chunkCalcEcge l).1)
  (mode, gequiv all, gequiv reg)

/-- `chunk_state_fix`. -/
def chunkStateFix (c : Chunk) : Chunk :=
  let n := countersOf c.slist
  c.ifNew (chunkStateSetCounters c n.1 n.2.1 n.2.2)

end MfsMaster
