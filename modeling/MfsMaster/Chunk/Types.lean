/-
  MfsMaster.Chunk.Types
  The chunk record (`chunks.c`): its copies and erasure-code parts on the chunk
  servers, and the list of storage classes of the files it belongs to.
-/
import MfsMaster.SClass

namespace MfsMaster

/-- `chunk.operation`. -/
inductive Operation where
  | none
  | create
  | setVersion
  | duplicate
  | truncate
  | duptrunc
  | replicate
  | localsplit
  deriving Repr, DecidableEq

/-- `slist.valid`; the `td` states are those of copies on servers marked for removal. -/
inductive Valid where
  | invalid
  | del
  | busy
  | valid
  | wver
  | tdbusy
  | tdvalid
  | tdwver
  deriving Repr, DecidableEq

/-- One copy or part: `ecid = 0` for a full copy, `0x10..0x1C` for a part of the
4-part code, `0x20..0x30` for a part of the 8-part code. -/
structure SEntry where
  csid : Nat
  valid : Valid
  ecid : Nat
  version : Nat
  deriving Repr, DecidableEq

/-- `flist`: `fcount` files of one class. -/
structure FRef where
  fcount : Nat
  sclassid : Nat
  deriving Repr, DecidableEq

/-- `chunk.fhead`: a number of files below `FLISTFIRSTINDX`, all of the chunk's own
class, or the index of a list. -/
inductive FHead where
  | few (n : Nat)
  | many (l : List FRef)
  deriving Repr, DecidableEq

/-- `FLISTFIRSTINDX`. -/
def flistFirstIndx : Nat := 5

/-- `FLISTMAXFCOUNT`: the largest value of the 24-bit counter. -/
def flistMaxFcount : Nat := 0xFFFFFF

/-- `STORAGE_MODE_*`. -/
inductive StorageKind where
  | copies
  | ec8
  | ec4
  deriving Repr, DecidableEq

/-- What `chunk_state_change` is told about a state of a chunk. -/
structure ChunkState where
  sclassid : Nat
  archFlag : Bool
  trashFlag : Bool
  storageMode : StorageKind
  allGequiv : Nat
  regGequiv : Nat
  deriving Repr, DecidableEq

/-- `chunk`; the two bits of `flags` are `archFlag` and `trashFlag`.  `moves` are the calls of
`chunk_state_change` for this chunk, the last one first, that are not in the counters of the
master yet: the old and the new state of each. -/
structure Chunk where
  version : Nat
  sclassid : Nat
  needverincrease : Bool
  allowreadzeros : Bool
  interrupted : Bool
  writeinprogress : Bool
  storageMode : StorageKind
  allGequiv : Nat
  regGequiv : Nat
  archFlag : Bool
  trashFlag : Bool
  operation : Operation
  lockedto : UInt32
  fhead : FHead
  slist : List SEntry
  moves : List (ChunkState × ChunkState)
  deriving Repr, DecidableEq

/-- The state of a chunk as the counters of the master see it. -/
def Chunk.state (c : Chunk) : ChunkState :=
  { sclassid := c.sclassid, archFlag := c.archFlag, trashFlag := c.trashFlag
    storageMode := c.storageMode, allGequiv := c.allGequiv, regGequiv := c.regGequiv }

/-- The call of `chunk_state_change` for `c`, which becomes `c'`. -/
def Chunk.stateChange (c c' : Chunk) : Chunk :=
  { c' with moves := (c.state, c'.state) :: c.moves }

/-- `chunk_state_set_counters`. -/
def chunkStateSetCounters (c : Chunk) (storageMode : StorageKind) (allGe regGe : Nat) : Chunk :=
  c.stateChange { c with storageMode := storageMode, allGequiv := allGe, regGequiv := regGe }

/-- `chunk_state_set_flags`. -/
def chunkStateSetFlags (c : Chunk) (archFlag trashFlag : Bool) : Chunk :=
  c.stateChange { c with archFlag := archFlag, trashFlag := trashFlag }

/-- `chunk_state_set_sclass`. -/
def chunkStateSetSclass (c : Chunk) (sclassid : Nat) : Chunk :=
  c.stateChange { c with sclassid := sclassid }

/-- A setter that is called only when it changes something: otherwise `c' = c`, and there is no
call. -/
def Chunk.ifNew (c c' : Chunk) : Chunk :=
  { c' with moves := if c'.state = c.state then c.moves else c'.moves }

/-- `if (newflags != c->flags) chunk_state_set_flags(c,newflags)`. -/
def Chunk.newFlags (c : Chunk) (archFlag trashFlag : Bool) : Chunk :=
  c.ifNew (chunkStateSetFlags c archFlag trashFlag)

/-- `if (sclassid!=c->sclassid) chunk_state_set_sclass(c,sclassid)`. -/
def Chunk.newSclass (c : Chunk) (sclassid : Nat) : Chunk :=
  c.ifNew (chunkStateSetSclass c sclassid)

/-- What the counters of a chunk depend on. -/
def Chunk.files (c : Chunk) : FHead × Nat := (c.fhead, c.sclassid)

/-- `chunk_new`. -/
def chunkNew : Chunk :=
  { version := 0, sclassid := 0, needverincrease := true, allowreadzeros := false
    interrupted := false, writeinprogress := false
    storageMode := .copies, allGequiv := 0, regGequiv := 0
    archFlag := false, trashFlag := false, operation := .none
    lockedto := 0, fhead := .few 0, slist := [], moves := [] }

end MfsMaster
