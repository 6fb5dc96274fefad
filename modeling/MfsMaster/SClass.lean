/-
  MfsMaster.SClass
  Storage classes (`storageclass.c`) and creation patterns (`patterns.c`), as far
  as the metadata functions read them.
-/
import MfsMaster.Types

namespace MfsMaster

/-! ## §1. Storage classes. -/

/-- `storagemode`: the number of labels, the erasure code (`ec_data_chksum_parts`:
data parts in the high half, checksum parts in the low half, 0 = copies), whether
any label is set. -/
structure StorageMode where
  labelscnt : UInt8
  ecDataChksumParts : UInt8
  hasLabels : Bool
  deriving Repr, DecidableEq

/-- One line of `sclasstab`. -/
structure SClass where
  adminOnly : Bool
  priority : UInt32
  archMode : UInt8
  archDelay : UInt16
  archMinSize : UInt64
  minTrashretention : UInt16
  create : StorageMode
  keep : StorageMode
  arch : StorageMode
  trash : StorageMode
  deriving Repr, DecidableEq

def archModeCtime : UInt8 := 0x01
def archModeMtime : UInt8 := 0x02
def archModeAtime : UInt8 := 0x04
def archModeReversible : UInt8 := 0x08

/-- The class table with `MaxECRedundancyLevel`. -/
structure SClassTab where
  tab : Nat → SClass
  maxECRedundancyLevel : UInt8

namespace SClassTab

variable (t : SClassTab) (sclassid : Nat)

/-- `sclass_get_keeparch_max_goal_equivalent`. -/
def sclassGetKeeparchMaxGoalEquivalent : UInt8 :=
  let c := t.tab sclassid
  let chksum := c.arch.ecDataChksumParts &&& 0xF
  let chksum := if t.maxECRedundancyLevel < chksum then t.maxECRedundancyLevel else chksum
  if chksum ≠ 0 then
    if c.keep.labelscnt ≤ chksum then chksum + 1 else c.keep.labelscnt
  else if c.keep.labelscnt < c.arch.labelscnt then c.arch.labelscnt
  else c.keep.labelscnt

/-- `sclass_get_keeparch_storage_eights`: what one byte of a file of this class takes
on disk, in eighths. -/
def sclassGetKeeparchStorageEights (keepflag : Bool) : UInt8 :=
  let c := t.tab sclassid
  if !keepflag && (0 < c.arch.labelscnt || c.arch.ecDataChksumParts ≠ 0) then
    if c.arch.ecDataChksumParts ≠ 0 then
      let data := c.arch.ecDataChksumParts.toNat / 16
      let chksum := c.arch.ecDataChksumParts.toNat % 16
      UInt8.ofNat (((min chksum t.maxECRedundancyLevel.toNat + data) * 8) / data)
    else c.arch.labelscnt * 8
  else c.keep.labelscnt * 8

/-- `sclass_get_keeparch_maxstorage_eights`: the most that one byte of a file of this class
takes on disk, in eighths. -/
def sclassGetKeeparchMaxstorageEights : UInt8 :=
  let c := t.tab sclassid
  let res : UInt8 := if c.arch.ecDataChksumParts ≠ 0 then
      let data := c.arch.ecDataChksumParts >>> 4
      let chksum := c.arch.ecDataChksumParts &&& 0xF
      let chksum := if t.maxECRedundancyLevel < chksum then t.maxECRedundancyLevel else chksum
      ((data + chksum) * 8) / data
    else c.arch.labelscnt * 8
  if res < c.keep.labelscnt * 8 then c.keep.labelscnt * 8 else res

/-- `sclass_get_joining_priority`: among the classes of one chunk the one with the
highest value wins.  The class number is the last byte, so the value of a defined class
is never 0 and two classes never tie. -/
def sclassGetJoiningPriority : Nat :=
  let c := t.tab sclassid
  let bit := fun (b : Bool) => if b then 1 else 0
  let r := c.priority.toNat * 16 + (t.sclassGetKeeparchMaxGoalEquivalent sclassid).toNat
  let r := r * 2 + bit (c.arch.ecDataChksumParts &&& 0xF != 0)
  let r := r * 2 + bit (c.keep.hasLabels || c.arch.hasLabels)
  let r := r * 2 + bit (c.trash.ecDataChksumParts &&& 0xF != 0)
  let r := r * 2 + bit c.trash.hasLabels
  r * 256 + sclassid

/-- `sclass_get_create_storagemode`. -/
def sclassGetCreateStoragemode : StorageMode :=
  if 0 < (t.tab sclassid).create.labelscnt then (t.tab sclassid).create else (t.tab sclassid).keep

/-- A storage mode with no more checksum parts than the master allows. -/
def reduceParts (sm : StorageMode) : StorageMode :=
  if t.maxECRedundancyLevel < sm.ecDataChksumParts &&& 0xF then
    { sm with ecDataChksumParts := (sm.ecDataChksumParts &&& 0xF0) ||| t.maxECRedundancyLevel }
  else sm

/-- Is the mode defined for the class? -/
def StorageMode.defined (sm : StorageMode) : Bool :=
  0 < sm.labelscnt || sm.ecDataChksumParts != 0

/-- `sclass_get_keeparch_storagemode` for the two flags of a chunk. -/
def sclassGetKeeparchStoragemode (archFlag trashFlag : Bool) :
    StorageMode :=
  let c := t.tab sclassid
  if trashFlag && StorageMode.defined c.trash then t.reduceParts c.trash
  else if archFlag && StorageMode.defined c.arch then t.reduceParts c.arch
  else c.keep

/-- `sclass_calc_goal_equivalent`: how many losses the mode survives, plus one. -/
def sclassCalcGoalEquivalent (sm : StorageMode) : Nat :=
  if sm.ecDataChksumParts ≠ 0 then
    (min (sm.ecDataChksumParts &&& 0xF) t.maxECRedundancyLevel).toNat + 1
  else sm.labelscnt.toNat

/-- `sclass_is_admin_only`. -/
def sclassIsAdminOnly : Bool :=
  (t.tab sclassid).adminOnly

/-- A storage mode without labels. -/
def copies (labelscnt : UInt8) : StorageMode :=
  { labelscnt := labelscnt, ecDataChksumParts := 0, hasLabels := false }

/-- A class as `sclass_init` leaves it. -/
def blank : SClass :=
  { adminOnly := false, priority := 0, archMode := archModeCtime, archDelay := 0
    archMinSize := 0, minTrashretention := 0, create := copies 0, keep := copies 0
    arch := copies 0, trash := copies 0 }

/-- The two classes of `sclass_new` with an erasure code in the archive. -/
def ecClass (parts : UInt8) : SClass :=
  { blank with
    archDelay := 24, keep := copies 2, archMinSize := 512 * 1024
    arch := { labelscnt := 1, ecDataChksumParts := parts, hasLabels := false } }

/-- `REDUCED_EC_LEVEL`. -/
def reducedEcLevel : UInt8 := 1

/-- `sclass_new`: two and three copies, 4 + 1 parts and 8 + 1 parts. -/
def sclassNew : SClassTab :=
  { tab := fun i =>
      if i = 1 then { blank with keep := copies 2 }
      else if i = 2 then { blank with keep := copies 3 }
      else if i = 3 then ecClass 0x41
      else if i = 4 then ecClass 0x81
      else blank
    maxECRedundancyLevel := reducedEcLevel }

end SClassTab

/-! ## §2. Creation patterns. -/

/-- One valid entry of `patterntab`; `euid`/`egid` are `none` for
`PATTERN_EUGID_ANY`, `glob` is the language of the compiled glob, and a force is
present when its bit is set in `omask`. -/
structure Pattern where
  glob : Name → Bool
  euid : Option Nat
  egid : Option Nat
  sclass : Option Nat
  trashretention : Option UInt16
  eattr : Option (UInt8 × UInt8)

/-- `pattern_check_ugids`. -/
def patternCheckUgids (p : Pattern) (c : Cred) : Bool :=
  (match p.euid with
    | none => true
    | some uid => uid == c.uid)
  && (match p.egid with
    | none => true
    | some gid => c.gids.contains gid)

/-- The forces of a pattern: class, trash retention, and bits of `eattr` to set and clear. -/
structure Forced where
  sclass : Option Nat
  trashretention : Option UInt16
  eattr : Option (UInt8 × UInt8)
  deriving Repr, DecidableEq

/-- `omask = 0`. -/
def Forced.nothing : Forced :=
  { sclass := none, trashretention := none, eattr := none }

/-- `patterns_find_matching`: the first pattern of the sorted table whose owner and glob
match. -/
def patternsFindMatching (patterns : List Pattern) (c : Cred) (name : Name) : Forced :=
  match patterns.find? fun p => patternCheckUgids p c && p.glob name with
  | some p => { sclass := p.sclass, trashretention := p.trashretention, eattr := p.eattr }
  | none => .nothing

end MfsMaster
