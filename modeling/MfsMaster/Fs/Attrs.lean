/-
  MfsMaster.Fs.Attrs
  **RECURSIVE ATTRIBUTE CHANGES** (`fs_univ_setsclass`, `fs_univ_settrashretention`,
  `fs_univ_seteattr`): storage class, trash retention and `eattr` of a node or of
  everything below it.

  The three recursions of the source differ in what they do at one node (`Visit`) and
  share the walk and the three counters they return and log.
-/
import MfsMaster.Fs.Namespace

namespace MfsMaster

/-! ## §1. The walk. -/

/-- What a visit did to a node: changed it, found nothing to change, was not permitted to, or
did not look at a node of this type. -/
inductive Outcome where
  | set
  | notChanged
  | notPermitted
  | skipped
  deriving Repr, DecidableEq

/-- `sinodes`, `ncinodes` and `nsinodes`. -/
structure Counters where
  sinodes : Nat
  ncinodes : Nat
  nsinodes : Nat
  deriving Repr, DecidableEq

def Counters.zero : Counters := { sinodes := 0, ncinodes := 0, nsinodes := 0 }

def Counters.count (c : Counters) : Outcome → Counters
  | .set => { c with sinodes := c.sinodes + 1 }
  | .notChanged => { c with ncinodes := c.ncinodes + 1 }
  | .notPermitted => { c with nsinodes := c.nsinodes + 1 }
  | .skipped => c

/-- `SMODE_*` without the recursion bit. -/
inductive SetMode where
  | set
  | increase
  | decrease
  | exchange
  deriving Repr, DecidableEq

/-- `smode&SMODE_TMASK`. -/
def smodeTmask (smode : UInt8) : SetMode :=
  match (smode &&& 3).toNat with
  | 0 => .set
  | 1 => .increase
  | 2 => .decrease
  | _ => .exchange

/-- `smode&SMODE_RMASK`. -/
def smodeRmask (smode : UInt8) : Bool :=
  hasBit smode 4

/-- `SMODE_ISVALID`. -/
def smodeIsvalid (smode : UInt8) : Bool :=
  smode ≤ 7

namespace Master

/-- What a recursion does at one node. -/
abbrev Visit := Master → Nat → Outcome × Master

/-- Visit a node and count the outcome. -/
def visit (v : Visit) (r : Counters × Master) (i : Nat) : Counters × Master :=
  let o := v r.2 i
  (r.1.count o.1, o.2)

/-- The recursion: the node, then (for a directory) its children.  The fuel bounds the depth;
in a tree the number of edges is enough. -/
def recurse (v : Visit) (recursive : Bool) : Nat → Nat → Counters × Master → Counters × Master
  | 0, _, r => r
  | n + 1, i, r =>
    let r := visit v r i
    if r.2.isDir i && recursive then
      (r.2.children i).foldl (fun r e => recurse v recursive n e.child r) r
    else r

/-- The recursion from the node of a request. -/
def recurseFrom (v : Visit) (smode : UInt8) (s : Master) (i : Nat) : Counters × Master :=
  recurse v (smodeRmask smode) (s.edges.length + 1) i (.zero, s)

/-- The nodes a recursion visits, in its order. -/
def subtree (s : Master) (recursive : Bool) : Nat → Nat → List Nat
  | 0, _ => []
  | n + 1, i =>
    i :: (if s.isDir i && recursive then
        (s.children i).flatMap fun e => subtree s recursive n e.child
      else [])

/-- The nodes a request visits. -/
def visited (s : Master) (smode : UInt8) (i : Nat) : List Nat :=
  s.subtree (smodeRmask smode) (s.edges.length + 1) i

/-! ## §2. The visits. -/

/-- The test of the owner: `true` when the caller may not change the node. -/
def notOwner (uid : Nat) (n : FsNode) : Bool :=
  !hasBit n.eattr eattrNoowner && uid != 0 && n.uid != uid

/-- The types that have a storage class and a trash retention of their own. -/
def hasClass (t : NodeType) : Bool :=
  t == .directory || t.hasData

/-- Who may not change the class of a node. -/
def setsclassRefused (s : Master) (uid dst : Nat) (admin : Bool) (n : FsNode) : Bool :=
  notOwner uid n || hasBit n.eattr eattrImmutable
    || ((s.sclasses.sclassIsAdminOnly n.sclassid || s.sclasses.sclassIsAdminOnly dst) && !admin)

/-- Does the mode ask for the class to be changed? -/
def setsclassWanted (mode : SetMode) (src dst : Nat) (n : FsNode) : Bool :=
  match mode with
  | .set => n.sclassid != dst
  | .increase => n.sclassid < dst
  | .decrease => dst < n.sclassid
  | .exchange => n.sclassid == src

/-- One node of `fsnodes_setsclass_recursive`. -/
def setsclassVisit (ts : UInt32) (uid src dst : Nat) (mode : SetMode) (admin : Bool) : Visit :=
  fun s i =>
    match s.nodes i with
    | none => (.skipped, s)
    | some n =>
      if !hasClass n.type then (.skipped, s)
      else if s.setsclassRefused uid dst admin n then (.notPermitted, s)
      else if setsclassWanted mode src dst n then
        let s := if n.type = .directory then s.modNode i (.setSclassid dst)
          else s.fsnodesChangefilesclassid i dst
        (.set, s.touchCtime i ts)
      else (.notChanged, s)

/-- Does the mode ask for the retention to be changed? -/
def settrashretentionWanted (mode : SetMode) (trashretention : UInt16) (n : FsNode) : Bool :=
  match mode with
  | .set => n.trashretention != trashretention
  | .increase => n.trashretention < trashretention
  | .decrease => trashretention < n.trashretention
  | .exchange => false

/-- One node of `fsnodes_settrashretention_recursive`. -/
def settrashretentionVisit (ts : UInt32) (uid : Nat) (trashretention : UInt16) (mode : SetMode) :
    Visit := fun s i =>
  match s.nodes i with
  | none => (.skipped, s)
  | some n =>
    if !hasClass n.type then (.skipped, s)
    else if notOwner uid n || hasBit n.eattr eattrImmutable then (.notPermitted, s)
    else if settrashretentionWanted mode trashretention n then
      (.set, (s.modNode i (.setTrashretention trashretention)).touchCtime i ts)
    else (.notChanged, s)

/-- The bits of `eattr` that mean something for a node of a type. -/
def eattrOfType (t : NodeType) (eattr : UInt8) : UInt8 :=
  if t = .directory then eattr else eattr &&& ~~~eattrNoecache

/-- `neweattr` of `fsnodes_seteattr_recursive`. -/
def neweattr (mode : SetMode) (eattr seattr : UInt8) : UInt8 :=
  match mode with
  | .set => seattr
  | .increase => eattr ||| seattr
  | .decrease => eattr &&& ~~~seattr
  | .exchange => eattr

/-- One node of `fsnodes_seteattr_recursive`.  A node that is not a directory loses
`EATTR_NOECACHE` even when nothing else changes. -/
def seteattrVisit (ts : UInt32) (uid : Nat) (eattr : UInt8) (mode : SetMode) : Visit :=
  fun s i =>
    match s.nodes i with
    | none => (.skipped, s)
    | some n =>
      if notOwner uid n || (hasBit n.eattr eattrImmutable && hasBit eattr eattrNoowner) then
        (.notPermitted, s)
      else
        let old := eattrOfType n.type n.eattr
        let new := neweattr mode old (eattrOfType n.type eattr)
        let s := s.modNode i (.setEattr old)
        if new ≠ old then (.set, (s.modNode i (.setEattr new)).touchCtime i ts)
        else (.notChanged, s)

/-! ## §3. The quota test of `fs_univ_setsclass`. -/

variable (s : Master)

/-- The space a file would take more in the class (`rs`), if the caller may change it. -/
def setsclassGrowth (uid : Nat) (storageEights : UInt8) (n : FsNode) : UInt64 :=
  let used := s.sclasses.sclassGetKeeparchMaxstorageEights n.sclassid
  if n.type.hasData && !notOwner uid n && !hasBit n.eattr eattrImmutable
      && used < storageEights then
    ((chunkTabStats (lastChunk n.length) n.chunktab 0).2
      * (storageEights - used).toUInt64) / 8
  else 0

/-- `fsnodes_setsclass_recursive_test_quota`: `none` when a quota would be exceeded, else what
is added to `realsize`.  `recursive` is 0, 1 for the node of the request, 2 below it. -/
def setsclassTestQuota (s : Master) (uid : Nat) (storageEights : UInt8) :
    Nat → Nat → Nat → Option UInt64
  | 0, _, _ => some 0
  | k + 1, recursive, i =>
    match s.nodes i with
    | none => some 0
    | some n =>
      if n.type = .directory ∧ 0 < recursive then do
        let rs ← (s.children i).foldlM (fun acc e => do
          let rs ← setsclassTestQuota s uid storageEights k 2 e.child
          return acc + rs) 0
        if (if recursive < 2 then s.fsnodesTestQuota i ⟨0, 0, 0, rs⟩
            else s.fsnodesTestQuotaNoparents i ⟨0, 0, 0, rs⟩) then none
        else some rs
      else
        let rs := s.setsclassGrowth uid storageEights n
        if recursive < 2 && s.fsnodesTestQuota i ⟨0, 0, 0, rs⟩ then none else some rs

/-! ## §4. The operations. -/

/-- The records of this group; each carries the counters of the leader. -/
inductive AttrRecord where
  | setsclass (ts : UInt32) (inode uid src dst : Nat) (smode : UInt8) (counters : Counters)
  | settrashtime (ts : UInt32) (inode uid : Nat) (trashretention : UInt32) (smode : UInt8)
      (counters : Counters)
  | seteattr (ts : UInt32) (inode uid : Nat) (eattr smode : UInt8) (counters : Counters)
  deriving Repr, DecidableEq

/-- The answer, the counters, the new state and the records. -/
structure AttrResult where
  status : Status
  counters : Counters
  state : Master
  log : List AttrRecord

def AttrResult.error (st : Status) : AttrResult :=
  { status := st, counters := .zero, state := s, log := [] }

/-- The end of the three operations: a request for one node that may not be changed fails. -/
def AttrResult.finish (f : SesFlags) (smode : UInt8) (r : Counters × Master)
    (record : Counters → AttrRecord) : AttrResult :=
  if !smodeRmask smode && 0 < r.1.nsinodes && r.1.sinodes == 0 && r.1.ncinodes == 0 then
    { status := .eperm, counters := r.1, state := r.2, log := [] }
  else
    { status := .ok, counters := r.1, state := r.2
      log := if f.metarestore then [] else [record r.1] }

/-- The tests of `fs_univ_setsclass`. -/
def setsclassCheck (rootinode : Nat) (f : SesFlags) (inode uid src dst : Nat)
    (smode : UInt8) : Except Status Nat := do
  refuse (!smodeIsvalid smode || dst == 0 || src == 0) .einval
  refuse ((smodeTmask smode == .increase || smodeTmask smode == .decrease) && 9 < dst) .einval
  refuse (!f.metarestore && f.readonly) .erofs
  let p ← require (s.fsnodesNodeFindExt rootinode f inode) .enoent
  refuse (!hasClass p.2.type) .eperm
  refuse (!f.metarestore && (smodeTmask smode == .set || smodeTmask smode == .increase)
    && (s.setsclassTestQuota uid (s.sclasses.sclassGetKeeparchMaxstorageEights dst)
      (s.edges.length + 1) (if smodeRmask smode then 1 else 0) p.1).isNone) .quota
  return p.1

/-- `fs_univ_setsclass`. -/
def fsUnivSetsclass (ts : UInt32) (rootinode : Nat) (f : SesFlags)
    (inode uid src dst : Nat) (smode : UInt8) : AttrResult :=
  match s.setsclassCheck rootinode f inode uid src dst smode with
  | .error st => .error s st
  | .ok p =>
    .finish f smode
      (recurseFrom (setsclassVisit ts uid src dst (smodeTmask smode) (f.admin || f.metarestore))
        smode s p)
      (.setsclass ts p uid src dst smode)

/-- The tests of `fs_univ_settrashretention`. -/
def settrashretentionCheck (rootinode : Nat) (f : SesFlags) (inode : Nat)
    (smode : UInt8) : Except Status Nat := do
  refuse (!smodeIsvalid smode) .einval
  refuse (!f.metarestore && f.readonly) .erofs
  let p ← require (s.fsnodesNodeFindExt rootinode f inode) .enoent
  refuse (!hasClass p.2.type) .eperm
  return p.1

/-- `fs_univ_settrashretention`; the retention is asked for in seconds and kept in hours. -/
def fsUnivSettrashretention (ts : UInt32) (rootinode : Nat) (f : SesFlags)
    (inode uid : Nat) (trashretention : UInt32) (smode : UInt8) : AttrResult :=
  match s.settrashretentionCheck rootinode f inode smode with
  | .error st => .error s st
  | .ok p =>
    .finish f smode
      (recurseFrom (settrashretentionVisit ts uid ((trashretention + 3599) / 3600).toUInt16
        (smodeTmask smode)) smode s p)
      (.settrashtime ts p uid trashretention smode)

/-- The tests of `fs_univ_seteattr`.  All eight bits are defined, so no `eattr` is invalid. -/
def seteattrCheck (rootinode : Nat) (f : SesFlags) (inode : Nat)
    (eattr smode : UInt8) : Except Status Nat := do
  refuse (!smodeIsvalid smode) .einval
  refuse (!f.metarestore && f.readonly) .erofs
  refuse (!f.metarestore && !f.admin
    && hasBit eattr (eattrUndeletable ||| eattrAppendonly ||| eattrImmutable)) .eperm
  let p ← require (s.fsnodesNodeFindExt rootinode f inode) .enoent
  return p.1

/-- `fs_univ_seteattr`. -/
def fsUnivSeteattr (ts : UInt32) (rootinode : Nat) (f : SesFlags)
    (inode uid : Nat) (eattr smode : UInt8) : AttrResult :=
  match s.seteattrCheck rootinode f inode eattr smode with
  | .error st => .error s st
  | .ok p =>
    .finish f smode (recurseFrom (seteattrVisit ts uid eattr (smodeTmask smode)) smode s p)
      (.seteattr ts p uid eattr smode)

end Master

end MfsMaster
