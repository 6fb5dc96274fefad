/-
  MfsMaster.Fs.Namespace
  **THE NAMESPACE OPERATIONS** (`fs_univ_create`, `fs_univ_symlink`, `fs_univ_unlink`,
  `fs_univ_move`, `fs_univ_link`), for a client's request on the leader and for a
  record on a replica.

  Each universal function is split where the C function turns from tests to work:
  a `...Check` that answers the request or finds the nodes it is about, and the work
  itself.  A replica (`SESFLAG_METARESTORE`) skips permissions and quotas.
-/
import MfsMaster.Fs.Edges

namespace MfsMaster.Master

/-! ## §1. Results. -/

/-- `MFS_RENAME_*`. -/
inductive RenameMode where
  | std
  | exchange
  | noreplace
  deriving Repr, DecidableEq

/-- The records of this group. -/
inductive NsRecord where
  | create (ts : UInt32) (parent : Nat) (name : Name) (type : NodeType) (mode cumask : UInt16)
      (uid gid : Nat) (rdev : UInt32) (inode : Nat)
  | symlink (ts : UInt32) (parent : Nat) (name path : Name) (uid gid inode : Nat)
  | unlink (ts : UInt32) (parent : Nat) (name : Name) (inode : Nat)
  | move (ts : UInt32) (parentSrc : Nat) (nameSrc : Name) (parentDst : Nat) (nameDst : Name)
      (rmode : RenameMode) (inode : Nat)
  | link (ts : UInt32) (inodeSrc parentDst : Nat) (nameDst : Name)
  deriving Repr, DecidableEq

/-- The answer of an operation, the inode it returns, the new state and the records. -/
structure NsResult where
  status : Status
  inode : Nat
  state : Master
  log : List NsRecord

variable (s : Master)

/-- An answer without effect. -/
def NsResult.error (st : Status) : NsResult :=
  { status := st, inode := 0, state := s, log := [] }

/-- The directory of a request: visible, a directory, not immutable for the leader, and
writable for the caller. -/
def dirCheck (rootinode : Nat) (f : SesFlags) (c : Cred) (parent : Nat)
    (frozen : UInt8) : Except Status (Nat × FsNode) := do
  let wd ← require (s.fsnodesNodeFindExt rootinode f parent) .enoent
  refuse (wd.2.type != .directory) .enotdir
  refuse (!f.metarestore && hasBit wd.2.eattr frozen) .eperm
  refuse (!f.metarestore && !s.fsnodesAccessExt wd.1 wd.2 c (modeMaskW ||| modeMaskX) f) .eacces
  return wd

/-! ## §2. Creation patterns. -/

/-- `fsnodes_changefilesclassid`. -/
def fsnodesChangefilesclassid (i : Nat) (sclassid : Nat) : Master :=
  match s.nodes i with
  | none => s
  | some n =>
    let psr := s.fsnodesGetStats i
    let s := n.chunktab.foldl (fun s chunkid =>
      if 0 < chunkid ∧ n.sclassid ≠ sclassid then
        s.modChunk chunkid fun c => (chunkChangeFileInt s.sclasses c n.sclassid sclassid).2
      else s) s
    let s := (s.modNode i (.setSclassid sclassid)).fixRatio i
    s.addSubStatsAbove i (s.fsnodesGetStats i) psr

/-- A matching pattern on a renamed node: a file takes its chunks along. -/
def applyForced (fc : Forced) (i : Nat) : Master :=
  match s.nodes i with
  | none => s
  | some n =>
    let s := if fc.classOf n = n.sclassid then s
      else if n.type = .file then s.fsnodesChangefilesclassid i (fc.classOf n)
      else s.modNode i (.setSclassid (fc.classOf n))
    s.modNode i fc.onNode

/-! ## §3. `fs_univ_create`. -/

/-- The tests of `fs_univ_create`. -/
def createCheck (rootinode : Nat) (f : SesFlags) (c : Cred) (parent : Nat)
    (name : Name) (type : NodeType) : Except Status (Nat × FsNode) := do
  refuse (!f.metarestore && f.readonly) .erofs
  refuse (type == .symlink || type == .trash || type == .sustained) .einval
  refuse ((type == .blockdev || type == .chardev) && c.uid != 0) .eperm
  let wd ← s.dirCheck rootinode f c parent eattrImmutable
  refuse (!fsnodesNamecheck name) .einval
  refuse (s.fsnodesNameisused wd.1 name) .eexist
  refuse (!f.metarestore && s.fsnodesTestQuota wd.1 ⟨1, 0, 0, 0⟩) .quota
  return wd

/-- The device number of a new node. -/
def setRdev (type : NodeType) (rdev : UInt32) (n : FsNode) : FsNode :=
  if type = .blockdev ∨ type = .chardev then { n with rdev := rdev } else n

variable (ts : UInt32)

/-- The work of `fs_univ_create` in the directory `parent`. -/
def createBody (parent : Nat) (name : Name) (type : NodeType)
    (mode cumask : UInt16) (c : Cred) (rdev : UInt32) (copysgid : Bool) : Nat × Master :=
  let r := s.fsnodesCreateNode ts parent name type mode cumask c.uid c.gid copysgid
  let fc := patternsFindMatching s.patterns c name
  (r.1, (r.2.modNode r.1 fc.onNew).modNode r.1 (setRdev type rdev))

/-- `chlogmode`: the mode a CREATE record carries for the node `p`. -/
def chlogmode (type : NodeType) (mode : UInt16) (copysgid : Bool) (p : FsNode) : UInt16 :=
  if copysgid ∧ type = .directory then (mode &&& 0xFBFF) ||| (p.mode &&& 0x0400) else mode

variable (rootinode : Nat) (f : SesFlags)

/-- `fs_univ_create`. -/
def fsUnivCreate (parent : Nat)
    (name : Name) (type : NodeType) (mode cumask : UInt16) (c : Cred) (rdev : UInt32)
    (copysgid : Bool) : NsResult :=
  match s.createCheck rootinode f c parent name type with
  | .error st => .error s st
  | .ok wd =>
    let r := s.createBody ts wd.1 name type mode cumask c rdev copysgid
    let log := match r.2.nodes r.1 with
      | some p =>
        if f.metarestore then []
        else [.create ts wd.1 name type (chlogmode type mode copysgid p) cumask p.uid p.gid rdev r.1]
      | none => []
    { status := .ok, inode := r.1, state := r.2, log := log }

/-! ## §4. `fs_univ_symlink`. -/

/-- `MFS_SYMLINK_MAX`. -/
def mfsSymlinkMax : Nat := 4096

/-- The tests of `fs_univ_symlink`. -/
def symlinkCheck (c : Cred) (parent : Nat)
    (name path : Name) : Except Status (Nat × FsNode) := do
  refuse (!f.metarestore && f.readonly) .erofs
  refuse (path.isEmpty || mfsSymlinkMax < path.length || path.contains 0) .einval
  let wd ← s.dirCheck rootinode f c parent eattrImmutable
  refuse (!fsnodesNamecheck name) .einval
  refuse (s.fsnodesNameisused wd.1 name) .eexist
  refuse (!f.metarestore
    && s.fsnodesTestQuota wd.1 ⟨1, UInt64.ofNat path.length, 0, 0⟩) .quota
  return wd

/-- The work of `fs_univ_symlink`. -/
def symlinkBody (parent : Nat) (name path : Name) (c : Cred) :
    Nat × Master :=
  let r := s.fsnodesCreateNode ts parent name .symlink 0o777 0 c.uid c.gid false
  (r.1, (r.2.modNode r.1 (.setPath path)).fsnodesAddStats parent
    { StatsRecord.zero with length := UInt64.ofNat path.length })

/-- `fs_univ_symlink`. -/
def fsUnivSymlink (parent : Nat)
    (name path : Name) (c : Cred) : NsResult :=
  match s.symlinkCheck rootinode f c parent name path with
  | .error st => .error s st
  | .ok wd =>
    let r := s.symlinkBody ts wd.1 name path c
    { status := .ok, inode := r.1, state := r.2
      log := if f.metarestore then [] else [.symlink ts wd.1 name path c.uid c.gid r.1] }

/-! ## §5. `fs_univ_unlink`. -/

/-- The tests of `fs_univ_unlink`: the directory and the edge.  A replica does not know
whether the client called `unlink` or `rmdir`. -/
def unlinkCheck (c : Cred) (parent : Nat)
    (name : Name) (dirmode : Bool) : Except Status (Nat × FsEdge) := do
  refuse (!f.metarestore && f.readonly) .erofs
  let wd ← s.dirCheck rootinode f c parent (eattrImmutable ||| eattrAppendonly)
  refuse (!fsnodesNamecheck name) .einval
  let e ← require (s.fsnodesLookup wd.1 name) .enoent
  let child ← require (s.nodes e.child) .enoent
  refuse (!f.metarestore && !fsnodesStickyAccess wd.2 child c.uid) .eperm
  refuse (!f.metarestore
    && hasBit child.eattr (eattrUndeletable ||| eattrImmutable ||| eattrAppendonly)) .eperm
  refuse (!f.metarestore && !dirmode && child.type == .directory) .eperm
  refuse (!f.metarestore && dirmode && child.type != .directory) .enotdir
  refuse (child.type == .directory && !(s.children e.child).isEmpty) .enotempty
  return (wd.1, e)

/-- `fs_univ_unlink`. -/
def fsUnivUnlink (parent : Nat)
    (name : Name) (c : Cred) (dirmode : Bool) : NsResult :=
  match s.unlinkCheck rootinode f c parent name dirmode with
  | .error st => .error s st
  | .ok (d, e) =>
    { status := .ok, inode := e.child, state := s.fsnodesUnlink ts e
      log := if f.metarestore then [] else [.unlink ts d name e.child] }

/-! ## §6. `fs_univ_move`. -/

/-- What `fs_univ_move` works on: the two directories, the edge to move and the edge found
at the destination. -/
structure Move where
  swd : Nat
  se : FsEdge
  dwd : Nat
  de : Option FsEdge
  deriving Repr, DecidableEq

/-- The tests of the destination edge. -/
def moveDestCheck (c : Cred) (rmode : RenameMode)
    (unlinkForbidden rmdirForbidden : Bool) (swd dwd : Nat) (dwdNode : FsNode) :
    Option FsEdge → Except Status Unit
  | none => refuse (rmode == .exchange) .enoent
  | some de => do
    let dstnode ← require (s.nodes de.child) .enoent
    refuse (rmode == .noreplace) .eexist
    refuse (!f.metarestore && hasBit dwdNode.eattr eattrAppendonly) .eperm
    refuse (!f.metarestore && !fsnodesStickyAccess dwdNode dstnode c.uid) .eperm
    if rmode = .exchange then
      refuse (!f.metarestore && hasBit dstnode.eattr eattrImmutable) .eperm
      refuse (dstnode.type == .directory && s.fsnodesIsancestor de.child swd) .einval
      refuse (dstnode.type == .directory && swd != dwd && !f.metarestore
        && !s.fsnodesAccessExt de.child dstnode c modeMaskW f) .eacces
    else
      refuse (unlinkForbidden && dstnode.type != .directory) .eperm
      refuse (rmdirForbidden && dstnode.type == .directory) .eperm
      refuse (dstnode.type == .directory && !(s.children de.child).isEmpty) .enotempty

/-- The tests of `fs_univ_move` before the quotas. -/
def moveCheck (c : Cred) (parentSrc : Nat)
    (nameSrc : Name) (parentDst : Nat) (nameDst : Name) (rmode : RenameMode)
    (unlinkForbidden rmdirForbidden : Bool) : Except Status Move := do
  refuse (!f.metarestore && f.readonly) .erofs
  let swd ← require (s.fsnodesNodeFindExt rootinode f parentSrc) .enoent
  let dwd ← require (s.fsnodesNodeFindExt rootinode f parentDst) .enoent
  refuse (swd.2.type != .directory) .enotdir
  refuse (!f.metarestore && hasBit swd.2.eattr (eattrImmutable ||| eattrAppendonly)) .eperm
  refuse (!f.metarestore && !s.fsnodesAccessExt swd.1 swd.2 c (modeMaskW ||| modeMaskX) f) .eacces
  refuse (!fsnodesNamecheck nameSrc) .einval
  let se ← require (s.fsnodesLookup swd.1 nameSrc) .enoent
  let srcnode ← require (s.nodes se.child) .enoent
  refuse (!f.metarestore && !fsnodesStickyAccess swd.2 srcnode c.uid) .eperm
  refuse (dwd.2.type != .directory) .enotdir
  refuse (!f.metarestore && hasBit dwd.2.eattr eattrImmutable) .eperm
  refuse (!f.metarestore && !s.fsnodesAccessExt dwd.1 dwd.2 c (modeMaskW ||| modeMaskX) f) .eacces
  refuse (!f.metarestore && hasBit srcnode.eattr eattrImmutable) .eperm
  refuse (srcnode.type == .directory && s.fsnodesIsancestor se.child dwd.1) .einval
  refuse (srcnode.type == .directory && swd.1 != dwd.1 && !f.metarestore
    && !s.fsnodesAccessExt se.child srcnode c modeMaskW f) .eacces
  refuse (!fsnodesNamecheck nameDst) .einval
  let de := s.fsnodesLookup dwd.1 nameDst
  s.moveDestCheck f c rmode unlinkForbidden rmdirForbidden swd.1 dwd.1 dwd.2 de
  return { swd := swd.1, se := se, dwd := dwd.1, de := de }

/-- `fsnodes_get_stats(...,2)` of the two nodes a move is about, which brings their realsize
ratios up to date: the new state and the two statistics. -/
def moveStats (m : Move) : Master × StatsRecord × StatsRecord :=
  let s := s.fsnodesCheckRealsize m.se.child
  let ssr := s.fsnodesGetStats m.se.child
  match m.de with
  | none => (s, ssr, .zero)
  | some de =>
    let s := s.fsnodesCheckRealsize de.child
    (s, ssr, s.fsnodesGetStats de.child)

/-- The quota test of `fs_univ_move`. -/
def moveQuota (m : Move) (rmode : RenameMode) (ssr dsr : StatsRecord) : Bool :=
  s.fsnodesTestQuotaForUncommonNodes m.dwd m.swd (.excess ssr dsr)
    || (rmode == .exchange
      && s.fsnodesTestQuotaForUncommonNodes m.swd m.dwd (.excess dsr ssr))

/-- The relinking of `fs_univ_move`. -/
def moveRelink (m : Move) (nameSrc nameDst : Name)
    (rmode : RenameMode) : Master :=
  match rmode, m.de with
  | .exchange, some de =>
    let s := (s.fsnodesRemoveEdge ts m.se).fsnodesRemoveEdge ts de
    (s.fsnodesLink ts m.dwd m.se.child nameDst).fsnodesLink ts m.swd de.child nameSrc
  | _, none => (s.fsnodesRemoveEdge ts m.se).fsnodesLink ts m.dwd m.se.child nameDst
  | _, some de =>
    -- renaming an entry to itself removes the record that was freed with `de`
    let se := if m.se = de then s.freedEdge de else m.se
    ((s.fsnodesUnlink ts de).fsnodesRemoveEdge ts se).fsnodesLink ts m.dwd m.se.child nameDst

/-- The work of `fs_univ_move`: relinking, then the patterns. -/
def moveBody (m : Move) (nameSrc nameDst : Name)
    (rmode : RenameMode) (c : Cred) : Nat × Master :=
  let r := s.moveRelink ts m nameSrc nameDst rmode
  if rmode = .exchange then (0, r)
  else (m.se.child, r.applyForced (patternsFindMatching s.patterns c nameDst) m.se.child)

/-- `fs_univ_move`. -/
def fsUnivMove (parentSrc : Nat)
    (nameSrc : Name) (parentDst : Nat) (nameDst : Name) (c : Cred) (rmode : RenameMode)
    (unlinkForbidden rmdirForbidden : Bool) : NsResult :=
  match s.moveCheck rootinode f c parentSrc nameSrc parentDst nameDst rmode unlinkForbidden
      rmdirForbidden with
  | .error st => .error s st
  | .ok m =>
    let r := s.moveStats m
    let s := if f.metarestore then s else r.1
    if !f.metarestore && s.moveQuota m rmode r.2.1 r.2.2 then .error s .quota
    else
      let r := s.moveBody ts m nameSrc nameDst rmode c
      { status := .ok, inode := r.1, state := r.2
        log := if f.metarestore then []
          else [.move ts m.swd nameSrc m.dwd nameDst rmode r.1] }

/-! ## §7. `fs_univ_link`. -/

/-- The tests of `fs_univ_link` before the quotas: the node and the directory. -/
def linkCheck (c : Cred) (inodeSrc parentDst : Nat)
    (nameDst : Name) : Except Status (Nat × Nat) := do
  refuse (!f.metarestore && f.readonly) .erofs
  let sp ← require (s.fsnodesNodeFindExt rootinode f inodeSrc) .enoent
  let dwd ← require (s.fsnodesNodeFindExt rootinode f parentDst) .enoent
  refuse (!f.metarestore && hasBit sp.2.eattr eattrImmutable) .eperm
  refuse (sp.2.type == .trash || sp.2.type == .sustained) .enoent
  refuse (sp.2.type == .directory) .eperm
  refuse (!f.metarestore && decide ((s.maxAllowedHardLinks : Int) ≤ sp.2.nlink)) .emlink
  refuse (dwd.2.type != .directory) .enotdir
  refuse (!f.metarestore && hasBit dwd.2.eattr eattrImmutable) .eperm
  refuse (!f.metarestore && !s.fsnodesAccessExt dwd.1 dwd.2 c (modeMaskW ||| modeMaskX) f) .eacces
  refuse (!fsnodesNamecheck nameDst) .einval
  refuse (s.fsnodesNameisused dwd.1 nameDst) .eexist
  return (sp.1, dwd.1)

/-- `fs_univ_link`. -/
def fsUnivLink
    (inodeSrc parentDst : Nat) (nameDst : Name) (c : Cred) : NsResult :=
  match s.linkCheck rootinode f c inodeSrc parentDst nameDst with
  | .error st => .error s st
  | .ok (i, d) =>
    let s := if f.metarestore then s else s.fsnodesCheckRealsize i
    let sr := s.fsnodesGetStats i
    if !f.metarestore && s.fsnodesTestQuota d ⟨sr.inodes, sr.length, sr.size, sr.realsize⟩ then
      .error s .quota
    else
      { status := .ok, inode := i, state := s.fsnodesLink ts d i nameDst
        log := if f.metarestore then [] else [.link ts i d nameDst] }

end MfsMaster.Master
