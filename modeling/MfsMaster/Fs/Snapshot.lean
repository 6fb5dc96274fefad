/-
  MfsMaster.Fs.Snapshot
  **SNAPSHOTS** (`fs_univ_snapshot`): a subtree is copied under a name, over what is
  there already where the request allows it; files share their chunks with the copies.
  With `SNAPSHOT_MODE_DELETE` a tree of snapshots is removed.

  The recursions of the source go down the copied tree.  Here a fuel bounds their
  depth; in a tree the number of edges is enough.
-/
import MfsMaster.Data.Tables

namespace MfsMaster

/-! ## §1. Parameters. -/

def snapshotModeCanOverwrite : UInt8 := 0x01
def snapshotModeCplikeAttr : UInt8 := 0x02
def snapshotModeForceRemoval : UInt8 := 0x04
def snapshotModePreserveHardlinks : UInt8 := 0x08
def snapshotModeDelete : UInt8 := 0x80

/-- The constant part of `fsnodes_snapshot_params`. -/
structure SnapArgs where
  ts : UInt32
  smode : UInt8
  flags : SesFlags
  cumask : UInt16
  cred : Cred

/-- The counters of `fsnodes_snapshot_params`, which a record carries. -/
structure SnapCounters where
  inodeChksum : Nat
  removedObject : Nat
  sameFile : Nat
  existingObject : Nat
  newHardlink : Nat
  newObject : Nat
  deriving Repr, DecidableEq

def SnapCounters.zero : SnapCounters :=
  { inodeChksum := 0, removedObject := 0, sameFile := 0, existingObject := 0, newHardlink := 0
    newObject := 0 }

/-- The state of a snapshot: `copies` is `snapshot_inodehash`. -/
structure Snap where
  fs : Master
  counters : SnapCounters
  copies : List (Nat × Nat)

def Snap.modFs (st : Snap) (f : Master → Master) : Snap := { st with fs := f st.fs }

def Snap.count (st : Snap) (f : SnapCounters → SnapCounters) : Snap :=
  { st with counters := f st.counters }

@[simp] theorem Snap.modFs_fs (st : Snap) (f : Master → Master) : (st.modFs f).fs = f st.fs := rfl

@[simp] theorem Snap.count_fs (st : Snap) (f : SnapCounters → SnapCounters) :
    (st.count f).fs = st.fs := rfl

namespace SnapArgs

/-- `SNAPSHOT_MODE_CPLIKE_ATTR`: the copies belong to the caller. -/
def cplike (a : SnapArgs) : Bool := hasBit a.smode snapshotModeCplikeAttr

/-- May the caller keep the owner of the source? -/
def owns (a : SnapArgs) (src : FsNode) : Bool := a.cred.uid == 0 || a.cred.uid == src.uid

end SnapArgs

/-! ## §2. Updates of a node. -/

/-- Class and trash retention of a copied file. -/
def FsNode.takeClass (src n : FsNode) : FsNode :=
  { n with sclassid := src.sclassid, trashretention := src.trashretention }

/-- The attributes a new object takes from its source. -/
def FsNode.takeAttrs (a : SnapArgs) (src n : FsNode) : FsNode :=
  { n with
    sclassid := src.sclassid, trashretention := src.trashretention, eattr := src.eattr
    winattr := src.winattr
    mode := if a.owns src then src.mode else src.mode &&& 0x3FF
    aclpermflag := n.aclpermflag || src.aclpermflag
    acldefflag := n.acldefflag || src.acldefflag
    keepmode := false }

def FsNode.takeTimes (src n : FsNode) : FsNode :=
  { n with atime := src.atime, mtime := src.mtime, ctime := src.ctime }

def FsNode.markSnapshot (n : FsNode) : FsNode := { n with eattr := n.eattr ||| eattrSnapshot }

/-- The part of the statistics a quota test asks for, without what is there already. -/
def Demand.less (sr : StatsRecord) (common : Demand) : Demand :=
  { inodes := if common.inodes < sr.inodes then sr.inodes - common.inodes else 0
    length := if common.length < sr.length then sr.length - common.length else 0
    size := if common.size < sr.size then sr.size - common.size else 0
    realsize := if common.realsize < sr.realsize then sr.realsize - common.realsize else 0 }

def Demand.plus (a b : Demand) : Demand :=
  { inodes := a.inodes + b.inodes, length := a.length + b.length, size := a.size + b.size
    realsize := a.realsize + b.realsize }

namespace Master

/-! ## §3. Copies. -/

variable (a : SnapArgs)

/-- The node of a copy, with the identity it gets; the directory is there. -/
def snapCreate (s : Master) (parent : Nat) (name : Name) (src : FsNode) :
    Option (Nat × Master) :=
  (s.nodes parent).map fun _ =>
    if a.cplike then
      s.fsnodesCreateNode a.ts parent name src.type src.mode a.cumask a.cred.uid a.cred.gid false
    else if a.owns src then
      s.fsnodesCreateNode a.ts parent name src.type src.mode 0 src.uid src.gid false
    else
      s.fsnodesCreateNode a.ts parent name src.type (src.mode &&& 0x3FF) 0 a.cred.uid a.cred.gid
        false

/-- `fsnodes_add_sub_stats` for the directory of a copy. -/
def addSubStats (s : Master) (parent : Nat) (new prev : StatsRecord) : Master :=
  s.mapStats (s.upwards parent) fun p => p.add (new.sub prev)

/-- The copy `dst` gets the chunks of the source. -/
def copyChunks (s : Master) (src : FsNode) (parent dst : Nat) (psr : StatsRecord) : Master :=
  let sclassid := ((s.nodes dst).map FsNode.sclassid).getD 0
  let s := s.addFiles sclassid src.chunktab
  let s := s.modNode dst fun n => (n.setChunktab src.chunktab).setLength src.length
  let s := s.fixRatio dst
  s.addSubStats parent (s.fsnodesGetStats dst) psr

/-- A file that is not the same as the existing one takes its place. -/
def snapReplace (s : Master) (src : FsNode) (parent : Nat) (name : Name)
    (e : FsEdge) : Nat × Master :=
  let s := s.fsnodesUnlink a.ts e
  match snapCreate a s parent name src with
  | none => (e.child, s)
  | some r =>
    let psr := r.2.fsnodesGetStats r.1
    (r.1, (r.2.modNode r.1 (FsNode.takeClass src)).copyChunks src parent r.1 psr)

/-- The contents of an existing object that is not a directory; the node that holds the name
afterwards is returned. -/
def snapExisting (src : FsNode) (parent : Nat) (name : Name) (e : FsEdge)
    (st : Snap) : Nat × Snap :=
  match st.fs.nodes e.child with
  | none => (e.child, st)
  | some dst =>
    let counted := st.count fun c => { c with existingObject := c.existingObject + 1 }
    match src.type with
    | .file =>
      if dst.length = src.length ∧ dst.chunktab = src.chunktab then
        (e.child, st.count fun c => { c with sameFile := c.sameFile + 1 })
      else
        let r := snapReplace a st.fs src parent name e
        (r.1, { counted with
          fs := r.2
          counters := { counted.counters with
            inodeChksum := (st.counters.inodeChksum ^^^ e.child) ^^^ r.1 } })
    | .symlink =>
      (e.child, counted.modFs fun s =>
        (s.fsnodesAddStats parent { StatsRecord.zero with
          length := UInt64.ofNat src.path.length - UInt64.ofNat dst.path.length }).modNode e.child
            (.setPath src.path))
    | .blockdev | .chardev =>
      (e.child, counted.modFs (·.modNode e.child fun n => { n with rdev := src.rdev }))
    | _ => (e.child, counted)

/-- The identity and times an existing object takes over. -/
def snapAttrs (src n : FsNode) : FsNode :=
  if a.cplike then
    { n with uid := a.cred.uid, gid := a.cred.gid, mode := src.mode &&& ~~~a.cumask, ctime := a.ts }
  else if a.owns src then
    { n with mode := src.mode, uid := src.uid, gid := src.gid, ctime := src.ctime
             atime := src.atime, mtime := src.mtime }
  else
    { n with mode := src.mode &&& 0x3FF, uid := a.cred.uid, gid := a.cred.gid, ctime := a.ts
             atime := src.atime, mtime := src.mtime }

/-- All three times. -/
def archModeTimes : UInt8 := archModeCtime ||| archModeMtime ||| archModeAtime

/-- The end of the branch for an existing object. -/
def snapFinishExisting (src : FsNode) (dst : Nat) (s : Master) : Master :=
  ((s.modNode dst (snapAttrs a src)).fsnodesCheckarchmode dst a.ts archModeTimes).1.modNode dst
    FsNode.markSnapshot

/-- `posix_acl_copy` of the lists the source has. -/
def aclCopy (s : Master) (srcinode : Nat) (src : FsNode) (dst : Nat) : Master :=
  { s with acls := {
      access := fun i => if i = dst ∧ src.aclpermflag then s.acls.access srcinode
        else s.acls.access i
      default := fun i => if i = dst ∧ src.acldefflag then s.acls.default srcinode
        else s.acls.default i } }

/-- The attributes of a new object, unless the copies are the caller's own. -/
def snapTake (srcinode : Nat) (src : FsNode) (dst : Nat) (s : Master) : Master :=
  if a.cplike then s
  else (s.modNode dst (FsNode.takeAttrs a src)).aclCopy srcinode src dst

/-- The contents of a new object that is not a directory. -/
def snapContents (src : FsNode) (parent dst : Nat) (psr : StatsRecord) (s : Master) : Master :=
  match src.type with
  | .file => s.copyChunks src parent dst psr
  | .symlink =>
    let s := (s.modNode dst (.setPath src.path)).fixRatio dst
    s.addSubStats parent (s.fsnodesGetStats dst) psr
  | .blockdev | .chardev => s.modNode dst fun n => { n with rdev := src.rdev }
  | _ => s

/-- The end of the branch for a new object. -/
def snapFinishNew (src : FsNode) (dst : Nat) (s : Master) : Master :=
  let s := if a.cplike then s
    else ((s.modNode dst (FsNode.takeTimes src)).fsnodesCheckarchmode dst a.ts archModeTimes).1
  s.modNode dst FsNode.markSnapshot

/-- Is the object one of several names of its node, to be kept as such? -/
def snapHardlink (s : Master) (srcinode : Nat) (src : FsNode) : Bool :=
  hasBit a.smode snapshotModePreserveHardlinks && src.type != .directory
    && 1 < (s.parents srcinode).length

/-- The new object, before its contents. -/
def snapMake (srcinode : Nat) (src : FsNode) (parent : Nat) (name : Name)
    (st : Snap) : Option (Nat × StatsRecord × Snap) :=
  (snapCreate a st.fs parent name src).map fun r =>
    (r.1, r.2.fsnodesGetStats r.1,
      { fs := snapTake a srcinode src r.1 r.2
        counters := { st.counters with
          inodeChksum := st.counters.inodeChksum ^^^ r.1, newObject := st.counters.newObject + 1 }
        copies := if snapHardlink a st.fs srcinode src then (srcinode, r.1) :: st.copies
          else st.copies })

/-- A further name of a node that was copied already. -/
def snapLink (parent : Nat) (name : Name) (dst : Nat) (st : Snap) : Snap :=
  (st.count fun c => { c with newHardlink := c.newHardlink + 1 }).modFs
    (·.fsnodesLink a.ts parent dst name)

/-- `fsnodes_snapshot` of the node `srcinode` as `name` in `parent`; `newflag` says that the
directory was made by this snapshot. -/
def fsnodesSnapshot (a : SnapArgs) : Nat → Nat → Nat → Name → Bool → Snap → Snap
  | 0, _, _, _, _, st => st
  | k + 1, srcinode, parent, name, newflag, st =>
    match st.fs.nodes srcinode with
    | none => st
    | some src =>
      let may := fun mask => st.fs.fsnodesAccessExt srcinode src a.cred mask a.flags
      let below := fun (dst : Nat) (new : Bool) (st : Snap) =>
        if src.type = .directory ∧ may (modeMaskR ||| modeMaskX) then
          (st.fs.children srcinode).foldl
            (fun st e => fsnodesSnapshot a k e.child dst e.name new st) st
        else st
      if src.type = .file ∧ !may modeMaskR then st
      else match if newflag then none else st.fs.fsnodesLookup parent name with
        | some e =>
          if src.type = .directory then
            let st := st.count fun c => { c with existingObject := c.existingObject + 1 }
            (below e.child false st).modFs (snapFinishExisting a src e.child)
          else
            let r := snapExisting a src parent name e st
            r.2.modFs (snapFinishExisting a src r.1)
        | none =>
          if src.type = .trash ∨ src.type = .sustained then st
          else match if snapHardlink a st.fs srcinode src
              then st.copies.find? fun c => c.1 == srcinode else none with
            | some c => snapLink a parent name c.2 st
            | none =>
              match snapMake a srcinode src parent name st with
              | none => st
              | some (dst, psr, st) =>
                let st := if src.type = .directory then below dst true st
                  else st.modFs (snapContents src parent dst psr)
                st.modFs (snapFinishNew a src dst)

/-! ## §4. Tests. -/

/-- `fsnodes_snapshot_test`. -/
def fsnodesSnapshotTest (s : Master) (origsrc : Nat) (canoverwrite : Bool) :
    Nat → Nat → Nat → Name → Status
  | 0, _, _, _ => .ok
  | k + 1, srcinode, parent, name =>
    match s.fsnodesLookup parent name, s.nodes srcinode with
    | some e, some src =>
      match s.nodes e.child with
      | none => .ok
      | some dst =>
        if e.child = origsrc then .einval
        else if hasBit dst.eattr (eattrUndeletable ||| eattrImmutable ||| eattrAppendonly) then .eperm
        else if dst.type ≠ src.type then .eperm
        else if src.type = .trash ∨ src.type = .sustained then .eperm
        else if src.type = .directory then
          (s.children srcinode).foldl (fun st c =>
            if st = .ok then fsnodesSnapshotTest s origsrc canoverwrite k c.child e.child c.name
            else st) .ok
        else if canoverwrite then .ok else .eexist
    | _, _ => .ok

/-- What an existing object other than a directory already takes. -/
def existingDemand (s : Master) (dst : FsNode) : Demand :=
  match dst.type with
  | .file =>
    let fsize := (chunkTabStats (lastChunk dst.length) dst.chunktab 0).2
    ⟨0, dst.length, fsize,
      (fsize * (s.sclasses.sclassGetKeeparchMaxstorageEights dst.sclassid).toUInt64) / 8⟩
  | .symlink => ⟨0, UInt64.ofNat dst.path.length, 0, 0⟩
  | _ => ⟨0, 0, 0, 0⟩

/-- `fsnodes_snapshot_recursive_test_quota`: does the copy exceed a quota of an existing
directory (`none`), and what is there already?  The realsize of the directories on the way is
brought up to date. -/
def snapshotTestQuota : Nat → Nat → Nat → Name → Option Demand × Master → Option Demand × Master
  | 0, _, _, _, r => r
  | k + 1, srcinode, parent, name, (common, s) =>
    match common, s.fsnodesLookup parent name with
    | some common, some e =>
      let common := common.plus ⟨1, 0, 0, 0⟩
      match s.nodes e.child with
      | none => (some common, s)
      | some dst =>
        if dst.type = .directory then
          let s := s.fsnodesCheckRealsize srcinode
          let ssr := s.fsnodesGetStats srcinode
          let r := (s.children srcinode).foldl (fun r c =>
            snapshotTestQuota k c.child e.child c.name r) (some ⟨0, 0, 0, 0⟩, s)
          match r.1 with
          | none => r
          | some inner =>
            if r.2.fsnodesTestQuotaNoparents e.child (.less ssr inner) then (none, r.2)
            else (some (common.plus inner), r.2)
        else (some (common.plus (s.existingDemand dst)), s)
    | common, _ => (common, s)

/-! ## §5. Removal of snapshots. -/

/-- May a node be removed as part of a snapshot? -/
def snapshotRemovable (n : FsNode) : Bool :=
  hasBit n.eattr eattrSnapshot
    && !hasBit n.eattr (eattrUndeletable ||| eattrImmutable ||| eattrAppendonly)

/-- `fsnodes_remove_snapshot_test`. -/
def fsnodesRemoveSnapshotTest (a : SnapArgs) (s : Master) : Nat → Nat → Status
  | 0, _ => .ok
  | k + 1, i =>
    match s.nodes i with
    | none => .ok
    | some n =>
      let below : Status :=
        if n.type = .directory then
          if hasBit n.eattr eattrAppendonly then .eperm
          else if s.fsnodesAccessExt i n a.cred (modeMaskW ||| modeMaskX) a.flags then
            (s.children i).foldl (fun st e =>
              if st = .ok then fsnodesRemoveSnapshotTest a s k e.child else st) .ok
          else .eacces
        else .ok
      if below ≠ .ok then below
      else if snapshotRemovable n then .ok else .eperm

/-- Removing one node of a snapshot, if it may be removed: it does not go to the trash. -/
def removeOne (allowed : Bool) (e : FsEdge) (st : Snap) : Snap :=
  match st.fs.nodes e.child with
  | none => st
  | some n =>
    if snapshotRemovable n ∧ allowed then
      { st with
        fs := (st.fs.modNode e.child (.setTrashretention 0)).fsnodesUnlink a.ts e
        counters := { st.counters with
          inodeChksum := st.counters.inodeChksum ^^^ e.child
          removedObject := st.counters.removedObject + 1 } }
    else st

/-- `fsnodes_remove_snapshot`.  Unlinking the entries of a directory takes its snapshot mark
off; once it is empty it gets its attributes back. -/
def fsnodesRemoveSnapshot (a : SnapArgs) : Nat → FsEdge → Bool → Snap → Snap
  | 0, _, _, st => st
  | k + 1, e, allowed, st =>
    match st.fs.nodes e.child with
    | none => st
    | some n =>
      if n.type = .directory then
        let st := if st.fs.fsnodesAccessExt e.child n a.cred (modeMaskW ||| modeMaskX) a.flags then
            (st.fs.children e.child).foldl (fun st ie =>
              let eattr := ((st.fs.nodes e.child).map FsNode.eattr).getD 0
              fsnodesRemoveSnapshot a k ie
                (!hasBit eattr (eattrAppendonly ||| eattrImmutable)) st) st
          else st
        if (st.fs.children e.child).isEmpty then
          removeOne a allowed e (st.modFs (·.modNode e.child (.setEattr n.eattr)))
        else st
      else removeOne a allowed e st

/-! ## §6. `fs_univ_snapshot`. -/

/-- A request for a snapshot. -/
structure SnapRequest where
  rootinode : Nat
  inodeSrc : Nat
  parentDst : Nat
  nameDst : Name

/-- Enough fuel for a walk over a tree. -/
def depth (s : Master) : Nat := s.edges.length + 1

/-- The tests before a removal: the directory and the edge. -/
def snapRemoveCheck (s : Master) (a : SnapArgs) (q : SnapRequest) :
    Except Status (FsNode × FsEdge) := do
  let f := a.flags
  refuse (q.inodeSrc != 0) .einval
  let dwd ← require (s.fsnodesNodeFindExt q.rootinode f q.parentDst) .enoent
  refuse (dwd.2.type != .directory) .eperm
  refuse (!f.metarestore && !s.fsnodesAccessExt dwd.1 dwd.2 a.cred (modeMaskW ||| modeMaskX) f) .eacces
  refuse (!fsnodesNamecheck q.nameDst) .einval
  let e ← require (s.fsnodesLookup dwd.1 q.nameDst) .enoent
  let child ← require (s.nodes e.child) .enoent
  refuse (!f.metarestore && !fsnodesStickyAccess dwd.2 child a.cred.uid) .eperm
  if !hasBit a.smode snapshotModeForceRemoval && !f.metarestore then
    refuse (hasBit dwd.2.eattr (eattrAppendonly ||| eattrImmutable)) .eperm
    let st := s.fsnodesRemoveSnapshotTest a s.depth e.child
    if st ≠ .ok then .error st else return (dwd.2, e)
  else return (dwd.2, e)

/-- The tests before a copy, without the quotas: the node and the directory. -/
def snapCopyCheck (s : Master) (a : SnapArgs) (q : SnapRequest) : Except Status (Nat × Nat) := do
  let f := a.flags
  refuse (q.inodeSrc == 0) .einval
  let sp ← require (s.fsnodesNodeFindExt q.rootinode f q.inodeSrc) .enoent
  let dwd ← require (s.fsnodesNodeFindExt q.rootinode f q.parentDst) .enoent
  refuse (!f.metarestore && hasBit dwd.2.eattr eattrImmutable) .eperm
  refuse (!f.metarestore && !s.fsnodesAccessExt sp.1 sp.2 a.cred modeMaskR f) .eacces
  refuse (dwd.2.type != .directory) .eperm
  refuse (sp.2.type == .directory && (sp.1 == dwd.1 || s.fsnodesIsancestor sp.1 dwd.1)) .einval
  refuse (!f.metarestore && !s.fsnodesAccessExt dwd.1 dwd.2 a.cred (modeMaskW ||| modeMaskX) f) .eacces
  refuse (!fsnodesNamecheck q.nameDst) .einval
  let st := s.fsnodesSnapshotTest sp.1 (hasBit a.smode snapshotModeCanOverwrite) s.depth sp.1 dwd.1
    q.nameDst
  if st ≠ .ok then .error st else return (sp.1, dwd.1)

/-- The quota test before a copy, with the state it leaves. -/
def snapCopyQuota (s : Master) (src dwd : Nat) (name : Name) : Bool × Master :=
  let s := s.fsnodesCheckRealsize src
  let ssr := s.fsnodesGetStats src
  let r := snapshotTestQuota s.depth src dwd name (some ⟨0, 0, 0, 0⟩, s)
  match r.1 with
  | none => (true, r.2)
  | some common => (r.2.fsnodesTestQuota dwd (.less ssr common), r.2)

/-- `fs_univ_snapshot`, with the counters for the record. -/
def fsUnivSnapshot (s : Master) (a : SnapArgs) (q : SnapRequest) : Status × SnapCounters × Master :=
  if !a.flags.metarestore && a.flags.readonly then (.erofs, .zero, s)
  else if hasBit a.smode snapshotModeDelete then
    match s.snapRemoveCheck a q with
    | .error st => (st, .zero, s)
    | .ok (dwd, e) =>
      let st := fsnodesRemoveSnapshot a s.depth e
        (!hasBit dwd.eattr (eattrAppendonly ||| eattrImmutable)) ⟨s, .zero, []⟩
      (.ok, st.counters, st.fs)
  else
    match s.snapCopyCheck a q with
    | .error st => (st, .zero, s)
    | .ok (src, dwd) =>
      let r := if a.flags.metarestore then (false, s) else s.snapCopyQuota src dwd q.nameDst
      if r.1 then (.quota, .zero, r.2)
      else
        let st := fsnodesSnapshot a s.depth src dwd q.nameDst false ⟨r.2, .zero, []⟩
        (.ok, st.counters, st.fs)

end Master

end MfsMaster
