/-
  MfsMaster.Fs.Edges
  **LINKING AND UNLINKING** (`filesystem.c`): the primitives every namespace operation
  is made of.

      fsnodesRemoveEdge, fsnodesLink   — one edge with the counters on both ends
      fsnodesCreateNode                — a new node with its first edge
      fsnodesRemoveNode                — a node that lost its last edge
      fsnodesUnlink, fsnodesPurge,
      fsnodesUndel                     — the ways into and out of the trash
-/
import MfsMaster.Fs.Access

namespace MfsMaster.Master

/-! ## §1. Archive flags. -/

variable (s : Master)

/-- `chunk_set_archflag`; `true` when the flag changed. -/
def chunkSetArchflag (chunkid : Nat) (archflag : Bool) : Master × Bool :=
  match s.chunks chunkid with
  | none => (s, false)
  | some c =>
    (s.modChunk chunkid fun c => (chunkSetArchflagInt c archflag).1,
      (chunkSetArchflagInt c archflag).2)

/-- `chunk_set_archflag` for every chunk of a chunk table, with the number of changes. -/
def setArchflags (s : Master) (archflag : Bool) : List Nat → Master × Nat
  | [] => (s, 0)
  | chunkid :: tab =>
    if 0 < chunkid then
      let r := s.chunkSetArchflag chunkid archflag
      let rest := setArchflags r.1 archflag tab
      (rest.1, rest.2 + r.2.toNat)
    else setArchflags s archflag tab

/-- The latest of the times the class looks at (`reftime`). -/
def archReftime (c : SClass) (n : FsNode) : UInt32 :=
  let t := fun (bit : UInt8) (time r : UInt32) =>
    if hasBit c.archMode bit ∧ r < time then time else r
  t archModeAtime n.atime (t archModeMtime n.mtime (t archModeCtime n.ctime 0))

/-- `aflag` of `fsnodes_checkarchmode`: is the file old and large enough to be archived? -/
def archDue (c : SClass) (n : FsNode) (ts : UInt32) : Bool :=
  if n.length < c.archMinSize then false
  else
    let reftime := archReftime c n
    let chk := reftime + c.archDelay.toUInt32 * 3600
    chk < ts && reftime ≤ chk

/-- `fsnodes_checkarchmode`: a change of the times of a file of a class with a reversible
archive mode takes its chunks out of the archive.  Returns the number of flags changed. -/
def fsnodesCheckarchmode (i : Nat) (ts : UInt32) (fieldsToCheck : UInt8) :
    Master × Nat :=
  match s.nodes i with
  | none => (s, 0)
  | some n =>
    let c := s.sclasses.tab n.sclassid
    if n.type.hasData && !n.keepmode && hasBit c.archMode archModeReversible
        && (0 < c.archDelay || 0 < c.archMinSize) && hasBit c.archMode fieldsToCheck
        && !archDue c n ts then
      let r := s.setArchflags false n.chunktab
      (r.1.modNode i (.setKeepmode true), r.2)
    else (s, 0)

/-- The time a node's entry changed, with its effect on the archive mode. -/
def touchCtime (i : Nat) (ts : UInt32) : Master :=
  ((s.modNode i (.setCtime ts)).fsnodesCheckarchmode i ts archModeCtime).1

/-! ## §2. Edges. -/

/-- The two ends of an edge that is taken away (`d = -1`) or added (`d = 1`): the entries of
the directory, and the links of the child or (for a subdirectory) of the directory. -/
def countEdge (parent child : Nat) (d : Int) : Master :=
  let s := s.modNode parent (.addElements d)
  if s.isDir child then s.modNode parent (.addNlink d) else s.modNode child (.addNlink d)

/-- The directory end of a changed edge: its times and its snapshot mark. -/
def touchDir (parent : Nat) (ts : UInt32) : Master :=
  (s.modNode parent (.setMtimeCtime ts)).modNode parent .clearSnapshot

variable (ts : UInt32) (e : FsEdge)

/-- The `if (e->parent)` part of `fsnodes_remove_edge`: statistics, counters and times of the
directory. -/
def uncountEdge : Master :=
  match e.parent with
  | none => s
  | some p =>
    ((s.fsnodesSubStats p (s.fsnodesGetStats e.child)).countEdge p e.child (-1)).touchDir p ts

/-- `fsnodes_remove_edge`.  The edge is a record: removing one that is no longer linked
still counts down both ends. -/
def fsnodesRemoveEdge : Master :=
  let s := s.uncountEdge ts e
  (if 0 < ts then s.touchCtime e.child ts else s).eraseEdge e

/-- `fsnodes_link` before the times: the edge, the counters and the statistics. -/
def linkEdge (parent : Nat) : Master :=
  let s := ((s.addEdge e).countEdge parent e.child 1).modNode parent .clearSnapshot
  let s := s.fixRatio e.child
  s.fsnodesAddStats parent (s.fsnodesGetStats e.child)

/-- `fsnodes_link`. -/
def fsnodesLink (parent child : Nat) (name : Name) : Master :=
  let s := s.linkEdge { parent := some parent, name := name, child := child } parent
  if 0 < ts then (s.touchDir parent ts).touchCtime child ts else s

/-! ## §3. Nodes. -/

/-- The group of a new node and whether the directory passes on its set-gid bit. -/
def sgidDir (node : FsNode) : Bool :=
  node.mode &&& 0o2000 == 0o2000

/-- The node `fsnodes_create_node` makes in the directory `node`; `acl` is what the default
list of the directory gives, if it has one. -/
def newNode (node : FsNode) (ts : UInt32) (type : NodeType) (mode cumask : UInt16)
    (uid gid : Nat) (copysgid : Bool) (acl : Option AclCopy) : FsNode :=
  let inherits := type = .directory ∨ type = .file
  let drop := eattrSnapshot ||| eattrUndeletable ||| eattrAppendonly ||| eattrImmutable
  let mode := match acl with
    | some a => a.mode
    | none => mode &&& ~~~cumask
  let mode := if sgidDir node ∧ copysgid ∧ type = .directory then mode ||| 0o2000 else mode
  { type := type, ctime := ts, mtime := ts, atime := ts, uid := uid
    gid := if sgidDir node then node.gid else gid
    aclpermflag := false, acldefflag := false, keepmode := false
    mode := mode &&& 0xFFF
    sclassid := if inherits then node.sclassid else 0
    eattr := node.eattr &&& ~~~(if type = .directory then drop else eattrNoecache ||| drop)
    winattr := 0
    trashretention := if inherits then node.trashretention else defaultTrashtime
    nlink := if type = .directory then 2 else 0
    elements := 0, length := 0, chunktab := [], path := [], rdev := 0 }

/-- The flags for the lists a new node got. -/
def setAclflags (acl : Option AclCopy) (n : FsNode) : FsNode :=
  { n with
    aclpermflag := n.aclpermflag || (acl.map AclCopy.aclperm).getD false
    acldefflag := n.acldefflag || (acl.map AclCopy.acldef).getD false }

/-- What the default list of the directory gives to the new node `i`, if it has one. -/
def newAcl (parent i : Nat) (node : FsNode) (type : NodeType) (mode : UInt16) :
    Option AclCopy :=
  if node.acldefflag then some (posixAclCopydefaults s.acls parent i (type = .directory) mode)
  else none

/-- A node under a new inode; `r` is what `fsnodes_get_next_id` returned. -/
def addNode (r : Nat × InodePool) (n : FsNode) (acls : Acls) : Master :=
  { s with
    pool := r.2
    nodes := fun j => if j = r.1 then some n else s.nodes j
    stats := fun j => if j = r.1 then .zero else s.stats j
    quota := fun j => if j = r.1 then none else s.quota j
    acls := acls }

/-- `fsnodes_create_node` in the directory `parent`: the new inode and the new state. -/
def fsnodesCreateNode (parent : Nat) (name : Name) (type : NodeType)
    (mode cumask : UInt16) (uid gid : Nat) (copysgid : Bool) : Nat × Master :=
  match s.nodes parent with
  | none => (0, s)
  | some node =>
    let r := s.pool.fsnodesGetNextId
    let acl := s.newAcl parent r.1 node type mode
    let n := newNode node ts type mode cumask uid gid copysgid acl
    let s := (s.addNode r n ((acl.map AclCopy.acls).getD s.acls)).fsnodesLink ts parent r.1 name
    (r.1, s.modNode r.1 (setAclflags acl))

/-- `chunk_delete_file`. -/
def chunkDeleteFile (chunkid sclassid : Nat) : Master :=
  s.modChunk chunkid fun c => (chunkDeleteFileInt s.sclasses c sclassid).2

/-- `chunk_delete_file` for every chunk of a chunk table. -/
def deleteFiles (sclassid : Nat) (tab : List Nat) : Master :=
  tab.foldl (fun s chunkid => if 0 < chunkid then s.chunkDeleteFile chunkid sclassid else s) s

/-- `fsnodes_remove_node`. -/
def fsnodesRemoveNode (i : Nat) : Master :=
  match s.nodes i with
  | none => s
  | some n =>
    if (s.parents i).isEmpty then
      let s := if n.type.hasData then s.deleteFiles n.sclassid n.chunktab else s
      { s with
        nodes := fun j => if j = i then none else s.nodes j
        quota := fun j => if j = i then none else s.quota j
        pool := s.pool.fsnodesFreeId i ts
        acls := posixAclRemove s.acls i n.aclpermflag n.acldefflag }
    else s

/-! ## §4. The trash. -/

/-- Where the last link of a node leads when it is unlinked. -/
inductive UnlinkDest where
  | trash (path : Name)
  | sustained (path : Name)
  | removed
  deriving Repr, DecidableEq

/-- `gototrash` and `isopen` of `fsnodes_unlink`, for the edge `e` as the last link. -/
def unlinkDest : UnlinkDest :=
  match s.nodes e.child with
  | none => .removed
  | some n =>
    let isopen := s.openFiles.ofIsfileopen e.child
    if n.type = .file then
      if 0 < n.trashretention ∧ (0 < n.length ∨ s.keepEmptyFilesInTrash ∨ isopen) then
        .trash (s.fsnodesGetpath e)
      else if isopen then .sustained (s.fsnodesGetpath e)
      else .removed
    else .removed

/-- Hang a detached file into the trash or the sustained files. -/
def detach (i : Nat) (type : NodeType) (path : Name) : Master :=
  (s.modNode i (.setType type)).addEdge { parent := none, name := path, child := i }

/-- `fsnodes_unlink`. -/
def fsnodesUnlink : Master :=
  let dest := s.unlinkDest e
  let s := s.fsnodesRemoveEdge ts e
  if (s.parents e.child).isEmpty then
    match dest with
    | .trash path =>
      -- ctime is set and the archive mode checked once more, now as TYPE_TRASH
      ((s.modNode e.child (.setType .trash)).touchCtime e.child ts).addEdge
        { parent := none, name := path, child := e.child }
    | .sustained path => s.detach e.child .sustained path
    | .removed => s.fsnodesRemoveNode ts e.child
  else s

/-- `EDGE_REC_INDX`: the size class of an edge record. -/
def edgeRecIndx (nleng : Nat) : Nat := (nleng - 1) / 8

/-- What the record of `e` holds after `fsnodes_unlink` freed it: freed records keep their
fields, and the edge into the trash takes the freed record when it has the same size. -/
def freedEdge : FsEdge :=
  if (s.parents e.child).length = 1 then
    match s.unlinkDest e with
    | .trash path | .sustained path =>
      if edgeRecIndx path.length = edgeRecIndx e.name.length then
        { parent := none, name := path, child := e.child }
      else e
    | .removed => e
  else e

/-- `fsnodes_purge` of a file in the trash or among the sustained ones; the result says
whether the node is gone (`-1` is `none`). -/
def fsnodesPurge (i : Nat) : Option Bool × Master :=
  match s.nodes i with
  | none => (none, s)
  | some n =>
    let removed := match s.parents i with
      | [] => s
      | e :: _ => (s.fsnodesRemoveEdge ts e).fsnodesRemoveNode ts i
    match n.type with
    | .trash =>
      if s.openFiles.ofIsfileopen i then
        (some false, s.modNode i (.setType .sustained))
      else (some true, removed)
    | .sustained => (some true, removed)
    | _ => (none, s)

/-- The components of a path, separated by `'/'`. -/
def components : Name → List Name
  | [] => [[]]
  | b :: rest =>
    if b = slash then [] :: components rest
    else match components rest with
      | [] => [[b]]
      | c :: cs => (b :: c) :: cs

/-- A component `fsnodes_undel` accepts. -/
def goodComponent (c : Name) : Bool :=
  !c.isEmpty && c != [dot] && c != [dot, dot] && c.length ≤ maxFnameLeng && !c.contains 0

/-- `chunk_set_trashflag`; `true` for `MFS_STATUS_OK`. -/
def chunkSetTrashflag (chunkid : Nat) (trashflag : Bool) : Master :=
  s.modChunk chunkid fun c => (chunkSetTrashflagInt c trashflag).2

/-- `fsnodes_settrashflag`. -/
def fsnodesSettrashflag (i : Nat) (trashflag : Bool) : Master :=
  match s.nodes i with
  | none => s
  | some n =>
    n.chunktab.foldl
      (fun s chunkid => if 0 < chunkid then s.chunkSetTrashflag chunkid trashflag else s) s

/-- The end of `fsnodes_undel` and of `fs_univ_trash_recover`: the file leaves the trash
edge `e` and is linked into the directory `p`. -/
def relink (e : FsEdge) (p : Nat) (name : Name) : Master :=
  let i := e.child
  let s := (s.modNode i (.setType .file)).touchCtime i ts
  ((s.fsnodesLink ts p i name).fsnodesRemoveEdge ts e).fsnodesSettrashflag i false

/-- The walk of `fsnodes_undel` from the directory `p`. -/
def undelLoop (ts : UInt32) (e : FsEdge) :
    List Name → Master → Nat → Bool → Status × Master
  | [], s, _, _ => (.cantcreatepath, s)
  | name :: rest, s, p, new =>
    if ((s.quota p).map QuotaNode.exceeded).getD false then (.quota, s)
    else if ((s.nodes p).map fun n => hasBit n.eattr eattrImmutable).getD false then (.eperm, s)
    else if rest.isEmpty then
      if s.fsnodesNameisused p name then (.eexist, s) else (.ok, s.relink ts e p name)
    else
      match if new then none else s.fsnodesLookup p name with
      | some pe =>
        if s.isDir pe.child then undelLoop ts e rest s pe.child false
        else (.cantcreatepath, s)
      | none =>
        let r := s.fsnodesCreateNode ts p name .directory 0o755 0 0 0 false
        undelLoop ts e rest r.2 r.1 true

/-- `fsnodes_undel`. -/
def fsnodesUndel (s : Master) (ts : UInt32) (i : Nat) : Status × Master :=
  match s.parents i with
  | [] => (.cantcreatepath, s)
  | e :: _ =>
    let cs := components (e.name.dropWhile (· == slash))
    if cs.all goodComponent then undelLoop ts e cs s rootId false
    else (.cantcreatepath, s)

end MfsMaster.Master
