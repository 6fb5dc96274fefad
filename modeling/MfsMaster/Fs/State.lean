/-
  MfsMaster.Fs.State
  **THE STATE OF THE MASTER** (`filesystem.c`) and the walks over the tree.

  Nodes are kept by inode.  Edges are one list, newest first: the children of a
  directory and the parents of a node are its sublists, in the order of the C lists
  (`fsnodes_link` puts a new edge at the head of both).  An edge without a parent is
  an entry of the trash or of the sustained files.  The statistics of directories,
  the realsize ratios and the quotas are kept beside the nodes, since no decision
  other than a quota test reads them.
-/
import MfsMaster.Acl
import MfsMaster.Chunk.Files
import MfsMaster.Inode.Pool

namespace MfsMaster

/-! ## §1. Records. -/

/-- `fsnode`, without its lists and its statistics.  `nlink` (16 bits in the source) and `elements`
(32 bits) are integers: one taken below zero stays below zero, none wraps. -/
structure FsNode where
  type : NodeType
  ctime : UInt32
  mtime : UInt32
  atime : UInt32
  uid : Nat
  gid : Nat
  aclpermflag : Bool
  acldefflag : Bool
  keepmode : Bool
  mode : UInt16
  sclassid : Nat
  eattr : UInt8
  winattr : UInt8
  trashretention : UInt16
  nlink : Int
  elements : Int
  length : UInt64
  chunktab : List Nat
  path : Name
  rdev : UInt32
  deriving Repr, DecidableEq

namespace FsNode

def addElements (d : Int) (n : FsNode) : FsNode := { n with elements := n.elements + d }

def addNlink (d : Int) (n : FsNode) : FsNode := { n with nlink := n.nlink + d }

def setCtime (ts : UInt32) (n : FsNode) : FsNode := { n with ctime := ts }

def setMtimeCtime (ts : UInt32) (n : FsNode) : FsNode := { n with mtime := ts, ctime := ts }

def clearSnapshot (n : FsNode) : FsNode := { n with eattr := n.eattr &&& ~~~eattrSnapshot }

def setType (type : NodeType) (n : FsNode) : FsNode := { n with type := type }

def setSclassid (sclassid : Nat) (n : FsNode) : FsNode := { n with sclassid := sclassid }

def setKeepmode (keepmode : Bool) (n : FsNode) : FsNode := { n with keepmode := keepmode }

def setTrashretention (trashretention : UInt16) (n : FsNode) : FsNode :=
  { n with trashretention := trashretention }

def setEattr (eattr : UInt8) (n : FsNode) : FsNode := { n with eattr := eattr }

def setPath (path : Name) (n : FsNode) : FsNode := { n with path := path }

end FsNode

/-- `fsedge`. -/
structure FsEdge where
  parent : Option Nat
  name : Name
  child : Nat
  deriving Repr, DecidableEq

/-- `statsrecord`. -/
structure StatsRecord where
  inodes : UInt32
  dirs : UInt32
  files : UInt32
  chunks : UInt32
  length : UInt64
  size : UInt64
  realsize : UInt64
  deriving Repr, DecidableEq

def StatsRecord.zero : StatsRecord :=
  { inodes := 0, dirs := 0, files := 0, chunks := 0, length := 0, size := 0, realsize := 0 }

def StatsRecord.add (a b : StatsRecord) : StatsRecord :=
  { inodes := a.inodes + b.inodes, dirs := a.dirs + b.dirs, files := a.files + b.files
    chunks := a.chunks + b.chunks, length := a.length + b.length, size := a.size + b.size
    realsize := a.realsize + b.realsize }

def StatsRecord.sub (a b : StatsRecord) : StatsRecord :=
  { inodes := a.inodes - b.inodes, dirs := a.dirs - b.dirs, files := a.files - b.files
    chunks := a.chunks - b.chunks, length := a.length - b.length, size := a.size - b.size
    realsize := a.realsize - b.realsize }

/-- `quotanode`: the soft limit has run out, which limits are set, and the limits. -/
structure QuotaNode where
  exceeded : Bool
  flags : UInt8
  sinodes : UInt32
  hinodes : UInt32
  slength : UInt64
  hlength : UInt64
  ssize : UInt64
  hsize : UInt64
  srealsize : UInt64
  hrealsize : UInt64
  deriving Repr, DecidableEq

/-- The metadata of a master with the configuration the modelled functions read.  The inode numbers
of `pool` are unbounded; `fsnodesGetNextIdU32` has the 32 bits of the source. -/
structure Master where
  nodes : Nat → Option FsNode
  edges : List FsEdge
  pool : InodePool
  stats : Nat → StatsRecord
  realsizeRatio : Nat → UInt8
  quota : Nat → Option QuotaNode
  acls : Acls
  openFiles : OpenFiles
  chunks : Nat → Option Chunk
  nextchunkid : Nat
  sclasses : SClassTab
  patterns : List Pattern
  keepEmptyFilesInTrash : Bool
  maxAllowedHardLinks : Nat

/-! ## §2. Creation patterns on a node. -/

/-- What a matching pattern does to a node other than changing its class. -/
def Forced.onNode (fc : Forced) (n : FsNode) : FsNode :=
  let n := if n.type = .directory ∨ n.type = .file then
      { n with trashretention := fc.trashretention.getD n.trashretention }
    else n
  match fc.eattr with
  | none => n
  | some (set, clr) =>
    let set := if n.type = .directory then set else set &&& ~~~eattrNoecache
    { n with eattr := (n.eattr ||| set) &&& ~~~clr }

/-- The class a matching pattern gives to a node. -/
def Forced.classOf (fc : Forced) (n : FsNode) : Nat :=
  if n.type = .directory ∨ n.type = .file then fc.sclass.getD n.sclassid else n.sclassid

/-- A matching pattern on a new node, which has no chunks yet. -/
def Forced.onNew (fc : Forced) (n : FsNode) : FsNode :=
  fc.onNode { n with sclassid := fc.classOf n }

namespace Master

/-! ## §3. Access to nodes, edges and chunks. -/

variable (s : Master)

/-- Change a node in place. -/
def modNode (i : Nat) (f : FsNode → FsNode) : Master :=
  { s with nodes := fun j => if j = i then (s.nodes j).map f else s.nodes j }

theorem modNode_nodes (s : Master) (i j : Nat) (f : FsNode → FsNode) :
    (s.modNode i f).nodes j = if j = i then (s.nodes j).map f else s.nodes j := rfl

/-- Change a chunk in place. -/
def modChunk (chunkid : Nat) (f : Chunk → Chunk) : Master :=
  { s with chunks := fun j => if j = chunkid then (s.chunks j).map f else s.chunks j }

/-- Put an edge at the head of the lists it belongs to. -/
def addEdge (e : FsEdge) : Master :=
  { s with edges := e :: s.edges }

/-- Take an edge out of the lists it belongs to. -/
def eraseEdge (e : FsEdge) : Master :=
  { s with edges := s.edges.erase e }

/-- `node->parents`. -/
def parents (i : Nat) : List FsEdge :=
  s.edges.filter fun e => e.child == i

/-- `node->data.ddata.children`. -/
def children (d : Nat) : List FsEdge :=
  s.edges.filter fun e => e.parent == some d

/-- `fsnodes_edge_find`. -/
def edgeFind (d : Nat) (name : Name) : Option FsEdge :=
  s.edges.find? fun e => e.parent == some d && e.name == name

/-- `fsnodes_nameisused`. -/
def fsnodesNameisused (d : Nat) (name : Name) : Bool :=
  (s.edgeFind d name).isSome

/-- The type of a node, if it exists. -/
def typeOf (i : Nat) : Option NodeType :=
  (s.nodes i).map FsNode.type

def isDir (i : Nat) : Bool :=
  s.typeOf i == some .directory

theorem isDir_iff {i : Nat} {n : FsNode} (hn : s.nodes i = some n) :
    s.isDir i = true ↔ n.type = .directory := by
  unfold isDir typeOf
  rw [hn, beq_iff_eq]
  exact Option.some_inj

theorem isSome_of_isDir {s : Master} {i : Nat} (h : s.isDir i = true) :
    (s.nodes i).isSome = true := by
  unfold isDir typeOf at h
  cases hn : s.nodes i with
  | none =>
    rw [hn] at h
    cases h
  | some n => rfl

/-- `fsnodes_lookup`. -/
def fsnodesLookup (d : Nat) (name : Name) : Option FsEdge :=
  if s.isDir d then s.edgeFind d name else none

/-! ## §4. Walks towards the root. -/

/-- The directories the recursive walks `fsnodes_add_stats`, `fsnodes_sub_stats`,
`fsnodes_fix_realsize` and `fsnodes_test_quota` visit, in their order.  The fuel bounds
the depth; the C recursion has no bound, and in a tree none is needed. -/
def walkUp (edges : List FsEdge) : Nat → Nat → List Nat
  | 0, _ => []
  | n + 1, d =>
    d :: (if d = rootId then []
          else ((edges.filter fun e => e.child == d).filterMap FsEdge.parent).flatMap
            (walkUp edges n))

/-- The directories at and above `d`. -/
def upwards (d : Nat) : List Nat :=
  walkUp s.edges (s.edges.length + 1) d

/-- The chain of first parents of `fsnodes_isancestor`, `fsnodes_getpath` and
`fsnodes_test_quota_for_uncommon_nodes`, starting with `p` itself. -/
def chainUp (edges : List FsEdge) : Nat → Option Nat → List Nat
  | 0, _ => []
  | _, none => []
  | n + 1, some p => p :: chainUp edges n ((edges.find? fun e => e.child == p).bind FsEdge.parent)

/-- `fsnodes_isancestor`: is `f` a proper ancestor of `p`?  (`f = p` is not looked at.) -/
def fsnodesIsancestor (f p : Nat) : Bool :=
  if s.typeOf p == some .trash || s.typeOf p == some .sustained || !s.isDir f then false
  else (s.parents p).any fun e => (chainUp s.edges (s.edges.length + 1) e.parent).contains f

/-- The names on the way from the root to the directory `p`, the way `fsnodes_getpath`
collects them (`while (p!=root && p->parents)`). -/
def pathNames (edges : List FsEdge) : Nat → Option Nat → List Name
  | 0, _ => []
  | _, none => []
  | n + 1, some p =>
    if p = rootId then []
    else match edges.find? fun e => e.child == p with
      | none => []
      | some e => e.name :: pathNames edges n e.parent

/-- `MFS_PATH_MAX`. -/
def mfsPathMax : Nat := 1024

/-- `'/'`. -/
def slash : UInt8 := 0x2F

/-- `fsnodes_getpath`: the last `MFS_PATH_MAX` bytes of the path of an edge. -/
def fsnodesGetpath (e : FsEdge) : Name :=
  let full := (pathNames s.edges (s.edges.length + 1) e.parent).foldl
    (fun acc n => n ++ slash :: acc) e.name
  full.drop (full.length - mfsPathMax)

/-! ## §5. Statistics. -/

def mfsChunkSize : UInt64 := 0x04000000
def mfsHdrSize : UInt64 := 0x2000

/-- The number of chunks a length needs: `((length-1)>>MFSCHUNKBITS)+1` as a `uint32_t`,
0 for 0. -/
def chunksForLength (length : UInt64) : Nat :=
  if length = 0 then 0 else (((length - 1) >>> 26).toUInt32 + 1).toNat

/-- `lastchunk` and `lastchunksize` of `fsnodes_get_stats`. -/
def lastChunk (length : UInt64) : Nat × UInt64 :=
  if 0 < length then
    (((length - 1) >>> 26).toUInt32.toNat,
      (((((length - 1) &&& 0x03FFFFFF) + 0x10000) &&& 0x7FFF0000) + mfsHdrSize))
  else (0, mfsHdrSize)

/-- The loop of `fsnodes_get_stats` over the chunk table: number of chunks and their size. -/
def chunkTabStats (last : Nat × UInt64) : List Nat → Nat → UInt32 × UInt64
  | [], _ => (0, 0)
  | chunkid :: tab, i =>
    let rest := chunkTabStats last tab (i + 1)
    if 0 < chunkid then
      (rest.1 + 1,
        rest.2 + (if i < last.1 then mfsChunkSize + mfsHdrSize
          else if i = last.1 then last.2 else 0))
    else rest

/-- `fsnodes_get_stats` for the statistics and the ratio it is given. -/
def nodeStats (n : FsNode) (dirstats : StatsRecord) (ratio : UInt8) : StatsRecord :=
  match n.type with
  | .directory => { dirstats with inodes := dirstats.inodes + 1, dirs := dirstats.dirs + 1 }
  | .file | .trash | .sustained =>
    let c := chunkTabStats (lastChunk n.length) n.chunktab 0
    { inodes := 1, dirs := 0, files := 1, chunks := c.1, length := n.length, size := c.2
      realsize := (c.2 * ratio.toUInt64) / 16 }
  | .symlink =>
    { StatsRecord.zero with inodes := 1, length := UInt64.ofNat n.path.length }
  | _ => { StatsRecord.zero with inodes := 1 }

/-- `sclass_get_keeparch_storage_eights(...) * 2`. -/
def newRatio (n : FsNode) : UInt8 :=
  s.sclasses.sclassGetKeeparchStorageEights n.sclassid n.keepmode * 2

/-- `fsnodes_get_stats(node,&sr,0)`. -/
def fsnodesGetStats (i : Nat) : StatsRecord :=
  match s.nodes i with
  | none => .zero
  | some n => nodeStats n (s.stats i) (s.realsizeRatio i)

/-- The realsize ratio a node should have; it means nothing for nodes without data. -/
def wantedRatio (i : Nat) : UInt8 :=
  match s.nodes i with
  | some n => if n.type.hasData then s.newRatio n else s.realsizeRatio i
  | none => s.realsizeRatio i

/-- The ratio update of `fsnodes_get_stats(node,&sr,1)`. -/
def fixRatio (i : Nat) : Master :=
  { s with realsizeRatio := fun j => if j = i then s.wantedRatio i else s.realsizeRatio j }

/-- Apply `f` to the statistics of every directory of a walk. -/
def mapStats (dirs : List Nat) (f : StatsRecord → StatsRecord) : Master :=
  { s with
    stats := dirs.foldl (fun st d => fun j => if j = d then f (st j) else st j) s.stats }

/-- `fsnodes_add_stats`. -/
def fsnodesAddStats (parent : Nat) (sr : StatsRecord) : Master :=
  s.mapStats (s.upwards parent) fun p => p.add sr

/-- `fsnodes_sub_stats`. -/
def fsnodesSubStats (parent : Nat) (sr : StatsRecord) : Master :=
  s.mapStats (s.upwards parent) fun p => p.sub sr

/-- The directories above a node: the walks of all its parents. -/
def above (i : Nat) : List Nat :=
  ((s.parents i).filterMap FsEdge.parent).flatMap s.upwards

/-- `fsnodes_add_sub_stats` for every parent of a node. -/
def addSubStatsAbove (i : Nat) (new prev : StatsRecord) : Master :=
  s.mapStats (s.above i) fun p => p.add (new.sub prev)

/-- `fsnodes_check_realsize` and `fsnodes_get_stats(node,&sr,2)`: bring the ratio of a file
up to date and correct the directories above it (by 0 when it was). -/
def fsnodesCheckRealsize (i : Nat) : Master :=
  let s' := s.fixRatio i
  let diff := (s'.fsnodesGetStats i).realsize - (s.fsnodesGetStats i).realsize
  s'.mapStats (s.above i) fun p => { p with realsize := p.realsize + diff }

/-! ## §6. A new file system. -/

/-- `DEFAULT_TRASHTIME`. -/
def defaultTrashtime : UInt16 := 24

/-- `DEFAULT_SCLASS`. -/
def defaultSclass : Nat := 1

/-- The root directory of `fs_new`. -/
def rootNode (ts : UInt32) : FsNode :=
  { type := .directory, ctime := ts, mtime := ts, atime := ts, uid := 0, gid := 0
    aclpermflag := false, acldefflag := false, keepmode := false, mode := 0o777
    sclassid := defaultSclass, eattr := 0, winattr := 0, trashretention := defaultTrashtime
    nlink := 2, elements := 0, length := 0, chunktab := [], path := [], rdev := 0 }

/-- `fs_new` and `chunk_newfs` at time `ts`, for a class table, creation patterns and the two
options of the configuration. -/
def fsNew (ts : UInt32) (sclasses : SClassTab) (patterns : List Pattern)
    (keepEmptyFilesInTrash : Bool) (maxAllowedHardLinks : Nat) : Master :=
  { nodes := fun i => if i = rootId then some (rootNode ts) else none
    edges := []
    pool := .fsnodesInitFreebitmask
    stats := fun _ => .zero
    realsizeRatio := fun _ => 0
    quota := fun _ => none
    acls := { access := fun _ => none, default := fun _ => none }
    openFiles := []
    chunks := fun _ => none
    nextchunkid := 1
    sclasses := sclasses
    patterns := patterns
    keepEmptyFilesInTrash := keepEmptyFilesInTrash
    maxAllowedHardLinks := maxAllowedHardLinks }

end Master

end MfsMaster
