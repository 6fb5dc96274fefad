/-
  MfsMaster.Fs.Trash
  **FILES WITHOUT A DIRECTORY** (`filesystem.c`): the requests on files in the trash
  (`fs_undel`, `fs_purge`, `fs_trash_remove`) and the loops that empty the trash and
  the sustained files.
-/
import MfsMaster.Fs.Edges

namespace MfsMaster.Master

/-! ## §1. Requests. -/

variable (s : Master)

/-- The file of a request of the meta file system. -/
def trashNode (rootinode : Nat) (f : SesFlags) (inode : Nat) : Except Status FsNode := do
  refuse (rootinode != 0) .eperm
  refuse (!f.metarestore && f.readonly) .erofs
  let p ← require (s.nodes inode) .enoent
  refuse (p.type != .trash) .enoent
  return p

variable (ts : UInt32)

/-- `fs_univ_undel`. -/
def fsUnivUndel (rootinode : Nat) (f : SesFlags) (inode : Nat) :
    Status × Master :=
  match s.trashNode rootinode f inode with
  | .error st => (st, s)
  | .ok _ => s.fsnodesUndel ts inode

/-- `fs_univ_purge`. -/
def fsUnivPurge (rootinode : Nat) (f : SesFlags) (inode : Nat) :
    Status × Master :=
  match s.trashNode rootinode f inode with
  | .error st => (st, s)
  | .ok _ => (.ok, (s.fsnodesPurge ts inode).2)

/-- The tests of `fs_univ_trash_remove`. -/
def trashRemoveCheck (f : SesFlags) (inode uid : Nat) : Except Status FsNode := do
  refuse (!f.metarestore && f.readonly) .erofs
  let p ← require (s.nodes inode) .enoent
  refuse (uid != 0 && p.uid != uid) .eperm
  refuse (p.type != .trash) .enoent
  return p

/-- `fs_univ_trash_remove`. -/
def fsUnivTrashRemove (f : SesFlags) (inode uid : Nat) :
    Status × Master :=
  match s.trashRemoveCheck f inode uid with
  | .error st => (st, s)
  | .ok _ => (.ok, (s.fsnodesPurge ts inode).2)

/-! ## §2. Loops. -/

/-- The files of one bucket of the trash or of the sustained files; the number of buckets is
`TRASH_BUCKETS` or `SUSTAINED_BUCKETS`. -/
def bucket (type : NodeType) (buckets bid : Nat) : List Nat :=
  (s.edges.filter fun e =>
    e.parent == none && s.typeOf e.child == some type && e.child % buckets == bid).map FsEdge.child

/-- Has a file been in the trash for long enough? -/
def trashExpired (n : FsNode) : Bool :=
  let seconds := n.trashretention.toNat * 3600
  n.atime.toNat + seconds < ts.toNat && n.mtime.toNat + seconds < ts.toNat
    && n.ctime.toNat + seconds < ts.toNat

/-- May the chunks of a file in the trash be kept the way its class keeps trash? -/
def trashFlagDue (n : FsNode) : Bool :=
  n.mtime + 300 < ts && (s.sclasses.tab n.sclassid).minTrashretention ≤ n.trashretention

/-- Purge the files of a list that a test is true of. -/
def purgeAll (due : Master → Nat → FsNode → Bool) (s : Master) (l : List Nat) :
    Master :=
  l.foldl (fun s i => match s.nodes i with
    | some n => if due s i n then (s.fsnodesPurge ts i).2 else s
    | none => s) s

/-- `fs_univ_empty_trash_part`. -/
def fsUnivEmptyTrashPart (buckets bid : Nat) : Master :=
  let s := purgeAll ts (fun _ _ n => trashExpired ts n) s (s.bucket .trash buckets bid)
  (s.bucket .trash buckets bid).foldl (fun s i => match s.nodes i with
    | some n => if s.trashFlagDue ts n then s.fsnodesSettrashflag i true else s
    | none => s) s

/-- `fs_univ_empty_sustained_part`. -/
def fsUnivEmptySustainedPart (buckets bid : Nat) : Master :=
  purgeAll ts (fun s i _ => !s.openFiles.ofIsfileopen i) s (s.bucket .sustained buckets bid)

end MfsMaster.Master
