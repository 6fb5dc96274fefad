/-
  MfsMaster.Log.Records
  **ALL RECORDS OF THE CHANGELOG**: every format that is given to `changelog`, with the types of
  its arguments, and the lengths the dispatcher and the operations allow for the bytes in it.

      ChangeRecord            — the records
      ChangeRecord.shape      — their formats
      ChangeRecord.Admitted   — names of at most 255 bytes and so on, as they are tested
-/
import MfsMaster.Log.Text

namespace MfsMaster.Log

/-! ## §1. Limits. -/

/-- `MFS_NAME_MAX`; the dispatcher reads the length of a name from one byte. -/
def mfsNameMax : Nat := 255

/-- `MFS_PATH_MAX`. -/
def mfsPathMax : Nat := 1024

/-- `MFS_GIDS_MAX`. -/
def mfsGidsMax : Nat := 4096

/-- `MFS_XATTR_SIZE_MAX`. -/
def mfsXattrSizeMax : Nat := 65536

/-- `MAXLABELSCNT`. -/
def maxLabelsCnt : Nat := 9

/-- `SCLASS_EXPR_MAX_SIZE`. -/
def sclassExprMaxSize : Nat := 128

/-! ## §2. The records. -/

/-- What a record says of a mode of a storage class. -/
structure StorageMode where
  uniqmask : UInt32
  ecDataChksumParts : UInt8
  labelsMode : UInt8
  labelexpr : List (List UInt8)
  deriving Repr, DecidableEq

/-- What a record says of a session. -/
structure SessionData where
  exportscsum : UInt64
  rootinode : UInt32
  sesflags : UInt8
  umaskval : UInt16
  rootuid : UInt32
  rootgid : UInt32
  mapalluid : UInt32
  mapallgid : UInt32
  sclassgroups : UInt16
  mintrashretention : UInt32
  maxtrashretention : UInt32
  disables : UInt32
  peerip : UInt32
  info : List UInt8
  deriving Repr, DecidableEq

/-- What a record says of a quota. -/
structure QuotaData where
  exceeded : UInt8
  flags : UInt8
  stimestamp : UInt32
  sinodes : UInt32
  hinodes : UInt32
  slength : UInt64
  hlength : UInt64
  ssize : UInt64
  hsize : UInt64
  srealsize : UInt64
  hrealsize : UInt64
  graceperiod : UInt32
  deriving Repr, DecidableEq

/-- What a record says of a storage class. -/
structure SclassData where
  name : List UInt8
  newFlag : UInt8
  desc : List UInt8
  priority : UInt32
  exportGroup : UInt8
  create : StorageMode
  keep : StorageMode
  arch : StorageMode
  trash : StorageMode
  labelsMode : UInt8
  archMode : UInt8
  archDelay : UInt16
  archMinSize : UInt64
  minTrashretention : UInt16
  adminOnly : UInt8
  sclassid : UInt16
  deriving Repr, DecidableEq

/-- The records, without their time. -/
inductive ChangeRecord where
  -- chunks
  | setversion (chunkid : UInt64) (version : UInt32)
  | chunkdel (chunkid : UInt64) (version : UInt32)
  | chunkflagsclr (chunkid : UInt64)
  | chunkadd (chunkid : UInt64) (version lockedto : UInt32)
  -- chunk servers
  | csdbop (op : UInt8) (ip : UInt32) (port : UInt16) (arg : UInt32)
  -- nodes and names
  | freeinodes (delay fi si ics : UInt32)
  | create (parent : UInt32) (name : List UInt8) (type : UInt8) (mode cumask : UInt16)
      (uid gid rdev inode : UInt32)
  | symlink (parent : UInt32) (name path : List UInt8) (uid gid inode : UInt32)
  | unlink (parent : UInt32) (name : List UInt8) (inode : UInt32)
  | move (parentSrc : UInt32) (nameSrc : List UInt8) (parentDst : UInt32) (nameDst : List UInt8)
      (rmode : UInt8) (inode : UInt32)
  | link (inodeSrc parentDst : UInt32) (nameDst : List UInt8)
  | snapshot (inodeSrc parentDst : UInt32) (nameDst : List UInt8) (smode sesflags : UInt8)
      (uid : UInt32) (gid : List UInt32) (cumask : UInt16)
      (chksum removed same existing hardlinks new : UInt32)
  | renumerateedges (nextedgeid : UInt64)
  -- trash
  | trashRecover (inode parentDst : UInt32) (path : List UInt8) (cumask : UInt16)
      (uid gid : UInt32) (copysgid : UInt8) (usedPath : List UInt8)
  | trashRemove (inode : UInt32)
  | setpath (inode : UInt32) (path : List UInt8)
  | undel (inode : UInt32)
  | purge (inode : UInt32)
  | emptytrash (bid fi si tfi ics : UInt32)
  | emptysustained (bid fi ics : UInt32)
  -- attributes
  | attr (inode : UInt32) (mode : UInt16) (uid gid atime mtime : UInt32) (winattr : UInt8)
      (aclmode : UInt16)
  | addattr (inode : UInt32) (flags : UInt8) (blob : List UInt8)
  | access (inode : UInt32)
  | amtime (inode atime mtime ctime : UInt32)
  | setsclass (inode uid : UInt32) (src dst smode : UInt8) (sinodes ncinodes nsinodes : UInt32)
  | settrashtime (inode uid trashretention : UInt32) (smode : UInt8)
      (sinodes ncinodes nsinodes : UInt32)
  | seteattr (inode uid : UInt32) (eattr smode : UInt8) (sinodes ncinodes nsinodes : UInt32)
  | setxattr (inode : UInt32) (name value : List UInt8) (mode : UInt8)
  | setacl (inode : UInt32) (mode : UInt16) (chg acltype : UInt8)
      (userperm groupperm otherperm mask namedusers namedgroups : UInt16) (blob : List UInt8)
  | quota (inode : UInt32) (q : QuotaData)
  | archchg (inode uid : UInt32) (cmd : UInt8) (chgchunks notchgchunks : UInt64)
      (nsinodes : UInt32)
  | autoarch (inode archreftime : UInt32) (intrash : UInt8) (aflag tflag : UInt32)
  -- contents of files
  | trunc (inode indx : UInt32) (chunkid : UInt64)
  | unlock (chunkid : UInt64)
  | length (inode : UInt32) (leng : UInt64) (canmodmtime : UInt8)
  | append (inode inodeSrc sliceFrom sliceTo : UInt32)
  | write (inode indx : UInt32) (opflag canmodmtime : UInt8) (chunkid : UInt64)
  | rollback (inode indx : UInt32) (prevchunkid chunkid : UInt64)
  | repair (inode indx version : UInt32)
  | setfilechunk (inode indx : UInt32)
  -- locks and open files
  | flock (inode sessionid : UInt32) (owner : UInt64) (ltype : Char)
  | posixlock (inode sessionid : UInt32) (owner : UInt64) (type : Char) (start fin : UInt64)
      (pid : UInt32)
  | release (sessionid inode : UInt32)
  | acquire (sessionid inode : UInt32)
  -- sessions
  | sesconnected (sessionid : UInt32)
  | sesdisconnected (sessionid : UInt32)
  | sesadd (ses : SessionData) (sessionid : UInt32)
  | seschanged (sessionid : UInt32) (ses : SessionData)
  | sesdel (sessionid : UInt32)
  -- storage classes and patterns
  | scecversion (version : UInt8)
  | scset (sc : SclassData)
  | scdup (oldname newname : List UInt8) (src dst : UInt32)
  | scren (oldname newname : List UInt8) (sclassid : UInt32)
  | scdel (name : List UInt8) (sclassid : UInt32)
  | patadd (gname : List UInt8) (euid egid : UInt32) (priority omask scid : UInt8)
      (trashretention : UInt16) (eattrSet eattrClr : UInt8)
  | patdel (gname : List UInt8) (euid egid : UInt32)
  -- the master itself
  | setmetaid (metaid : UInt64)
  | idle

/-! ## §3. Formats. -/

namespace StorageMode

/-- `C(labelscnt:uniqmask:labels_mode)` and `K(...)`. -/
def field (letter : Char) (m : StorageMode) : Field :=
  .mode letter (UInt8.ofNat m.labelexpr.length) m.uniqmask none m.labelsMode

/-- `A(labelscnt:uniqmask:ec:labels_mode)` and `T(...)`. -/
def ecField (letter : Char) (m : StorageMode) : Field :=
  .mode letter (UInt8.ofNat m.labelexpr.length) m.uniqmask (some m.ecDataChksumParts) m.labelsMode

end StorageMode

/-- The arguments SESADD and SESCHANGED have in common. -/
def SessionData.fields (ses : SessionData) : List Field :=
  [.hash ses.exportscsum, .u32 ses.rootinode, .u8 ses.sesflags, .octal ses.umaskval,
    .u32 ses.rootuid, .u32 ses.rootgid, .u32 ses.mapalluid, .u32 ses.mapallgid,
    .hex16 ses.sclassgroups, .u32 ses.mintrashretention, .u32 ses.maxtrashretention,
    .hex32 ses.disables, .u32 ses.peerip, .name ses.info]

def QuotaData.fields (q : QuotaData) : List Field :=
  [.u8 q.exceeded, .u8 q.flags, .u32 q.stimestamp, .u32 q.sinodes, .u32 q.hinodes,
    .u64 q.slength, .u64 q.hlength, .u64 q.ssize, .u64 q.hsize, .u64 q.srealsize,
    .u64 q.hrealsize, .u32 q.graceperiod]

/-- `sclass_make_changelog`. -/
def SclassData.fields (sc : SclassData) : List Field :=
  [.name sc.name, .u8 sc.newFlag, .u8 1, .name sc.desc, .u32 sc.priority, .u8 sc.exportGroup,
    sc.create.field 'C', sc.keep.field 'K', sc.arch.ecField 'A', sc.trash.ecField 'T',
    .u8 sc.labelsMode, .arch sc.archMode sc.archDelay sc.archMinSize, .u16 sc.minTrashretention,
    .u8 sc.adminOnly,
    .exprs (sc.create.labelexpr ++ sc.keep.labelexpr ++ sc.arch.labelexpr ++ sc.trash.labelexpr)]

namespace ChangeRecord

/-- The format of a record. -/
def shape (ts : UInt32) : ChangeRecord → Shape
  | setversion chunkid version => ⟨ts, "SETVERSION", [.u64 chunkid, .u32 version], []⟩
  | chunkdel chunkid version => ⟨ts, "CHUNKDEL", [.u64 chunkid, .u32 version], []⟩
  | chunkflagsclr chunkid => ⟨ts, "CHUNKFLAGSCLR", [.u64 chunkid], []⟩
  | chunkadd chunkid version lockedto =>
    ⟨ts, "CHUNKADD", [.u64 chunkid, .u32 version, .u32 lockedto], []⟩
  | csdbop op ip port arg => ⟨ts, "CSDBOP", [.u8 op, .u32 ip, .u16 port, .u32 arg], []⟩
  | freeinodes delay fi si ics => ⟨ts, "FREEINODES", [.u32 delay], [.u32 fi, .u32 si, .u32 ics]⟩
  | create parent name type mode cumask uid gid rdev inode =>
    ⟨ts, "CREATE", [.u32 parent, .name name, .u8 type, .u16 mode, .u16 cumask, .u32 uid, .u32 gid,
      .u32 rdev], [.u32 inode]⟩
  | symlink parent name path uid gid inode =>
    ⟨ts, "SYMLINK", [.u32 parent, .name name, .name path, .u32 uid, .u32 gid], [.u32 inode]⟩
  | unlink parent name inode => ⟨ts, "UNLINK", [.u32 parent, .name name], [.u32 inode]⟩
  | move parentSrc nameSrc parentDst nameDst rmode inode =>
    ⟨ts, "MOVE", [.u32 parentSrc, .name nameSrc, .u32 parentDst, .name nameDst, .u8 rmode],
      [.u32 inode]⟩
  | link inodeSrc parentDst nameDst =>
    ⟨ts, "LINK", [.u32 inodeSrc, .u32 parentDst, .name nameDst], []⟩
  | snapshot inodeSrc parentDst nameDst smode sesflags uid gid cumask chksum removed same existing
      hardlinks new =>
    ⟨ts, "SNAPSHOT", [.u32 inodeSrc, .u32 parentDst, .name nameDst, .u8 smode, .u8 sesflags,
      .u32 uid, .gids gid, .u16 cumask],
      [.u32 chksum, .u32 removed, .u32 same, .u32 existing, .u32 hardlinks, .u32 new]⟩
  | renumerateedges nextedgeid => ⟨ts, "RENUMERATEEDGES", [], [.u64 nextedgeid]⟩
  | trashRecover inode parentDst path cumask uid gid copysgid usedPath =>
    ⟨ts, "TRASH_RECOVER", [.u32 inode, .u32 parentDst, .name path, .u16 cumask, .u32 uid, .u32 gid,
      .u8 copysgid], [.inParens usedPath]⟩
  | trashRemove inode => ⟨ts, "TRASH_REMOVE", [.u32 inode], []⟩
  | setpath inode path => ⟨ts, "SETPATH", [.u32 inode, .name path], []⟩
  | undel inode => ⟨ts, "UNDEL", [.u32 inode], []⟩
  | purge inode => ⟨ts, "PURGE", [.u32 inode], []⟩
  | emptytrash bid fi si tfi ics =>
    ⟨ts, "EMPTYTRASH", [.u32 bid], [.u32 fi, .u32 si, .u32 tfi, .u32 ics]⟩
  | emptysustained bid fi ics => ⟨ts, "EMPTYSUSTAINED", [.u32 bid], [.u32 fi, .u32 ics]⟩
  | attr inode mode uid gid atime mtime winattr aclmode =>
    ⟨ts, "ATTR", [.u32 inode, .u16 mode, .u32 uid, .u32 gid, .u32 atime, .u32 mtime, .u8 winattr,
      .u16 aclmode], []⟩
  | addattr inode flags blob => ⟨ts, "ADDATTR", [.u32 inode, .u8 flags, .name blob], []⟩
  | access inode => ⟨ts, "ACCESS", [.u32 inode], []⟩
  | amtime inode atime mtime ctime =>
    ⟨ts, "AMTIME", [.u32 inode, .u32 atime, .u32 mtime, .u32 ctime], []⟩
  | setsclass inode uid src dst smode sinodes ncinodes nsinodes =>
    ⟨ts, "SETSCLASS", [.u32 inode, .u32 uid, .u8 src, .u8 dst, .u8 smode],
      [.u32 sinodes, .u32 ncinodes, .u32 nsinodes]⟩
  | settrashtime inode uid trashretention smode sinodes ncinodes nsinodes =>
    ⟨ts, "SETTRASHTIME", [.u32 inode, .u32 uid, .u32 trashretention, .u8 smode],
      [.u32 sinodes, .u32 ncinodes, .u32 nsinodes]⟩
  | seteattr inode uid eattr smode sinodes ncinodes nsinodes =>
    ⟨ts, "SETEATTR", [.u32 inode, .u32 uid, .u8 eattr, .u8 smode],
      [.u32 sinodes, .u32 ncinodes, .u32 nsinodes]⟩
  | setxattr inode name value mode =>
    ⟨ts, "SETXATTR", [.u32 inode, .name name, .name value, .u8 mode], []⟩
  | setacl inode mode chg acltype userperm groupperm otherperm mask namedusers namedgroups blob =>
    ⟨ts, "SETACL", [.u32 inode, .u16 mode, .u8 chg, .u8 acltype, .u16 userperm, .u16 groupperm,
      .u16 otherperm, .u16 mask, .u16 namedusers, .u16 namedgroups, .name blob], []⟩
  | quota inode q => ⟨ts, "QUOTA", .u32 inode :: q.fields, []⟩
  | archchg inode uid cmd chgchunks notchgchunks nsinodes =>
    ⟨ts, "ARCHCHG", [.u32 inode, .u32 uid, .u8 cmd],
      [.u64 chgchunks, .u64 notchgchunks, .u32 nsinodes]⟩
  | autoarch inode archreftime intrash aflag tflag =>
    ⟨ts, "AUTOARCH", [.u32 inode, .u32 archreftime, .u8 intrash], [.u32 aflag, .u32 tflag]⟩
  | trunc inode indx chunkid => ⟨ts, "TRUNC", [.u32 inode, .u32 indx], [.u64 chunkid]⟩
  | unlock chunkid => ⟨ts, "UNLOCK", [.u64 chunkid], []⟩
  | length inode leng canmodmtime =>
    ⟨ts, "LENGTH", [.u32 inode, .u64 leng, .u8 canmodmtime], []⟩
  | append inode inodeSrc sliceFrom sliceTo =>
    ⟨ts, "APPEND", [.u32 inode, .u32 inodeSrc, .u32 sliceFrom, .u32 sliceTo], []⟩
  | write inode indx opflag canmodmtime chunkid =>
    ⟨ts, "WRITE", [.u32 inode, .u32 indx, .u8 opflag, .u8 canmodmtime], [.u64 chunkid]⟩
  | rollback inode indx prevchunkid chunkid =>
    ⟨ts, "ROLLBACK", [.u32 inode, .u32 indx, .u64 prevchunkid, .u64 chunkid], []⟩
  | repair inode indx version => ⟨ts, "REPAIR", [.u32 inode, .u32 indx], [.u32 version]⟩
  | setfilechunk inode indx => ⟨ts, "SETFILECHUNK", [.u32 inode, .u32 indx, .u8 0], []⟩
  | flock inode sessionid owner ltype =>
    ⟨ts, "FLOCK", [.u32 inode, .u32 sessionid, .u64 owner, .char ltype], []⟩
  | posixlock inode sessionid owner type start fin pid =>
    ⟨ts, "POSIXLOCK", [.u32 inode, .u32 sessionid, .u64 owner, .char type, .u64 start, .u64 fin,
      .u32 pid], []⟩
  | release sessionid inode => ⟨ts, "RELEASE", [.u32 sessionid, .u32 inode], []⟩
  | acquire sessionid inode => ⟨ts, "ACQUIRE", [.u32 sessionid, .u32 inode], []⟩
  | sesconnected sessionid => ⟨ts, "SESCONNECTED", [.u32 sessionid], []⟩
  | sesdisconnected sessionid => ⟨ts, "SESDISCONNECTED", [.u32 sessionid], []⟩
  | sesadd ses sessionid => ⟨ts, "SESADD", ses.fields, [.u32 sessionid]⟩
  | seschanged sessionid ses => ⟨ts, "SESCHANGED", .u32 sessionid :: ses.fields, []⟩
  | sesdel sessionid => ⟨ts, "SESDEL", [.u32 sessionid], []⟩
  | scecversion version => ⟨ts, "SCECVERSION", [.u8 version], []⟩
  | scset sc => ⟨ts, "SCSET", sc.fields, [.u16 sc.sclassid]⟩
  | scdup oldname newname src dst =>
    ⟨ts, "SCDUP", [.name oldname, .name newname], [.u32 src, .u32 dst]⟩
  | scren oldname newname sclassid =>
    ⟨ts, "SCREN", [.name oldname, .name newname], [.u32 sclassid]⟩
  | scdel name sclassid => ⟨ts, "SCDEL", [.name name], [.u32 sclassid]⟩
  | patadd gname euid egid priority omask scid trashretention eattrSet eattrClr =>
    ⟨ts, "PATADD", [.name gname, .u32 euid, .u32 egid, .u8 priority, .u8 omask, .u8 scid,
      .u16 trashretention, .u8 eattrSet, .u8 eattrClr], []⟩
  | patdel gname euid egid => ⟨ts, "PATDEL", [.name gname, .u32 euid, .u32 egid], []⟩
  | setmetaid metaid => ⟨ts, "SETMETAID", [.u64 metaid], []⟩
  | idle => ⟨ts, "IDLE", [], []⟩

/-- The text given to `changelog`. -/
def text (ts : UInt32) (r : ChangeRecord) : List Char := (r.shape ts).text

end ChangeRecord

/-! ## §4. What is admitted. -/

/-- The dispatcher reads at most `MAXLABELSCNT` expressions of `SCLASS_EXPR_MAX_SIZE` bytes. -/
def StorageMode.Admitted (m : StorageMode) : Prop :=
  m.labelexpr.length ≤ maxLabelsCnt ∧ ∀ e ∈ m.labelexpr, e.length = sclassExprMaxSize

namespace ChangeRecord

/-- The lengths an accepted request can have.  Lengths of names are read from one byte, and
`fsnodes_namecheck` and `sclass_name_check` refuse no shorter ones; `fs_univ_symlink`,
`fs_univ_setpath` and the dispatcher test paths, values of extended attributes, the information
about a session and the number of groups; `fs_univ_trash_recover` cuts the path it returns.  The
list of a SETACL has six bytes for every named user and group.  No length is tested for the data
of ADDATTR and the path of TRASH_RECOVER. -/
def Admitted : ChangeRecord → Prop
  | create _ name _ _ _ _ _ _ _ => name.length ≤ mfsNameMax
  | symlink _ name path _ _ _ => name.length ≤ mfsNameMax ∧ path.length ≤ 4096
  | unlink _ name _ => name.length ≤ mfsNameMax
  | move _ nameSrc _ nameDst _ _ => nameSrc.length ≤ mfsNameMax ∧ nameDst.length ≤ mfsNameMax
  | link _ _ nameDst => nameDst.length ≤ mfsNameMax
  | snapshot _ _ nameDst _ _ _ gid _ _ _ _ _ _ _ =>
    nameDst.length ≤ mfsNameMax ∧ gid.length ≤ mfsGidsMax
  | trashRecover _ _ _ _ _ _ _ usedPath => usedPath.length ≤ mfsPathMax
  | setpath _ path => path.length ≤ mfsPathMax
  | setxattr _ name value _ => name.length ≤ mfsNameMax ∧ value.length ≤ mfsXattrSizeMax
  | setacl _ _ _ _ _ _ _ _ namedusers namedgroups blob =>
    blob.length = 6 * (namedusers.toNat + namedgroups.toNat)
  | sesadd ses _ | seschanged _ ses => ses.info.length ≤ mfsPathMax
  | scset sc =>
    sc.name.length ≤ mfsNameMax ∧ sc.desc.length ≤ mfsNameMax ∧ sc.create.Admitted
      ∧ sc.keep.Admitted ∧ sc.arch.Admitted ∧ sc.trash.Admitted
  | scdup oldname newname _ _ | scren oldname newname _ =>
    oldname.length ≤ mfsNameMax ∧ newname.length ≤ mfsNameMax
  | scdel name _ => name.length ≤ mfsNameMax
  | patadd gname _ _ _ _ _ _ _ _ | patdel gname _ _ => gname.length ≤ mfsNameMax
  | _ => True

/-- **The condition**: the data of the three records without a tested length are short enough.
A byte counts once, and three times when it is escaped; the numbers count with their digits. -/
def Fits (ts : UInt32) : ChangeRecord → Prop
  | setacl inode mode chg acltype userperm groupperm otherperm mask namedusers namedgroups blob =>
    blob.length + 2 * (blob.filter escapes).length
      + (digits ts.toNat + digits inode.toNat + digits mode.toNat + digits chg.toNat
        + digits acltype.toNat + digits userperm.toNat + digits groupperm.toNat
        + digits otherperm.toNat + digits mask.toNat + digits namedusers.toNat
        + digits namedgroups.toNat) + 19 < maxLogLineSize
  | addattr inode flags blob =>
    blob.length + 2 * (blob.filter escapes).length
      + (digits ts.toNat + digits inode.toNat + digits flags.toNat) + 12 < maxLogLineSize
  | trashRecover inode parentDst path cumask uid gid copysgid usedPath =>
    path.length + 2 * (path.filter escapes).length
      + (usedPath.length + 2 * (usedPath.filter escapes).length)
      + (digits ts.toNat + digits inode.toNat + digits parentDst.toNat + digits cumask.toNat
        + digits uid.toNat + digits gid.toNat + digits copysgid.toNat) + 25 < maxLogLineSize
  | _ => True

end ChangeRecord

end MfsMaster.Log
