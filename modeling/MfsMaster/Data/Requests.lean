/-
  MfsMaster.Data.Requests
  **REQUESTS THAT READ, AND THE TIMES THEY TOUCH** (`filesystem.c`, `matoclserv.c`).

  Reading a file, a directory or a link may set its access time; opening a file may empty
  it; `fs_setattr` and `fs_amtime_update` set attributes and times.  Who may do so is asked
  in each function by an expression of its own, over the flags of the session as the client
  registered them: a byte.

      chunkReadCheck      — `chunk_read_check`
      fsReadchunk         — `fs_readchunk`
      fsReaddir           — `fs_readdir_size` and `fs_readdir_data`
      fsReadlink, fsOpencheck, fsGetattr, fsSetattr, fsAmtimeUpdate
      Request, serve      — one request of a session
-/
import MfsMaster.Data.Listing

namespace MfsMaster

/-! ## §1. Sessions and access times. -/

def sesflagReadonly : UInt8 := 0x01
def sesflagIgnoregid : UInt8 := 0x04
def sesflagAdmin : UInt8 := 0x08
def sesflagMapall : UInt8 := 0x10
def sesflagMetarestore : UInt8 := 0x80

/-- The flags that are tested one by one. -/
def SesFlags.ofByte (sesflags : UInt8) : SesFlags :=
  { readonly := hasBit sesflags sesflagReadonly
    ignoregid := hasBit sesflags sesflagIgnoregid
    admin := hasBit sesflags sesflagAdmin
    metarestore := hasBit sesflags sesflagMetarestore }

/-- A session with its flags as they are stored. -/
structure ClientSession where
  rootinode : Nat
  sesflags : UInt8
  deriving Repr, DecidableEq

def ClientSession.session (ses : ClientSession) : Session :=
  { rootinode := ses.rootinode, flags := .ofByte ses.sesflags }

/-- `AtimeMode`. -/
inductive AtimeMode where
  | always
  | filesOnly
  | relativeOnly
  | filesAndRelativeOnly
  | never
  deriving Repr, DecidableEq

/-- An access time that is not after the last change, or that is older than a day (the sum is
taken in 32 bits). -/
def FsNode.relatime (n : FsNode) (t : UInt32) : Bool :=
  (n.atime ≤ n.ctime && n.ctime ≤ t) || (n.atime ≤ n.mtime && n.mtime ≤ t) || n.atime + 86400 < t

/-- Is the access time of a directory or a link to be set? -/
def AtimeMode.due (m : AtimeMode) (n : FsNode) (t : UInt32) : Bool :=
  m == .always || (n.relatime t && m == .relativeOnly)

/-- Is the access time of a file to be set? -/
def AtimeMode.dueFile (m : AtimeMode) (n : FsNode) (t : UInt32) : Bool :=
  m == .always || m == .filesOnly
    || (n.relatime t && (m == .relativeOnly || m == .filesAndRelativeOnly))

namespace System

/-- The access time is set and `ACCESS` logged. -/
def touchAtime (sys : System) (ts : UInt32) (i : Nat) : System :=
  (sys.modFs fun s => ((s.modNode i (.setAtime ts)).fsnodesCheckarchmode i ts archModeAtime).1)
    |>.changelog (.access ts i)

/-! ## §2. Reading a chunk. -/

end System

/-- What the entries of a chunk offer a reader. -/
inductive ReadScan where
  /-- An entry is `BUSY` although no operation is under way. -/
  | busy
  /-- A full copy, or all data parts of an erasure code. -/
  | readable
  /-- Data parts are missing, and the parts that are there suffice to make them. -/
  | recoverable
  | unreadable
  deriving Repr, DecidableEq

/-- The parts `first`, …, `first+n-1` that can be read (the bits of `ecmask4` and `ecmask8`). -/
def readableParts (l : List SEntry) (first n : Nat) : List Nat :=
  (List.range n).filter fun i => l.any fun s => s.valid.readable && s.ecid == first + i

/-- The loop of `chunk_read_check`: it stops at the first busy entry and at the first full
copy. -/
def readScan (l : List SEntry) : ReadScan :=
  match l.find? fun s => s.valid.pending || (s.valid.readable && s.isCopy) with
  | some s => if s.valid.pending then .busy else .readable
  | none =>
    let mask8 := readableParts l 0x20 17
    let mask4 := readableParts l 0x10 13
    if (List.range 8).all mask8.contains || (List.range 4).all mask4.contains then .readable
    else if 8 ≤ mask8.length || 4 ≤ mask4.length then .recoverable
    else .unreadable

namespace System

variable (sys : System)

/-- `chunk_read_check`.  A missing chunk is `NOCHUNK` also while servers are lost, when the source
hands the null pointer to `chunk_remove_disconnected_chunks`, which follows it. -/
def chunkReadCheck (srv : Servers) (chunkid : Nat) (allowRecover : Bool) :
    Status × System :=
  let sys := sys.dropDisconnected srv chunkid
  match sys.fs.chunks chunkid with
  | none => (.nochunk, sys)
  | some c =>
    if srv.now ≤ c.lockedto then (.locked, sys)
    else if c.operation ≠ .none then (.chunkbusy, sys)
    else match readScan c.slist with
      | .busy => (.eagain, sys)
      | .readable | .unreadable => (.ok, sys)
      | .recoverable =>
        if allowRecover then
          let j := chunkDoFastJob srv c
          (if j.1.operation ≠ .none then .chunkbusy else .ok, sys.commit srv chunkid j)
        else (.ok, sys)

/-- `fs_readchunk`.  The access time is set when the flags of the session are
`SESFLAG_READONLY` and nothing else: the source asks `(sesflags!=SESFLAG_READONLY)==0`. -/
def fsReadchunk (srv : Servers) (mode : AtimeMode) (ses : ClientSession)
    (inode indx : Nat) (canmodtime allowRecover : Bool) : Status × System :=
  match sys.fs.dataNode inode indx .eperm with
  | .error st => (st, sys)
  | .ok n =>
    let chunkid := entryAt n indx
    let r := if 0 < chunkid then sys.chunkReadCheck srv chunkid allowRecover else (.ok, sys)
    if r.1 ≠ .ok then r
    else match r.2.fs.nodes inode with
      | none => r
      | some p =>
        if ses.sesflags = sesflagReadonly ∧ p.atime ≠ srv.now ∧ canmodtime
            ∧ mode.dueFile p srv.now then
          (.ok, r.2.touchAtime srv.now inode)
        else r

/-! ## §3. Reading a directory and a link. -/

variable (ts : UInt32)

/-- `fs_readdir_data`, without the listing itself. -/
def fsReaddirData (mode : AtimeMode) (ses : Session) (p : Nat) :
    System :=
  match sys.fs.nodes p with
  | none => sys
  | some n =>
    if !ses.flags.readonly && n.atime != ts && mode.due n ts then sys.touchAtime ts p else sys

end System

/-- `fs_readdir_data`: the lines, the number for the next request and the new state.  (The code
reads `dnode` without asking whether there is one.) -/
def Lister.fsReaddirData (l : Lister) (ts : UInt32) (mode : AtimeMode) (ses : Session)
    (q : ListRequest) (part : ListPart) : List DirLine × UInt64 × Lister :=
  let sys := match part.dnode with
    | none => l.sys
    | some p => l.sys.fsReaddirData ts mode ses p
  let r := readdirLoop l.ids (l.entries part.dnode) q.maxentries q.nedgeid part.dedge
  let tab := match r.2.2 with
    | [] => l.tab
    | e :: _ => l.tab.insert (l.ids.id e) e
  (r.1, r.2.1, { l with sys := sys, tab := tab })

namespace System

variable (sys : System) (ts : UInt32)

/-- The two calls for one request, over the numbers of the edges and the table as they are. -/
def fsReaddir (mode : AtimeMode) (ses : Session) (ids : EdgeIds) (tab : EdgeidTab)
    (q : ListRequest) : Status × System :=
  let l : Lister := { sys := sys, ids := ids, tab := tab }
  match l.fsReaddirSize ses q with
  | .error st => (st, sys)
  | .ok part => (.ok, (l.fsReaddirData ts mode ses q part).2.2.sys)

/-- `fs_readlink`: the path of a link. -/
def fsReadlink (mode : AtimeMode) (ses : Session) (inode : Nat) :
    Except Status Name × System :=
  match sys.fs.fsnodesNodeFindExt ses.rootinode ses.flags inode with
  | none => (.error .enoent, sys)
  | some (i, n) =>
    if n.type ≠ .symlink then (.error .einval, sys)
    else if !ses.flags.readonly && n.atime != ts && mode.due n ts then
      (.ok n.path, sys.touchAtime ts i)
    else (.ok n.path, sys)

/-! ## §4. Opening a file. -/

def openRead : UInt8 := 0x01
def openWrite : UInt8 := 0x02
def openAfterCreate : UInt8 := 0x04
def openTruncate : UInt8 := 0x08

/-- The tests of `fs_opencheck`. -/
def opencheckTests (s : Master) (ses : Session) (c : Cred) (inode : Nat) (flags : UInt8) :
    Except Status (Nat × FsNode) := do
  refuse (ses.flags.readonly && hasBit flags (openWrite ||| openTruncate)) .erofs
  let p ← require (s.fsnodesNodeFindExt ses.rootinode ses.flags inode) .enoent
  refuse (!p.2.type.hasData) .eperm
  refuse (hasBit p.2.eattr eattrImmutable && hasBit flags (openWrite ||| openTruncate)) .eperm
  refuse (hasBit p.2.eattr eattrAppendonly && hasBit flags openTruncate) .eperm
  let modemask := (if hasBit flags openRead then Master.modeMaskR else 0)
    ||| (if hasBit flags openWrite then Master.modeMaskW else 0)
  refuse (!hasBit flags openAfterCreate
    && !s.fsnodesAccessExt p.1 p.2 c modemask ses.flags) .eacces
  refuse (!hasBit flags openAfterCreate && hasBit flags openTruncate
    && !s.fsnodesAccessExt p.1 p.2 c Master.modeMaskW ses.flags) .eacces
  return p

/-- `fs_opencheck`: a file may be emptied on the way. -/
def fsOpencheck (ses : Session) (c : Cred) (inode : Nat)
    (flags : UInt8) : Status × System :=
  match opencheckTests sys.fs ses c inode flags with
  | .error st => (st, sys)
  | .ok (i, _) =>
    if !hasBit flags openAfterCreate && hasBit flags openTruncate then
      let sys := (sys.modFs fun s => (s.fsnodesSetlength i 0).touchData i ts true).changelog
        (.length ts i 0 true)
      -- appendres_clear
      (.ok, { sys with vleng := fun j => if j = i then 0 else sys.vleng j })
    else (.ok, sys)

/-! ## §5. Attributes. -/

/-- `fs_getattr`: the node whose attributes are sent. -/
def fsGetattr (ses : Session) (inode : Nat) (opened : Bool) :
    Except Status (Nat × FsNode) × System :=
  (require (sys.fs.nodeFindOpened ses opened inode) .enoent, sys)

def setWinattrFlag : UInt8 := 0x01
def setModeFlag : UInt8 := 0x02
def setUidFlag : UInt8 := 0x04
def setGidFlag : UInt8 := 0x08
def setMtimeNowFlag : UInt8 := 0x10
def setMtimeFlag : UInt8 := 0x20
def setAtimeFlag : UInt8 := 0x40
def setAtimeNowFlag : UInt8 := 0x80

/-- `SUGID_CLEAR_MODE_*`. -/
inductive SugidClearMode where
  | never
  | always
  | osx
  | bsd
  | ext
  | xfs
  deriving Repr, DecidableEq

/-- A request to set attributes. -/
structure SetattrRequest where
  cred : Cred
  inode : Nat
  opened : Bool
  setmask : UInt8
  attrmode : UInt16
  attruid : Nat
  attrgid : Nat
  attratime : UInt32
  attrmtime : UInt32
  winattr : UInt8
  sugidclearmode : SugidClearMode

/-- The permission tests of `fs_setattr`; clearing suid and sgid during a write needs none. -/
def setattrTests (s : Master) (ses : ClientSession) (q : SetattrRequest) :
    Except Status (Nat × FsNode) := do
  let f := ses.session.flags
  let user := q.cred.uid != 0
  refuse f.readonly .erofs
  let p ← require (s.nodeFindOpened ses.session q.opened q.inode) .enoent
  let n := p.2
  refuse (hasBit n.eattr eattrImmutable) .eperm
  if user && q.setmask == setModeFlag && q.attrmode == n.mode &&& 0o1777
      && n.mode &&& 0o6000 != 0 then
    return p
  else
    let other := user && !hasBit n.eattr eattrNoowner && q.cred.uid != n.uid
    refuse (user && hasBit ses.sesflags sesflagMapall
      && hasBit q.setmask (setUidFlag ||| setGidFlag)) .eperm
    refuse (other && hasBit q.setmask
      (setModeFlag ||| setUidFlag ||| setGidFlag ||| setAtimeFlag ||| setMtimeFlag)) .eperm
    refuse (other && hasBit q.setmask (setAtimeNowFlag ||| setMtimeNowFlag)
      && !s.fsnodesAccessExt p.1 n q.cred Master.modeMaskW f) .eacces
    refuse (user && q.cred.uid != q.attruid && hasBit q.setmask setUidFlag) .eperm
    refuse (!f.ignoregid && user && hasBit q.setmask setGidFlag
      && !q.cred.gids.contains q.attrgid) .eperm
    return p

/-- The bits a change of the owner leaves. -/
def sugidMask (q : SetattrRequest) (n : FsNode) : UInt16 :=
  let user := q.cred.uid ≠ 0
  let both : UInt16 := 0o1777
  let byExec : UInt16 := if n.mode &&& 0o10 != 0 then both else 0o3777
  if n.mode &&& 0o6000 != 0 ∧ hasBit q.setmask (setUidFlag ||| setGidFlag) then
    match q.sugidclearmode with
    | .never => 0xFFFF
    | .always => both
    | .osx => if user then both else 0xFFFF
    | .bsd => if user ∧ hasBit q.setmask setGidFlag ∧ n.gid ≠ q.attrgid then both else 0xFFFF
    | .ext => if n.type ≠ .directory then byExec else 0xFFFF
    | .xfs => if n.type ≠ .directory then byExec else if user then both else 0xFFFF
  else 0xFFFF

/-- `attrmode` once the suid and sgid bits are decided; `gid` is the new group. -/
def setattrMode (q : SetattrRequest) (n : FsNode) (gid : Nat) : UInt16 :=
  let attrmode := if hasBit q.setmask (setUidFlag ||| setGidFlag) ∧ hasBit q.setmask setModeFlag then
      q.attrmode ||| (n.mode &&& 0o6000)
    else q.attrmode
  let attrmode := attrmode &&& sugidMask q n
  if q.cred.uid ≠ 0 ∧ attrmode &&& 0o2000 ≠ 0 ∧ !q.cred.gids.contains gid then attrmode &&& 0o5777
  else attrmode

/-- The node after `fs_setattr`, but for `ctime`.  The field `mode` has 12 bits. -/
def setattrNode (q : SetattrRequest) (n : FsNode) : FsNode :=
  let has := hasBit q.setmask
  let mode := n.mode &&& sugidMask q n
  let gid := if has setGidFlag then q.attrgid else n.gid
  let attrmode := setattrMode q n gid
  { n with
    uid := if has setUidFlag then q.attruid else n.uid
    gid := gid
    mode := if has setModeFlag then
        if n.aclpermflag then (mode &&& 0o70) ||| (attrmode &&& 0o7707) else attrmode &&& 0o7777
      else mode
    atime := if has setAtimeNowFlag then ts else if has setAtimeFlag then q.attratime else n.atime
    mtime := if has setMtimeNowFlag then ts else if has setMtimeFlag then q.attrmtime else n.mtime
    winattr := if has setWinattrFlag then q.winattr else n.winattr }

/-- `fs_setattr`. -/
def fsSetattr (ses : ClientSession) (q : SetattrRequest) :
    Status × System :=
  match setattrTests sys.fs ses q with
  | .error st => (st, sys)
  | .ok (i, n) =>
    let p := setattrNode ts q n
    let acls := if hasBit q.setmask setModeFlag ∧ n.aclpermflag then
        posixAclSetmode sys.fs.acls i (setattrMode q n p.gid)
      else sys.fs.acls
    let aclmode : UInt16 := if n.aclpermflag then (posixAclGetmode acls i &&& 0o7777) + 0x1000 else 0
    (.ok, (sys.modFs fun s => ((({ s with acls := acls } : Master).modNode i fun _ => p.setCtime ts)
      |>.fsnodesCheckarchmode i ts (archModeCtime ||| archModeMtime ||| archModeAtime)).1)
      |>.changelog (.attr ts i p.mode p.uid p.gid p.atime p.mtime p.winattr aclmode))

/-! ## §6. Times reported by a client. -/

/-- One file of `fs_amtime_update` with the times a client has seen. -/
structure AmtimeEntry where
  inode : Nat
  atime : UInt32
  mtime : UInt32
  deriving Repr, DecidableEq

/-- `p->atime` is set. -/
def AmtimeEntry.newAtime (e : AmtimeEntry) (mode : AtimeMode) (n : FsNode) : Bool :=
  n.atime < e.atime && mode.dueFile n e.atime

/-- `p->mtime` and `p->ctime` are set. -/
def AmtimeEntry.newMtime (e : AmtimeEntry) (n : FsNode) : Bool :=
  n.mtime < e.mtime

/-- One round of the loop of `fs_amtime_update`. -/
def amtimeEntry (mode : AtimeMode) (ses : Session) (sys : System) (e : AmtimeEntry) :
    System :=
  match sys.fs.nodeFindOpened ses true e.inode with
  | none => sys
  | some (i, n) =>
    if e.newAtime mode n || e.newMtime n then
      let p := if e.newAtime mode n then n.setAtime e.atime else n
      let p := if e.newMtime n then p.setMtimeCtime e.mtime else p
      (sys.modFs fun s => ((s.modNode i fun _ => p).fsnodesCheckarchmode i ts
        (archModeCtime ||| archModeMtime ||| archModeAtime)).1)
        |>.changelog (.amtime ts i p.atime p.mtime p.ctime)
    else sys

/-- `fs_amtime_update`. -/
def fsAmtimeUpdate (mode : AtimeMode) (ses : Session)
    (l : List AmtimeEntry) : System :=
  l.foldl (amtimeEntry ts mode ses) sys

/-! ## §7. The end of a write. -/

/-- `matoclserv_fuse_write_chunk_end`. -/
def fuseWriteChunkEnd (srv : Servers) (ses : Session) (inode : Nat)
    (length : UInt64) (chunkid : Nat) (canmodtime : Bool) : Status × System :=
  if ses.flags.readonly then (.erofs, sys)
  else sys.fsWriteend srv inode length chunkid canmodtime

/-! ## §8. The requests of a session. -/

/-- A request of a client; `client` is its connection, where the answer may be delayed. -/
inductive Request where
  | readchunk (inode indx : Nat) (canmodtime allowRecover : Bool)
  | readdir (ids : EdgeIds) (tab : EdgeidTab) (q : ListRequest)
  | readlink (inode : Nat)
  | opencheck (c : Cred) (inode : Nat) (flags : UInt8)
  | getattr (inode : Nat) (opened : Bool)
  | setattr (q : SetattrRequest)
  | truncate (client : Nat) (c : Cred) (inode : Nat) (flags : UInt8) (length : UInt64)
      (noTruncate noSetlength : Bool)
  | amtime (l : List AmtimeEntry)
  | writeChunk (client inode indx : Nat) (continueop canmodtime canusereserve : Bool)
  | writeChunkEnd (inode : Nat) (length : UInt64) (chunkid : Nat) (canmodtime : Bool)

/-- A request together with what the master finds when it arrives. -/
structure Arrival where
  srv : Servers
  atimeMode : AtimeMode
  request : Request

/-- The leader after a request of the session. -/
def serve (ses : ClientSession) (sys : System) (a : Arrival) : System :=
  match a.request with
  | .readchunk inode indx canmodtime allowRecover =>
    (sys.fsReadchunk a.srv a.atimeMode ses inode indx canmodtime allowRecover).2
  | .readdir ids tab q => (sys.fsReaddir a.srv.now a.atimeMode ses.session ids tab q).2
  | .readlink inode => (sys.fsReadlink a.srv.now a.atimeMode ses.session inode).2
  | .opencheck c inode flags => (sys.fsOpencheck a.srv.now ses.session c inode flags).2
  | .getattr inode opened => (sys.fsGetattr ses.session inode opened).2
  | .setattr q => (sys.fsSetattr a.srv.now ses q).2
  | .truncate client c inode flags length noTruncate noSetlength =>
    (sys.fuseTruncate a.srv client ⟨ses.session, c, inode, flags, length, noTruncate,
      noSetlength⟩).2
  | .amtime l => sys.fsAmtimeUpdate a.srv.now a.atimeMode ses.session l
  | .writeChunk client inode indx continueop canmodtime canusereserve =>
    (sys.fuseWriteChunk a.srv client ses.session .write inode indx continueop canmodtime
      canusereserve).2
  | .writeChunkEnd inode length chunkid canmodtime =>
    (sys.fuseWriteChunkEnd a.srv ses.session inode length chunkid canmodtime).2

end System

end MfsMaster
