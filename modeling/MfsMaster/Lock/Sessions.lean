/-
  MfsMaster.Lock.Sessions
  **OPEN FILES, SESSIONS AND POSIX LOCKS TOGETHER** (`openfiles.c`, `sessions.c`).

  Closing a file drops the locks the session has on it and makes a pass over the queue of
  the file at once, before anything is logged about the close itself.  What one event does
  is a list of acts, each of them a change and the records that go with it in the order
  they are written.
-/
import MfsMaster.Lock.Posix
import MfsMaster.Lib.Replay

namespace MfsMaster

/-- `session`, as far as its removal depends on it. -/
structure Ses where
  sessionid : Nat
  nsocks : Nat
  closed : Bool
  disconnected : UInt32
  deriving Repr, DecidableEq

/-- Open files, sessions in the order of their hash table, and locks. -/
structure LockSystem where
  openFiles : OpenFiles
  sessions : List Ses
  locks : PosixLocks

/-- The records of these functions. -/
inductive LockRecord where
  | acquire (sessionid inode : Nat)
  | release (sessionid inode : Nat)
  | sesdel (sessionid : Nat)
  | posixlock (r : PosixRecord)
  deriving Repr, DecidableEq

namespace LockSystem

/-! ## §1. Functions of both sides. -/

variable (s : LockSystem)

/-- `of_delnode`. -/
def ofDelnode (sessionid inode : Nat) : LockSystem × List PosixRecord :=
  let r := s.locks.posixLockFileClosed sessionid inode
  ({ s with locks := r.table, openFiles := s.openFiles.erase (sessionid, inode) }, r.log)

/-- The files a session has open, in the order of its chain. -/
def inodesOf (sessionid : Nat) : List Nat :=
  (s.openFiles.filter fun r => r.1 == sessionid).map Prod.snd

/-- `of_session_removed`. -/
def ofSessionRemoved (sessionid : Nat) : LockSystem × List PosixRecord :=
  Lib.logRun (fun s inode => s.ofDelnode sessionid inode) s (s.inodesOf sessionid)

/-- `sessions_clean_session`. -/
def sessionsCleanSession (sessionid : Nat) : LockSystem × List PosixRecord :=
  if 0 < sessionid ∧ sessionid < 0x80000000 then s.ofSessionRemoved sessionid else (s, [])

/-! ## §2. The leader. -/

/-- A change with its records. -/
inductive LockAct where
  | opened (sessionid inode : Nat)
  | closed (sessionid inode : Nat)
  | removed (sessionid : Nat)
  | cmd (q : PosixRequest)
  | disconnected (connptr : Nat)
  | connection (ses : Ses)

/-- What an act does and logs. -/
def act : LockAct → LockSystem × List LockRecord
  | .opened sessionid inode =>
    ({ s with openFiles := s.openFiles.ofNewnode sessionid inode }, [.acquire sessionid inode])
  | .closed sessionid inode =>
    let r := s.ofDelnode sessionid inode
    (r.1, r.2.map .posixlock ++ [.release sessionid inode])
  | .removed sessionid =>
    let r := s.sessionsCleanSession sessionid
    ({ r.1 with sessions := r.1.sessions.eraseP fun ses => ses.sessionid == sessionid },
      r.2.map .posixlock ++ [.sesdel sessionid])
  | .cmd q =>
    let r := (s.locks.posixLockCmd s.openFiles q).2
    ({ s with locks := r.table }, r.log.map .posixlock)
  | .disconnected connptr => ({ s with locks := s.locks.posixLockDisconnected connptr }, [])
  | .connection ses =>
    ({ s with sessions := s.sessions.map fun x => if x.sessionid = ses.sessionid then ses else x },
      [])

/-- What happens on the leader. -/
inductive LockEvent where
  /-- A client opens a file. -/
  | openfile (sessionid inode : Nat)
  /-- A client sends the list of all inodes it holds open. -/
  | sync (sessionid : Nat) (inodes : List Nat)
  /-- `sessions_check` at a time, with the time the master started and `SessionSustainTime`. -/
  | check (start sustain now : UInt32)
  /-- `sessions_force_remove`. -/
  | forceRemove (sessionid : Nat)
  /-- A request for a lock. -/
  | lock (q : PosixRequest)
  /-- A connection ends. -/
  | disconnected (connptr : Nat)
  /-- The connections of a session change. -/
  | connection (ses : Ses)

/-- A session `sessions_check` removes. -/
def expired (sustain now : UInt32) (ses : Ses) : Bool :=
  ses.nsocks == 0 && (ses.closed || ses.disconnected + sustain < now)

/-- The acts of an event, in order. -/
def acts : LockEvent → List LockAct
  | .openfile sessionid inode =>
    if s.openFiles.ofChecknode sessionid inode then [] else [.opened sessionid inode]
  | .sync sessionid inodes =>
    (s.openFiles.syncClosed sessionid inodes).map (.closed sessionid)
      ++ (s.openFiles.syncOpened sessionid inodes).map (.opened sessionid)
  | .check start sustain now =>
    if now < start + 120 then []
    else (s.sessions.filter (expired sustain now)).map fun ses => .removed ses.sessionid
  | .forceRemove sessionid =>
    match s.sessions.find? fun ses => ses.sessionid == sessionid with
    | some ses => if ses.nsocks = 0 then [.removed sessionid] else []
    | none => []
  | .lock q => [.cmd q]
  | .disconnected connptr => [.disconnected connptr]
  | .connection ses => [.connection ses]

/-- One event on the leader, with what it logs. -/
def leaderStep (e : LockEvent) : LockSystem × List LockRecord :=
  Lib.logRun act s (s.acts e)

/-! ## §3. The replica. -/

/-- `sessions_mr_sesdel`. -/
def sessionsMrSesdel (sessionid : Nat) : Status × LockSystem :=
  if s.sessions.any fun ses => ses.sessionid == sessionid then
    let r := (s.sessionsCleanSession sessionid).1
    (.ok, { r with sessions := r.sessions.filter fun ses => ses.sessionid != sessionid })
  else (.badsessionid, s)

/-- One record on the replica; `none` is every answer other than `MFS_STATUS_OK`. -/
def applyRecord : LockRecord → Option LockSystem
  | .acquire sessionid inode =>
    let r := s.openFiles.ofMrAcquire sessionid inode
    Status.toOption (r.1, { s with openFiles := r.2 })
  | .release sessionid inode =>
    -- of_mr_release
    if s.openFiles.ofChecknode sessionid inode then some (s.ofDelnode sessionid inode).1 else none
  | .sesdel sessionid => Status.toOption (s.sessionsMrSesdel sessionid)
  | .posixlock r =>
    let r := s.locks.posixLockMrChange r
    Status.toOption (r.1, { s with locks := r.2 })

end LockSystem

end MfsMaster
