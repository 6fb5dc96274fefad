/-
  MfsMaster.Lock.Posix
  **POSIX RECORD LOCKS** (`posixlocks.c`).

  Per inode there is a list of active locks, one record for each pair of a session and
  an owner, and a queue of requests that wait.  A request is granted at once, by the pass
  over the queue after an unlock, a downgrade or a close, or by the change log on a
  replica.

  An inode without record and an inode with an empty one are told apart
  (`posix_lock_mr_change` answers differently), so the table is a partial function.
-/
import MfsMaster.Inode.Pool
import MfsMaster.Lock.Ranges

namespace MfsMaster

/-! ## §1. Records. -/

/-- A session and a lock owner in it. -/
structure Holder where
  sessionid : Nat
  owner : Nat
  deriving Repr, DecidableEq

/-- `alock`: the ranges of one holder. -/
abbrev ALock := Lib.RecordLock Holder Nat LockType

/-- `wlock`: a request that waits. -/
structure WLock where
  holder : Holder
  connptr : Nat
  pid : Nat
  msgid : Nat
  reqid : Nat
  start : UInt64
  stop : UInt64
  type : LockType
  deriving Repr, DecidableEq

/-- `inodelocks`. -/
structure InodeLocks where
  active : List ALock
  waiting : List WLock
  deriving Repr, DecidableEq

/-- `inodehash`. -/
abbrev PosixLocks := Nat → Option InodeLocks

/-- The record `POSIXLOCK`. -/
structure PosixRecord where
  inode : Nat
  holder : Holder
  type : LockType
  start : UInt64
  stop : UInt64
  pid : Nat
  deriving Repr, DecidableEq

/-- What a call sends to clients: `matoclserv_fuse_posix_lock_wake_up`. -/
structure WakeUp where
  connptr : Nat
  msgid : Nat
  status : Status
  deriving Repr, DecidableEq

/-! ## §2. One inode. -/

/-- `posix_lock_find_offensive_lock`. -/
abbrev posixLockFindOffensiveLock (active : List ALock) (h : Holder) (type : LockType)
    (start stop : UInt64) : Bool :=
  Lib.offensive .wrlck active h type start.toNat stop.toNat

/-- `posix_lock_do_apply_lock`. -/
abbrev posixLockDoApplyLock (h : Holder) (type : LockType) (start stop : UInt64) (pid : Nat)
    (active : List ALock) : List ALock :=
  Lib.applyLock .unlck h type start.toNat stop.toNat pid active

/-- The request a waiting record stands for is applied. -/
def WLock.apply (w : WLock) (active : List ALock) : List ALock :=
  posixLockDoApplyLock w.holder w.type w.start w.stop w.pid active

/-- Something stands in the way of a waiting request. -/
def WLock.blocked (w : WLock) (active : List ALock) : Bool :=
  posixLockFindOffensiveLock active w.holder w.type w.start w.stop

/-- The loop of `posix_lock_check_waiting`: the active locks, the requests that still wait, and those
that were granted. -/
abbrev checkWaitingLoop (active : List ALock) (ws : List WLock) :
    List ALock × List WLock × List WLock :=
  Lib.grantLoop WLock.blocked WLock.apply active ws

/-- An inode after a call: its locks, what was logged and who was woken up. -/
structure Locked where
  locks : Option InodeLocks
  log : List PosixRecord
  wakes : List WakeUp

/-- `posix_lock_check_waiting`, which also removes a record that has become empty. -/
def posixLockCheckWaiting (inode : Nat) (il : InodeLocks) : Locked :=
  if il.active.isEmpty && il.waiting.isEmpty then ⟨none, [], []⟩
  else
    let r := checkWaitingLoop il.active il.waiting
    ⟨some ⟨r.1, r.2.1⟩,
      r.2.2.map fun w => ⟨inode, w.holder, w.type, w.start, w.stop, w.pid⟩,
      r.2.2.map fun w => ⟨w.connptr, w.msgid, .ok⟩⟩

/-- `posix_lock_apply_lock` followed by `posix_lock_check_waiting`. -/
def applyAndCheck (inode : Nat) (il : InodeLocks) (h : Holder) (type : LockType)
    (start stop : UInt64) (pid : Nat) : Locked :=
  let r := posixLockCheckWaiting inode
    { il with active := posixLockDoApplyLock h type start stop pid il.active }
  { r with log := ⟨inode, h, type, start, stop, pid⟩ :: r.log }

/-- The loop of `posix_lock_file_closed` over the active locks.  Unlocking `<0,UINT64_MAX)` leaves
nothing of the ranges, as the source asserts. -/
def dropSession (sessionid : Nat) (active : List ALock) : List ALock :=
  active.filter fun al => al.holder.sessionid != sessionid

/-- `posix_lock_file_closed` on the record of the inode. -/
def fileClosed (inode sessionid : Nat) (il : InodeLocks) : Locked :=
  let waiting := il.waiting.filter fun w => w.holder.sessionid != sessionid
  let active := dropSession sessionid il.active
  if il.active.any fun al => al.holder.sessionid == sessionid then
    posixLockCheckWaiting inode ⟨active, waiting⟩
  else if active.isEmpty && waiting.isEmpty then ⟨none, [], []⟩
  else ⟨some ⟨active, waiting⟩, [], []⟩

/-- `posix_lock_interrupt`: the first request of the connection with the number. -/
def posixLockInterrupt (il : InodeLocks) (connptr reqid : Nat) : Locked :=
  match il.waiting.find? fun w => w.connptr == connptr && w.reqid == reqid with
  | none => ⟨some il, [], []⟩
  | some w => ⟨some { il with waiting := il.waiting.erase w }, [], [⟨connptr, w.msgid, .eintr⟩]⟩

/-! ## §3. The table. -/

/-- `POSIX_LOCK_CMD_*`. -/
inductive PosixCmd where
  | get
  | set
  | try
  | int
  deriving Repr, DecidableEq

/-- The arguments of `posix_lock_cmd`. -/
structure PosixRequest where
  connptr : Nat
  holder : Holder
  msgid : Nat
  reqid : Nat
  inode : Nat
  op : PosixCmd
  type : LockType
  start : UInt64
  stop : UInt64
  pid : Nat
  deriving Repr, DecidableEq

/-- What a request returns: the status and, for `GET`, the lock in the way. -/
structure PosixReply where
  status : Status
  type : LockType
  start : Nat
  stop : Nat
  pid : Nat
  deriving Repr, DecidableEq

/-- The answer `GET` gives for an inode: `posix_lock_get_offensive_lock`. -/
def posixLockGetOffensiveLock (active : List ALock) (q : PosixRequest) : Option PosixReply :=
  active.findSome? fun al =>
    if al.holder = q.holder then none
    else (posixLockTestWlock al.ranges q.type q.start.toNat q.stop.toNat).map fun r =>
      ⟨.ok, r.label, r.start, r.stop,
        if al.holder.sessionid = q.holder.sessionid then al.pid else 0⟩

namespace PosixLocks

open Function (update)

variable (t : PosixLocks)

/-- A table after a call, with what was logged and who was woken up. -/
structure Result where
  table : PosixLocks
  log : List PosixRecord
  wakes : List WakeUp

/-- The outcome for one inode, in the table. -/
def store (inode : Nat) (r : Locked) : Result :=
  ⟨update t inode r.locks, r.log, r.wakes⟩

variable (q : PosixRequest)

/-- The waiting record of a request. -/
def waitFor : WLock :=
  { holder := q.holder, connptr := q.connptr, pid := q.pid, msgid := q.msgid, reqid := q.reqid
    start := q.start, stop := q.stop, type := q.type }

/-- A request that only returns its own arguments. -/
def plainReply (st : Status) : PosixReply :=
  ⟨st, q.type, q.start.toNat, q.stop.toNat, q.pid⟩

/-- `posix_lock_cmd` for `SET` and `TRY`, once the file is known to be open. -/
def setLock : Status × Result :=
  let grant := fun il =>
    (Status.ok, t.store q.inode
      (applyAndCheck q.inode il q.holder q.type q.start q.stop q.pid))
  match t q.inode with
  | none => if q.type = .unlck then (.ok, ⟨t, [], []⟩) else grant ⟨[], []⟩
  | some il =>
    if q.type ≠ .unlck ∧ (waitFor q).blocked il.active then
      if q.op = .try then (.eagain, ⟨t, [], []⟩)
      else
        (.waiting, ⟨update t q.inode (some { il with waiting := il.waiting ++ [waitFor q] }), [], []⟩)
    else grant il

/-- `posix_lock_cmd` for `INT`. -/
def interruptLock : Result :=
  match t q.inode with
  | none => ⟨t, [], []⟩
  | some il => t.store q.inode (posixLockInterrupt il q.connptr q.reqid)

/-- `posix_lock_cmd` for `GET`. -/
def getLock : PosixReply :=
  let found : Option PosixReply :=
    if q.type = .unlck then none
    else (t q.inode).bind fun il => posixLockGetOffensiveLock il.active q
  found.getD ⟨.ok, .unlck, 0, 0, 0⟩

/-- `posix_lock_cmd`. -/
def posixLockCmd (openFiles : OpenFiles) (q : PosixRequest) :
    PosixReply × Result :=
  match q.op with
  | .int => (plainReply q .ok, t.interruptLock q)
  | .get => (t.getLock q, ⟨t, [], []⟩)
  | .set | .try =>
    if q.type ≠ .unlck ∧ !openFiles.ofChecknode q.holder.sessionid q.inode then
      (plainReply q .notopened, ⟨t, [], []⟩)
    else
      let r := t.setLock q
      (plainReply q r.1, r.2)

/-- `posix_lock_file_closed`. -/
def posixLockFileClosed (sessionid inode : Nat) : Result :=
  match t inode with
  | none => ⟨t, [], []⟩
  | some il => t.store inode (fileClosed inode sessionid il)

/-- `posix_lock_disconnected`. -/
def posixLockDisconnected (connptr : Nat) : PosixLocks :=
  fun i => (t i).map fun il => { il with waiting := il.waiting.filter fun w => w.connptr != connptr }

/-- `posix_lock_mr_change`, for the letters the leader writes. -/
def posixLockMrChange (r : PosixRecord) : Status × PosixLocks :=
  let change := fun (il : InodeLocks) =>
    if r.type ≠ .unlck ∧ posixLockFindOffensiveLock il.active r.holder r.type r.start r.stop then
      (Status.mismatch, t)
    else
      let active := posixLockDoApplyLock r.holder r.type r.start r.stop r.pid il.active
      (.ok, update t r.inode
        (if active.isEmpty && il.waiting.isEmpty then none else some { il with active := active }))
  match t r.inode with
  | none => if r.type = .unlck then (.mismatch, t) else change ⟨[], []⟩
  | some il => change il

end PosixLocks

end MfsMaster
