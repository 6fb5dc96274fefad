/-
  MfsMaster.Lock.Flock
  **WHOLE-FILE LOCKS** (`flocklocks.c`).

  Per inode there is a list of active locks, newest first, and a queue of waiting ones.
  The same record of a lock moves between the two, changes its type, or is taken out and
  made anew; `FLOCK_MODE` decides who is let past whom.

  `FLOCK` records are written where a lock enters or leaves the active list, and nowhere
  else.
-/
import MfsMaster.Lock.Posix

namespace MfsMaster

/-! ## §1. Records. -/

/-- `FLOCK_MODE`. -/
inductive FlockMode where
  | correct
  | bsd
  | linux
  deriving Repr, DecidableEq

/-- `LTYPE_*`. -/
inductive LType where
  | reader
  | writer
  deriving Repr, DecidableEq

/-- `instance`: a request that waits for a lock. -/
structure Instance where
  msgid : Nat
  reqid : Nat
  deriving Repr, DecidableEq

/-- `lock`. -/
structure FLock where
  holder : Holder
  connptr : Nat
  ltype : LType
  instances : List Instance
  deriving Repr, DecidableEq

/-- `inodelocks`. -/
structure FInode where
  active : List FLock
  waiting : List FLock
  deriving Repr, DecidableEq

/-- `inodehash`. -/
abbrev FlockTable := Nat → Option FInode

/-- The letter of a `FLOCK` record. -/
inductive FlockLetter where
  | r
  | w
  | u
  deriving Repr, DecidableEq

/-- The letter for a lock that becomes active. -/
def LType.letter : LType → FlockLetter
  | .reader => .r
  | .writer => .w

/-- What a call logs about its inode. -/
abbrev FlockLog := List (Holder × FlockLetter)

/-- The record `FLOCK`. -/
structure FlockRecord where
  inode : Nat
  holder : Holder
  letter : FlockLetter
  deriving Repr, DecidableEq

/-- `FLOCK_*`; `other` is any byte that is none of them. -/
inductive FlockOp where
  | unlock
  | tryShared
  | lockShared
  | tryExclusive
  | lockExclusive
  | interrupt
  | release
  | other
  deriving Repr, DecidableEq

/-- The arguments of `flock_locks_cmd`. -/
structure FlockRequest where
  connptr : Nat
  holder : Holder
  msgid : Nat
  reqid : Nat
  inode : Nat
  op : FlockOp
  deriving Repr, DecidableEq

/-! ## §2. One inode. -/

/-- An inode after a function, with what was logged and who was woken up. -/
structure FStep where
  il : FInode
  log : FlockLog
  wakes : List WakeUp

namespace FLock

variable (l : FLock)

/-- The lock of a request. -/
def ofRequest (q : FlockRequest) : Bool :=
  l.connptr == q.connptr && l.holder == q.holder

/-- `flock_lock_append_req`. -/
def flockLockAppendReq (msgid reqid : Nat) : FLock :=
  let found := l.instances.any fun i => i.reqid == reqid
  { l with instances :=
      if found then l.instances.map fun i => if i.reqid = reqid then { i with msgid := msgid } else i
      else ⟨msgid, reqid⟩ :: l.instances }

/-- `flock_lock_wake_up_all`: the answers. -/
def wakeAll (st : Status) : List WakeUp :=
  l.instances.map fun i => ⟨l.connptr, i.msgid, st⟩

/-- A lock nobody waits for any more. -/
def woken : FLock := { l with instances := [] }

/-- A lock whose requests were cancelled and that waits with another type. -/
def retyped (ltype : LType) : FLock := { l with ltype := ltype, instances := [] }

/-- `flock_lock_wake_up_one`: what is left of the lock. -/
def withoutReq (reqid : Nat) : FLock :=
  { l with instances := l.instances.filter fun i => i.reqid != reqid }

/-- The answers of `flock_lock_wake_up_one`. -/
def wakeOne (reqid : Nat) : List WakeUp :=
  (l.instances.filter fun i => i.reqid == reqid).map fun i => ⟨l.connptr, i.msgid, .eintr⟩

end FLock

namespace FInode

variable (mode : FlockMode) (il : FInode)

/-- `flock_check`: a new lock of the type has to wait. -/
def flockCheck : LType → Bool
  | .reader =>
    (il.active.head?.any fun l => l.ltype == .writer) || (mode == .correct && !il.waiting.isEmpty)
  | .writer => !il.active.isEmpty

/-- `flock_lock_new`. -/
def flockLockNew (ltype : LType) (q : FlockRequest) :
    Status × FStep :=
  let l : FLock := ⟨q.holder, q.connptr, ltype, []⟩
  if il.flockCheck mode ltype then
    (.waiting,
      ⟨{ il with waiting := il.waiting ++ [l.flockLockAppendReq q.msgid q.reqid] }, [], []⟩)
  else (.ok, ⟨{ il with active := l :: il.active }, [(q.holder, ltype.letter)], []⟩)

/-- The loops of `flock_lock_check_waiting`: the readers that are let in, and the rest.  Linux lets
in all of them, the other modes those in front. -/
def letIn (linux : Bool) : List FLock → List FLock × List FLock
  | [] => ([], [])
  | l :: ls =>
    if l.ltype = .reader then (l :: (letIn linux ls).1, (letIn linux ls).2)
    else if linux then ((letIn linux ls).1, l :: (letIn linux ls).2)
    else ([], l :: ls)

/-- `flock_lock_check_waiting`. -/
def flockLockCheckWaiting : FStep :=
  match il.waiting with
  | [] => ⟨il, [], []⟩
  | l :: ls =>
    if il.active.isEmpty && l.ltype == .writer then
      ⟨⟨[l.woken], ls⟩, [(l.holder, .w)], l.wakeAll .ok⟩
    else if il.active.head?.all fun a => a.ltype == .reader then
      let r := letIn (mode == .linux) (l :: ls)
      ⟨⟨(r.1.map FLock.woken).reverse ++ il.active, r.2⟩, r.1.map fun a => (a.holder, .r),
        r.1.flatMap fun a => a.wakeAll .ok⟩
    else ⟨il, [], []⟩

/-- `flock_lock_unlock`. -/
def flockLockUnlock (l : FLock) : FStep :=
  let il' := { il with active := il.active.erase l }
  let r := if il'.active.isEmpty && !il'.waiting.isEmpty then il'.flockLockCheckWaiting mode
    else ⟨il', [], []⟩
  { r with log := (l.holder, .u) :: r.log }

/-- `flock_locks_cmd` for `INTERRUPT`: the loop over the queue. -/
def interrupted (q : FlockRequest) (waiting : List FLock) : List FLock :=
  waiting.filterMap fun l =>
    if l.ofRequest q then
      if (l.withoutReq q.reqid).instances.isEmpty then none else some (l.withoutReq q.reqid)
    else some l

/-- A lock is taken out and asked for again with another type. -/
def relock (l : FLock) (ltype : LType) (q : FlockRequest) :
    Status × FStep :=
  let r := il.flockLockUnlock mode l
  let n := r.il.flockLockNew mode ltype q
  (n.1, ⟨n.2.il, r.log ++ n.2.log, r.wakes ++ n.2.wakes⟩)

/-- `flock_locks_cmd` for a holder that has the active lock `l`. -/
def activeCmd (l : FLock) (q : FlockRequest) : Status × FStep :=
  match q.op with
  | .unlock | .release | .interrupt => (.ok, il.flockLockUnlock mode l)
  | .tryShared =>
    match l.ltype with
    | .reader => (.ok, ⟨il, [], []⟩)
    | .writer =>
      (.ok, flockLockCheckWaiting mode
        { il with active := il.active.replace l { l with ltype := .reader } })
  | .lockShared =>
    match l.ltype with
    | .reader => (.ok, ⟨il, [], []⟩)
    | .writer => il.relock mode l .reader q
  | .tryExclusive =>
    match l.ltype with
    | .writer => (.ok, ⟨il, [], []⟩)
    | .reader =>
      if il.active.length = 1 then
        (.ok, ⟨{ il with active := il.active.replace l { l with ltype := .writer } }, [], []⟩)
      else (.eagain, ⟨il, [], []⟩)
  | .lockExclusive =>
    match l.ltype with
    | .writer => (.ok, ⟨il, [], []⟩)
    | .reader => il.relock mode l .writer q
  | .other => (.einval, ⟨il, [], []⟩)

/-- The waiting lock `l` is asked for with a type. -/
def rewait (l : FLock) (ltype : LType) (q : FlockRequest) : Status × FStep :=
  if l.ltype = ltype then
    (.waiting,
      ⟨{ il with waiting := il.waiting.replace l (l.flockLockAppendReq q.msgid q.reqid) }, [], []⟩)
  else
    (.waiting,
      ⟨{ il with waiting :=
          il.waiting.replace l ((l.retyped ltype).flockLockAppendReq q.msgid q.reqid) }, [],
        l.wakeAll .ecanceled⟩)

/-- `flock_locks_cmd` for a holder whose lock `l` waits. -/
def waitingCmd (l : FLock) (q : FlockRequest) : Status × FStep :=
  match q.op with
  | .release | .interrupt =>
    (.ok, ⟨{ il with waiting := il.waiting.erase l }, [], l.wakeAll .ecanceled⟩)
  | .unlock =>
    match mode with
    | .correct => (.ok, ⟨{ il with waiting := il.waiting.erase l }, [], l.wakeAll .ecanceled⟩)
    | .bsd | .linux => (.ok, ⟨il, [], []⟩)
  | .tryShared | .tryExclusive => (.eagain, ⟨il, [], []⟩)
  | .lockShared => il.rewait l .reader q
  | .lockExclusive => il.rewait l .writer q
  | .other => (.einval, ⟨il, [], []⟩)

/-- `flock_locks_cmd` for a holder without a lock. -/
def newCmd (q : FlockRequest) : Status × FStep :=
  match q.op with
  | .unlock | .release | .interrupt => (.ok, ⟨il, [], []⟩)
  | .tryShared =>
    if il.flockCheck mode .reader then (.eagain, ⟨il, [], []⟩) else il.flockLockNew mode .reader q
  | .tryExclusive =>
    if il.flockCheck mode .writer then (.eagain, ⟨il, [], []⟩) else il.flockLockNew mode .writer q
  | .lockShared => il.flockLockNew mode .reader q
  | .lockExclusive | .other => il.flockLockNew mode .writer q

/-- `flock_locks_cmd` on the record of the inode. -/
def locksCmd (q : FlockRequest) : Status × FStep :=
  if q.op = .interrupt then
    (.ok, ⟨{ il with waiting := interrupted q il.waiting }, [],
      (il.waiting.filter fun l => l.ofRequest q).flatMap fun l => l.wakeOne q.reqid⟩)
  else
    match il.active.find? fun l => l.holder == q.holder with
    | some l => il.activeCmd mode l q
    | none =>
      match il.waiting.find? fun l => l.ofRequest q with
      | some l => il.waitingCmd mode l q
      | none => il.newCmd mode q

/-- The loop of `flock_file_closed` over the active locks `ls`.  Locks are let in only when none is
left, so the loop visits those that were there. -/
def closeActive (mode : FlockMode) (sessionid : Nat) : List FLock → FInode → FStep
  | [], il => ⟨il, [], []⟩
  | l :: ls, il =>
    if l.holder.sessionid = sessionid then
      let r := il.flockLockUnlock mode l
      let n := closeActive mode sessionid ls r.il
      ⟨n.il, r.log ++ n.log, r.wakes ++ n.wakes⟩
    else closeActive mode sessionid ls il

/-- `flock_file_closed` on the record of the inode. -/
def fileClosed (sessionid : Nat) (il : FInode) : FStep :=
  closeActive mode sessionid il.active
    { il with waiting := il.waiting.filter fun l => l.holder.sessionid != sessionid }

/-- `flock_inode_remove` for a record that has become empty. -/
def nonempty (il : FInode) : Option FInode :=
  if il.waiting.isEmpty && il.active.isEmpty then none else some il

end FInode

/-! ## §3. The table. -/

namespace FlockTable

open Function (update)

variable (t : FlockTable)

/-- A table after a call, with what was logged and who was woken up. -/
structure Result where
  table : FlockTable
  log : List FlockRecord
  wakes : List WakeUp

/-- The records of an inode. -/
def records (inode : Nat) (log : FlockLog) : List FlockRecord :=
  log.map fun p => ⟨inode, p.1, p.2⟩

/-- The record of an inode is dropped when an unlocked lock was the last one. -/
def kept (q : FlockRequest) (il : FInode) (il' : FInode) : Option FInode :=
  if (q.op = .unlock ∨ q.op = .release) ∧ (il.active.find? fun l => l.holder == q.holder).isSome
  then il'.nonempty
  else some il'

/-- `flock_locks_cmd`. -/
def flockLocksCmd (mode : FlockMode) (openFiles : OpenFiles) (q : FlockRequest) :
    Status × Result :=
  if q.op ≠ .interrupt ∧ q.op ≠ .release ∧ !openFiles.ofChecknode q.holder.sessionid q.inode then
    (.notopened, ⟨t, [], []⟩)
  else
    match t q.inode with
    | none =>
      if q.op = .unlock ∨ q.op = .interrupt ∨ q.op = .release then (.ok, ⟨t, [], []⟩)
      else
        let r := FInode.locksCmd mode ⟨[], []⟩ q
        (r.1, ⟨update t q.inode (some r.2.il), records q.inode r.2.log, r.2.wakes⟩)
    | some il =>
      let r := il.locksCmd mode q
      (r.1, ⟨update t q.inode (kept q il r.2.il), records q.inode r.2.log, r.2.wakes⟩)

/-- `flock_file_closed`. -/
def flockFileClosed (mode : FlockMode) (sessionid inode : Nat) : Result :=
  match t inode with
  | none => ⟨t, [], []⟩
  | some il =>
    let r := il.fileClosed mode sessionid
    ⟨update t inode r.il.nonempty, records inode r.log, r.wakes⟩

/-- `flock_disconnected`. -/
def flockDisconnected (connptr : Nat) : FlockTable :=
  fun i => (t i).map fun il => { il with waiting := il.waiting.filter fun l => l.connptr != connptr }

/-- A lock from the change log or from the stored metadata is put next to the others, unless it
excludes them. -/
def attach (inode : Nat) (holder : Holder) (ltype : LType) : Option FlockTable :=
  let il := (t inode).getD ⟨[], []⟩
  if il.active.head?.any fun l => l.ltype == .writer || ltype == .writer then none
  else some (update t inode (some { il with active := ⟨holder, 0, ltype, []⟩ :: il.active }))

/-- `flock_mr_change`, for the letters the leader writes. -/
def flockMrChange (r : FlockRecord) : Status × FlockTable :=
  let lock := fun ltype =>
    match t.attach r.inode r.holder ltype with
    | none => (Status.mismatch, t)
    | some t' => (.ok, t')
  match r.letter with
  | .u =>
    match t r.inode with
    | none => (.mismatch, t)
    | some il =>
      (.ok, update t r.inode
        { il with active := il.active.filter fun l => l.holder != r.holder }.nonempty)
  | .r => lock .reader
  | .w => lock .writer

/-- A lock in the stored metadata. -/
structure Stored where
  inode : Nat
  holder : Holder
  ltype : LType
  deriving Repr, DecidableEq

/-- `flock_load`: what it answers (`0` is `true`, `-1` is `false`) and the table it leaves. -/
def flockLoad (openFiles : OpenFiles) (ignoreflag : Bool) :
    List Stored → FlockTable → Bool × FlockTable
  | [], t => (true, t)
  | x :: xs, t =>
    if openFiles.ofChecknode x.holder.sessionid x.inode then
      match t.attach x.inode x.holder x.ltype with
      | some t' => flockLoad openFiles ignoreflag xs t'
      | none => if ignoreflag then flockLoad openFiles ignoreflag xs t else (false, t)
    else if ignoreflag then flockLoad openFiles ignoreflag xs t
    else (false, t)

end FlockTable

end MfsMaster
