/-
  MfsMaster.Lock.Wire
  **POSIX LOCKS AS REQUESTS BRING THEM** (`matoclserv.c`, `posixlocks.c`).

  `matoclserv_fuse_posix_lock` hands the command and the type of a lock to `posix_lock_cmd` as
  the bytes of the packet.  A byte that is no command counts as `SET` for a file that need not
  be open; a byte that is no type is a lock of its own kind, which write locks exclude.  The
  start and the end of the range are not compared.

  This is the table with these bytes; `Lock.Posix` is the same code for requests with a known
  command and a known type.  What happens to the locks of one inode is that of `Lib.RecordLocks`
  in both.
-/
import MfsMaster.Lib.Pack
import MfsMaster.Lib.RecordLocks

namespace MfsMaster.Wire

open Lib (Reader)
open Lib.Reader
open Function (update)

/-! ## §1. Packets. -/

def posixLockCmdGet : UInt8 := 0
def posixLockCmdSet : UInt8 := 1
def posixLockCmdTry : UInt8 := 2
def posixLockCmdInt : UInt8 := 3

def posixLockUnlck : UInt8 := 0
def posixLockWrlck : UInt8 := 2

/-- The fields of `CLTOMA_FUSE_POSIX_LOCK`. -/
structure Packet where
  msgid : UInt32
  inode : UInt32
  reqid : UInt32
  owner : UInt64
  pid : UInt32
  cmd : UInt8
  type : UInt8
  start : UInt64
  stop : UInt64
  deriving Repr, DecidableEq

def getPacket : Reader Packet := do
  let msgid ← get32bit
  let inode ← get32bit
  let reqid ← get32bit
  let owner ← get64bit
  let pid ← get32bit
  let cmd ← get8bit
  let type ← get8bit
  let start ← get64bit
  let stop ← get64bit
  pure { msgid, inode, reqid, owner, pid, cmd, type, start, stop }

/-- The beginning of `matoclserv_fuse_posix_lock`; `none` ends the connection. -/
def decode (data : List UInt8) : Option Packet :=
  if data.length ≠ 42 then none else (getPacket data).map Prod.fst

/-! ## §2. The table. -/

/-- A session and a lock owner in it. -/
structure Holder where
  sessionid : UInt32
  owner : UInt64
  deriving Repr, DecidableEq

/-- `range`: its bytes and its type. -/
abbrev Range := Lib.Span UInt8

/-- `alock`. -/
abbrev ALock := Lib.RecordLock Holder UInt32 UInt8

/-- `wlock`. -/
structure WLock where
  holder : Holder
  connptr : Nat
  pid : UInt32
  msgid : UInt32
  reqid : UInt32
  start : UInt64
  stop : UInt64
  type : UInt8
  deriving Repr, DecidableEq

/-- `inodelocks`. -/
structure InodeLocks where
  active : List ALock
  waiting : List WLock
  deriving Repr, DecidableEq

/-- `inodehash`. -/
abbrev Table := UInt32 → Option InodeLocks

/-- `posix_lock_do_apply_lock`. -/
def WLock.apply (w : WLock) (active : List ALock) : List ALock :=
  Lib.applyLock posixLockUnlck w.holder w.type w.start.toNat w.stop.toNat w.pid active

/-- `posix_lock_find_offensive_lock`. -/
def WLock.blocked (w : WLock) (active : List ALock) : Bool :=
  Lib.offensive posixLockWrlck active w.holder w.type w.start.toNat w.stop.toNat

/-- `posix_lock_check_waiting`. -/
def posixLockCheckWaiting (il : InodeLocks) : Option InodeLocks :=
  if il.active.isEmpty && il.waiting.isEmpty then none
  else
    let r := Lib.grantLoop WLock.blocked WLock.apply il.active il.waiting
    some ⟨r.1, r.2.1⟩

/-- `posix_lock_interrupt`. -/
def posixLockInterrupt (il : InodeLocks) (connptr : Nat) (reqid : UInt32) : InodeLocks :=
  match il.waiting.find? fun w => w.connptr == connptr && w.reqid == reqid with
  | none => il
  | some w => { il with waiting := il.waiting.erase w }

/-- A request: the packet, its connection and session, and the answer of `of_checknode`. -/
structure Request where
  connptr : Nat
  sessionid : UInt32
  opened : Bool
  packet : Packet
  deriving Repr, DecidableEq

/-- The waiting record of a request. -/
def Request.wait (q : Request) : WLock :=
  { holder := ⟨q.sessionid, q.packet.owner⟩, connptr := q.connptr, pid := q.packet.pid
    msgid := q.packet.msgid, reqid := q.packet.reqid, start := q.packet.start
    stop := q.packet.stop, type := q.packet.type }

namespace Table

/-- `posix_lock_apply_lock` and `posix_lock_check_waiting`. -/
def grant (t : Table) (q : Request) (il : InodeLocks) : Table :=
  update t q.packet.inode
    (posixLockCheckWaiting { il with active := q.wait.apply il.active })

/-- What `posix_lock_cmd` does to the table; `GET` only answers. -/
def posixLockCmd (t : Table) (q : Request) : Table :=
  let op := q.packet.cmd
  let lock := q.packet.type ≠ posixLockUnlck
  if (op = posixLockCmdSet ∨ op = posixLockCmdTry) ∧ lock ∧ !q.opened then t
  else if op = posixLockCmdInt then
    match t q.packet.inode with
    | none => t
    | some il => update t q.packet.inode (some (posixLockInterrupt il q.connptr q.packet.reqid))
  else if op = posixLockCmdGet then t
  else match t q.packet.inode with
    | none => if lock then t.grant q ⟨[], []⟩ else t
    | some il =>
      if lock ∧ q.wait.blocked il.active then
        if op = posixLockCmdTry then t
        else update t q.packet.inode (some { il with waiting := il.waiting ++ [q.wait] })
      else t.grant q il

end Table

end MfsMaster.Wire
