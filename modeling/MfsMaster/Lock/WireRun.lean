/-
  MfsMaster.Lock.WireRun
  **WHICH REQUESTS LEAVE LOCKS THAT LOAD BACK** (`matoclserv_fuse_posix_lock`).

  The loader accepts canonical lists, and `posix_lock_apply_range` keeps a list canonical when
  the range is not empty.  Nobody asks for that: an unlock of an empty or inverted range inside
  a lock leaves two ranges that touch or overlap.

      Ok.posixLockCmd         — what one proper request keeps
      Table.ok_run            — what a run of them keeps
      posix_locks_load_back   — so what they leave is loaded as it was
-/
import MfsMaster.Lock.WireStore

namespace MfsMaster.Wire

open Lib.Reader Lib
open Function (update update_self update_of_ne)

/-! ## §1. What requests keep. -/

/-- A request that changes locks asks for a range that is not empty, and is not for inode 0 by
session 0 and owner 0. -/
def Request.Proper (q : Request) : Prop :=
  q.packet.cmd = posixLockCmdGet ∨ q.packet.cmd = posixLockCmdInt
    ∨ (q.packet.start < q.packet.stop
      ∧ ¬ (q.packet.inode = 0 ∧ q.packet.owner = 0 ∧ q.sessionid = 0))

/-- **The locks of an inode after a change.** -/
theorem ok_apply {inode : UInt32} {w : WLock} (hlt : w.start < w.stop)
    (hmarked : ¬ (inode = 0 ∧ w.holder.owner = 0 ∧ w.holder.sessionid = 0)) {active : List ALock}
    (hok : ∀ al ∈ active, ALock.Ok inode al) : ∀ al ∈ w.apply active, ALock.Ok inode al := by
  intro al hal
  rcases mem_applyLock hal with hold | ⟨hholder, hne, hranges⟩
  · exact hok al hold
  -- the ranges the holder had, if any
  obtain ⟨hcan, hfits⟩ : CanonicalFrom posixLockUnlck 0 none (rangesOf w.holder active)
      ∧ ∀ r ∈ rangesOf w.holder active, r.start < 2 ^ 64 ∧ r.stop < 2 ^ 64 :=
    rangesOf_rule (P := fun l => CanonicalFrom posixLockUnlck 0 none l
        ∧ ∀ r ∈ l, r.start < 2 ^ 64 ∧ r.stop < 2 ^ 64) ⟨trivial, List.forall_mem_nil _⟩
      fun al hal => ⟨(hok al hal).canonical, (hok al hal).fits⟩
  refine ⟨hne, ?_, ?_, hholder ▸ hmarked⟩
  · rw [hranges]
    exact hcan.assign (Nat.zero_le _) (UInt64.lt_iff_toNat_lt.mp hlt) fun _ => nofun
  · rw [hranges]
    intro r hr
    have hall := assign_forall (p := fun n => n < 2 ^ 64) (q := fun _ => True) w.stop.toNat_lt
      (fun _ => trivial) w.start.toNat_lt (fun r hr => ⟨(hfits r hr).1, (hfits r hr).2, trivial⟩) r hr
    exact ⟨hall.1, hall.2.1⟩

/-- The pass over the queue. -/
theorem ok_grantLoop {inode : UInt32} {il : InodeLocks} (h : il.Ok inode) :
    InodeLocks.Ok inode ⟨(grantLoop WLock.blocked WLock.apply il.active il.waiting).1,
      (grantLoop WLock.blocked WLock.apply il.active il.waiting).2.1⟩ := by
  have happly : ∀ w ∈ il.waiting, ∀ active : List ALock,
      ((∀ al ∈ active, ALock.Ok inode al) ∧ (active.map RecordLock.holder).Nodup) →
      w.blocked active = false →
      (∀ al ∈ w.apply active, ALock.Ok inode al) ∧ ((w.apply active).map RecordLock.holder).Nodup :=
    fun w hw _ ha _ => ⟨ok_apply (h.waiting w hw).1 (h.waiting w hw).2 ha.1, nodup_applyLock ha.2⟩
  obtain ⟨hactive, hkeys⟩ := grantLoop_kept happly ⟨h.active, h.keys⟩
  exact ⟨hactive, hkeys, fun w hw => h.waiting w ((grantLoop_sublist _ _).subset hw)⟩

namespace Table

variable {t : Table} {q : Request}

theorem Ok.put (h : t.Ok) {inode : UInt32} {il : Option InodeLocks}
    (hil : ∀ x, il = some x → x.Ok inode) : Ok (update t inode il) := by
  intro i x hx
  by_cases hi : i = inode
  · rw [hi, update_self] at hx
    rw [hi]
    exact hil x hx
  · rw [update_of_ne hi] at hx
    exact h i x hx

theorem Ok.grant (h : t.Ok) {il : InodeLocks} (hil : il.Ok q.packet.inode)
    (hlt : q.packet.start < q.packet.stop)
    (hmarked : ¬ (q.packet.inode = 0 ∧ q.packet.owner = 0 ∧ q.sessionid = 0)) :
    (t.grant q il).Ok := by
  refine h.put fun x hx => ?_
  unfold posixLockCheckWaiting at hx
  split at hx
  · cases hx
  · cases hx
    exact ok_grantLoop ⟨ok_apply hlt hmarked hil.active, nodup_applyLock hil.keys, hil.waiting⟩

/-- **One request** keeps the lists canonical. -/
theorem Ok.posixLockCmd (h : t.Ok) (hq : q.Proper) : (t.posixLockCmd q).Ok := by
  unfold Table.posixLockCmd
  dsimp only
  split
  · exact h
  split
  · -- an interrupt takes a request from the queue
    cases hil : t q.packet.inode with
    | none => exact h
    | some il =>
      refine h.put fun x hx => ?_
      cases hx
      have hok := h _ _ hil
      unfold posixLockInterrupt
      split
      · exact hok
      · exact ⟨hok.active, hok.keys, fun w hw => hok.waiting w (List.mem_of_mem_erase hw)⟩
  split
  · exact h
  next hint hget =>
  obtain ⟨hlt, hmarked⟩ := (hq.resolve_left hget).resolve_left hint
  cases hil : t q.packet.inode with
  | none =>
    dsimp only
    split
    · exact h.grant ⟨(fun _ h => nomatch h), List.nodup_nil, (fun _ h => nomatch h)⟩ hlt hmarked
    · exact h
  | some il =>
    have hok := h _ _ hil
    dsimp only
    split
    · split
      · exact h
      refine h.put fun x hx => ?_
      cases hx
      refine ⟨hok.active, hok.keys, fun w hw => ?_⟩
      rcases List.mem_append.mp hw with hw | hw
      · exact hok.waiting w hw
      · rw [List.mem_singleton.mp hw]
        exact ⟨hlt, hmarked⟩
    · exact h.grant hok hlt hmarked

end Table

/-! ## §2. Runs. -/

/-- A packet `CLTOMA_FUSE_POSIX_LOCK` as it arrives. -/
structure Arrival where
  connptr : Nat
  sessionid : UInt32
  opened : Bool
  data : List UInt8
  deriving Repr, DecidableEq

/-- The request of a packet. -/
def Arrival.request (a : Arrival) : Option Request :=
  (decode a.data).map fun p => ⟨a.connptr, a.sessionid, a.opened, p⟩

/-- `matoclserv_fuse_posix_lock`. -/
def Table.step (t : Table) (a : Arrival) : Table :=
  match a.request with
  | none => t
  | some q => t.posixLockCmd q

def Table.empty : Table := fun _ => none

/-- The packet holds no request, or a proper one. -/
def Arrival.Proper (a : Arrival) : Prop := ∀ q, a.request = some q → q.Proper

/-- **A whole run** of proper requests keeps the lists canonical. -/
theorem Table.ok_run {as : List Arrival}
    (has : Lib.StepsMeet Table.step (fun _ a => a.Proper) Table.empty as) :
    (run Table.step Table.empty as).Ok := by
  have hstep : ∀ (t : Table) (a : Arrival), t.Ok → a.Proper → (t.step a).Ok := by
    intro t a ht ha
    unfold Table.step
    cases hq : a.request with
    | none => exact ht
    | some q => exact ht.posixLockCmd (ha q hq)
  exact run_invariant hstep as Table.empty (fun _ _ h => nomatch h) has

/-- **Stored locks load back.**  After every run of proper requests the stream is accepted, in
whatever order the hash table has the inodes, and every inode has the active locks it had. -/
theorem posix_locks_load_back (as : List Arrival)
    (has : Lib.StepsMeet Table.step (fun _ a => a.Proper) Table.empty as)
    (order : List UInt32) (hnodup : order.Nodup)
    (hall : ∀ i, i ∈ order ↔ run Table.step Table.empty as i ≠ none)
    (check : UInt32 → UInt32 → Bool)
    (hcheck : ∀ i, ∀ al ∈ (run Table.step Table.empty as).active i,
      check al.holder.sessionid i = true) :
    ∃ t', posixLockLoad check 0x10 false
        (posixLockStore order (run Table.step Table.empty as)) = some t'
      ∧ ∀ i, t'.active i = (run Table.step Table.empty as).active i :=
  Table.load_store (Table.ok_run has) hnodup hall hcheck

/-! ## §3. One file. -/

def Packet.bytes (p : Packet) : List UInt8 :=
  put32bit p.msgid ++ put32bit p.inode ++ put32bit p.reqid ++ put64bit p.owner ++ put32bit p.pid
    ++ put8bit p.cmd ++ put8bit p.type ++ put64bit p.start ++ put64bit p.stop

/-- Owner 7 of session 1 changes its locks on inode 5. -/
def lockPacket (type : UInt8) (start stop : UInt64) : Packet :=
  { msgid := 0, inode := 5, reqid := 0, owner := 7, pid := 100, cmd := posixLockCmdSet
    type := type, start := start, stop := stop }

def lockArrival (type : UInt8) (start stop : UInt64) : Arrival :=
  { connptr := 1, sessionid := 1, opened := true, data := (lockPacket type start stop).bytes }

/-- A request changes no other inode. -/
theorem Table.posixLockCmd_ne (t : Table) {q : Request} {i : UInt32} (hi : i ≠ q.packet.inode) :
    t.posixLockCmd q i = t i := by
  unfold Table.posixLockCmd
  split
  · rfl
  split
  · cases t q.packet.inode with
    | none => rfl
    | some il => exact update_of_ne hi _ _
  split
  · rfl
  cases t q.packet.inode with
  | none =>
    split
    · exact update_of_ne hi _ _
    · rfl
  | some il =>
    dsimp only
    split
    · split
      · rfl
      · exact update_of_ne hi _ _
    · exact update_of_ne hi _ _

/-- A write lock on `<1,20)`, and `<5,15)` unlocked. -/
def unlockInside : List Arrival :=
  [lockArrival posixLockWrlck 1 20, lockArrival posixLockUnlck 5 15]

/-- The same with the ends of the unlocked range exchanged. -/
def unlockInverted : List Arrival :=
  [lockArrival posixLockWrlck 1 20, lockArrival posixLockUnlck 15 5]

theorem lockArrival_step {t : Table} {type : UInt8} {start stop : UInt64}
    (hdec : decode (lockPacket type start stop).bytes = some (lockPacket type start stop))
    {i : UInt32} (hi : i ≠ 5) : t.step (lockArrival type start stop) i = t i := by
  unfold Table.step Arrival.request lockArrival
  rw [hdec]
  exact t.posixLockCmd_ne hi

theorem posix_locks_load_back_unlocked :
    ∃ t', posixLockLoad (fun _ _ => true) 0x10 false
        (posixLockStore [5] (run Table.step Table.empty unlockInside)) = some t'
      ∧ ∀ i, t'.active i = (run Table.step Table.empty unlockInside).active i := by
  have hfirst : decode (lockPacket posixLockWrlck 1 20).bytes
      = some (lockPacket posixLockWrlck 1 20) := by decide +kernel
  have hsecond : decode (lockPacket posixLockUnlck 5 15).bytes
      = some (lockPacket posixLockUnlck 5 15) := by decide +kernel
  refine posix_locks_load_back unlockInside ⟨fun q hq => ?_, fun q hq => ?_, trivial⟩ [5]
    (List.nodup_singleton _) (fun i => ?_) (fun _ _ => true) fun _ _ _ => rfl
  · unfold Arrival.request lockArrival at hq
    rw [hfirst] at hq
    cases hq
    exact .inr (.inr ⟨by decide, by decide⟩)
  · unfold Arrival.request lockArrival at hq
    rw [hsecond] at hq
    cases hq
    exact .inr (.inr ⟨by decide, by decide⟩)
  · rw [List.mem_singleton]
    by_cases hi : i = 5
    · rw [hi]
      exact ⟨fun _ => by decide +kernel, fun _ => rfl⟩
    have hnone : run Table.step Table.empty unlockInside i = none := by
      unfold unlockInside
      rw [run_cons, run_cons, run_nil, lockArrival_step hsecond hi,
        lockArrival_step hfirst hi]
      rfl
    exact ⟨fun h => absurd h hi, fun h => absurd hnone h⟩

/-- **A range out of order is stored.**  An unlock whose end lies before its start splits the
range around it into two that overlap, and the loader refuses them. -/
theorem posix_locks_not_in_order :
    (∀ i, i ∈ [5] ↔ run Table.step Table.empty unlockInverted i ≠ none)
      ∧ (run Table.step Table.empty unlockInverted).active 5
        = [⟨⟨1, 7⟩, 100, [⟨1, 15, posixLockWrlck⟩, ⟨5, 20, posixLockWrlck⟩]⟩]
      ∧ posixLockLoad (fun _ _ => true) 0x10 false
          (posixLockStore [5] (run Table.step Table.empty unlockInverted)) = none := by
  have hfirst : decode (lockPacket posixLockWrlck 1 20).bytes
      = some (lockPacket posixLockWrlck 1 20) := by decide +kernel
  have hsecond : decode (lockPacket posixLockUnlck 15 5).bytes
      = some (lockPacket posixLockUnlck 15 5) := by decide +kernel
  have hload : (posixLockLoad (fun _ _ => true) 0x10 false
      (posixLockStore [5] (run Table.step Table.empty unlockInverted))).isNone = true := by
    decide +kernel
  refine ⟨fun i => ?_, by decide +kernel, Option.isNone_iff_eq_none.mp hload⟩
  rw [List.mem_singleton]
  by_cases hi : i = 5
  · rw [hi]
    exact ⟨fun _ => by decide +kernel, fun _ => rfl⟩
  have hnone : run Table.step Table.empty unlockInverted i = none := by
    unfold unlockInverted
    rw [run_cons, run_cons, run_nil, lockArrival_step hsecond hi,
      lockArrival_step hfirst hi]
    rfl
  exact ⟨fun h => absurd h hi, fun h => absurd hnone h⟩

end MfsMaster.Wire
