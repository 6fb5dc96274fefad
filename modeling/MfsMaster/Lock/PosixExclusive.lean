/-
  MfsMaster.Lock.PosixExclusive
  **POSIX LOCKS EXCLUDE EACH OTHER** on a leader and on a replica.

  A grant is made on three paths: at once, by the pass over the queue, and by a record
  of the change log.  What one call can do to one inode is said once
  (`PosixLocks.step_cases`); the invariant is then checked per kind of change.

  Nothing is assumed of the ranges: one that is empty or turned round covers no byte, and
  what the surgery makes of it covers none either.
-/
import MfsMaster.Lock.PosixHeld
import MfsMaster.Lib.Replay

namespace MfsMaster

/-! ## §1. Calls. -/

/-- A call the leader makes. -/
inductive PosixCall where
  | cmd (openFiles : OpenFiles) (q : PosixRequest)
  | fileClosed (sessionid inode : Nat)
  | disconnected (connptr : Nat)

/-- A call, or a record of the change log. -/
inductive PosixStep where
  | call (c : PosixCall)
  | mrChange (r : PosixRecord)

variable {e : PosixStep} {il : InodeLocks} {inode b : Nat} {t : PosixLocks}
  {active l : List ALock} {g : Holder} {il' : InodeLocks}

namespace PosixLocks

open Function (update update_apply)

/-- No locks. -/
def empty : PosixLocks := fun _ => none

/-- The table after a call. -/
def call (t : PosixLocks) : PosixCall → PosixLocks
  | .cmd openFiles q => (t.posixLockCmd openFiles q).2.table
  | .fileClosed sessionid inode => (t.posixLockFileClosed sessionid inode).table
  | .disconnected connptr => t.posixLockDisconnected connptr

/-- The table after a call or a record. -/
def step (t : PosixLocks) : PosixStep → PosixLocks
  | .call c => t.call c
  | .mrChange r => (t.posixLockMrChange r).2

/-- The locks of an inode, none when there is no record. -/
def before (t : PosixLocks) (inode : Nat) : InodeLocks := (t inode).getD ⟨[], []⟩

/-- What a step does to an inode it changes. -/
inductive Change (il : InodeLocks) : PosixStep → Nat → Option InodeLocks → Prop where
  | grant (openFiles : OpenFiles) (q : PosixRequest) (hop : q.op = .set ∨ q.op = .try)
      (hfree : q.type = .unlck ∨ (waitFor q).blocked il.active = false) :
      Change il (.call (.cmd openFiles q)) q.inode
        (applyAndCheck q.inode il q.holder q.type q.start q.stop q.pid).locks
  | wait (openFiles : OpenFiles) (q : PosixRequest) (htype : q.type ≠ .unlck)
      (hblocked : (waitFor q).blocked il.active = true) :
      Change il (.call (.cmd openFiles q)) q.inode
        (some { il with waiting := il.waiting ++ [waitFor q] })
  | interrupt (openFiles : OpenFiles) (q : PosixRequest) :
      Change il (.call (.cmd openFiles q)) q.inode
        (posixLockInterrupt il q.connptr q.reqid).locks
  | close (sessionid inode : Nat) :
      Change il (.call (.fileClosed sessionid inode)) inode
        (fileClosed inode sessionid il).locks
  | disconnect (connptr inode : Nat) :
      Change il (.call (.disconnected connptr)) inode
        (some { il with waiting := il.waiting.filter fun w => w.connptr != connptr })
  | change (r : PosixRecord)
      (hfree : r.type = .unlck ∨
        posixLockFindOffensiveLock il.active r.holder r.type r.start r.stop = false) :
      Change il (.mrChange r) r.inode
        (let active := posixLockDoApplyLock r.holder r.type r.start r.stop r.pid il.active
        if active.isEmpty && il.waiting.isEmpty then none else some { il with active := active })

theorem before_of_none (h : t inode = none) : t.before inode = ⟨[], []⟩ := by rw [before, h]; rfl

theorem before_of_some (h : t inode = some il) : t.before inode = il := by rw [before, h]; rfl

/-- A change of one inode in the table. -/
theorem update_cases {out : Option InodeLocks} (hbefore : t.before inode = il)
    (hch : Change il e inode out) {i : Nat} :
    update t inode out i = t i ∨ Change (t.before i) e i (update t inode out i) := by
  subst hbefore
  rw [update_apply]
  split
  next heq =>
    subst heq
    exact .inr hch
  · exact .inl rfl

/-- A request leaves the table, interrupts a waiter or sets a lock. -/
theorem posixLockCmd_cases (t : PosixLocks) (openFiles : OpenFiles) (q : PosixRequest) :
    (t.posixLockCmd openFiles q).2 = ⟨t, [], []⟩
      ∨ (t.posixLockCmd openFiles q).2 = t.interruptLock q
      ∨ ((q.op = .set ∨ q.op = .try) ∧ (t.posixLockCmd openFiles q).2 = (t.setLock q).2) := by
  unfold posixLockCmd
  cases q.op with
  | int => exact .inr (.inl rfl)
  | get => exact .inl rfl
  | set =>
    dsimp only
    split
    · exact .inl rfl
    · exact .inr (.inr ⟨.inl rfl, rfl⟩)
  | «try» =>
    dsimp only
    split
    · exact .inl rfl
    · exact .inr (.inr ⟨.inr rfl, rfl⟩)

theorem setLock_cases (t : PosixLocks) (openFiles : OpenFiles) (q : PosixRequest)
    (hop : q.op = .set ∨ q.op = .try) (i : Nat) :
    (t.setLock q).2.table i = t i
      ∨ Change (t.before i) (.call (.cmd openFiles q)) i ((t.setLock q).2.table i) := by
  unfold setLock
  cases hil : t q.inode with
  | none =>
    dsimp only
    split
    · exact .inl rfl
    · exact update_cases (before_of_none hil) (.grant openFiles q hop (.inr rfl))
  | some il =>
    dsimp only
    split
    next hblocked =>
      split
      · exact .inl rfl
      · exact update_cases (before_of_some hil) (.wait openFiles q hblocked.1 hblocked.2)
    next hfree =>
      refine update_cases (before_of_some hil) (.grant openFiles q hop ?_)
      by_cases htype : q.type = .unlck
      · exact .inl htype
      · exact .inr (Bool.not_eq_true _ ▸ fun h => hfree ⟨htype, h⟩)

/-- **What a step can do to an inode.** -/
theorem step_cases (t : PosixLocks) (e : PosixStep) (i : Nat) :
    t.step e i = t i ∨ Change (t.before i) e i (t.step e i) := by
  cases e with
  | call c =>
    cases c with
    | cmd openFiles q =>
      show (t.posixLockCmd openFiles q).2.table i = t i ∨ Change _ _ _
        ((t.posixLockCmd openFiles q).2.table i)
      rcases t.posixLockCmd_cases openFiles q with hsame | hint | ⟨hop, hset⟩
      · exact .inl (by rw [hsame])
      · rw [hint]
        unfold interruptLock
        cases hil : t q.inode with
        | none => exact .inl rfl
        | some il =>
          exact update_cases (before_of_some hil) (.interrupt openFiles q)
      · rw [hset]
        exact t.setLock_cases openFiles q hop i
    | fileClosed sessionid inode =>
      show (t.posixLockFileClosed sessionid inode).table i = t i ∨ Change _ _ _
        ((t.posixLockFileClosed sessionid inode).table i)
      unfold posixLockFileClosed
      cases hil : t inode with
      | none => exact .inl rfl
      | some il =>
        exact update_cases (before_of_some hil) (.close sessionid inode)
    | disconnected connptr =>
      show (t i).map _ = t i ∨ Change _ _ _ ((t i).map _)
      cases hil : t i with
      | none => exact .inl rfl
      | some il =>
        exact .inr (before_of_some hil ▸ .disconnect connptr i)
  | mrChange r =>
    show (t.posixLockMrChange r).2 i = t i ∨ Change _ _ _ ((t.posixLockMrChange r).2 i)
    have hchange : ∀ il : InodeLocks,
        ¬ (r.type ≠ .unlck ∧
          posixLockFindOffensiveLock il.active r.holder r.type r.start r.stop = true) →
        Change il (.mrChange r) r.inode
          (let active := posixLockDoApplyLock r.holder r.type r.start r.stop r.pid il.active
          if active.isEmpty && il.waiting.isEmpty then none
          else some { il with active := active }) := by
      intro il hfree
      refine .change r ?_
      by_cases htype : r.type = .unlck
      · exact .inl htype
      · exact .inr (Bool.not_eq_true _ ▸ fun h => hfree ⟨htype, h⟩)
    unfold posixLockMrChange
    cases hil : t r.inode with
    | none =>
      dsimp only
      split
      · exact .inl rfl
      split
      · exact .inl rfl
      next hfree => exact update_cases (before_of_none hil) (hchange _ hfree)
    | some il =>
      dsimp only
      split
      · exact .inl rfl
      next hfree => exact update_cases (before_of_some hil) (hchange _ hfree)

/-- A property of the records of all inodes. -/
def Each (P : InodeLocks → Prop) (t : PosixLocks) : Prop := ∀ inode il, t inode = some il → P il

/-- What every change keeps, a step keeps. -/
theorem Each.step {P : InodeLocks → Prop} (ht : t.Each P) (hempty : P ⟨[], []⟩)
    (hchange : ∀ il inode il', P il → t.before inode = il → Change il e inode (some il') → P il') :
    (t.step e).Each P := by
  intro inode il' hil'
  rcases step_cases t e inode with hsame | hch
  · exact ht inode il' (hsame ▸ hil')
  rw [hil'] at hch
  refine hchange _ inode il' ?_ rfl hch
  unfold before
  cases hil : t inode with
  | none => exact hempty
  | some il => exact ht inode il hil

end PosixLocks

/-! ## §2. Exclusion on one inode. -/

/-- A record of the holder covers the byte with the type. -/
def Claims (active : List ALock) (h : Holder) (b : Nat) (type : LockType) : Prop :=
  ∃ al ∈ active, al.holder = h ∧ Lib.Covers al.ranges b type

/-- The active locks of an inode exclude each other. -/
structure ActiveExclusive (active : List ALock) : Prop where
  nodup : (active.map Lib.RecordLock.holder).Nodup
  locked : ∀ al ∈ active, ∀ r ∈ al.ranges, r.label ≠ .unlck
  exclusive : Lib.Exclusive LockType.excludes (Claims active)

theorem ActiveExclusive.nil : ActiveExclusive [] where
  nodup := List.nodup_nil
  locked := nofun
  exclusive := by
    rintro _ _ _ _ _ _ ⟨_, hmem, _⟩
    cases hmem

theorem ActiveExclusive.filter (h : ActiveExclusive active)
    {p : ALock → Bool} : ActiveExclusive (active.filter p) := by
  refine ⟨h.nodup.sublist (List.filter_sublist.map _),
    fun al hal => h.locked al (List.mem_filter.mp hal).1, h.exclusive.mono fun g b m hc => ?_⟩
  obtain ⟨al, hal, hc⟩ := hc
  exact ⟨al, (List.mem_filter.mp hal).1, hc⟩

section
variable {h : Holder} {type : LockType} {start stop : UInt64} {pid : Nat} {t : LockType}

/-- A grant adds no more than the bytes of the request. -/
theorem claims_doApplyLock (hc : Claims (posixLockDoApplyLock h type start stop pid l) g b t) :
    Claims l g b t ∨ (g = h ∧ InBytes start stop b ∧ t = type) := by
  obtain ⟨al, hal, hg, hcov⟩ := hc
  rcases Lib.mem_applyLock hal with hal | ⟨hh, _, hranges⟩
  · exact .inl ⟨al, hal, hg, hcov⟩
  rw [hranges] at hcov
  rcases Lib.covers_assign hcov with ⟨r, hr, hb⟩ | hnew
  · obtain ⟨x, hx, hxh, hr⟩ := Lib.mem_rangesOf hr
    exact .inl ⟨x, hx, hxh.trans (hh.symm.trans hg), r, hr, hb⟩
  · exact .inr ⟨hg.symm.trans hh, hnew⟩

theorem locked_doApplyLock (hl : ∀ al ∈ l, ∀ r ∈ al.ranges, r.label ≠ .unlck) :
    ∀ al ∈ posixLockDoApplyLock h type start stop pid l, ∀ r ∈ al.ranges, r.label ≠ .unlck := by
  intro al hal
  rcases Lib.mem_applyLock hal with hal | ⟨_, _, hranges⟩
  · exact hl al hal
  rw [hranges]
  refine Lib.assign_labels fun r hr => ?_
  obtain ⟨x, hx, _, hr⟩ := Lib.mem_rangesOf hr
  exact hl x hx r hr

/-- The test sees every lock in the way. -/
theorem offensive_of_blocked
    (hb : Lib.Blocked LockType.excludes (Claims l) h type (InBytes start stop)) :
    posixLockFindOffensiveLock l h type start stop = true := by
  obtain ⟨g, b, t, hne, hin, hc, hex⟩ := hb
  obtain ⟨al, hmem, hal, r, hr, hb, ht⟩ := hc
  refine List.any_eq_true.mpr ⟨al, hmem, ?_⟩
  rw [Bool.and_eq_true, bne_iff_ne]
  refine ⟨hal ▸ hne, List.find?_isSome.mpr ⟨r, hr, ?_⟩⟩
  have h1 : r.start < stop.toNat := Nat.lt_of_le_of_lt hb.1 hin.2
  have h2 : start.toNat < r.stop := Nat.lt_of_le_of_lt hin.1 hb.2
  simp only [Bool.and_eq_true, Bool.or_eq_true, beq_iff_eq, decide_eq_true_eq]
  exact ⟨ht ▸ hex, h1, h2⟩

/-- **A grant keeps exclusion**, and so does an unlock. -/
theorem ActiveExclusive.apply (hl : ActiveExclusive l)
    (hfree : type = .unlck ∨ posixLockFindOffensiveLock l h type start stop = false) :
    ActiveExclusive (posixLockDoApplyLock h type start stop pid l) := by
  have hlocked : ∀ al ∈ posixLockDoApplyLock h type start stop pid l, ∀ r ∈ al.ranges,
      r.label ≠ .unlck := locked_doApplyLock hl.locked
  refine ⟨Lib.nodup_applyLock hl.nodup, hlocked, ?_⟩
  rcases hfree with htype | hfree
  · refine hl.exclusive.mono fun g b t hc => ?_
    rcases claims_doApplyLock hc with hold | ⟨_, _, ht⟩
    · exact hold
    -- no range is of this type
    obtain ⟨al, hal, _, r, hr, _, hrt⟩ := hc
    exact absurd (hrt.trans (ht.trans htype)) (hlocked al hal r hr)
  · refine hl.exclusive.grant LockType.excludes_symm (fun hb => ?_) fun g b t =>
      claims_doApplyLock
    rw [offensive_of_blocked hb] at hfree
    cases hfree

end

/-- The pass over the queue grants only what nobody blocks. -/
theorem ActiveExclusive.checkWaitingLoop {ws : List WLock}
    (h : ActiveExclusive active) : ActiveExclusive (checkWaitingLoop active ws).1 :=
  Lib.grantLoop_kept (fun _ _ _ ha hfree => ha.apply (.inr hfree)) h

theorem ActiveExclusive.checkWaiting (h : ActiveExclusive il.active)
    (hil' : (posixLockCheckWaiting inode il).locks = some il') : ActiveExclusive il'.active := by
  unfold posixLockCheckWaiting at hil'
  split at hil'
  · cases hil'
  · cases hil'
    exact h.checkWaitingLoop

/-- An interrupt takes one request out of the queue. -/
theorem interrupt_locks {connptr reqid : Nat}
    (h : (posixLockInterrupt il connptr reqid).locks = some il') :
    il'.active = il.active ∧ il'.waiting.Sublist il.waiting := by
  unfold posixLockInterrupt at h
  split at h
  · cases h
    exact ⟨rfl, List.Sublist.refl _⟩
  · cases h
    exact ⟨rfl, List.erase_sublist⟩

/-- **Every change keeps exclusion.** -/
theorem ActiveExclusive.change {il' : InodeLocks} (h : ActiveExclusive il.active)
    (hch : PosixLocks.Change il e inode (some il')) : ActiveExclusive il'.active := by
  generalize hout : some il' = out at hch
  cases hch with
  | grant openFiles q hop hfree => exact (h.apply hfree).checkWaiting hout.symm
  | wait openFiles q htype hblocked =>
    cases hout
    exact h
  | interrupt openFiles q =>
    rw [(interrupt_locks hout.symm).1]
    exact h
  | close sessionid inode =>
    have hdrop : ActiveExclusive (dropSession sessionid il.active) := h.filter
    unfold fileClosed at hout
    dsimp only at hout
    split at hout
    · refine ActiveExclusive.checkWaiting ?_ hout.symm
      exact hdrop
    split at hout
    · cases hout
    · cases hout
      exact hdrop
  | disconnect connptr inode =>
    cases hout
    exact h
  | change r hfree =>
    dsimp only at hout
    split at hout
    · cases hout
    · cases hout
      exact h.apply hfree

/-! ## §3. Runs. -/

/-- On every inode no byte of a write lock has another holder's lock, and every holder has at most
one record. -/
def PosixLocks.MutuallyExclusive (t : PosixLocks) : Prop :=
  ∀ inode il, t inode = some il →
    (∀ al ∈ il.active, ∀ al' ∈ il.active, al.holder ≠ al'.holder →
      ∀ r ∈ al.ranges, ∀ r' ∈ al'.ranges, r.label = .wrlck →
        ∀ b, ¬ ((r.start ≤ b ∧ b < r.stop) ∧ (r'.start ≤ b ∧ b < r'.stop)))
    ∧ (il.active.map Lib.RecordLock.holder).Nodup

/-- **Mutual exclusion in every run**: any calls and any records of the change log, in any order,
from an empty table. -/
theorem posix_locks_exclude (es : List PosixStep) :
    (Lib.run PosixLocks.step PosixLocks.empty es).MutuallyExclusive := by
  have hrun : (Lib.run PosixLocks.step PosixLocks.empty es).Each fun il =>
      ActiveExclusive il.active :=
    Lib.run_kept (fun t e ht => ht.step ActiveExclusive.nil fun il inode il' hil _ hch =>
      hil.change hch) fun _ _ h => nomatch h
  intro inode il hil
  have hexcl := hrun inode il hil
  refine ⟨fun al hal al' hal' hne r hr r' hr' hw b hb => ?_, hexcl.nodup⟩
  exact hexcl.exclusive al.holder al'.holder b .wrlck r'.label hne ⟨al, hal, rfl, r, hr, hb.1, hw⟩
    ⟨al', hal', rfl, r', hr', hb.2, rfl⟩ (.inl rfl)

end MfsMaster
