/-
  MfsMaster.Lock.PosixReplay
  **POSIX LOCKS OF ONE INODE: THE LEADER AGAINST ITS REPLICA.**

  A replica has no queue: an inode on it is its active locks and nothing else
  (`Mirrors`).  It gets the locks the leader grants as records.

      replay_applyAndCheck — a request that is granted, with the pass over the queue
      Mirrors.closed       — the close of a file that grants nothing
-/
import MfsMaster.Lock.PosixWaiting

namespace MfsMaster

open Lib (rangesOf rangesOf_cons)
open Function (update)

/-! ## §1. One inode on the replica. -/

/-- The record of an inode without queue. -/
def recordOf (active : List ALock) : Option InodeLocks :=
  if active.isEmpty then none else some ⟨active, []⟩

/-- The replica has the same ranges for every holder. -/
def Mirrors (active : List ALock) (o : Option InodeLocks) : Prop :=
  ∃ a, ActiveWf a ∧ (∀ h, rangesOf h active = rangesOf h a) ∧ o = recordOf a

variable {type : LockType} {a active : List ALock} {r : PosixRecord} {t : PosixLocks}
  {ws : List WLock} {il : InodeLocks} {inode sessionid : Nat} {il' : InodeLocks}
  {q : PosixRequest}

section
variable {l a : List ALock}

/-- A list of records that have locks is determined to be empty by its ranges. -/
theorem eq_nil_of_rangesOf (hwf : ActiveWf l) (hnone : ∀ h, rangesOf h l = []) : l = [] := by
  cases l with
  | nil => rfl
  | cons al l =>
    have hal := hnone al.holder
    rw [rangesOf_cons, if_pos rfl] at hal
    exact absurd hal (hwf.each al List.mem_cons_self).nonempty

theorem eq_nil_iff_of_rangesOf (hl : ActiveWf l) (ha : ActiveWf a)
    (hsame : ∀ h, rangesOf h l = rangesOf h a) : l = [] ↔ a = [] := by
  constructor
  · intro hnil
    refine eq_nil_of_rangesOf ha fun h => ?_
    rw [← hsame, hnil]
    rfl
  · intro hnil
    refine eq_nil_of_rangesOf hl fun h => ?_
    rw [hsame, hnil]
    rfl

theorem offensive_congr (hl : ActiveWf l) (ha : ActiveWf a)
    (hsame : ∀ h, rangesOf h l = rangesOf h a) (h : Holder) {start stop : UInt64} :
    posixLockFindOffensiveLock l h type start stop
      = posixLockFindOffensiveLock a h type start stop := by
  rw [Bool.eq_iff_iff, offensive_iff_rangesOf hl, offensive_iff_rangesOf ha]
  simp only [hsame]

end

theorem recordOf_ne_nil (h : a ≠ []) : recordOf a = some ⟨a, []⟩ := by
  unfold recordOf
  rw [if_neg]
  rwa [List.isEmpty_iff]

theorem recordOf_eq :
    (if a.isEmpty && ([] : List WLock).isEmpty then none else some (⟨a, []⟩ : InodeLocks))
      = recordOf a := by
  simp only [recordOf, List.isEmpty_nil, Bool.and_true]

/-- **A record of the change log on the replica.** -/
theorem mrChange_recordOf (ht : t r.inode = recordOf a)
    (hok : (r.type = .unlck ∧ a ≠ []) ∨ (r.type ≠ .unlck ∧
      posixLockFindOffensiveLock a r.holder r.type r.start r.stop = false)) :
    t.posixLockMrChange r
      = (.ok, update t r.inode
          (recordOf (posixLockDoApplyLock r.holder r.type r.start r.stop r.pid a))) := by
  have hcond : ¬ (r.type ≠ .unlck ∧
      posixLockFindOffensiveLock a r.holder r.type r.start r.stop = true) := by
    intro hc
    rcases hok with hok | hok
    · exact hc.1 hok.1
    · rw [hok.2] at hc
      cases hc.2
  unfold PosixLocks.posixLockMrChange
  by_cases ha : a = []
  · subst ha
    have htype : r.type ≠ .unlck := hok.elim (fun h => absurd rfl h.2) fun h => h.1
    rw [ht]
    show (if r.type = .unlck then _ else _) = _
    rw [if_neg htype]
    show (if _ then _ else _) = _
    rw [if_neg hcond]
    exact congrArg (fun o => (Status.ok, update t r.inode o)) recordOf_eq
  · rw [ht, recordOf_ne_nil ha]
    show (if _ then _ else _) = _
    rw [if_neg hcond]
    exact congrArg (fun o => (Status.ok, update t r.inode o)) recordOf_eq

/-! ## §2. Closing without a grant. -/

/-- No request of another session is granted when the session closes the inode. -/
def CloseSafe (t : PosixLocks) (sessionid inode : Nat) : Prop :=
  ∀ w ∈ (t.before inode).waiting, w.holder.sessionid ≠ sessionid →
    w.blocked (dropSession sessionid (t.before inode).active) = true

instance CloseSafe.decidable (t : PosixLocks) (sessionid inode : Nat) :
    Decidable (CloseSafe t sessionid inode) :=
  inferInstanceAs (Decidable (∀ w ∈ (t.before inode).waiting, _ → _))

/-- The inode without the locks and requests of a session. -/
def closedLocks (sessionid : Nat) (il : InodeLocks) : Option InodeLocks :=
  let active := dropSession sessionid il.active
  let waiting := il.waiting.filter fun w => w.holder.sessionid != sessionid
  if active.isEmpty && waiting.isEmpty then none else some ⟨active, waiting⟩

theorem checkWaitingLoop_blocked
    (h : ∀ w ∈ ws, w.blocked active = true) : checkWaitingLoop active ws = (active, ws, []) := by
  induction ws with
  | nil => rfl
  | cons w ws ih =>
    rw [checkWaitingLoop_cons, if_pos (h w List.mem_cons_self),
      ih fun v hv => h v (List.mem_cons_of_mem w hv)]

theorem checkWaiting_blocked (h : ∀ w ∈ il.waiting, w.blocked il.active = true) :
    posixLockCheckWaiting inode il
      = ⟨if il.active.isEmpty && il.waiting.isEmpty then none else some il, [], []⟩ := by
  unfold posixLockCheckWaiting
  rw [checkWaitingLoop_blocked h]
  split
  next hempty => rfl
  next hne => rfl

theorem fileClosed_of_safe (h : ∀ w ∈ il.waiting, w.holder.sessionid ≠ sessionid →
      w.blocked (dropSession sessionid il.active) = true) :
    fileClosed inode sessionid il = ⟨closedLocks sessionid il, [], []⟩ := by
  unfold fileClosed closedLocks
  dsimp only
  split
  · refine checkWaiting_blocked fun w hw => ?_
    obtain ⟨hw, hses⟩ := List.mem_filter.mp hw
    exact h w hw (bne_iff_ne.mp hses)
  split <;> rfl

/-- **A close that grants nothing logs nothing**, and drops what the session has. -/
theorem fileClosed_safe (hsafe : CloseSafe t sessionid inode) :
    (t.posixLockFileClosed sessionid inode).log = []
      ∧ ∀ i, (t.posixLockFileClosed sessionid inode).table i
          = if i = inode then (t inode).bind (closedLocks sessionid) else t i := by
  unfold PosixLocks.posixLockFileClosed
  cases hil : t inode with
  | none =>
    refine ⟨rfl, fun i => ?_⟩
    dsimp only [Option.bind_none]
    split
    next heq => rw [heq, hil]
    · rfl
  | some il =>
    have hbefore : t.before inode = il := by rw [PosixLocks.before, hil]; rfl
    have hclose : fileClosed inode sessionid il = ⟨closedLocks sessionid il, [], []⟩ := by
      refine fileClosed_of_safe ?_
      rw [← hbefore]
      exact hsafe
    dsimp only [Option.bind_some]
    rw [hclose]
    exact ⟨rfl, fun i => Function.update_apply ..⟩

/-- The records of the leader: in order, and never without an active lock. -/
def LeaderWf (il : InodeLocks) : Prop := InodeWf il ∧ il.active ≠ []

theorem blocked_nil (w : WLock) : w.blocked [] = false := rfl

theorem LeaderWf.closed (h : LeaderWf il)
    (hsafe : ∀ w ∈ il.waiting, w.holder.sessionid ≠ sessionid →
      w.blocked (dropSession sessionid il.active) = true)
    (hil' : closedLocks sessionid il = some il') : LeaderWf il' := by
  unfold closedLocks at hil'
  dsimp only at hil'
  split at hil'
  · cases hil'
  next hne =>
  cases hil'
  refine ⟨h.1.filter, fun hnil => hne ?_⟩
  -- with no lock left nobody is blocked, so nobody waits
  have hnil : dropSession sessionid il.active = [] := hnil
  rw [hnil, List.isEmpty_nil, Bool.true_and, List.isEmpty_iff, List.eq_nil_iff_forall_not_mem]
  intro w hw
  obtain ⟨hw, hses⟩ := List.mem_filter.mp hw
  have hblocked := hsafe w hw (bne_iff_ne.mp hses)
  rw [hnil, blocked_nil] at hblocked
  cases hblocked

theorem closedLocks_active {o : Option InodeLocks} :
    ((o.bind (closedLocks sessionid)).getD ⟨[], []⟩).active
      = dropSession sessionid (o.getD ⟨[], []⟩).active := by
  cases o with
  | none => rfl
  | some il =>
    show ((closedLocks sessionid il).getD ⟨[], []⟩).active = _
    unfold closedLocks
    dsimp only
    split
    next hempty =>
      rw [Bool.and_eq_true, List.isEmpty_iff] at hempty
      exact hempty.1.symm
    · rfl

theorem closedLocks_recordOf :
    (recordOf a).bind (closedLocks sessionid) = recordOf (dropSession sessionid a) := by
  by_cases ha : a = []
  · subst ha
    rfl
  · rw [recordOf_ne_nil ha]
    exact recordOf_eq

theorem Mirrors.closed {o : Option InodeLocks} (h : Mirrors active o) :
    Mirrors (dropSession sessionid active) (o.bind (closedLocks sessionid)) := by
  obtain ⟨a, hwf, hsame, ho⟩ := h
  refine ⟨dropSession sessionid a, hwf.filter, fun h => ?_, ?_⟩
  · rw [rangesOf_dropSession, rangesOf_dropSession, hsame]
  · rw [ho]
    exact closedLocks_recordOf

/-- A replica, without queues, closes without a grant. -/
theorem Mirrors.closeSafe (h : Mirrors active (t inode)) : CloseSafe t sessionid inode := by
  obtain ⟨a, _, _, ho⟩ := h
  intro w hw
  unfold PosixLocks.before at hw
  rw [ho] at hw
  unfold recordOf at hw
  split at hw
  · cases hw
  · cases hw

/-! ## §3. Granting. -/

/-- A lock that is granted leaves an active lock. -/
theorem doApplyLock_ne_nil {g : Holder} {start stop : UInt64} {pid : Nat}
    (hlt : start < stop) (htype : type ≠ .unlck) {l : List ALock} (hwf : ActiveWf l) :
    posixLockDoApplyLock g type start stop pid l ≠ [] := by
  intro hnil
  have hheld : held (posixLockDoApplyLock g type start stop pid l) g start.toNat = _ :=
    held_doApplyLock hlt hwf g start.toNat
  have hin : InBytes start stop start.toNat :=
    ⟨Nat.le_refl _, UInt64.lt_iff_toNat_lt.mp hlt⟩
  rw [hnil, if_pos ⟨rfl, hin⟩, LockType.held, if_neg htype] at hheld
  cases hheld

/-- Somebody holds a lock after the pass if somebody held one or waited. -/
theorem checkWaitingLoop_ne_nil (hwf : ActiveWf active)
    (hws : ∀ w ∈ ws, w.start < w.stop ∧ w.type ≠ .unlck) (hne : ¬ (active = [] ∧ ws = [])) :
    (checkWaitingLoop active ws).1 ≠ [] := by
  induction ws generalizing active with
  | nil => exact fun hnil => hne ⟨hnil, rfl⟩
  | cons w ws ih =>
    obtain ⟨⟨hlt, htype⟩, hws⟩ := List.forall_mem_cons.mp hws
    rw [checkWaitingLoop_cons]
    split
    next hblocked =>
      refine ih hwf hws fun h => ?_
      rw [h.1, blocked_nil] at hblocked
      cases hblocked
    · exact ih (activeWf_apply hlt hwf) hws fun h => doApplyLock_ne_nil hlt htype hwf h.1

theorem LeaderWf.checkWaiting (h : InodeWf il)
    (hil' : (posixLockCheckWaiting inode il).locks = some il') : LeaderWf il' := by
  refine ⟨h.checkWaiting hil', ?_⟩
  unfold posixLockCheckWaiting at hil'
  split at hil'
  · cases hil'
  next hne =>
  cases hil'
  refine checkWaitingLoop_ne_nil h.active h.waiting fun hnil => hne ?_
  rw [hnil.1, hnil.2]
  rfl

/-- The active locks and the records of the pass. -/
theorem checkWaiting_spec : ((posixLockCheckWaiting inode il).locks.getD ⟨[], []⟩).active
        = (checkWaitingLoop il.active il.waiting).1
      ∧ (posixLockCheckWaiting inode il).log
        = (checkWaitingLoop il.active il.waiting).2.2.map fun w =>
          ⟨inode, w.holder, w.type, w.start, w.stop, w.pid⟩ := by
  unfold posixLockCheckWaiting
  split
  next hempty =>
    rw [Bool.and_eq_true, List.isEmpty_iff, List.isEmpty_iff] at hempty
    rw [hempty.1, hempty.2]
    exact ⟨rfl, rfl⟩
  · exact ⟨rfl, rfl⟩

namespace PosixLocks

/-- `posix_lock_mr_change` as a step of a replay. -/
def mrApply (t : PosixLocks) (r : PosixRecord) : Option PosixLocks :=
  Status.toOption (t.posixLockMrChange r)

end PosixLocks

/-- A lock granted or taken back on the leader, on the replica. -/
theorem Mirrors.apply
    (hm : Mirrors active (t r.inode)) (hwf : ActiveWf active) (hlt : r.start < r.stop)
    (hok : (r.type = .unlck ∧ active ≠ []) ∨ (r.type ≠ .unlck ∧
      posixLockFindOffensiveLock active r.holder r.type r.start r.stop = false)) :
    Lib.ReplaysAt PosixLocks.mrApply t r.inode [r]
      (Mirrors (posixLockDoApplyLock r.holder r.type r.start r.stop r.pid active)) := by
  obtain ⟨a, ha, hsame, ho⟩ := hm
  rw [offensive_congr hwf ha hsame, ne_eq, eq_nil_iff_of_rangesOf hwf ha hsame] at hok
  refine .one ?_ ⟨posixLockDoApplyLock r.holder r.type r.start r.stop r.pid a,
    activeWf_doApplyLock hlt ha, fun h => ?_, rfl⟩
  · unfold PosixLocks.mrApply
    rw [mrChange_recordOf ho hok, Status.toOption_ok]
  · rw [Lib.rangesOf_applyLock hwf.nodup, Lib.rangesOf_applyLock ha.nodup, hsame, hsame]

/-- **The grants of a pass, replayed.**  Induction on the queue: the replica has the active locks
the pass has reached. -/
theorem replay_checkWaitingLoop (hwf : ActiveWf active)
    (hws : ∀ w ∈ ws, w.start < w.stop ∧ w.type ≠ .unlck) (hm : Mirrors active (t inode)) :
    Lib.ReplaysAt PosixLocks.mrApply t inode ((checkWaitingLoop active ws).2.2.map fun w =>
        ⟨inode, w.holder, w.type, w.start, w.stop, w.pid⟩)
      (Mirrors (checkWaitingLoop active ws).1) := by
  induction ws generalizing active t with
  | nil => exact .nil hm
  | cons w ws ih =>
    obtain ⟨⟨hlt, htype⟩, hws⟩ := List.forall_mem_cons.mp hws
    rw [checkWaitingLoop_cons]
    split
    · exact ih hwf hws hm
    next hfree =>
    rw [Bool.not_eq_true] at hfree
    have hfirst :=
      Mirrors.apply (r := ⟨inode, w.holder, w.type, w.start, w.stop, w.pid⟩) hm hwf hlt
        (.inr ⟨htype, hfree⟩)
    exact hfirst.append fun t' ht' => ih (activeWf_apply hlt hwf) hws ht'

/-! ## §4. Requests. -/

/-- **What a request does, with its records.** -/
theorem cmd_cases {openFiles : OpenFiles} :
    ((t.posixLockCmd openFiles q).2.log = []
      ∧ ((t.posixLockCmd openFiles q).2.table = t
        ∨ ∃ il il', t q.inode = some il
          ∧ (t.posixLockCmd openFiles q).2.table = update t q.inode (some il')
          ∧ il'.active = il.active
          ∧ (il'.waiting.Sublist il.waiting
            ∨ (il'.waiting = il.waiting ++ [PosixLocks.waitFor q] ∧ q.type ≠ .unlck))))
    ∨ (∃ il, t.before q.inode = il
      ∧ (t.posixLockCmd openFiles q).2
          = t.store q.inode (applyAndCheck q.inode il q.holder q.type q.start q.stop q.pid)
      ∧ ((q.type = .unlck ∧ t q.inode = some il)
        ∨ (q.type ≠ .unlck ∧ (PosixLocks.waitFor q).blocked il.active = false))) := by
  rcases t.posixLockCmd_cases openFiles q with hsame | hint | ⟨_, hset⟩
  · rw [hsame]
    exact .inl ⟨rfl, .inl rfl⟩
  · rw [hint]
    unfold PosixLocks.interruptLock
    cases hil : t q.inode with
    | none => exact .inl ⟨rfl, .inl rfl⟩
    | some il =>
      have hlog : (posixLockInterrupt il q.connptr q.reqid).log = [] := by
        unfold posixLockInterrupt
        split <;> rfl
      have hsome : (posixLockInterrupt il q.connptr q.reqid).locks.isSome = true := by
        unfold posixLockInterrupt
        split <;> rfl
      obtain ⟨il', hil'⟩ := Option.isSome_iff_exists.mp hsome
      obtain ⟨hactive, hsub⟩ := interrupt_locks hil'
      refine .inl ⟨hlog, .inr ⟨il, il', rfl, ?_, hactive, .inl hsub⟩⟩
      show update t q.inode (posixLockInterrupt il q.connptr q.reqid).locks = _
      rw [hil']
  rw [hset]
  unfold PosixLocks.setLock
  cases hil : t q.inode with
  | none =>
    have hbefore : t.before q.inode = ⟨[], []⟩ := by rw [PosixLocks.before, hil]; rfl
    dsimp only
    split
    · exact .inl ⟨rfl, .inl rfl⟩
    next htype => exact .inr ⟨_, hbefore, rfl, .inr ⟨htype, rfl⟩⟩
  | some il =>
    have hbefore : t.before q.inode = il := by rw [PosixLocks.before, hil]; rfl
    dsimp only
    split
    next hblocked =>
      split
      · exact .inl ⟨rfl, .inl rfl⟩
      · exact .inl ⟨rfl, .inr ⟨il, _, rfl, rfl, rfl, .inr ⟨rfl, hblocked.1⟩⟩⟩
    next hfree =>
      refine .inr ⟨il, hbefore, rfl, ?_⟩
      by_cases htype : q.type = .unlck
      · exact .inl ⟨htype, rfl⟩
      · exact .inr ⟨htype, Bool.not_eq_true _ ▸ fun h => hfree ⟨htype, h⟩⟩

/-- **A request granted on the leader, replayed.** -/
theorem replay_applyAndCheck {t' : PosixLocks}
    (hwf : InodeWf il) (hlt : q.start < q.stop) (hm : Mirrors il.active (t' q.inode))
    (hok : (q.type = .unlck ∧ il.active ≠ [])
      ∨ (q.type ≠ .unlck ∧ (PosixLocks.waitFor q).blocked il.active = false)) :
    Lib.ReplaysAt PosixLocks.mrApply t' q.inode
      (applyAndCheck q.inode il q.holder q.type q.start q.stop q.pid).log
      (Mirrors ((applyAndCheck q.inode il q.holder q.type q.start q.stop q.pid).locks.getD
          ⟨[], []⟩).active) := by
  have hfirst :=
    Mirrors.apply (r := ⟨q.inode, q.holder, q.type, q.start, q.stop, q.pid⟩) hm hwf.active hlt hok
  have happlied := hwf.applied hlt q.holder q.type q.pid
  unfold applyAndCheck
  dsimp only
  rw [checkWaiting_spec.1, checkWaiting_spec.2]
  exact hfirst.append fun t' ht' =>
    replay_checkWaitingLoop happlied.active happlied.waiting ht'

end MfsMaster
