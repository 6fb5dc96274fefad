/-
  MfsMaster.Lock.PosixWaiting
  **WHO WAITS FOR A POSIX LOCK, AND WHY.**

  `posix_lock_check_waiting` makes one pass over the queue, and a request it grants can
  weaken a lock the same holder already had: a read lock over bytes that were write
  locked.  A request in front of it in the queue has been looked at by then and goes on
  waiting although nothing is in its way any more (`posix_waiting_behind_downgrade`).

  Without such a request in the queue one pass is enough: a grant only adds locks, so who
  was blocked when the pass came by is blocked at its end (`blocked_checkWaitingLoop`).
-/
import MfsMaster.Lock.PosixExclusive

namespace MfsMaster

open Lib (rangesOf)

/-! ## §1. Inodes whose locks are in order. -/

/-- The locks and requests of an inode when every range has a byte. -/
structure InodeWf (il : InodeLocks) : Prop where
  active : ActiveWf il.active
  waiting : ∀ w ∈ il.waiting, w.start < w.stop ∧ w.type ≠ .unlck

theorem InodeWf.empty : InodeWf ⟨[], []⟩ := ⟨ActiveWf.nil, fun _ h => by cases h⟩

variable {il il' : InodeLocks} {active : List ALock} {inode b : Nat} {w v : WLock} {c : PosixCall}
  {t : PosixLocks}

theorem InodeWf.filter (h : InodeWf il) {p : ALock → Bool} {p' : WLock → Bool} :
    InodeWf ⟨il.active.filter p, il.waiting.filter p'⟩ :=
  ⟨h.active.filter, fun w hw => h.waiting w (List.mem_filter.mp hw).1⟩

theorem checkWaitingLoop_cons {ws : List WLock} :
    checkWaitingLoop active (w :: ws)
      = if w.blocked active then
          ((checkWaitingLoop active ws).1, w :: (checkWaitingLoop active ws).2.1,
            (checkWaitingLoop active ws).2.2)
        else
          ((checkWaitingLoop (w.apply active) ws).1, (checkWaitingLoop (w.apply active) ws).2.1,
            w :: (checkWaitingLoop (w.apply active) ws).2.2) := rfl

theorem activeWf_checkWaitingLoop {ws : List WLock} (hwf : ActiveWf active)
    (hws : ∀ w ∈ ws, w.start < w.stop) : ActiveWf (checkWaitingLoop active ws).1 :=
  Lib.grantLoop_kept (fun w hw _ ha _ => activeWf_doApplyLock (hws w hw) ha) hwf

theorem InodeWf.checkWaiting (h : InodeWf il)
    (hil' : (posixLockCheckWaiting inode il).locks = some il') : InodeWf il' := by
  unfold posixLockCheckWaiting at hil'
  split at hil'
  · cases hil'
  cases hil'
  exact ⟨activeWf_checkWaitingLoop h.active fun w hw => (h.waiting w hw).1, fun w hw =>
    h.waiting w ((Lib.grantLoop_sublist _ _).subset hw)⟩

theorem InodeWf.applied (h : InodeWf il) {start stop : UInt64}
    (hlt : start < stop) (g : Holder) (type : LockType) (pid : Nat) :
    InodeWf { il with active := posixLockDoApplyLock g type start stop pid il.active } :=
  ⟨activeWf_doApplyLock hlt h.active, h.waiting⟩

theorem InodeWf.sublist (h : InodeWf il) (hactive : il'.active = il.active)
    (hsub : il'.waiting.Sublist il.waiting) : InodeWf il' :=
  ⟨hactive ▸ h.active, fun w hw => h.waiting w (hsub.subset hw)⟩

/-- The range of a step has a byte. -/
def PosixStep.rangeOk : PosixStep → Prop
  | .call (.cmd _ q) => q.start < q.stop
  | .mrChange r => r.start < r.stop
  | _ => True

/-- **Every change keeps the locks in order.** -/
theorem InodeWf.change {e : PosixStep} (h : InodeWf il)
    (hrange : e.rangeOk) (hch : PosixLocks.Change il e inode (some il')) : InodeWf il' := by
  generalize hout : some il' = out at hch
  cases hch with
  | grant openFiles q hop hfree =>
    exact (h.applied hrange q.holder q.type q.pid).checkWaiting hout.symm
  | wait openFiles q htype hblocked =>
    cases hout
    refine ⟨h.active, fun w hw => ?_⟩
    rcases List.mem_append.mp hw with hw | hw
    · exact h.waiting w hw
    · exact (List.mem_singleton.mp hw) ▸ ⟨hrange, htype⟩
  | interrupt openFiles q =>
    obtain ⟨hactive, hsub⟩ := interrupt_locks hout.symm
    exact h.sublist hactive hsub
  | close sessionid inode =>
    unfold fileClosed at hout
    dsimp only at hout
    split at hout
    · exact h.filter.checkWaiting hout.symm
    split at hout
    · cases hout
    · cases hout
      exact h.filter
  | disconnect connptr inode =>
    cases hout
    exact h.sublist rfl List.filter_sublist
  | change r hfree =>
    dsimp only at hout
    split at hout
    · cases hout
    · cases hout
      exact h.applied hrange r.holder r.type r.pid

/-! ## §2. One pass is enough when nothing is weakened. -/

/-- `w` can be granted or has to wait: the two questions are one. -/
theorem WLock.blocked_iff (hlt : w.start < w.stop) (hwf : ActiveWf active) : w.blocked active = true
      ↔ Lib.Blocked LockType.excludes (Holds active) w.holder w.type (InBytes w.start w.stop) :=
  offensive_iff hlt hwf

/-- `strong` marks every byte a holder may be write locking during the pass, and no read request
touches such a byte of its own holder. -/
structure NoDowngrade (strong : Holder → Nat → Prop) (active : List ALock) (ws : List WLock) :
    Prop where
  active : ∀ h b, held active h b = some .wrlck → strong h b
  writes : ∀ w ∈ ws, w.type = .wrlck → ∀ b, InBytes w.start w.stop b → strong w.holder b
  reads : ∀ w ∈ ws, w.type = .rdlck → ∀ b, InBytes w.start w.stop b → ¬ strong w.holder b

section
variable {strong : Holder → Nat → Prop} {active : List ALock} {w : WLock} {ws : List WLock}

theorem NoDowngrade.skip (h : NoDowngrade strong active (w :: ws)) : NoDowngrade strong active ws :=
  ⟨h.active, fun v hv => h.writes v (List.mem_cons_of_mem w hv), fun v hv =>
    h.reads v (List.mem_cons_of_mem w hv)⟩

theorem held_apply (hlt : w.start < w.stop) (hwf : ActiveWf active) (h : Holder) (b : Nat) :
    held (w.apply active) h b
      = if h = w.holder ∧ InBytes w.start w.stop b then w.type.held else held active h b :=
  held_doApplyLock hlt hwf h b

theorem activeWf_apply (hlt : w.start < w.stop) (hwf : ActiveWf active) :
    ActiveWf (w.apply active) := activeWf_doApplyLock hlt hwf

theorem NoDowngrade.grant (h : NoDowngrade strong active (w :: ws)) (hlt : w.start < w.stop)
    (hwf : ActiveWf active) : NoDowngrade strong (w.apply active) ws := by
  refine ⟨fun g b hheld => ?_, h.skip.writes, h.skip.reads⟩
  rw [held_apply hlt hwf] at hheld
  split at hheld
  next hin =>
    have htype : w.type = .wrlck := by
      unfold LockType.held at hheld
      split at hheld
      · cases hheld
      · exact Option.some.inj hheld
    exact hin.1 ▸ h.writes w List.mem_cons_self htype b hin.2
  · exact h.active g b hheld

/-- A grant of the pass leaves every blocked request blocked. -/
theorem NoDowngrade.blocked_apply (h : NoDowngrade strong active (w :: ws))
    (hw : w.start < w.stop ∧ w.type ≠ .unlck) (hwf : ActiveWf active) (hv : v.start < v.stop)
    (hblocked : v.blocked active = true) : v.blocked (w.apply active) = true := by
  obtain ⟨hlt, hne⟩ := hw
  have htype : w.type.held = some w.type := if_neg hne
  rw [WLock.blocked_iff hv hwf] at hblocked
  rw [WLock.blocked_iff hv (activeWf_apply hlt hwf)]
  refine hblocked.grant (h := w.holder) (s := InBytes w.start w.stop) (m := w.type)
    (fun g b t hold => ?_) fun b t hin hold hex => ?_
  · show held (w.apply active) g b = some t
      ∨ (g = w.holder ∧ InBytes w.start w.stop b ∧ held (w.apply active) g b = some w.type)
    rw [held_apply hlt hwf]
    split
    next hin => exact .inr ⟨hin.1, hin.2, htype⟩
    · exact .inl hold
  · -- a write lock excludes everything; a read lock replaces no write lock
    cases hwt : w.type with
    | unlck => exact absurd hwt hne
    | wrlck => exact .inr rfl
    | rdlck =>
      have hno : ¬ strong w.holder b := h.reads w List.mem_cons_self hwt b hin
      rcases hex with hvw | htw
      · exact .inl hvw
      · rw [htw] at hold
        exact absurd (h.active w.holder b hold) hno

theorem NoDowngrade.blocked_loop (h : NoDowngrade strong active ws)
    (hws : ∀ w ∈ ws, w.start < w.stop ∧ w.type ≠ .unlck) (hwf : ActiveWf active)
    (hv : v.start < v.stop) (hblocked : v.blocked active = true) :
    v.blocked (checkWaitingLoop active ws).1 = true := by
  induction ws generalizing active with
  | nil => exact hblocked
  | cons w ws ih =>
    obtain ⟨hw, hws⟩ := List.forall_mem_cons.mp hws
    rw [checkWaitingLoop_cons]
    split
    · exact ih h.skip hws hwf hblocked
    · exact ih (h.grant hw.1 hwf) hws (activeWf_apply hw.1 hwf)
        (h.blocked_apply hw hwf hv hblocked)

/-- **One pass is enough**: who is left in the queue is blocked at the end of the pass. -/
theorem NoDowngrade.blocked_checkWaitingLoop (h : NoDowngrade strong active ws)
    (hws : ∀ w ∈ ws, w.start < w.stop ∧ w.type ≠ .unlck) (hwf : ActiveWf active) :
    ∀ v ∈ (checkWaitingLoop active ws).2.1, v.blocked (checkWaitingLoop active ws).1 = true := by
  induction ws generalizing active with
  | nil => exact nofun
  | cons w ws ih =>
    obtain ⟨hw, hws⟩ := List.forall_mem_cons.mp hws
    rw [checkWaitingLoop_cons]
    split
    next hblocked =>
      refine List.forall_mem_cons.mpr ⟨?_, ih h.skip hws hwf⟩
      exact h.skip.blocked_loop hws hwf hw.1 hblocked
    · exact ih (h.grant hw.1 hwf) hws (activeWf_apply hw.1 hwf)

end

/-! ## §3. Queues without a downgrade. -/

/-- A read request over bytes its own holder has write locked, waits to write lock, or asks to
write lock now. -/
def WLock.downgrades (il : InodeLocks) (asked : List WLock) (w : WLock) : Bool :=
  w.type == .rdlck &&
    (((rangesOf w.holder il.active).any fun r =>
        r.label == .wrlck && (r.start < w.stop.toNat && w.start.toNat < r.stop)) ||
      (asked ++ il.waiting).any fun v =>
        v.holder == w.holder && (v.type == .wrlck && (v.start < w.stop && w.start < v.stop)))

/-- The bytes a holder has write locked, or may get write locked by a request. -/
def strongBytes (il : InodeLocks) (asked : List WLock) (h : Holder) (b : Nat) : Prop :=
  held il.active h b = some .wrlck
    ∨ ∃ v ∈ asked ++ il.waiting, v.holder = h ∧ v.type = .wrlck ∧ InBytes v.start v.stop b

theorem not_strong_of_downgrades {asked : List WLock}
    (hwf : ActiveWf il.active) (hno : w.downgrades il asked = false) (htype : w.type = .rdlck)
    (hin : InBytes w.start w.stop b) : ¬ strongBytes il asked w.holder b := by
  intro hstrong
  unfold WLock.downgrades at hno
  rw [htype, Bool.and_eq_false_iff] at hno
  rcases hno with hno | hno
  · cases hno
  rw [Bool.or_eq_false_iff, List.any_eq_false, List.any_eq_false] at hno
  rcases hstrong with hheld | ⟨v, hv, hh, hvt, hvin⟩
  · obtain ⟨r, hr, h1, h2, ht⟩ := (typeAt_eq_some_iff (rangesWf_rangesOf hwf)).mp hheld
    refine hno.1 r hr ?_
    have h3 : r.start < w.stop.toNat := Nat.lt_of_le_of_lt h1 hin.2
    have h4 : w.start.toNat < r.stop := Nat.lt_of_le_of_lt hin.1 h2
    simp only [ht, h3, h4, decide_true, beq_self_eq_true, Bool.and_self]
  · refine hno.2 v hv ?_
    have h3 : v.start < w.stop := UInt64.lt_iff_toNat_lt.mpr (Nat.lt_of_le_of_lt hvin.1 hin.2)
    have h4 : w.start < v.stop := UInt64.lt_iff_toNat_lt.mpr (Nat.lt_of_le_of_lt hin.1 hvin.2)
    simp only [hh, hvt, h3, h4, decide_true, beq_self_eq_true, Bool.and_self]

/-- Every waiting request is blocked. -/
def WaitersBlocked (il : InodeLocks) : Prop := ∀ w ∈ il.waiting, w.blocked il.active = true

/-- The pass from an inode on which a lock was applied or dropped. -/
theorem waitersBlocked_checkWaiting {il₀ : InodeLocks} (asked : List WLock)
    (hwf : InodeWf il) (hwf₀ : InodeWf il₀)
    (hactive : ∀ h b, held il₀.active h b = some .wrlck → strongBytes il asked h b)
    (hsub : ∀ w ∈ il₀.waiting, w ∈ il.waiting ∧ w.downgrades il asked = false)
    (hil' : (posixLockCheckWaiting inode il₀).locks = some il') : WaitersBlocked il' := by
  have hno : NoDowngrade (strongBytes il asked) il₀.active il₀.waiting := by
    refine ⟨hactive, fun w hw htype b hin => ?_, fun w hw htype b hin => ?_⟩
    · exact .inr ⟨w, List.mem_append_right asked (hsub w hw).1, rfl, htype, hin⟩
    · exact not_strong_of_downgrades hwf.active (hsub w hw).2 htype hin
  unfold posixLockCheckWaiting at hil'
  split at hil'
  · cases hil'
  · cases hil'
    exact hno.blocked_checkWaitingLoop hwf₀.waiting hwf₀.active

/-! ## §4. Calls. -/

namespace PosixLocks

/-- No read request in the queue of the inode weakens its own holder's write lock, at a call that
makes a pass over the queue. -/
def NoWeakening (t : PosixLocks) : PosixCall → Prop
  | .cmd _ q =>
    let il := t.before q.inode
    q.start < q.stop ∧
      ((q.op = .set ∨ q.op = .try) → (q.type = .unlck ∨ (waitFor q).blocked il.active = false) →
        ∀ w ∈ il.waiting, w.downgrades il [waitFor q] = false)
  | .fileClosed sessionid inode =>
    ∀ w ∈ (t.before inode).waiting, w.holder.sessionid ≠ sessionid →
      w.downgrades (t.before inode) [] = false
  | .disconnected _ => True

instance NoWeakening.decidable (t : PosixLocks) : (c : PosixCall) → Decidable (t.NoWeakening c)
  | .cmd .. => inferInstanceAs (Decidable (_ ∧ (_ → _ → ∀ w ∈ _, _)))
  | .fileClosed .. => inferInstanceAs (Decidable (∀ w ∈ _, _ → _))
  | .disconnected _ => inferInstanceAs (Decidable True)

end PosixLocks

/-- Fewer requests, the same locks. -/
theorem WaitersBlocked.sublist (h : WaitersBlocked il) (hactive : il'.active = il.active)
    (hsub : il'.waiting.Sublist il.waiting) : WaitersBlocked il' := by
  intro w hw
  rw [hactive]
  exact h w (hsub.subset hw)

/-- The lock that was asked for: what is write locked afterwards was so before, or is asked for. -/
theorem strong_of_applied {q : PosixRequest} (hwf : ActiveWf il.active)
    (hlt : q.start < q.stop) {h : Holder}
    (hheld : held (posixLockDoApplyLock q.holder q.type q.start q.stop q.pid il.active) h b
      = some .wrlck) : strongBytes il [PosixLocks.waitFor q] h b := by
  rw [held_doApplyLock hlt hwf] at hheld
  split at hheld
  next hin =>
    refine .inr ⟨PosixLocks.waitFor q, List.mem_append_left _ List.mem_cons_self, hin.1.symm, ?_,
      hin.2⟩
    unfold LockType.held at hheld
    split at hheld
    · cases hheld
    · exact Option.some.inj hheld
  · exact .inl hheld

/-- **Every call keeps the waiting requests blocked.** -/
theorem WaitersBlocked.change (hwf : InodeWf il) (h : WaitersBlocked il)
    (hbefore : t.before inode = il) (hmeets : t.NoWeakening c)
    (hch : PosixLocks.Change il (.call c) inode (some il')) : WaitersBlocked il' := by
  generalize hout : some il' = out at hch
  cases hch with
  | grant openFiles q hop hfree =>
    obtain ⟨hlt, hno⟩ := hmeets
    rw [hbefore] at hno
    refine waitersBlocked_checkWaiting [PosixLocks.waitFor q] hwf
      (hwf.applied hlt q.holder q.type q.pid)
      (fun g b hheld => strong_of_applied hwf.active hlt hheld) (fun w hw => ?_) hout.symm
    exact ⟨hw, hno hop hfree w hw⟩
  | wait openFiles q htype hblocked =>
    cases hout
    intro w hw
    rcases List.mem_append.mp hw with hw | hw
    · exact h w hw
    · exact (List.mem_singleton.mp hw) ▸ hblocked
  | interrupt openFiles q =>
    obtain ⟨hactive, hsub⟩ := interrupt_locks hout.symm
    exact h.sublist hactive hsub
  | close sessionid inode =>
    have hno := hmeets
    dsimp only [PosixLocks.NoWeakening] at hno
    rw [hbefore] at hno
    unfold fileClosed at hout
    dsimp only at hout
    split at hout
    · refine waitersBlocked_checkWaiting [] hwf hwf.filter
        (fun g b hheld => ?_) (fun w hw => ?_) hout.symm
      · have hheld : held (dropSession sessionid il.active) g b = some .wrlck := hheld
        rw [held_dropSession] at hheld
        split at hheld
        · cases hheld
        · exact .inl hheld
      · obtain ⟨hw, hses⟩ := List.mem_filter.mp hw
        exact ⟨hw, hno w hw (bne_iff_ne.mp hses)⟩
    next hnone =>
      -- no lock of the session: only requests go
      have hactive : dropSession sessionid il.active = il.active := by
        refine List.filter_eq_self.mpr fun al hal => ?_
        rw [bne_iff_ne]
        intro heq
        exact hnone (List.any_eq_true.mpr ⟨al, hal, beq_iff_eq.mpr heq⟩)
      split at hout
      · cases hout
      · cases hout
        exact h.sublist hactive List.filter_sublist
  | disconnect connptr inode =>
    cases hout
    exact h.sublist rfl List.filter_sublist

/-! ## §5. Runs. -/

/-- Every request in a queue conflicts with a lock of another holder. -/
def PosixLocks.NoLostWakeUp (t : PosixLocks) : Prop :=
  ∀ inode il, t inode = some il → ∀ w ∈ il.waiting,
    posixLockFindOffensiveLock il.active w.holder w.type w.start w.stop = true

theorem PosixLocks.NoWeakening.rangeOk (h : t.NoWeakening c) : (PosixStep.call c).rangeOk := by
  cases c with
  | cmd openFiles q => exact h.1
  | fileClosed | disconnected => trivial

/-- **No lost wake-up without a downgrade**: in every run whose calls meet the condition. -/
theorem posix_no_lost_wake_up (cs : List PosixCall)
    (hmeets : Lib.StepsMeet PosixLocks.call PosixLocks.NoWeakening PosixLocks.empty cs) :
    (Lib.run PosixLocks.call PosixLocks.empty cs).NoLostWakeUp := by
  let Inv := fun il => InodeWf il ∧ WaitersBlocked il
  have hempty : Inv ⟨[], []⟩ := ⟨InodeWf.empty, fun _ h => by cases h⟩
  have hrun : ∀ (cs : List PosixCall) (t : PosixLocks), t.Each Inv →
      Lib.StepsMeet PosixLocks.call PosixLocks.NoWeakening t cs →
      (Lib.run PosixLocks.call t cs).Each Inv :=
    Lib.run_invariant fun t c ht hc => by
      refine PosixLocks.Each.step (e := .call c) ht hempty fun il inode il' hil hbefore hch => ?_
      exact ⟨hil.1.change hc.rangeOk hch, hil.2.change hil.1 hbefore hc hch⟩
  intro inode il hil
  exact (hrun cs PosixLocks.empty (fun _ _ h => by cases h) hmeets inode il hil).2

/-- The requests of three owners for one file. -/
def lockRequest (sessionid : Nat) (type : LockType) (start stop : UInt64) : PosixCall :=
  .cmd [(1, 5), (2, 5), (3, 5)]
    { connptr := sessionid, holder := ⟨sessionid, 7⟩, msgid := 0, reqid := 0, inode := 5
      op := .set, type := type, start := start, stop := stop, pid := 100 }

/-- One owner waits, and an unlock elsewhere in the file leaves it waiting. -/
theorem posix_no_lost_wake_up_reader :
    Lib.StepsMeet PosixLocks.call PosixLocks.NoWeakening PosixLocks.empty
        [lockRequest 1 .wrlck 0 10, lockRequest 2 .wrlck 10 20, lockRequest 3 .rdlck 0 5,
          lockRequest 2 .unlck 10 20]
      ∧ (Lib.run PosixLocks.call PosixLocks.empty
        [lockRequest 1 .wrlck 0 10, lockRequest 2 .wrlck 10 20, lockRequest 3 .rdlck 0 5,
          lockRequest 2 .unlck 10 20]).NoLostWakeUp :=
  ⟨by decide, posix_no_lost_wake_up _ (by decide)⟩

/-- **A lost wake-up.**  The first owner waits to read what it has write locked and more; when the
second one unlocks, the grant weakens the lock the third one waits for, behind the back of the
pass. -/
theorem posix_waiting_behind_downgrade : ¬ (Lib.run PosixLocks.call PosixLocks.empty
        [lockRequest 1 .wrlck 0 10, lockRequest 2 .wrlck 10 20, lockRequest 3 .rdlck 0 5,
          lockRequest 1 .rdlck 0 20, lockRequest 2 .unlck 10 20]).NoLostWakeUp := by
  intro h
  have hlost := h 5
    ⟨[⟨⟨1, 7⟩, 100, [⟨0, 20, .rdlck⟩]⟩], [⟨⟨3, 7⟩, 3, 100, 0, 0, 0, 5, .rdlck⟩]⟩ (by decide)
    ⟨⟨3, 7⟩, 3, 100, 0, 0, 0, 5, .rdlck⟩ List.mem_cons_self
  exact absurd hlost (by decide)

end MfsMaster
