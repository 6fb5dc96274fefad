/-
  MfsMaster.Lock.SessionReplay
  **POSIX LOCKS, OPEN FILES AND SESSIONS: THE LEADER AGAINST ITS REPLICA.**

  A replica drops the locks of a closed file when it gets the record of the close.  But
  `of_delnode` grants locks to waiting requests BEFORE the RELEASE or SESDEL of the close
  is written, so the replica sees a lock that conflicts with one it still has
  (`posix_replay_close_grants`).

      posix_replays — a run replays when its closes grant nothing and the clients' lists
                      of open inodes have no repetition
-/
import MfsMaster.Lock.PosixReplay
import MfsMaster.Lock.Sessions
import MfsMaster.Inode.Replay

namespace MfsMaster.LockSystem

open OpenFiles Lib PosixLocks
open Function (update update_apply update_eq_self)

/-! ## §1. Conditions and relations. -/

/-- The removal of a session grants no lock. -/
def RemoveSafe (s : LockSystem) (sessionid : Nat) : Prop :=
  0 < sessionid ∧ sessionid < 0x80000000 →
    ∀ i ∈ s.inodesOf sessionid, CloseSafe s.locks sessionid i

instance RemoveSafe.decidable (s : LockSystem) (sessionid : Nat) :
    Decidable (s.RemoveSafe sessionid) :=
  inferInstanceAs (Decidable (_ → ∀ i ∈ s.inodesOf sessionid, _))

/-- An act whose records the replica accepts. -/
def ActSafe (s : LockSystem) : LockAct → Prop
  | .opened sessionid inode => (sessionid, inode) ∉ s.openFiles
  | .closed sessionid inode =>
    (sessionid, inode) ∈ s.openFiles ∧ CloseSafe s.locks sessionid inode
  | .removed sessionid => sessionid ∈ s.sessions.map Ses.sessionid ∧ s.RemoveSafe sessionid
  | .cmd q => q.start < q.stop
  | .disconnected _ | .connection _ => True

/-- An event whose closes grant nothing: every request of another session that waits for a closed
file is blocked by a lock of a session that stays; and a list without repetition. -/
def EventSafe (s : LockSystem) : LockEvent → Prop
  | .sync sessionid inodes =>
    inodes.Nodup ∧ ∀ i ∈ s.openFiles.syncClosed sessionid inodes, CloseSafe s.locks sessionid i
  | .check start sustain now =>
    start + 120 ≤ now →
      StepsMeet (fun s sessionid => (s.act (.removed sessionid)).1) RemoveSafe s
        ((s.sessions.filter (expired sustain now)).map Ses.sessionid)
  | .forceRemove sessionid =>
    (∀ ses ∈ s.sessions, ses.sessionid = sessionid → ses.nsocks = 0) → s.RemoveSafe sessionid
  | .lock q => q.start < q.stop
  | .openfile _ _ | .disconnected _ | .connection _ => True

instance EventSafe.decidable (s : LockSystem) : (e : LockEvent) → Decidable (s.EventSafe e)
  | .sync .. => inferInstanceAs (Decidable (_ ∧ ∀ i ∈ _, _))
  | .check .. => inferInstanceAs (Decidable (_ → StepsMeet _ _ s _))
  | .forceRemove _ => inferInstanceAs (Decidable ((∀ ses ∈ s.sessions, _ → _) → _))
  | .lock q => inferInstanceAs (Decidable (q.start < q.stop))
  | .openfile _ _ | .disconnected _ | .connection _ => isTrue trivial

/-- A state in order: no relation and no session twice, locks in order, no record without an
active lock. -/
structure WF (s : LockSystem) : Prop where
  files : s.openFiles.Nodup
  sessions : (s.sessions.map Ses.sessionid).Nodup
  locks : s.locks.Each LeaderWf

/-- The same open files, sessions, and ranges of every holder on every inode. -/
structure SameState (s t : LockSystem) : Prop where
  files : ∀ p, p ∈ s.openFiles ↔ p ∈ t.openFiles
  sessions : ∀ id, id ∈ s.sessions.map Ses.sessionid ↔ id ∈ t.sessions.map Ses.sessionid
  ranges : ∀ inode h, rangesOf h (s.locks.before inode).active
    = rangesOf h (t.locks.before inode).active

/-- A replica in step with the leader. -/
structure InStep (s t : LockSystem) : Prop where
  leader : s.WF
  filesNodup : t.openFiles.Nodup
  files : ∀ p, p ∈ s.openFiles ↔ p ∈ t.openFiles
  sessions : ∀ id, id ∈ s.sessions.map Ses.sessionid ↔ id ∈ t.sessions.map Ses.sessionid
  mirrors : ∀ i, Mirrors (s.locks.before i).active (t.locks i)

theorem Mirrors.rangesOf_eq {active : List ALock} {t : PosixLocks} {i : Nat}
    (h : Mirrors active (t i)) {g : Holder} :
    rangesOf g active = rangesOf g (t.before i).active := by
  obtain ⟨a, _, hsame, ho⟩ := h
  rw [hsame, before, ho]
  unfold recordOf
  split
  next hempty => rw [List.isEmpty_iff.mp hempty]; rfl
  · rfl

variable {s t : LockSystem} {inode sessionid : Nat} {xs : List Nat}

theorem InStep.sameState (h : InStep s t) : SameState s t :=
  ⟨h.files, h.sessions, fun i _ => Mirrors.rangesOf_eq (h.mirrors i)⟩

/-- A replica with the same state and without queues is in step. -/
theorem inStep_of_sameState (hs : s.WF) (ht : t.WF)
    (hqueue : ∀ i il, t.locks i = some il → il.waiting = []) (h : SameState s t) : InStep s t where
  leader := hs
  filesNodup := ht.files
  files := h.files
  sessions := h.sessions
  mirrors := by
    intro i
    refine ⟨(t.locks.before i).active, ?_, h.ranges i, ?_⟩
    · unfold before
      cases hil : t.locks i with
      | none => exact ActiveWf.nil
      | some il => exact (ht.locks i il hil).1.active
    · unfold before
      cases hil : t.locks i with
      | none => rfl
      | some il =>
        rw [Option.getD_some, recordOf_ne_nil (ht.locks i il hil).2]
        congr 1
        cases il
        congr 1
        exact hqueue i _ hil

/-! ## §2. Locks of one inode change. -/

theorem before_update {t : PosixLocks} {i : Nat} {o : Option InodeLocks} :
    before (update t inode o) i = if i = inode then o.getD ⟨[], []⟩ else t.before i := by
  unfold before
  rw [update_apply]
  split <;> rfl

theorem InStep.put (h : InStep s t) {o o' : Option InodeLocks}
    (hwf : ∀ il, o = some il → LeaderWf il) (hm : Mirrors (o.getD ⟨[], []⟩).active o') :
    InStep { s with locks := update s.locks inode o }
      { t with locks := update t.locks inode o' } := by
  refine ⟨⟨h.leader.files, h.leader.sessions, fun i il hil => ?_⟩, h.filesNodup, h.files,
    h.sessions, fun i => ?_⟩
  · have hil : update s.locks inode o i = some il := hil
    rw [update_apply] at hil
    split at hil
    · exact hwf il hil
    · exact h.leader.locks i il hil
  · show Mirrors (before (update s.locks inode o) i).active (update t.locks inode o' i)
    rw [before_update, update_apply]
    split
    · exact hm
    · exact h.mirrors i

/-- The leader's queue of an inode changes, nothing else. -/
theorem InStep.queue (h : InStep s t) {il il' : InodeLocks}
    (hil : s.locks inode = some il) (hactive : il'.active = il.active)
    (hwaiting : ∀ w ∈ il'.waiting, w.start < w.stop ∧ w.type ≠ .unlck) :
    InStep { s with locks := update s.locks inode (some il') } t := by
  have hwf := h.leader.locks inode il hil
  have hself : { t with locks := update t.locks inode (t.locks inode) } = t := by
    rw [update_eq_self]
  rw [← hself]
  refine h.put (fun x hx => ?_) ?_
  · cases hx
    exact ⟨⟨hactive ▸ hwf.1.active, hwaiting⟩, hactive ▸ hwf.2⟩
  have hm := h.mirrors inode
  rw [before, hil] at hm
  show Mirrors il'.active (t.locks inode)
  rw [hactive]
  exact hm

/-- Records of locks only change the locks. -/
theorem replay_posixlock (t : LockSystem) (rs : List PosixRecord) {l : PosixLocks}
    (h : replay mrApply t.locks rs = some l) :
    replay applyRecord t (rs.map .posixlock) = some { t with locks := l } := by
  induction rs generalizing t with
  | nil =>
    cases h
    rfl
  | cons r rs ih =>
    rw [replay, List.foldlM_cons] at h
    obtain ⟨l', hl', hrest⟩ := Option.bind_eq_some_iff.mp h
    have hstep : applyRecord t (.posixlock r) = some { t with locks := l' } := by
      unfold mrApply at hl'
      rw [Status.toOption_eq_some] at hl'
      exact Status.toOption_eq_some.mpr ⟨hl'.1, by rw [hl'.2]⟩
    rw [List.map_cons, replay, List.foldlM_cons, hstep]
    exact ih { t with locks := l' } hrest

/-- **A request, replayed.** -/
theorem act_cmd_replays (h : InStep s t) {q : PosixRequest} (hlt : q.start < q.stop) :
    ∃ t', replay applyRecord t (s.act (.cmd q)).2 = some t' ∧ InStep (s.act (.cmd q)).1 t' := by
  show ∃ t', replay applyRecord t ((s.locks.posixLockCmd s.openFiles q).2.log.map .posixlock)
      = some t' ∧ InStep { s with locks := (s.locks.posixLockCmd s.openFiles q).2.table } t'
  rcases cmd_cases with ⟨hlog, hsame | hqueue⟩ | hgrant
  · rw [hlog, hsame]
    exact ⟨t, rfl, h⟩
  · obtain ⟨il, il', hil, htable, hactive, hwaiting⟩ := hqueue
    rw [hlog, htable]
    refine ⟨t, rfl, h.queue hil hactive fun w hw => ?_⟩
    have hold := (h.leader.locks q.inode il hil).1.waiting
    rcases hwaiting with hsub | ⟨happ, htype⟩
    · exact hold w (hsub.subset hw)
    rw [happ] at hw
    rcases List.mem_append.mp hw with hw | hw
    · exact hold w hw
    · exact (List.mem_singleton.mp hw) ▸ ⟨hlt, htype⟩
  · obtain ⟨il, hbefore, hres, hok⟩ := hgrant
    have hwf : InodeWf il := by
      rw [← hbefore, before]
      cases hil : s.locks q.inode with
      | none => exact InodeWf.empty
      | some il => exact (h.leader.locks q.inode il hil).1
    have hm : Mirrors il.active (t.locks q.inode) := hbefore ▸ h.mirrors q.inode
    have hok' : (q.type = .unlck ∧ il.active ≠ [])
        ∨ (q.type ≠ .unlck ∧ (waitFor q).blocked il.active = false) := by
      refine hok.imp (fun hu => ⟨hu.1, ?_⟩) id
      exact (h.leader.locks q.inode il hu.2).2
    obtain ⟨o, hrep, hm'⟩ := replay_applyAndCheck hwf hlt hm hok'
    rw [hres]
    refine ⟨_, replay_posixlock t _ hrep, h.put (fun il' hil' => ?_) hm'⟩
    exact LeaderWf.checkWaiting (hwf.applied hlt q.holder q.type q.pid) hil'

/-! ## §3. Files are closed. -/

theorem delnodes_sessions :
    (logRun (fun s i => ofDelnode s sessionid i) s xs).1.sessions = s.sessions := by
  induction xs generalizing s with
  | nil => rfl
  | cons x xs ih =>
    rw [logRun_cons]
    exact ih

/-- A safe close leaves the locks of other files as they are, and with them their closes safe. -/
theorem closeSafe_ofDelnode {x y : Nat} (hy : CloseSafe s.locks sessionid y) (hne : y ≠ x)
    (hx : CloseSafe s.locks sessionid x) :
    CloseSafe (s.ofDelnode sessionid x).1.locks sessionid y := by
  have hlocks : (s.ofDelnode sessionid x).1.locks y = _ := (fileClosed_safe hx).2 y
  unfold CloseSafe before
  rw [hlocks, if_neg hne]
  exact hy

/-- **Files closed one after the other**, none of them with a grant. -/
theorem delnodes_safe (hnodup : xs.Nodup) (hsafe : ∀ x ∈ xs, CloseSafe s.locks sessionid x) :
    (logRun (fun s i => ofDelnode s sessionid i) s xs).2 = []
      ∧ (logRun (fun s i => ofDelnode s sessionid i) s xs).1.openFiles
          = s.openFiles.diff (xs.map (Prod.mk sessionid))
      ∧ ∀ i, (logRun (fun s i => ofDelnode s sessionid i) s xs).1.locks i
          = if i ∈ xs then (s.locks i).bind (closedLocks sessionid) else s.locks i := by
  induction xs generalizing s with
  | nil => exact ⟨rfl, rfl, fun i => rfl⟩
  | cons x xs ih =>
    obtain ⟨hx, hnodup⟩ := List.nodup_cons.mp hnodup
    obtain ⟨hxsafe, hsafe⟩ := List.forall_mem_cons.mp hsafe
    obtain ⟨hlog, htable⟩ := fileClosed_safe hxsafe
    have hlocks : ∀ i, (s.ofDelnode sessionid x).1.locks i
        = if i = x then (s.locks x).bind (closedLocks sessionid) else s.locks i := htable
    obtain ⟨hlog', hopen, htable'⟩ := ih hnodup fun y hy =>
      closeSafe_ofDelnode (hsafe y hy) (ne_of_mem_of_not_mem hy hx) hxsafe
    rw [logRun_cons]
    refine ⟨?_, ?_, fun i => ?_⟩
    · show (s.ofDelnode sessionid x).2 ++ _ = []
      rw [hlog', List.append_nil]
      exact hlog
    · dsimp only
      rw [hopen, List.map_cons, List.diff_cons]
      rfl
    dsimp only
    rw [htable', hlocks]
    by_cases hi : i = x
    · rw [if_neg (hi ▸ hx), if_pos hi, if_pos (hi ▸ List.mem_cons_self), hi]
    rw [if_neg hi]
    by_cases hmem : i ∈ xs
    · rw [if_pos hmem, if_pos (List.mem_cons_of_mem x hmem)]
    · rw [if_neg hmem, if_neg fun hc => (List.mem_cons.mp hc).elim hi hmem]

/-- The same files closed on both sides. -/
theorem InStep.delnodes (h : InStep s t) {ys : List Nat} (hxs : xs.Nodup) (hys : ys.Nodup)
    (hsame : ∀ i, i ∈ xs ↔ i ∈ ys) (hsafe : ∀ x ∈ xs, CloseSafe s.locks sessionid x) :
    InStep (logRun (fun s i => ofDelnode s sessionid i) s xs).1
      (logRun (fun s i => ofDelnode s sessionid i) t ys).1 := by
  obtain ⟨_, hopen, hlocks⟩ := delnodes_safe hxs hsafe
  obtain ⟨_, hopen', hlocks'⟩ := delnodes_safe hys fun y _ => (h.mirrors y).closeSafe
  refine ⟨⟨?_, ?_, fun i il' hil' => ?_⟩, ?_, fun p => ?_, fun id => ?_, fun i => ?_⟩
  · rw [hopen]
    exact h.leader.files.diff
  · rw [delnodes_sessions]
    exact h.leader.sessions
  · rw [hlocks] at hil'
    split at hil'
    next hi =>
      obtain ⟨il, hil, hil'⟩ := Option.bind_eq_some_iff.mp hil'
      refine (h.leader.locks i il hil).closed ?_ hil'
      rw [← before_of_some hil]
      exact hsafe i hi
    · exact h.leader.locks i il' hil'
  · rw [hopen']
    exact h.filesNodup.diff
  · rw [hopen, hopen', h.leader.files.mem_sdiff_iff, h.filesNodup.mem_sdiff_iff, h.files]
    refine and_congr_right fun _ => not_congr ?_
    simp only [List.mem_map, hsame]
  · rw [delnodes_sessions, delnodes_sessions]
    exact h.sessions id
  · unfold before
    rw [hlocks, hlocks']
    by_cases hi : i ∈ xs
    · rw [if_pos hi, if_pos ((hsame i).mp hi), closedLocks_active]
      exact (h.mirrors i).closed
    · rw [if_neg hi, if_neg fun hc => hi ((hsame i).mpr hc)]
      exact h.mirrors i

theorem logRun_one :
    logRun (fun s i => ofDelnode s sessionid i) s [inode]
      = ((s.ofDelnode sessionid inode).1, (s.ofDelnode sessionid inode).2 ++ []) := rfl

/-- **A close, replayed.** -/
theorem act_closed_replays (h : InStep s t)
    (hopen : (sessionid, inode) ∈ s.openFiles) (hsafe : CloseSafe s.locks sessionid inode) :
    ∃ t', replay applyRecord t (s.act (.closed sessionid inode)).2 = some t'
      ∧ InStep (s.act (.closed sessionid inode)).1 t' := by
  have hone : ∀ x ∈ [inode], CloseSafe s.locks sessionid x := fun x hx =>
    (List.mem_singleton.mp hx) ▸ hsafe
  have hlog := (delnodes_safe (List.nodup_singleton inode) hone).1
  have hstep := h.delnodes (List.nodup_singleton inode) (List.nodup_singleton inode)
    (fun _ => Iff.rfl) hone
  rw [logRun_one] at hlog hstep
  rw [logRun_one] at hstep
  have hlog : (s.ofDelnode sessionid inode).2 = [] := (List.append_eq_nil_iff.mp hlog).1
  refine ⟨(t.ofDelnode sessionid inode).1, ?_, hstep⟩
  show replay applyRecord t ((s.ofDelnode sessionid inode).2.map _ ++ [.release sessionid inode]) = _
  rw [hlog, List.map_nil, List.nil_append, replay_singleton]
  refine if_pos ?_
  rw [ofChecknode, List.contains_iff_mem, ← h.files]
  exact hopen

/-! ## §4. Sessions are removed. -/

theorem mem_inodesOf {i : Nat} : i ∈ s.inodesOf sessionid ↔ (sessionid, i) ∈ s.openFiles := by
  unfold inodesOf
  simp only [List.mem_map, List.mem_filter, beq_iff_eq, Prod.exists, exists_eq_right]

theorem nodup_inodesOf (h : s.openFiles.Nodup) (sessionid : Nat) :
    (s.inodesOf sessionid).Nodup := by
  refine List.Nodup.map_on (fun p hp p' hp' heq => ?_) (h.filter _)
  have hses := (List.mem_filter.mp hp).2
  have hses' := (List.mem_filter.mp hp').2
  rw [beq_iff_eq] at hses hses'
  exact Prod.ext (hses.trans hses'.symm) heq

theorem map_eraseP_sessionid {l : List Ses} :
    (l.eraseP fun ses => ses.sessionid == sessionid).map Ses.sessionid
      = (l.map Ses.sessionid).erase sessionid := by
  rw [List.erase_eq_eraseP', List.eraseP_map]
  rfl

theorem map_filter_sessionid {l : List Ses} :
    (l.filter fun ses => ses.sessionid != sessionid).map Ses.sessionid
      = (l.map Ses.sessionid).filter (· != sessionid) := by
  rw [List.filter_map]
  rfl

/-- The session itself goes, on both sides. -/
theorem InStep.dropSes (h : InStep s t) {sessionid : Nat} :
    InStep { s with sessions := s.sessions.eraseP fun ses => ses.sessionid == sessionid }
      { t with sessions := t.sessions.filter fun ses => ses.sessionid != sessionid } := by
  refine ⟨⟨h.leader.files, ?_, h.leader.locks⟩, h.filesNodup, h.files, fun id => ?_, h.mirrors⟩
  · exact h.leader.sessions.sublist (List.eraseP_sublist.map _)
  · show id ∈ (s.sessions.eraseP _).map _ ↔ id ∈ (t.sessions.filter _).map _
    rw [map_eraseP_sessionid, map_filter_sessionid, h.leader.sessions.erase_eq_filter,
      List.mem_filter, List.mem_filter, h.sessions]

/-- **The removal of a session, replayed.** -/
theorem act_removed_replays (h : InStep s t)
    (hses : sessionid ∈ s.sessions.map Ses.sessionid) (hsafe : s.RemoveSafe sessionid) :
    ∃ t', replay applyRecord t (s.act (.removed sessionid)).2 = some t'
      ∧ InStep (s.act (.removed sessionid)).1 t' := by
  have hclean : (s.sessionsCleanSession sessionid).2 = []
      ∧ InStep (s.sessionsCleanSession sessionid).1 (t.sessionsCleanSession sessionid).1 := by
    unfold sessionsCleanSession
    split
    next hid =>
      have hxs := nodup_inodesOf h.leader.files sessionid
      refine ⟨(delnodes_safe hxs (hsafe hid)).1, ?_⟩
      refine h.delnodes hxs (nodup_inodesOf h.filesNodup sessionid) (fun i => ?_) (hsafe hid)
      rw [mem_inodesOf, mem_inodesOf, h.files]
    · exact ⟨rfl, h⟩
  refine ⟨_, ?_, hclean.2.dropSes⟩
  show replay applyRecord t ((s.sessionsCleanSession sessionid).2.map _ ++ [.sesdel sessionid]) = _
  rw [hclean.1, List.map_nil, List.nil_append, replay_singleton]
  have hany : (t.sessions.any fun ses => ses.sessionid == sessionid) = true := by
    obtain ⟨ses, hmem, heq⟩ := List.mem_map.mp ((h.sessions sessionid).mp hses)
    exact List.any_eq_true.mpr ⟨ses, hmem, beq_iff_eq.mpr heq⟩
  show Status.toOption (t.sessionsMrSesdel sessionid) = _
  unfold sessionsMrSesdel
  rw [if_pos hany, Status.toOption_ok]

/-! ## §5. Acts and events. -/

/-- **Every safe act replays.** -/
theorem act_replays {a : LockAct} (h : InStep s t) (hsafe : s.ActSafe a) :
    ∃ t', replay applyRecord t (s.act a).2 = some t' ∧ InStep (s.act a).1 t' := by
  cases a with
  | opened sessionid inode =>
    have hno : t.openFiles.ofChecknode sessionid inode = false := by
      rw [ofChecknode, ← Bool.not_eq_true, List.contains_iff_mem, ← h.files]
      exact hsafe
    refine ⟨{ t with openFiles := t.openFiles.ofNewnode sessionid inode }, ?_, ?_⟩
    · show replay applyRecord t [.acquire sessionid inode] = _
      rw [replay_singleton]
      show Status.toOption ((t.openFiles.ofMrAcquire sessionid inode).1, _) = _
      unfold ofMrAcquire
      rw [hno]
      rfl
    · refine ⟨⟨List.nodup_cons.mpr ⟨hsafe, h.leader.files⟩, h.leader.sessions, h.leader.locks⟩,
        List.nodup_cons.mpr ⟨fun hc => hsafe ((h.files _).mpr hc), h.filesNodup⟩, fun p => ?_,
        h.sessions, h.mirrors⟩
      show p ∈ (sessionid, inode) :: s.openFiles ↔ p ∈ (sessionid, inode) :: t.openFiles
      rw [List.mem_cons, List.mem_cons, h.files]
  | closed sessionid inode => exact act_closed_replays h hsafe.1 hsafe.2
  | removed sessionid => exact act_removed_replays h hsafe.1 hsafe.2
  | cmd q => exact act_cmd_replays h hsafe
  | disconnected connptr =>
    refine ⟨t, rfl, ⟨⟨h.leader.files, h.leader.sessions, fun i il' hil' => ?_⟩, h.filesNodup,
      h.files, h.sessions, fun i => ?_⟩⟩
    · obtain ⟨il, hil, heq⟩ := Option.map_eq_some_iff.mp hil'
      have hwf := h.leader.locks i il hil
      rw [← heq]
      exact ⟨hwf.1.sublist rfl List.filter_sublist, hwf.2⟩
    · have hm := h.mirrors i
      dsimp only [act, before, posixLockDisconnected] at hm ⊢
      cases hil : s.locks i with
      | none | some => rwa [hil] at hm
  | connection ses =>
    have hids : (s.sessions.map fun x => if x.sessionid = ses.sessionid then ses else x).map
        Ses.sessionid = s.sessions.map Ses.sessionid := by
      rw [List.map_map]
      refine List.map_congr_left fun x _ => ?_
      show (if x.sessionid = ses.sessionid then ses else x).sessionid = x.sessionid
      split
      next heq => exact heq.symm
      · rfl
    refine ⟨t, rfl, ⟨⟨h.leader.files, ?_, h.leader.locks⟩, h.filesNodup, h.files, fun id => ?_,
      h.mirrors⟩⟩
    · show (List.map Ses.sessionid (List.map _ s.sessions)).Nodup
      rw [hids]
      exact h.leader.sessions
    show id ∈ List.map Ses.sessionid (List.map _ s.sessions) ↔ _
    rw [hids]
    exact h.sessions id

/-- The closes of `of_sync`, and what comes after them. -/
theorem stepsMeet_closed {rest : List LockAct}
    (hnodup : xs.Nodup) (hopen : ∀ x ∈ xs, (sessionid, x) ∈ s.openFiles)
    (hsafe : ∀ x ∈ xs, CloseSafe s.locks sessionid x)
    (hrest : ∀ s' : LockSystem, s'.openFiles = s.openFiles.diff (xs.map (Prod.mk sessionid)) →
      StepsMeet (fun s a => (act s a).1) ActSafe s' rest) :
    StepsMeet (fun s a => (act s a).1) ActSafe s (xs.map (.closed sessionid) ++ rest) := by
  induction xs generalizing s with
  | nil => exact hrest s rfl
  | cons x xs ih =>
    obtain ⟨hx, hnodup⟩ := List.nodup_cons.mp hnodup
    obtain ⟨hxsafe, hsafe⟩ := List.forall_mem_cons.mp hsafe
    refine ⟨⟨hopen x List.mem_cons_self, hxsafe⟩, ih hnodup (fun y hy => ?_) (fun y hy => ?_)
      fun s' hs' => hrest s' ?_⟩
    · show (sessionid, y) ∈ s.openFiles.erase (sessionid, x)
      refine (List.mem_erase_of_ne fun heq => hx ?_).mpr (hopen y (List.mem_cons_of_mem x hy))
      exact (Prod.mk.inj heq).2 ▸ hy
    · exact closeSafe_ofDelnode (hsafe y hy) (ne_of_mem_of_not_mem hy hx) hxsafe
    · rw [hs', List.map_cons, List.diff_cons]
      rfl

/-- The opens of `of_sync`. -/
theorem stepsMeet_opened (hnodup : xs.Nodup) (hnew : ∀ x ∈ xs, (sessionid, x) ∉ s.openFiles) :
    StepsMeet (fun s a => (act s a).1) ActSafe s (xs.map (.opened sessionid)) := by
  induction xs generalizing s with
  | nil => trivial
  | cons x xs ih =>
    obtain ⟨hx, hnodup⟩ := List.nodup_cons.mp hnodup
    refine ⟨hnew x List.mem_cons_self, ih hnodup fun y hy hmem => ?_⟩
    rcases List.mem_cons.mp hmem with heq | hmem
    · exact hx ((Prod.mk.inj heq).2 ▸ hy)
    · exact hnew y (List.mem_cons_of_mem x hy) hmem

theorem removed_sessions :
    (s.act (.removed sessionid)).1.sessions
      = s.sessions.eraseP fun ses => ses.sessionid == sessionid := by
  show ((s.sessionsCleanSession sessionid).1.sessions.eraseP _) = _
  unfold sessionsCleanSession
  split
  · show ((logRun _ s _).1.sessions.eraseP _) = _
    rw [delnodes_sessions]
  · rfl

/-- The removals of `sessions_check`. -/
theorem stepsMeet_removed {ids : List Nat} (hnodup : ids.Nodup)
    (hmem : ∀ id ∈ ids, id ∈ s.sessions.map Ses.sessionid)
    (hsafe : StepsMeet (fun s sessionid => (s.act (.removed sessionid)).1) RemoveSafe s ids) :
    StepsMeet (fun s a => (act s a).1) ActSafe s (ids.map .removed) := by
  induction ids generalizing s with
  | nil => trivial
  | cons id ids ih =>
    obtain ⟨hid, hnodup⟩ := List.nodup_cons.mp hnodup
    refine ⟨⟨hmem id List.mem_cons_self, hsafe.1⟩, ih hnodup (fun x hx => ?_) hsafe.2⟩
    rw [removed_sessions, map_eraseP_sessionid]
    refine (List.mem_erase_of_ne ?_).mpr (hmem x (List.mem_cons_of_mem id hx))
    exact ne_of_mem_of_not_mem hx hid

/-- The acts of a safe event are safe, one after the other. -/
theorem acts_safe {e : LockEvent} (hwf : s.WF) (hsafe : s.EventSafe e) :
    StepsMeet (fun s a => (act s a).1) ActSafe s (s.acts e) := by
  cases e with
  | openfile sessionid inode =>
    dsimp only [acts]
    split
    · trivial
    next hno =>
      refine ⟨fun hmem => hno ?_, trivial⟩
      exact List.contains_iff_mem.mpr hmem
  | sync sessionid inodes =>
    obtain ⟨hnodup, hclose⟩ := hsafe
    obtain ⟨hopened, hnew⟩ := (nodup_syncOpened_iff s.openFiles sessionid).mp hnodup
    refine stepsMeet_closed (nodup_syncClosed hwf.files) (fun x hx => (mem_syncClosed.mp hx).1)
      hclose fun s' hs' => stepsMeet_opened hopened fun x hx => ?_
    rw [hs', diff_syncClosed hwf.files]
    exact hnew x hx
  | check start sustain now =>
    dsimp only [acts]
    split
    · trivial
    next htime =>
    have hids : (s.sessions.filter (expired sustain now)).map (fun ses => .removed ses.sessionid)
        = ((s.sessions.filter (expired sustain now)).map Ses.sessionid).map LockAct.removed := by
      rw [List.map_map]
      rfl
    rw [hids]
    refine stepsMeet_removed ?_ (fun id hid => ?_) (hsafe (UInt32.not_lt.mp htime))
    · exact hwf.sessions.sublist (List.filter_sublist.map _)
    · exact (List.filter_sublist.map _).subset hid
  | forceRemove sessionid =>
    dsimp only [acts]
    split
    next ses hfind =>
      have hmem := List.mem_of_find?_eq_some hfind
      have hfound := List.find?_some hfind
      have hid : ses.sessionid = sessionid := beq_iff_eq.mp hfound
      split
      next hsocks =>
        refine ⟨⟨List.mem_map.mpr ⟨ses, hmem, hid⟩, hsafe fun x hx hxid => ?_⟩, trivial⟩
        -- the session with this number
        have heq : x = ses := List.inj_on_of_nodup_map hwf.sessions hx hmem (hxid.trans hid.symm)
        rw [heq]
        exact hsocks
      · trivial
    · trivial
  | lock q => exact ⟨hsafe, trivial⟩
  | disconnected | connection => exact ⟨trivial, trivial⟩

/-! ## §6. Runs. -/

/-- **The change log reproduces locks, open files and sessions** in every run whose events are
safe. -/
theorem posix_replays (s t : LockSystem) (hs : s.WF) (ht : t.WF)
    (hqueue : ∀ i il, t.locks i = some il → il.waiting = []) (hsame : SameState s t)
    (es : List LockEvent) (hsafe : StepsMeet (fun s e => (leaderStep s e).1) EventSafe s es) :
    Replays leaderStep applyRecord SameState s t es := by
  have hstep : ∀ (s t : LockSystem) (e : LockEvent), InStep s t → s.EventSafe e →
      ∃ t', replay applyRecord t (leaderStep s e).2 = some t' ∧ InStep (leaderStep s e).1 t' := by
    intro s t e h he
    exact replay_run (fun s t a h ha => act_replays h ha) (s.acts e) s t h
      (acts_safe h.leader he)
  exact (replay_run hstep es s t (inStep_of_sameState hs ht hqueue hsame) hsafe).mono
    fun _ _ h => h.sameState

/-- Two sessions that have a file open, no locks. -/
def twoSessions : LockSystem :=
  { openFiles := [(1, 5), (2, 5)]
    sessions := [⟨1, 1, false, 0⟩, ⟨2, 1, false, 0⟩]
    locks := empty }

/-- Both sessions ask for a write lock on the first ten bytes. -/
def writeLock (sessionid : Nat) : LockEvent :=
  .lock { connptr := sessionid, holder := ⟨sessionid, 7⟩, msgid := 0, reqid := 0, inode := 5
          op := .set, type := .wrlck, start := 0, stop := 10, pid := 100 }

theorem twoSessions_wf : twoSessions.WF := ⟨by decide, by decide, fun _ _ h => by cases h⟩

/-- The session that waits closes the file: nothing is granted. -/
theorem posix_replays_waiter_closes :
    Replays leaderStep applyRecord SameState twoSessions twoSessions
      [writeLock 1, writeLock 2, .sync 2 []] :=
  posix_replays twoSessions twoSessions twoSessions_wf twoSessions_wf nofun
    ⟨fun _ => Iff.rfl, fun _ => Iff.rfl, fun _ _ => rfl⟩ _ (by decide)

/-- **A close that grants does not replay.**  The first session closes the file; the lock goes to
the second one, whose record comes before the RELEASE. -/
theorem posix_replay_close_grants : replay applyRecord twoSessions
      (logRun leaderStep twoSessions [writeLock 1, writeLock 2, .sync 1 []]).2 = none := by
  rfl

end MfsMaster.LockSystem
