/-
  MfsMaster.Lock.FlockReplay
  **WHOLE-FILE LOCKS: THE LEADER AGAINST ITS REPLICA.**

  Records are written where a lock enters or leaves the active list.  Two branches change
  the type of a lock that stays in it and write nothing: `TRY_SHARED` of a writer and
  `TRY_EXCLUSIVE` of the only reader.  The next lock the leader lets in is then refused by
  the replica (`flock_replay_silent_downgrade`).  And a `U` record takes away all locks
  of a holder, where the leader takes away one.

      flock_replays — without those two branches, and with one lock a holder, every
                      run replays
-/
import MfsMaster.Lock.FlockExclusive

namespace MfsMaster

open Lib FInode
open Function (update update_apply)

/-! ## §1. One inode on the replica. -/

/-- What a replica knows of a lock. -/
def FLock.key (l : FLock) : Holder × LType := (l.holder, l.ltype)

/-- The replica has the same active locks, in any order. -/
def FMirrors (active : List FLock) (o : Option FInode) : Prop :=
  ((o.getD ⟨[], []⟩).active.map FLock.key).Perm (active.map FLock.key)

namespace FlockTable

/-- `flock_mr_change` as a step of a replay. -/
def mrApply (t : FlockTable) (r : FlockRecord) : Option FlockTable :=
  Status.toOption (t.flockMrChange r)

end FlockTable

variable {o o' : Option FInode} {t s : FlockTable} {l : FLock} {il : FInode} {q : FlockRequest}
  {ls : List FLock}

theorem FMirrors.mem_key {active : List FLock} (h : FMirrors active o)
    {a : FLock} (ha : a ∈ (o.getD ⟨[], []⟩).active) : ∃ b ∈ active, b.key = a.key := by
  have hmem := h.mem_iff.mp (List.mem_map_of_mem ha)
  exact List.mem_map.mp hmem

/-- A lock becomes active. -/
theorem FMirrors.attach {inode : Nat} {active : List FLock} (h : FMirrors active (t inode))
    (hfree : active = [] ∨ (l.ltype = .reader ∧ ∀ a ∈ active, a.ltype = .reader)) :
    ReplaysAt FlockTable.mrApply t inode [⟨inode, l.holder, l.ltype.letter⟩]
      (FMirrors (l :: active)) := by
  have hno : (((t inode).getD ⟨[], []⟩).active.head?.any fun a =>
      a.ltype == .writer || l.ltype == .writer) = false := by
    cases hact : ((t inode).getD ⟨[], []⟩).active with
    | nil => rfl
    | cons a ls =>
      have hmem : a ∈ ((t inode).getD ⟨[], []⟩).active := by
        rw [hact]
        exact List.mem_cons_self
      obtain ⟨b, hb, hkey⟩ := h.mem_key hmem
      rcases hfree with hnil | ⟨hl, hall⟩
      · rw [hnil] at hb
        cases hb
      have ha : a.ltype = .reader := (congrArg Prod.snd hkey).symm.trans (hall b hb)
      rw [List.head?_cons, Option.any_some, ha, hl]
      rfl
  have hattach : t.attach inode l.holder l.ltype
      = some (update t inode (some { (t inode).getD ⟨[], []⟩ with
          active := ⟨l.holder, 0, l.ltype, []⟩ :: ((t inode).getD ⟨[], []⟩).active })) := by
    unfold FlockTable.attach
    dsimp only
    rw [hno]
    rfl
  have happly : t.mrApply ⟨inode, l.holder, l.ltype.letter⟩ = t.attach inode l.holder l.ltype := by
    unfold FlockTable.mrApply FlockTable.flockMrChange
    cases htype : l.ltype with
    | reader | writer =>
      rw [htype] at hattach
      dsimp only [LType.letter]
      rw [hattach]
      rfl
  exact .one (happly.trans hattach) (List.Perm.cons _ h)

theorem nonempty_getD : il.nonempty.getD ⟨[], []⟩ = il := by
  unfold nonempty
  split
  next hempty =>
    rw [Bool.and_eq_true, List.isEmpty_iff, List.isEmpty_iff] at hempty
    obtain ⟨active, waiting⟩ := il
    rw [Option.getD_none]
    exact congrArg₂ mk hempty.2.symm hempty.1.symm
  · rfl

/-- Taking out a lock is taking out its holder. -/
theorem erase_eq_filter {active : List FLock} (hnodup : (active.map FLock.holder).Nodup)
    (hmem : l ∈ active) : active.erase l = active.filter fun a => a.holder != l.holder := by
  rw [(List.Nodup.of_map _ hnodup).erase_eq_filter]
  refine List.filter_congr fun a ha => ?_
  rw [Bool.eq_iff_iff, bne_iff_ne, bne_iff_ne]
  refine not_congr ⟨congrArg _, fun heq => ?_⟩
  exact List.inj_on_of_nodup_map hnodup ha hmem heq

/-- A lock is taken away. -/
theorem FMirrors.unlock {inode : Nat} {active : List FLock} (h : FMirrors active (t inode))
    (hnodup : (active.map FLock.holder).Nodup) (hmem : l ∈ active) :
    ReplaysAt FlockTable.mrApply t inode [⟨inode, l.holder, .u⟩] (FMirrors (active.erase l)) := by
  cases hil : t inode with
  | none =>
    -- then the leader would have no lock either
    have hkey := h.mem_iff.mpr (List.mem_map_of_mem hmem)
    rw [hil] at hkey
    cases hkey
  | some il =>
    refine .one (o := { il with active := il.active.filter fun a => a.holder != l.holder }.nonempty)
      ?_ ?_
    · unfold FlockTable.mrApply FlockTable.flockMrChange
      rw [hil]
      rfl
    unfold FMirrors at h ⊢
    rw [hil] at h
    rw [nonempty_getD, erase_eq_filter hnodup hmem]
    have hfilter := List.Perm.filter (fun p : Holder × LType => p.1 != l.holder) h
    rw [List.filter_map, List.filter_map] at hfilter
    exact hfilter

/-! ## §2. The functions of an inode, replayed. -/

section
variable {t : FlockTable} {inode : Nat} (mode : FlockMode)

/-- Readers are let in one after the other. -/
theorem replay_letIn {active : List FLock} (h : FMirrors active (t inode))
    (hall : ∀ a ∈ active, a.ltype = .reader) (hls : ∀ l ∈ ls, l.ltype = .reader) :
    ReplaysAt FlockTable.mrApply t inode
      (FlockTable.records inode (ls.map fun a => (a.holder, .r)))
      (FMirrors ((ls.map FLock.woken).reverse ++ active)) := by
  induction ls generalizing active t with
  | nil => exact .nil h
  | cons l ls ih =>
    obtain ⟨hl, hls⟩ := List.forall_mem_cons.mp hls
    have hfirst := h.attach (l := l.woken) (.inr ⟨hl, hall⟩)
    have hletter : l.woken.ltype.letter = .r := congrArg LType.letter hl
    rw [hletter] at hfirst
    rw [List.map_cons, List.map_cons, List.reverse_cons, List.append_assoc, List.singleton_append]
    refine hfirst.append fun t' ht' => ih ht' ?_ hls
    exact List.forall_mem_cons.mpr ⟨hl, hall⟩

/-- **The promotion routine, replayed.** -/
theorem replay_checkWaiting (il : FInode) (h : FMirrors il.active (t inode))
    (hone : OneWriter il.active) :
    ReplaysAt FlockTable.mrApply t inode
      (FlockTable.records inode (il.flockLockCheckWaiting mode).log)
      (FMirrors (il.flockLockCheckWaiting mode).il.active) := by
  unfold flockLockCheckWaiting
  split
  · exact .nil h
  next l ls hw =>
  split
  next hfirst =>
    rw [Bool.and_eq_true, List.isEmpty_iff, beq_iff_eq] at hfirst
    have hm := h.attach (l := l.woken) (.inl hfirst.1)
    have hletter : l.woken.ltype.letter = .w := congrArg LType.letter hfirst.2
    rw [hletter, hfirst.1] at hm
    exact hm
  · split
    next hread =>
      exact replay_letIn h (hone.readers (head?_all_reader.mp hread)) letIn_readers
    · exact .nil h

/-- **An unlock, replayed.** -/
theorem replay_unlock (h : FMirrors il.active (t inode)) (hone : OneWriter il.active)
    (hnodup : (il.active.map FLock.holder).Nodup) (hmem : l ∈ il.active) :
    ReplaysAt FlockTable.mrApply t inode
      (FlockTable.records inode (il.flockLockUnlock mode l).log)
      (FMirrors (il.flockLockUnlock mode l).il.active) := by
  have hfirst := h.unlock hnodup hmem
  unfold flockLockUnlock
  dsimp only
  split
  · refine hfirst.append fun t' ht' => ?_
    exact replay_checkWaiting mode ⟨il.active.erase l, il.waiting⟩ ht'
      (hone.sublist List.erase_sublist)
  · exact hfirst

/-- **A new lock, replayed.** -/
theorem replay_new (h : FMirrors il.active (t inode)) (hone : OneWriter il.active) {ltype : LType} :
    ReplaysAt FlockTable.mrApply t inode
      (FlockTable.records inode (il.flockLockNew mode ltype q).2.log)
      (FMirrors (il.flockLockNew mode ltype q).2.il.active) := by
  unfold flockLockNew
  split
  · exact .nil h
  next hfree =>
  rw [Bool.not_eq_true] at hfree
  exact h.attach (l := ⟨q.holder, q.connptr, ltype, []⟩) (hone.free hfree)

end

variable {mode : FlockMode} {inode : Nat}

/-! ## §3. One lock a holder. -/

/-- The holders of the locks of an inode, active or waiting. -/
def FInode.holders (il : FInode) : List Holder := (il.active ++ il.waiting).map FLock.holder

theorem holders_eq (il : FInode) :
    il.holders = il.active.map FLock.holder ++ il.waiting.map FLock.holder := List.map_append

theorem letIn_perm (linux : Bool) (ls : List FLock) :
    ((letIn linux ls).1 ++ (letIn linux ls).2).Perm ls := by
  induction ls with
  | nil => exact List.Perm.refl []
  | cons l ls ih =>
    unfold letIn
    split
    · exact List.Perm.cons l ih
    split
    · exact List.perm_middle.trans (List.Perm.cons l ih)
    · exact List.Perm.refl _

/-- The promotion routine only moves locks. -/
theorem holders_checkWaiting : (il.flockLockCheckWaiting mode).il.holders.Perm il.holders := by
  unfold flockLockCheckWaiting
  split
  · exact List.Perm.refl _
  next l ls hw =>
  split
  next hfirst =>
    rw [Bool.and_eq_true, List.isEmpty_iff] at hfirst
    rw [holders_eq, holders_eq, hw, hfirst.1]
    exact List.Perm.refl _
  · split
    · rw [holders_eq, holders_eq, hw]
      have hwoken : ∀ xs : List FLock, (xs.map FLock.woken).reverse.map FLock.holder
          = (xs.map FLock.holder).reverse := fun xs => by
        rw [List.map_reverse, List.map_map]
        rfl
      rw [List.map_append, hwoken]
      -- the locks let in, the active ones and the rest, against the active ones and the queue
      have hperm := (letIn_perm (mode == .linux) (l :: ls)).map FLock.holder
      rw [List.map_append] at hperm
      refine List.Perm.trans ?_ (List.Perm.append_left _ hperm)
      rw [List.append_assoc]
      refine List.Perm.trans (List.Perm.append_right _ (List.reverse_perm _)) ?_
      exact List.perm_append_comm_assoc _ _ _
    · exact List.Perm.refl _

theorem holders_unlock :
    (il.flockLockUnlock mode l).il.holders.Perm
      ((il.active.erase l).map FLock.holder ++ il.waiting.map FLock.holder) := by
  have herase : holders ⟨il.active.erase l, il.waiting⟩
      = (il.active.erase l).map FLock.holder ++ il.waiting.map FLock.holder := holders_eq _
  rw [← herase]
  unfold flockLockUnlock
  dsimp only
  split
  · exact holders_checkWaiting
  · exact List.Perm.refl _

/-- The locks of an inode have different holders. -/
def Distinct (il : FInode) : Prop := il.holders.Nodup

theorem Distinct.active (h : Distinct il) : (il.active.map FLock.holder).Nodup := by
  unfold Distinct at h
  rw [holders_eq] at h
  exact (List.nodup_append.mp h).1

theorem Distinct.unlock (h : Distinct il) : Distinct (il.flockLockUnlock mode l).il := by
  unfold Distinct at h ⊢
  rw [holders_unlock.nodup_iff]
  rw [holders_eq] at h
  exact h.sublist ((List.erase_sublist.map _).append_right _)

/-- The holder of a lock that is taken out has none any more. -/
theorem Distinct.notMem_unlock (h : Distinct il)
    (hmem : l ∈ il.active) : l.holder ∉ (il.flockLockUnlock mode l).il.holders := by
  intro hc
  have hc := holders_unlock.mem_iff.mp hc
  unfold Distinct at h
  rw [holders_eq, List.nodup_append] at h
  rcases List.mem_append.mp hc with hc | hc
  · rw [erase_eq_filter h.1 hmem] at hc
    obtain ⟨a, ha, heq⟩ := List.mem_map.mp hc
    have hne := (List.mem_filter.mp ha).2
    rw [bne_iff_ne] at hne
    exact hne heq
  · exact h.2.2 l.holder (List.mem_map_of_mem hmem) l.holder hc rfl

theorem Distinct.new (h : Distinct il) {ltype : LType} (hnew : q.holder ∉ il.holders) :
    Distinct (il.flockLockNew mode ltype q).2.il := by
  unfold flockLockNew
  split
  · unfold Distinct at h ⊢
    rw [holders_eq] at h hnew ⊢
    rw [List.map_append, ← List.append_assoc]
    refine List.nodup_append.mpr ⟨h, List.nodup_singleton _, fun a ha b hb heq => ?_⟩
    have hholder : a = q.holder := heq.trans (List.mem_singleton.mp hb)
    exact hnew (hholder ▸ ha)
  · exact List.nodup_cons.mpr ⟨hnew, h⟩

theorem interrupted_holders :
    ((interrupted q ls).map FLock.holder).Sublist (ls.map FLock.holder) := by
  unfold interrupted
  induction ls with
  | nil => exact List.Sublist.refl []
  | cons l ls ih =>
    rw [List.filterMap_cons]
    split
    · exact ih.cons _
    next x hx =>
    have hholder : x.holder = l.holder := by
      split at hx
      · split at hx
        · cases hx
        · exact Option.some.inj hx ▸ rfl
      · exact Option.some.inj hx ▸ rfl
    rw [List.map_cons, List.map_cons, hholder]
    exact ih.cons_cons _

theorem replace_holders {l' : FLock} (h : l'.holder = l.holder) :
    (ls.replace l l').map FLock.holder = ls.map FLock.holder := by
  induction ls with
  | nil => rfl
  | cons x ls ih =>
    rw [List.replace_cons]
    split
    next heq =>
      rw [List.map_cons, List.map_cons, h, eq_of_beq heq]
    · rw [List.map_cons, List.map_cons, ih]

theorem queue_holders {waiting waiting' : List FLock} (h : FInode.Queue mode waiting q waiting') :
    (waiting'.map FLock.holder).Sublist (waiting.map FLock.holder) := by
  cases h with
  | same => exact List.Sublist.refl _
  | interrupt hop => exact interrupted_holders
  | cancel l hl hop => exact List.erase_sublist.map _
  | again l l' hl hholder htype => rw [replace_holders hholder]

theorem Distinct.waiting (h : Distinct il) {waiting : List FLock}
    (hsub : (waiting.map FLock.holder).Sublist (il.waiting.map FLock.holder)) :
    Distinct { il with waiting := waiting } := by
  unfold Distinct at h ⊢
  rw [holders_eq] at h ⊢
  exact h.sublist (hsub.append_left _)

/-! ## §4. Requests and closes. -/

/-- The leader's record of an inode. -/
structure FLeader (il : FInode) : Prop where
  one : OneWriter il.active
  distinct : Distinct il

theorem FLeader.empty : FLeader ⟨[], []⟩ := ⟨OneWriter.nil, List.nodup_nil⟩

/-- The request changes no type in silence, and its holder has no lock waiting from elsewhere. -/
def FInode.Logged (il : FInode) (q : FlockRequest) : Prop :=
  (q.op = .tryShared → ∀ l ∈ il.active.find? fun l => l.holder == q.holder, l.ltype = .reader) ∧
  (q.op = .tryExclusive → ∀ l ∈ il.active.find? fun l => l.holder == q.holder,
    l.ltype = .reader → il.active.length ≠ 1) ∧
  (q.op ≠ .unlock ∧ q.op ≠ .release ∧ q.op ≠ .interrupt →
    ∀ l ∈ il.waiting, l.holder = q.holder → l.connptr = q.connptr)

instance FInode.Logged.decidable (il : FInode) (q : FlockRequest) : Decidable (il.Logged q) :=
  inferInstanceAs (Decidable (_ ∧ _ ∧ _))

theorem find?_holder
    (h : (ls.find? fun l => l.holder == q.holder) = some l) : l.holder = q.holder := by
  have hfound := List.find?_some h
  exact beq_iff_eq.mp hfound

theorem notMem_holders (hlogged : il.Logged q)
    (hop : q.op ≠ .unlock ∧ q.op ≠ .release ∧ q.op ≠ .interrupt)
    (hactive : (il.active.find? fun l => l.holder == q.holder) = none)
    (hwaiting : (il.waiting.find? fun l => l.ofRequest q) = none) : q.holder ∉ il.holders := by
  intro hc
  obtain ⟨l, hl, heq⟩ := List.mem_map.mp hc
  rcases List.mem_append.mp hl with hl | hl
  · exact List.find?_eq_none.mp hactive l hl (beq_iff_eq.mpr heq)
  refine List.find?_eq_none.mp hwaiting l hl ?_
  unfold FLock.ofRequest
  rw [Bool.and_eq_true, beq_iff_eq, beq_iff_eq]
  exact ⟨hlogged.2.2 hop l hl heq, heq⟩

/-- **A logged request replays.** -/
theorem cmd_replays {il' : FInode} {log : FlockLog}
    (hwf : FLeader il) (hm : FMirrors il.active (t inode)) (hlogged : il.Logged q)
    (hcmd : FInode.Cmd mode il q il' log) :
    FLeader il' ∧ ReplaysAt FlockTable.mrApply t inode (FlockTable.records inode log)
      (FMirrors il'.active) := by
  have hwriter := hwf.one.cmd hcmd
  cases hcmd with
  | queue waiting hidle hq =>
    exact ⟨⟨hwriter, hwf.distinct.waiting (queue_holders hq)⟩, .nil hm⟩
  | unlock l hl =>
    refine ⟨⟨hwriter, hwf.distinct.unlock⟩, ?_⟩
    exact replay_unlock mode hm hwf.one hwf.distinct.active (List.mem_of_find?_eq_some hl)
  | relock l ltype hl =>
    have hmem := List.mem_of_find?_eq_some hl
    refine ⟨⟨hwriter, hwf.distinct.unlock.new ?_⟩, ?_⟩
    · rw [← find?_holder hl]
      exact hwf.distinct.notMem_unlock hmem
    · have hfirst := replay_unlock mode hm hwf.one hwf.distinct.active hmem
      rw [FlockTable.records, List.map_append]
      exact hfirst.append fun t' ht' => replay_new mode ht' hwf.one.unlock
  | downgrade l hl hop htype =>
    rw [hlogged.1 hop l hl] at htype
    cases htype
  | upgrade l hl hop htype hone => exact absurd hone (hlogged.2.1 hop l hl htype)
  | new ltype hop hactive hwaiting =>
    exact ⟨⟨hwriter, hwf.distinct.new (notMem_holders hlogged hop hactive hwaiting)⟩,
      replay_new mode hm hwf.one⟩

/-- The locks the loop of a close has still to visit stay active until it comes to them. -/
theorem mem_unlock_of_ne {x : FLock} (hx : x ∈ il.active)
    (hne : x ≠ l) : x ∈ (il.flockLockUnlock mode l).il.active := by
  have herase : x ∈ il.active.erase l := (List.mem_erase_of_ne hne).mpr hx
  unfold flockLockUnlock
  dsimp only
  split
  next hempty =>
    rw [Bool.and_eq_true, List.isEmpty_iff] at hempty
    rw [hempty.1] at herase
    cases herase
  · exact herase

/-- **A close replays.**  Induction over the active locks the loop visits. -/
theorem closeActive_replays {sessionid : Nat} (hwf : FLeader il)
    (hm : FMirrors il.active (t inode)) (hnodup : ls.Nodup) (hls : ∀ l ∈ ls, l ∈ il.active) :
    ReplaysAt FlockTable.mrApply t inode
      (FlockTable.records inode (closeActive mode sessionid ls il).log)
      fun o => FLeader (closeActive mode sessionid ls il).il
        ∧ FMirrors (closeActive mode sessionid ls il).il.active o := by
  induction ls generalizing il t with
  | nil => exact .nil ⟨hwf, hm⟩
  | cons l ls ih =>
    obtain ⟨hl, hnodup⟩ := List.nodup_cons.mp hnodup
    obtain ⟨hmem, hls⟩ := List.forall_mem_cons.mp hls
    unfold closeActive
    split
    · rw [FlockTable.records, List.map_append]
      refine (replay_unlock mode hm hwf.one hwf.distinct.active hmem).append fun t' ht' => ?_
      refine ih ⟨hwf.one.unlock, hwf.distinct.unlock⟩ ht' hnodup fun x hx => ?_
      exact mem_unlock_of_ne (hls x hx) (ne_of_mem_of_not_mem hx hl)
    · exact ih hwf hm hnodup hls

/-! ## §5. Runs. -/

namespace FlockTable

/-- A call of the leader, with what it logs. -/
def leaderCall (t : FlockTable) (c : FlockCall) : FlockTable × List FlockRecord :=
  ((t.result c).table, (t.result c).log)

/-- A call that logs all it does to the active locks. -/
def Logged (t : FlockTable) : FlockCall → Prop
  | .cmd _ _ q => (t.before q.inode).Logged q
  | .fileClosed _ _ _ | .disconnected _ => True

instance Logged.decidable (t : FlockTable) : (c : FlockCall) → Decidable (t.Logged c)
  | .cmd _ _ q => inferInstanceAs (Decidable ((t.before q.inode).Logged q))
  | .fileClosed _ _ _ | .disconnected _ => isTrue trivial

/-- The same active locks on every inode, counted with their holders and types. -/
def SameActive (s t : FlockTable) : Prop :=
  ∀ inode, ((t.before inode).active.map FLock.key).Perm ((s.before inode).active.map FLock.key)

/-- A replica in step with the leader. -/
structure InStep (s t : FlockTable) : Prop where
  leader : s.Each FLeader
  mirrors : ∀ i, FMirrors (s.before i).active (t i)

theorem before_update {i : Nat} :
    before (update t inode o) i = if i = inode then o.getD ⟨[], []⟩ else t.before i := by
  unfold before
  rw [update_apply]
  split <;> rfl

theorem InStep.put (h : InStep s t) {inode : Nat} (hwf : ∀ il, o = some il → FLeader il)
    (hm : FMirrors (o.getD ⟨[], []⟩).active o') :
    InStep (update s inode o) (update t inode o') := by
  refine ⟨fun i il hil => ?_, fun i => ?_⟩
  · rcases update_eq_some hil with hsame | ⟨_, hout⟩
    · exact h.leader i il hsame
    · exact hwf il hout
  rw [before_update, update_apply]
  split
  · exact hm
  · exact h.mirrors i

theorem kept_getD {il' : FInode} : (kept q il il').getD ⟨[], []⟩ = il' := by
  unfold kept
  split
  · exact nonempty_getD
  · rfl

/-- **Every logged call replays.** -/
theorem leaderCall_replays {c : FlockCall} (h : InStep s t) (hlogged : s.Logged c) :
    ∃ t', replay mrApply t (s.leaderCall c).2 = some t' ∧ InStep (s.leaderCall c).1 t' := by
  cases c with
  | cmd mode openFiles q =>
    have hwf : FLeader (s.before q.inode) := h.leader.before FLeader.empty
    obtain ⟨hwf', o, hrep, hm⟩ := cmd_replays hwf (h.mirrors q.inode) hlogged
      (locksCmd_cases mode (s.before q.inode) q)
    show ∃ t', replay mrApply t (s.flockLocksCmd mode openFiles q).2.log = some t'
      ∧ InStep (s.flockLocksCmd mode openFiles q).2.table t'
    unfold flockLocksCmd
    split
    · exact ⟨t, rfl, h⟩
    cases hil : s q.inode with
    | none =>
      have hbefore : s.before q.inode = ⟨[], []⟩ := by rw [before, hil]; rfl
      rw [hbefore] at hwf' hrep hm
      dsimp only
      split
      · exact ⟨t, rfl, h⟩
      refine ⟨_, hrep, h.put (fun il hout => ?_) hm⟩
      cases hout
      exact hwf'
    | some il =>
      have hbefore : s.before q.inode = il := by rw [before, hil]; rfl
      rw [hbefore] at hwf' hrep hm
      refine ⟨_, hrep, h.put (fun il' hout => ?_) ?_⟩
      · rw [eq_of_kept hout]
        exact hwf'
      · rw [kept_getD]
        exact hm
  | fileClosed mode sessionid inode =>
    show ∃ t', replay mrApply t (s.flockFileClosed mode sessionid inode).log = some t'
      ∧ InStep (s.flockFileClosed mode sessionid inode).table t'
    unfold flockFileClosed
    cases hil : s inode with
    | none => exact ⟨t, rfl, h⟩
    | some il =>
      have hbefore : s.before inode = il := by rw [before, hil]; rfl
      have hwf := h.leader inode il hil
      have hqueue : FLeader { il with
          waiting := il.waiting.filter fun l => l.holder.sessionid != sessionid } :=
        ⟨hwf.one, hwf.distinct.waiting (List.filter_sublist.map _)⟩
      have hm : FMirrors il.active (t inode) := hbefore ▸ h.mirrors inode
      obtain ⟨o, hrep, hwf', hm'⟩ := closeActive_replays
        hqueue hm hwf.distinct.active.of_map fun l hl => hl
      refine ⟨_, hrep, h.put (fun il' hout => ?_) ?_⟩
      · rw [eq_of_nonempty hout]
        exact hwf'
      · rw [nonempty_getD]
        exact hm'
  | disconnected connptr =>
    refine ⟨t, rfl, ⟨fun i il' hil' => ?_, fun i => ?_⟩⟩
    · obtain ⟨il, hil, heq⟩ := Option.map_eq_some_iff.mp hil'
      have hwf := h.leader i il hil
      rw [← heq]
      exact ⟨hwf.one, hwf.distinct.waiting (List.filter_sublist.map _)⟩
    · have hm := h.mirrors i
      dsimp only [leaderCall, result, before, flockDisconnected] at hm ⊢
      cases hil : s i with
      | none | some => rwa [hil] at hm

end FlockTable

/-- **The change log reproduces the active locks** in every run whose calls log all they do. -/
theorem flock_replays (s t : FlockTable) (hs : s.Each fun il => OneWriter il.active ∧ Distinct il)
    (hsame : FlockTable.SameActive s t) (cs : List FlockCall)
    (hlogged : StepsMeet (fun s c => (FlockTable.leaderCall s c).1) FlockTable.Logged s cs) :
    Replays FlockTable.leaderCall FlockTable.mrApply FlockTable.SameActive s t cs := by
  have hstart : FlockTable.InStep s t :=
    ⟨fun i il hil => ⟨(hs i il hil).1, (hs i il hil).2⟩, hsame⟩
  have hrun : Replays FlockTable.leaderCall FlockTable.mrApply FlockTable.InStep s t cs :=
    replay_run (fun s t c h hc => FlockTable.leaderCall_replays h hc) cs s t hstart hlogged
  exact hrun.mono fun _ _ h => h.mirrors

/-- A request of one of two sessions for a file both have open. -/
def flockCall (sessionid : Nat) (op : FlockOp) : FlockCall :=
  .cmd .correct [(1, 5), (2, 5)]
    { connptr := sessionid, holder := ⟨sessionid, 7⟩, msgid := 0, reqid := 0, inode := 5, op := op }

/-- A writer becomes a reader through `LOCK_SHARED`, and a second reader comes. -/
theorem flock_replays_relock :
    Replays FlockTable.leaderCall FlockTable.mrApply FlockTable.SameActive FlockTable.empty
      FlockTable.empty [flockCall 1 .lockExclusive, flockCall 1 .lockShared,
        flockCall 2 .lockShared] :=
  flock_replays FlockTable.empty FlockTable.empty nofun
    (fun _ => List.Perm.refl _) _ (by decide)

/-- **A silent downgrade does not replay.**  With `TRY_SHARED` nothing is logged, and the replica
refuses the second reader. -/
theorem flock_replay_silent_downgrade :
    replay FlockTable.mrApply FlockTable.empty
      (logRun FlockTable.leaderCall FlockTable.empty
        [flockCall 1 .lockExclusive, flockCall 1 .tryShared, flockCall 2 .lockShared]).2
      = none := by
  rfl

end MfsMaster
