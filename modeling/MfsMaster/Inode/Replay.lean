/-
  MfsMaster.Inode.Replay
  **FREEING INODES: THE LEADER AGAINST ITS REPLICA.**

  Node removals, `fs_univ_freeinodes` and open/close of files run on the leader
  under an arbitrary clock; the records go to a replica.  A clock that steps back
  re-stamps the free list, and `fs_univ_freeinodes` does so even when it frees
  nothing and therefore LOGS NOTHING.  The main result says exactly which runs
  keep the two in step:

      inode_replay_iff — every prefix of the run replays to the same free list
                         and the same allocated inodes  ↔  every step meets
                         `FreeinodesLogged`
-/
import MfsMaster.Lib.Replay
import MfsMaster.Inode.Pool
import Mathlib.Data.List.Count

namespace MfsMaster

open Lib InodePool OpenFiles

/-! ## §1. Leader and replica. -/

/-- The part of the master these functions work on. -/
structure InodeState where
  pool : InodePool
  openFiles : OpenFiles

/-- What happens on the leader. -/
inductive InodeEvent where
  /-- A node is removed from the tree (`fsnodes_remove_node`). -/
  | freeId (inode : Nat) (ts : UInt32)
  /-- The periodic `fsnodes_freeinodes`. -/
  | freeinodes (ts inodereusedelay : UInt32)
  /-- A client opens a file. -/
  | openfile (sessionid inode : Nat)
  /-- A client sends the list of all inodes it holds open. -/
  | sync (sessionid : Nat) (inodes : List Nat)
  /-- A session ends. -/
  | sessionRemoved (sessionid : Nat)
  deriving Repr, DecidableEq

/-- What the leader logs; `removed` stands for the records whose replay removes a node. -/
inductive InodeRecord where
  | removed (inode : Nat) (ts : UInt32)
  | freeinodes (ts inodereusedelay : UInt32) (freeinodes sustainedinodes inodeChksum : Nat)
  | acquire (sessionid inode : Nat)
  | release (sessionid inode : Nat)
  | sesdel (sessionid : Nat)
  deriving Repr, DecidableEq

/-- `fs_univ_freeinodes`: the answer, the new state and the records logged. -/
def fsUnivFreeinodes (s : InodeState) (metarestore : Bool) (ts inodereusedelay : UInt32)
    (freeinodes sustainedinodes inodeChksum : Nat) : Status × InodeState × List InodeRecord :=
  let isopen := fun i => (!metarestore || 0 < sustainedinodes) && s.openFiles.ofIsfileopen i
  let r := s.pool.freeinodesBody isopen ts inodereusedelay
  let s' := { s with pool := r.1 }
  if metarestore then
    if freeinodes ≠ r.2.fi ∨ sustainedinodes ≠ r.2.si ∨ (inodeChksum ≠ 0 ∧ inodeChksum ≠ r.2.ics)
    then (.mismatch, s', [])
    else (.ok, s', [])
  else if 0 < r.2.fi ∨ 0 < r.2.si then
    (.ok, s', [.freeinodes ts inodereusedelay r.2.fi r.2.si r.2.ics])
  else (.ok, s', [])

/-- One event on the leader, with what it logs. -/
def inodeStep (s : InodeState) : InodeEvent → InodeState × List InodeRecord
  | .freeId inode ts =>
    ({ s with pool := s.pool.fsnodesFreeId inode ts }, [.removed inode ts])
  | .freeinodes ts delay => (fsUnivFreeinodes s false ts delay 0 0 0).2
  | .openfile sessionid inode =>
    if s.openFiles.ofChecknode sessionid inode then (s, [])
    else ({ s with openFiles := s.openFiles.ofNewnode sessionid inode },
          [.acquire sessionid inode])
  | .sync sessionid inodes =>
    ({ s with openFiles := s.openFiles.ofSync sessionid inodes },
      (s.openFiles.syncClosed sessionid inodes).map (.release sessionid)
        ++ (s.openFiles.syncOpened sessionid inodes).map (.acquire sessionid))
  | .sessionRemoved sessionid =>
    ({ s with openFiles := s.openFiles.ofSessionRemoved sessionid }, [.sesdel sessionid])

/-- One record on the replica; `none` is every answer other than `MFS_STATUS_OK`. -/
def inodeApply (s : InodeState) : InodeRecord → Option InodeState
  | .removed inode ts => some { s with pool := s.pool.fsnodesFreeId inode ts }
  | .freeinodes ts delay fi si ics =>
    let r := fsUnivFreeinodes s true ts delay fi si ics
    Status.toOption (r.1, r.2.1)
  | .acquire sessionid inode =>
    let r := s.openFiles.ofMrAcquire sessionid inode
    Status.toOption (r.1, { s with openFiles := r.2 })
  | .release sessionid inode =>
    let r := s.openFiles.ofMrRelease sessionid inode
    Status.toOption (r.1, { s with openFiles := r.2 })
  | .sesdel sessionid =>
    some { s with openFiles := s.openFiles.ofSessionRemoved sessionid }

/-- `freelastts` is the stamp of the last entry, 0 for the empty list. -/
def InodePool.LastStamp (p : InodePool) : Prop :=
  (p.freelist.getLast?.map FreeNode.ftime).getD 0 = p.freelastts

/-- The time stamp is that of the last entry, and no session holds an inode twice. -/
structure InodeState.WF (s : InodeState) : Prop where
  lastStamp : s.pool.LastStamp
  nodup : s.openFiles.Nodup

/-- The steps that log every change they make: a freeing run under a clock that
stepped back (`ts < freelastts`, so that the list is re-stamped) finds at least one
inode due, and a client's list of open inodes has no repetition. -/
def FreeinodesLogged (s : InodeState) : InodeEvent → Prop
  | .freeinodes ts delay =>
    ts < s.pool.freelastts → ∃ n ∈ s.pool.freelist.head?,
      (if ts < n.ftime then ts else n.ftime) + delay < ts
  | .sync _ inodes => inodes.Nodup
  | _ => True

instance (s : InodeState) : (e : InodeEvent) → Decidable (FreeinodesLogged s e)
  | .freeinodes .. => inferInstanceAs (Decidable (_ → ∃ n ∈ s.pool.freelist.head?, _))
  | .sync _ inodes => inferInstanceAs (Decidable inodes.Nodup)
  | .freeId _ _ | .openfile _ _ | .sessionRemoved _ => isTrue trivial

/-! ## §2. The loop of `fs_univ_freeinodes`. -/

variable {ts : UInt32} {isopen : Nat → Bool} {a : FreeLoop}

namespace InodePool

variable (isopen : Nat → Bool) (ts delay : UInt32)

/-- The entries a freeing run visits. -/
def dueEntries (l : List FreeNode) : List FreeNode :=
  l.takeWhile fun n => n.ftime + delay < ts

/-- The numbers a freeing run releases. -/
def released (l : List FreeNode) : List Nat :=
  ((dueEntries ts delay l).filter fun n => !isopen n.inode).map FreeNode.inode

/-- The entries put back because a session holds the inode open. -/
def requeued (l : List FreeNode) : List FreeNode :=
  ((dueEntries ts delay l).filter fun n => isopen n.inode).map fun n => { n with ftime := ts }

end InodePool

section Loop

variable (isopen : Nat → Bool) (ts delay : UInt32) (l : List FreeNode) (a : FreeLoop)

/-- **What the loop does**: it visits the due entries at the front and leaves the rest. -/
theorem freeinodesLoop_eq : freeinodesLoop isopen ts delay l a
      = (l.dropWhile (fun n => n.ftime + delay < ts),
        (dueEntries ts delay l).foldl (fun a n => a.visit (isopen n.inode) ts n) a) := by
  induction l generalizing a with
  | nil => rfl
  | cons n l ih =>
    by_cases hdue : n.ftime + delay < ts
    · simp [freeinodesLoop, dueEntries, hdue, ih]
    · simp [freeinodesLoop, dueEntries, hdue]

/-- Each visit counts, as an open inode or as a freed one. -/
theorem visits_count :
    let r := l.foldl (fun a n => a.visit (isopen n.inode) ts n) a
    r.fi + r.si = a.fi + a.si + l.length ∧ r.si = a.si + l.countP fun n => isopen n.inode := by
  induction l generalizing a with
  | nil => exact ⟨rfl, rfl⟩
  | cons n l ih =>
    obtain ⟨hcount, hsi⟩ := ih (a.visit (isopen n.inode) ts n)
    dsimp only
    rw [List.foldl_cons, hcount, hsi, List.length_cons, List.countP_cons]
    cases isopen n.inode <;> simp [FreeLoop.visit] <;> omega

/-- The open inodes are put back with the new stamp. -/
theorem visits_sn : (l.foldl (fun a n => a.visit (isopen n.inode) ts n) a).sn
      = a.sn ++ (l.filter fun n => isopen n.inode).map fun n => { n with ftime := ts } := by
  induction l generalizing a with
  | nil => simp
  | cons n l ih =>
    rw [List.foldl_cons, ih, List.filter_cons]
    cases isopen n.inode <;> simp [FreeLoop.visit]

/-- A loop that counted no open inode never needed the open-file test. -/
theorem freeinodesLoop_of_no_open (h : (freeinodesLoop isopen ts delay l a).2.si = a.si) :
    freeinodesLoop (fun _ => false) ts delay l a = freeinodesLoop isopen ts delay l a := by
  rw [freeinodesLoop_eq, (visits_count isopen ts _ a).2, Nat.add_eq_left,
    List.countP_eq_zero] at h
  rw [freeinodesLoop_eq, freeinodesLoop_eq, List.foldl_ext]
  intro b n hn
  rw [Bool.eq_false_iff.mpr (h n hn)]

/-- A loop that counted nothing visited nothing. -/
theorem freeinodesLoop_idle {a : FreeLoop} {l : List FreeNode}
    (h : (freeinodesLoop isopen ts delay l a).2.fi
      + (freeinodesLoop isopen ts delay l a).2.si = a.fi + a.si) :
    freeinodesLoop isopen ts delay l a = (l, a) := by
  rw [freeinodesLoop_eq, (visits_count isopen ts _ a).1, Nat.add_eq_left,
    List.length_eq_zero_iff] at h
  have hsplit : dueEntries ts delay l ++ _ = l := List.takeWhile_append_dropWhile
  rw [h, List.nil_append] at hsplit
  rw [freeinodesLoop_eq, h, hsplit]
  rfl

end Loop

/-! ## §3. One freeing run, on both sides. -/

theorem getLast?_fixts (ts : UInt32) (l : List FreeNode) : (fixts ts l).getLast?.map FreeNode.ftime
      = (l.getLast?.map FreeNode.ftime).map fun f => if ts < f then ts else f := by
  rw [fixts, List.getLast?_map]
  cases l.getLast? with
  | none => rfl
  | some n =>
    simp only [Option.map_some]
    split <;> rfl

variable {p : InodePool} {delay : UInt32} {s t : InodeState} {sessionid x : Nat} {e : InodeEvent}

/-- The empty list has freelastts = 0, so no clock is before it. -/
theorem LastStamp.last (h : p.LastStamp) (hlt : ts < p.freelastts) :
    p.freelist.getLast?.map FreeNode.ftime = some p.freelastts := by
  unfold InodePool.LastStamp at h
  cases hl : p.freelist.getLast?.map FreeNode.ftime with
  | none =>
    rw [hl, Option.getD_none] at h
    rw [← h] at hlt
    exact absurd hlt (by simp)
  | some f => rw [← h, hl, Option.getD_some]

theorem restamp_lastStamp (h : p.LastStamp) : (p.restamp ts).LastStamp := by
  unfold InodePool.restamp
  split
  next hlt =>
    simp [InodePool.LastStamp, fsnodesFreeFixts, getLast?_fixts, LastStamp.last h hlt, hlt]
  · exact h

theorem fsnodesFreeId_lastStamp {inode : Nat} : (p.fsnodesFreeId inode ts).LastStamp := by
  simp [InodePool.LastStamp, fsnodesFreeId]

theorem freeDue_lastStamp (h : p.LastStamp) : (p.freeDue isopen ts delay).1.LastStamp := by
  simp only [freeDue]
  generalize ha : FreeLoop.mk 0 0 0 [] p.freebitmask p.searchpos = a
  have hts : ∀ n ∈ (freeinodesLoop isopen ts delay p.freelist a).2.sn, n.ftime = ts := by
    subst ha
    rw [freeinodesLoop_eq, visits_sn, List.nil_append, List.forall_mem_map]
    exact fun _ _ => rfl
  have hsuf : (freeinodesLoop isopen ts delay p.freelist a).1 <:+ p.freelist := by
    rw [freeinodesLoop_eq]
    exact List.dropWhile_suffix _
  generalize freeinodesLoop isopen ts delay p.freelist a = r at hts hsuf
  unfold InodePool.LastStamp at h ⊢
  cases hsn' : r.2.sn.getLast? with
  | some n =>
    have hmem := List.mem_of_getLast? hsn'
    have hne : r.2.sn ≠ [] := List.ne_nil_of_mem hmem
    simp [List.getLast?_append, hsn', hts n hmem, hne]
  | none =>
    have hnil : r.2.sn = [] := List.getLast?_eq_none_iff.mp hsn'
    simp only [hnil, List.append_nil, List.isEmpty_nil, ↓reduceIte]
    cases hr : r.1 with
    | nil => rfl
    | cons n l =>
      -- what remains is a nonempty suffix: its last entry is the old last entry
      obtain ⟨pre, hpre⟩ := hsuf
      rw [hr] at hpre
      simp only [List.isEmpty_cons, Bool.false_eq_true, ↓reduceIte]
      rw [← h, ← hpre, List.getLast?_append]
      simp [List.getLast?_cons]

/-- A pass over the list that counts nothing changes nothing. -/
theorem freeDue_idle (h : p.LastStamp)
    (hidle : (p.freeDue isopen ts delay).2.fi + (p.freeDue isopen ts delay).2.si = 0) :
    (p.freeDue isopen ts delay).1 = p := by
  simp only [freeDue] at hidle ⊢
  rw [freeinodesLoop_idle _ _ _ hidle]
  cases p with
  | mk freelist lastts mask pos size maxid =>
    simp only [InodePool.LastStamp] at h
    cases freelist with
    | nil =>
      simp only [List.getLast?_nil, Option.map_none, Option.getD_none] at h
      simp [← h]
    | cons n l => simp

/-- A pass counts something exactly when the first entry is due. -/
theorem freeDue_counts_iff (p : InodePool) (isopen : Nat → Bool) :
    0 < (p.freeDue isopen ts delay).2.fi + (p.freeDue isopen ts delay).2.si
      ↔ ∃ n ∈ p.freelist.head?, n.ftime + delay < ts := by
  simp only [freeDue, freeinodesLoop_eq]
  rw [(visits_count isopen ts _ _).1, dueEntries]
  cases p.freelist with
  | nil => simp
  | cons n l => by_cases hdue : n.ftime + delay < ts <;> simp [hdue]

theorem head?_fixts {l : List FreeNode} : (∃ n ∈ (fixts ts l).head?, n.ftime + delay < ts)
      ↔ ∃ n ∈ l.head?, (if ts < n.ftime then ts else n.ftime) + delay < ts := by
  cases l with
  | nil => simp [fixts]
  | cons n l =>
    simp only [fixts, List.map_cons, List.head?_cons, Option.mem_some_iff, exists_eq_left']
    split <;> rfl

/-- The replica's open-file test gives the leader's result when it is told the leader's
number of inodes found open. -/
theorem freeDue_replica :
    p.freeDue (fun i => decide (0 < (p.freeDue isopen ts delay).2.si) && isopen i) ts delay
      = p.freeDue isopen ts delay := by
  by_cases hsi : 0 < (p.freeDue isopen ts delay).2.si
  · simp only [hsi, decide_true, Bool.true_and]
  simp only [hsi, decide_false, Bool.false_and]
  have h0 : (p.freeDue isopen ts delay).2.si = 0 := by omega
  simp only [freeDue] at h0 ⊢
  rw [freeinodesLoop_of_no_open _ _ _ _ _ h0]

theorem inodeStep_freeinodes :
    inodeStep s (.freeinodes ts delay)
      = let r := (s.pool.restamp ts).freeDue s.openFiles.ofIsfileopen ts delay
        ({ s with pool := r.1 },
          if 0 < r.2.fi ∨ 0 < r.2.si then [.freeinodes ts delay r.2.fi r.2.si r.2.ics]
          else []) := by
  simp only [inodeStep, fsUnivFreeinodes, freeinodesBody, Bool.not_false, Bool.true_or,
    Bool.true_and, Bool.false_eq_true, ↓reduceIte]
  split <;> rfl

/-- The record of a freeing run, replayed from the leader's own state, is accepted. -/
theorem inodeApply_freeinodes :
    let r := (s.pool.restamp ts).freeDue s.openFiles.ofIsfileopen ts delay
    inodeApply s (.freeinodes ts delay r.2.fi r.2.si r.2.ics) = some { s with pool := r.1 } := by
  simp only [inodeApply, fsUnivFreeinodes, freeinodesBody, Bool.not_true, Bool.false_or,
    freeDue_replica, ne_eq, not_true_eq_false, and_false, or_self, ↓reduceIte,
    Status.toOption_ok]

theorem freeinodes_replays (hwf : s.WF) (hc : FreeinodesLogged s (.freeinodes ts delay)) :
    replay inodeApply s (inodeStep s (.freeinodes ts delay)).2
      = some (inodeStep s (.freeinodes ts delay)).1 := by
  rw [inodeStep_freeinodes]
  dsimp only
  split
  · rw [replay_singleton, inodeApply_freeinodes]
  next hno =>
  have hidle : ((s.pool.restamp ts).freeDue s.openFiles.ofIsfileopen ts delay).2.fi
      + ((s.pool.restamp ts).freeDue s.openFiles.ofIsfileopen ts delay).2.si = 0 := by omega
  -- nothing was logged, so the condition says that nothing was re-stamped
  have hts : ¬ ts < s.pool.freelastts := by
    intro hlt
    have hhead := head?_fixts.mpr (hc hlt)
    have hpos := (freeDue_counts_iff (s.pool.fsnodesFreeFixts ts)
      s.openFiles.ofIsfileopen).mpr hhead
    simp only [restamp, if_pos hlt] at hidle
    omega
  rw [freeDue_idle (restamp_lastStamp hwf.lastStamp) hidle, restamp, if_neg hts]
  rfl

/-- A freeing run that re-stamps the list and logs nothing: the leader's list differs
from the one the replica still has. -/
theorem freeinodes_drifts (hwf : s.WF) (hc : ¬ FreeinodesLogged s (.freeinodes ts delay)) :
    (inodeStep s (.freeinodes ts delay)).2 = []
      ∧ (inodeStep s (.freeinodes ts delay)).1.pool.freelist ≠ s.pool.freelist := by
  simp only [FreeinodesLogged, Classical.not_imp] at hc
  obtain ⟨hlt, hhead⟩ := hc
  have hidle : ((s.pool.restamp ts).freeDue s.openFiles.ofIsfileopen ts delay).2.fi
      + ((s.pool.restamp ts).freeDue s.openFiles.ofIsfileopen ts delay).2.si = 0 := by
    by_contra hpos
    rw [← head?_fixts] at hhead
    apply hhead
    have := (freeDue_counts_iff _ _).mp (Nat.pos_of_ne_zero hpos)
    rwa [restamp, if_pos hlt] at this
  rw [inodeStep_freeinodes]
  refine ⟨if_neg (by omega), ?_⟩
  dsimp only
  rw [freeDue_idle (restamp_lastStamp hwf.lastStamp) hidle, restamp, if_pos hlt]
  intro heq
  -- the last entry carries `freelastts`, which the re-stamping lowers to `ts`
  have hlast := getLast?_fixts ts s.pool.freelist
  rw [show fixts ts s.pool.freelist = s.pool.freelist from heq, LastStamp.last hwf.lastStamp hlt,
    Option.map_some, if_pos hlt, Option.some_inj] at hlast
  rw [hlast] at hlt
  exact absurd hlt (by simp)

/-! ## §4. Open files, on both sides. -/

theorem replay_release (s : InodeState) :
    ∀ (xs : List Nat) (o : OpenFiles), (∀ x ∈ xs, (sessionid, x) ∈ o) → xs.Nodup →
      replay inodeApply { s with openFiles := o } (xs.map (.release sessionid))
        = some { s with openFiles := o.diff (xs.map (Prod.mk sessionid)) } := by
  intro xs
  induction xs with
  | nil =>
    intro o _ _
    rfl
  | cons x xs ih =>
    intro o hmem hnd
    obtain ⟨hx, hnd⟩ := List.nodup_cons.mp hnd
    have hin : (sessionid, x) ∈ o := hmem x List.mem_cons_self
    have hrest : ∀ y ∈ xs, (sessionid, y) ∈ o.erase (sessionid, x) := by
      intro y hy
      refine (List.mem_erase_of_ne ?_).mpr (hmem y (List.mem_cons_of_mem x hy))
      rintro ⟨rfl⟩
      exact hx hy
    have hih := ih (o.erase (sessionid, x)) hrest hnd
    simpa [replay, inodeApply, ofMrRelease, ofChecknode, hin, List.diff_cons,
      Option.bind_eq_bind] using hih

theorem replay_acquire : ∀ (xs : List Nat) (o : OpenFiles),
      replay inodeApply { s with openFiles := o } (xs.map (.acquire sessionid)) = some t
        ↔ xs.Nodup ∧ (∀ x ∈ xs, (sessionid, x) ∉ o)
          ∧ t = { s with openFiles := xs.foldl (fun o i => o.ofNewnode sessionid i) o } := by
  intro xs
  induction xs with
  | nil =>
    intro o
    simp [replay, eq_comm]
  | cons x xs ih =>
    intro o
    by_cases hin : (sessionid, x) ∈ o
    · have hno : replay inodeApply { s with openFiles := o }
          ((x :: xs).map (.acquire sessionid)) = none := by
        simp [replay, inodeApply, ofMrAcquire, ofChecknode, hin, Status.toOption]
      rw [hno]
      simp [hin]
    · have hstep : replay inodeApply { s with openFiles := o }
          ((x :: xs).map (.acquire sessionid))
          = replay inodeApply { s with openFiles := o.ofNewnode sessionid x }
              (xs.map (.acquire sessionid)) := by
        simp [replay, inodeApply, ofMrAcquire, ofChecknode, hin]
      rw [hstep, ih]
      simp only [ofNewnode, List.nodup_cons, List.foldl_cons, List.mem_cons, Prod.mk.injEq,
        true_and, not_or]
      constructor
      · rintro ⟨hnd, hmem, rfl⟩
        refine ⟨⟨fun hx => (hmem x hx).1 rfl, hnd⟩, ?_, rfl⟩
        rintro y (rfl | hy)
        · exact hin
        · exact (hmem y hy).2
      · rintro ⟨⟨hx, hnd⟩, hmem, rfl⟩
        refine ⟨hnd, fun y hy => ⟨?_, hmem y (.inr hy)⟩, rfl⟩
        rintro rfl
        exact hx hy

section Sync

variable {o : OpenFiles} {sessionid : Nat} {inodes : List Nat}

/-- The relations `of_sync` keeps. -/
def OpenFiles.syncKept (o : OpenFiles) (sessionid : Nat) (inodes : List Nat) : OpenFiles :=
  o.filter fun r => !(r.1 == sessionid && !inodes.contains r.2)

theorem mem_syncClosed : x ∈ o.syncClosed sessionid inodes ↔ (sessionid, x) ∈ o ∧ x ∉ inodes := by
  simp only [syncClosed, List.mem_map, List.mem_filter, Bool.and_eq_true, beq_iff_eq,
    Bool.not_eq_true', List.contains_eq_mem, decide_eq_false_iff_not, Prod.exists,
    exists_eq_right]
  constructor
  · rintro ⟨a, hmem, rfl, hx⟩
    exact ⟨hmem, hx⟩
  · rintro ⟨hmem, hx⟩
    exact ⟨sessionid, hmem, rfl, hx⟩

theorem mem_syncKept :
    (sessionid, x) ∈ o.syncKept sessionid inodes ↔ (sessionid, x) ∈ o ∧ x ∈ inodes := by
  simp [syncKept]

theorem nodup_syncClosed (h : o.Nodup) : (o.syncClosed sessionid inodes).Nodup := by
  refine List.Nodup.map_on ?_ (h.filter _)
  rintro ⟨a, x⟩ hx ⟨b, y⟩ hy heq
  simp only [List.mem_filter, Bool.and_eq_true, beq_iff_eq] at hx hy
  exact Prod.ext (hx.2.1.trans hy.2.1.symm) heq

/-- Releasing what `of_sync` closed leaves what it kept. -/
theorem diff_syncClosed (h : o.Nodup) :
    o.diff ((o.syncClosed sessionid inodes).map (Prod.mk sessionid))
      = o.syncKept sessionid inodes := by
  rw [h.sdiff_eq_filter, syncKept]
  refine List.filter_congr ?_
  rintro ⟨a, x⟩ hmem
  have hiff : (a, x) ∈ (o.syncClosed sessionid inodes).map (Prod.mk sessionid)
      ↔ a = sessionid ∧ x ∉ inodes := by
    simp only [List.mem_map, mem_syncClosed, Prod.mk.injEq]
    constructor
    · rintro ⟨y, ⟨_, hy⟩, rfl, rfl⟩
      exact ⟨rfl, hy⟩
    · rintro ⟨rfl, hx⟩
      exact ⟨x, ⟨hmem, hx⟩, rfl, rfl⟩
  rw [Bool.eq_iff_iff, decide_eq_true_iff, hiff]
  by_cases ha : a = sessionid <;> by_cases hx : x ∈ inodes <;> simp [ha, hx]

theorem mem_sessionInodes :
    x ∈ ((o.filter fun r => r.1 == sessionid).map Prod.snd).dedup ↔ (sessionid, x) ∈ o := by
  simp only [List.mem_dedup, List.mem_map, List.mem_filter, beq_iff_eq, Prod.exists,
    exists_eq_right]

/-- The replica accepts the ACQUIRE records of `of_sync` exactly when the client's list
has no repetition. -/
theorem nodup_syncOpened_iff (o : OpenFiles) (sessionid : Nat) :
    inodes.Nodup ↔ (o.syncOpened sessionid inodes).Nodup
      ∧ ∀ x ∈ o.syncOpened sessionid inodes, (sessionid, x) ∉ o.syncKept sessionid inodes := by
  have hperm : (inodes.mergeSort (· ≤ ·)).Perm inodes := List.mergeSort_perm inodes _
  rw [← hperm.nodup_iff, syncOpened]
  constructor
  · intro hnd
    refine ⟨hnd.diff, fun x hx hkept => ?_⟩
    have hno := (hnd.mem_sdiff_iff.mp hx).2
    rw [mem_sessionInodes] at hno
    exact hno (mem_syncKept.mp hkept).1
  · rintro ⟨hnd, hdisj⟩
    rw [List.nodup_iff_count_le_one]
    intro x
    by_contra hcount
    have hdiff := List.count_diff x (inodes.mergeSort (· ≤ ·))
      ((o.filter fun r => r.1 == sessionid).map Prod.snd).dedup
    have hmarks := List.nodup_iff_count_le_one.mp
      (List.nodup_dedup ((o.filter fun r => r.1 == sessionid).map Prod.snd)) x
    have hle := List.nodup_iff_count_le_one.mp hnd x
    -- a repeated inode is opened at least once, and it must not be open already
    have hx := List.count_pos_iff.mp (show 0 < List.count x _ by rw [hdiff]; omega)
    have hin : x ∈ inodes := hperm.mem_iff.mp (List.diff_subset _ _ hx)
    have hopen : (sessionid, x) ∉ o := fun hmem => hdisj x hx (mem_syncKept.mpr ⟨hmem, hin⟩)
    rw [← mem_sessionInodes, ← List.count_eq_zero] at hopen
    omega

theorem foldl_ofNewnode (xs : List Nat) : xs.foldl (fun o i => ofNewnode o sessionid i) o
      = (xs.reverse.map (Prod.mk sessionid)) ++ o := by
  simp [ofNewnode]

theorem nodup_ofSync (h : o.Nodup) (hin : inodes.Nodup) : (o.ofSync sessionid inodes).Nodup := by
  obtain ⟨hnd, hdisj⟩ := (nodup_syncOpened_iff o sessionid).mp hin
  show (List.foldl _ (o.syncKept sessionid inodes) (o.syncOpened sessionid inodes)).Nodup
  rw [foldl_ofNewnode, List.nodup_append]
  refine ⟨(List.nodup_reverse.mpr hnd).map (Prod.mk_right_injective sessionid), h.filter _, ?_⟩
  rintro a ha b hb rfl
  obtain ⟨x, hx, rfl⟩ := List.mem_map.mp ha
  exact hdisj x (List.mem_reverse.mp hx) hb

/-- The records of `of_sync`, replayed from the leader's own open files. -/
theorem sync_replays_iff (h : s.openFiles.Nodup) :
    replay inodeApply s (inodeStep s (.sync sessionid inodes)).2 = some t
      ↔ inodes.Nodup ∧ t = (inodeStep s (.sync sessionid inodes)).1 := by
  have hrel := replay_release s (s.openFiles.syncClosed sessionid inodes) s.openFiles
    (fun x hx => (mem_syncClosed.mp hx).1) (nodup_syncClosed h)
  rw [diff_syncClosed h] at hrel
  simp only [inodeStep]
  rw [replay_append, hrel, Option.bind_some, replay_acquire, ← and_assoc,
    ← nodup_syncOpened_iff]
  rfl

end Sync

/-! ## §5. Whole runs. -/

/-- What a replica must share with the leader: the free list and the allocated inodes. -/
def SameInodes (s t : InodeState) : Prop :=
  t.pool.freelist = s.pool.freelist ∧ ∀ i, t.pool.freebitmask i = s.pool.freebitmask i

theorem inodeStep_wf (hwf : s.WF) (hc : FreeinodesLogged s e) : (inodeStep s e).1.WF := by
  cases e with
  | freeId inode ts => exact ⟨fsnodesFreeId_lastStamp, hwf.nodup⟩
  | freeinodes ts delay =>
    rw [inodeStep_freeinodes]
    exact ⟨freeDue_lastStamp (restamp_lastStamp hwf.lastStamp), hwf.nodup⟩
  | openfile sessionid inode =>
    simp only [inodeStep]
    split
    · exact hwf
    next hno =>
      refine ⟨hwf.lastStamp, List.nodup_cons.mpr ⟨?_, hwf.nodup⟩⟩
      simpa [ofChecknode] using hno
  | sync sessionid inodes => exact ⟨hwf.lastStamp, nodup_ofSync hwf.nodup hc⟩
  | sessionRemoved sessionid => exact ⟨hwf.lastStamp, hwf.nodup.filter _⟩

/-- A step that logs every change is reproduced exactly by its records. -/
theorem inodeStep_replays (hwf : s.WF) (hc : FreeinodesLogged s e) :
    replay inodeApply s (inodeStep s e).2 = some (inodeStep s e).1 := by
  cases e with
  | freeId | sessionRemoved => exact replay_singleton _ _ _
  | freeinodes ts delay => exact freeinodes_replays hwf hc
  | openfile sessionid inode =>
    simp only [inodeStep]
    split
    · rfl
    next hno => simp [inodeApply, ofMrAcquire, hno]
  | sync sessionid inodes => exact (sync_replays_iff hwf.nodup).mpr ⟨hc, rfl⟩

/-- A step that misses the condition is seen on the replica. -/
theorem inodeStep_drifts (hwf : s.WF) (hc : ¬ FreeinodesLogged s e)
    (hrep : replay inodeApply s (inodeStep s e).2 = some t) : ¬ SameInodes (inodeStep s e).1 t := by
  cases e with
  | freeinodes ts delay =>
    obtain ⟨hlog, hne⟩ := freeinodes_drifts hwf hc
    rw [hlog, replay_nil, Option.some_inj] at hrep
    subst hrep
    exact fun hsame => hne hsame.1.symm
  | sync sessionid inodes => exact absurd ((sync_replays_iff hwf.nodup).mp hrep).1 hc
  | freeId | openfile | sessionRemoved => exact absurd trivial hc

/-- **Freeing inodes replays exactly as long as every re-stamping is logged.**  From any
well-formed state shared by leader and replica, and under any clock: after every prefix
of the run the replica has accepted all records and has the leader's free list and
allocated inodes, if and only if every step of the run meets `FreeinodesLogged`. -/
theorem inode_replay_iff (s : InodeState) (hwf : s.WF) (es : List InodeEvent) :
    (∀ n, Replays inodeStep inodeApply SameInodes s s (es.take n))
      ↔ StepsMeet (fun s e => (inodeStep s e).1) FreeinodesLogged s es := by
  refine replay_prefixes_iff (R := fun s t => t = s ∧ s.WF) ?_ ?_ ?_ es s s ⟨rfl, hwf⟩
  · rintro s t ⟨rfl, _⟩
    exact ⟨rfl, fun _ => rfl⟩
  · rintro s t e ⟨rfl, h⟩ hc
    exact ⟨_, inodeStep_replays h hc, rfl, inodeStep_wf h hc⟩
  · rintro s t e ⟨rfl, h⟩ hc t' hrep
    exact inodeStep_drifts h hc hrep

/-- A master with inodes 1, 5 and 6 in use and nothing in the free list. -/
def smallPool : InodeState :=
  { pool :=
      { freelist := [], freelastts := 0
        freebitmask := fun i => i == 0 || i == 1 || i == 5 || i == 6
        searchpos := 0, bitmasksize := 0x100, maxnodeid := 6 }
    openFiles := [] }

theorem smallPool_wf : smallPool.WF := ⟨rfl, List.nodup_nil⟩

/-- The clock steps back from 1000 to 900, but inode 5 is due then: the run that re-stamps
inode 6 logs a record, and the replica follows. -/
theorem inode_replay_clock_back :
    smallPool.WF ∧ ∀ n, Replays inodeStep inodeApply SameInodes smallPool smallPool
      (([.freeId 5 100, .openfile 7 6, .freeId 6 1000, .freeinodes 900 300, .sync 7 [],
         .freeinodes 1300 300] : List InodeEvent).take n) :=
  ⟨smallPool_wf, (inode_replay_iff smallPool smallPool_wf _).mpr (by decide)⟩

/-- Inode 5 is removed at 1000, the clock steps back to 500 and a freeing run re-stamps
it silently; at 900 the leader frees it, and the replica refuses the record. -/
theorem inode_replay_restamp_mismatch :
    smallPool.WF ∧ ¬ Replays inodeStep inodeApply SameInodes smallPool smallPool
      [.freeId 5 1000, .freeinodes 500 300, .freeinodes 900 300] := by
  refine ⟨smallPool_wf, ?_⟩
  rintro ⟨t, hrep, _⟩
  have hnone : replay inodeApply smallPool (logRun inodeStep smallPool
      [.freeId 5 1000, .freeinodes 500 300, .freeinodes 900 300]).2 = none := rfl
  rw [hnone] at hrep
  cases hrep

end MfsMaster
