/-
  MfsMaster.Data.FailedWrite
  **WHAT A FAILED WRITE LEAVES BEHIND.**

  `fs_writechunk` makes the table of the file longer before it asks for the chunk, so a request
  that finds no server leaves empty entries at the end.  The replicas do not see them, and
  `fsnodes_snapshot` compares the numbers of entries.  A chunk that is there is looked after
  first; what of this is logged stays when the chunk is then refused.

      changeChunk_answer                — when a chunk is refused, and what is logged by then
      failed_write_leaves_no_trace_iff  — the writes that leave nothing behind when they fail
      failed_write_grows_table          — one that does
-/
import MfsMaster.Data.Recorded
import MfsMaster.Data.References
import MfsMaster.Data.RefsWrite

namespace MfsMaster.System

/-! ## §1. The change of a chunk. -/

section Change

variable (sys : System) (srv : Servers)

/-- The chunk is neither locked nor without files, so that its change is prepared. -/
def Prepared (continueop : Bool) (chunkid : Nat) (c : Chunk) : Prop :=
  ¬ ((srv.now ≤ c.lockedto ∨ srv.replock chunkid = true) ∧ (!continueop) = true)
    ∧ c.fhead ≠ .few 0

/-- Something is logged before the chunk is changed or refused. -/
def ChangeRecords (continueop : Bool) (chunkid : Nat) (c : Chunk) : Prop :=
  sys.LossRecords srv chunkid c
    ∨ ∃ c', (sys.dropDisconnected srv chunkid).fs.chunks chunkid = some c'
      ∧ Prepared srv continueop chunkid c'
      ∧ PrepareRecords srv (sys.dropDisconnected srv chunkid).fs.sclasses c'

/-- The chunk can be changed: once the entries of lost servers are dropped it is still there,
neither locked nor without files, and `chunk_prepare_to_modify` accepts it. -/
def Changeable (continueop : Bool) (chunkid : Nat) : Prop :=
  ∃ c', (sys.dropDisconnected srv chunkid).fs.chunks chunkid = some c'
    ∧ Prepared srv continueop chunkid c'
    ∧ (chunkPrepareToModify srv (sys.dropDisconnected srv chunkid).fs.sclasses c').1 = .ok

/-- **A chunk is changed iff it can be**; when it is refused, what is logged by then is known. -/
theorem changeChunk_answer {ch : ChunkChange} {continueop : Bool} {chunkid k : Nat} {c : Chunk}
    (hc : sys.fs.chunks chunkid = some c) :
    (sys.Changeable srv continueop chunkid
      → ∃ r, (sys.changeChunk srv ch continueop chunkid k).2 = .ok r)
    ∧ (¬ sys.Changeable srv continueop chunkid
      → (∃ st, st ≠ .ok ∧ (sys.changeChunk srv ch continueop chunkid k).2 = .error st)
        ∧ Leaves (sys.ChangeRecords srv continueop chunkid c) sys
          (sys.changeChunk srv ch continueop chunkid k).1) := by
  have hdrop := leaves_dropDisconnected sys srv chunkid hc
  unfold changeChunk Changeable ChangeRecords
  dsimp only
  generalize sys.dropDisconnected srv chunkid = sys1 at hdrop ⊢
  cases hc1 : sys1.fs.chunks chunkid with
  | none =>
    refine ⟨(fun ⟨_, h, _⟩ => nomatch h), fun _ => ⟨⟨.nochunk, nofun, rfl⟩, ?_⟩⟩
    exact hdrop.congr (or_iff_left (fun ⟨_, h, _⟩ => nomatch h)).symm
  | some c1 =>
    simp only [Option.some.injEq, exists_eq_left']
    -- what is refused before the preparation is refused without a further record
    have hearly : ∀ st, st ≠ .ok → ¬ Prepared srv continueop chunkid c1 →
        (∃ st', st' ≠ .ok ∧ (Except.error st : Changed) = .error st')
          ∧ Leaves (sys.LossRecords srv chunkid c ∨ Prepared srv continueop chunkid c1
            ∧ PrepareRecords srv sys1.fs.sclasses c1) sys sys1 := by
      intro st hst hnot
      exact ⟨⟨st, hst, rfl⟩, hdrop.congr (or_iff_left fun h => hnot h.1).symm⟩
    split
    next hlocked =>
      have hnot : ¬ Prepared srv continueop chunkid c1 := fun h => h.1 hlocked
      exact ⟨fun h => absurd h.1 hnot, fun _ => hearly .locked nofun hnot⟩
    next hunlocked =>
    split
    next hempty =>
      have hnot : ¬ Prepared srv continueop chunkid c1 := fun h => h.2 hempty
      exact ⟨fun h => absurd h.1 hnot, fun _ => hearly .chunklost nofun hnot⟩
    next hfiles =>
    have hprep : Prepared srv continueop chunkid c1 := ⟨hunlocked, hfiles⟩
    rw [and_iff_right hprep, and_iff_right hprep]
    split
    next hbad =>
      refine ⟨fun h => absurd h hbad, fun _ => ⟨⟨_, hbad, rfl⟩, ?_⟩⟩
      have hcommit := leaves_commit sys1 srv chunkid
        (chunkPrepareToModify srv sys1.fs.sclasses c1).2.1
        (statuses_chunkPrepareToModify srv sys1.fs.sclasses c1)
      exact hdrop.trans (hcommit.congr (chunkPrepareToModify_records srv _ c1))
    next hok =>
      rw [not_not] at hok
      refine ⟨fun _ => ?_, fun h => absurd hok h⟩
      split <;> exact ⟨_, rfl⟩

end Change

/-! ## §2. A write. -/

section Write

variable (sys : System) (srv : Servers)

variable {inode indx : Nat} {n : FsNode}

/-- What a write that failed should not have changed: the length, the table and the attributes of
the file, the statistics and the log. -/
structure Untraced (inode : Nat) (sys sys' : System) : Prop where
  file : (sys'.fs.nodes inode).map (fun n => (n.length, n.chunktab, n.eattr))
    = (sys.fs.nodes inode).map fun n => (n.length, n.chunktab, n.eattr)
  stats : sys'.fs.stats = sys.fs.stats
  log : sys'.log = sys.log

/-- **The condition**: once the tests have accepted the request, an index beyond the end of the
table finds a server for a new chunk; and a chunk that is there can be changed if anything is
logged on the way to the change. -/
def WriteQuiet (inode indx : Nat) (continueop canusereserve : Bool) : Prop :=
  ∀ n, sys.writeCheck srv inode indx canusereserve = .ok n →
    (entryAt n indx = 0 → indx < n.chunktab.length ∨ srv.csids ≠ [])
    ∧ (entryAt n indx ≠ 0 → ∀ c, sys.fs.chunks (entryAt n indx) = some c →
      sys.ChangeRecords srv continueop (entryAt n indx) c →
        sys.Changeable srv continueop (entryAt n indx))

theorem Leaves.untraced_iff {sys sys' : System} {C : Prop} (h : Leaves C sys sys') :
    Untraced inode sys sys' ↔ ¬ C := by
  constructor
  · exact fun hun => h.log_iff.mp hun.log
  intro hC
  have hstill := h.2 hC
  exact ⟨by rw [hstill.nodes], hstill.stats, hstill.log⟩

theorem growTab_of_lt {tab : List Nat} (h : indx < tab.length) : growTab (indx + 1) tab = tab := by
  unfold growTab
  rw [Nat.sub_eq_zero_of_le h, List.replicate_zero, List.append_nil]

theorem modNode_growTab (hn : sys.fs.nodes inode = some n) (h : indx < n.chunktab.length) :
    sys.modFs (·.modNode inode (.setChunktab (growTab (indx + 1) n.chunktab))) = sys := by
  have hnodes : (fun j => if j = inode then
      (sys.fs.nodes j).map (.setChunktab (growTab (indx + 1) n.chunktab)) else sys.fs.nodes j)
        = sys.fs.nodes := by
    funext j
    split
    next hj =>
      rw [hj, hn, growTab_of_lt h]
      rfl
    · rfl
  show { sys with fs := { sys.fs with nodes := _ } } = sys
  rw [hnodes]

theorem untraced_create_iff (hn : sys.fs.nodes inode = some n) :
    (srv.csids = [] → Untraced inode sys
        (sys.modFs (·.modNode inode (.setChunktab (growTab (indx + 1) n.chunktab)))))
      ↔ indx < n.chunktab.length ∨ srv.csids ≠ [] := by
  constructor
  · intro h
    by_contra hnot
    rw [not_or, not_not] at hnot
    -- the table has become longer
    have hfile := (h hnot.2).file
    have hnode : (sys.modFs (·.modNode inode
        (.setChunktab (growTab (indx + 1) n.chunktab)))).fs.nodes inode
        = some (n.setChunktab (growTab (indx + 1) n.chunktab)) := by
      show (if inode = inode then (sys.fs.nodes inode).map _ else _) = _
      rw [if_pos rfl, hn]
      rfl
    rw [hnode, hn] at hfile
    have htab : growTab (indx + 1) n.chunktab = n.chunktab :=
      congrArg (fun x => x.2.1) (Option.some.inj hfile)
    have hlen := congrArg List.length htab
    unfold growTab at hlen
    rw [List.length_append, List.length_replicate] at hlen
    omega
  · rintro (hlt | hne) hnil
    · rw [modNode_growTab sys hn hlt]
      exact ⟨rfl, rfl, rfl⟩
    · exact absurd hnil hne

/-- **A failed write leaves no trace iff it is quiet.** -/
theorem failed_write_leaves_no_trace_iff (inode indx : Nat)
    (continueop canmodtime canusereserve : Bool) :
    ((sys.fsWritechunk srv inode indx continueop canmodtime canusereserve).1.status ≠ .ok →
        Untraced inode sys
          (sys.fsWritechunk srv inode indx continueop canmodtime canusereserve).2)
      ↔ sys.WriteQuiet srv inode indx continueop canusereserve := by
  unfold fsWritechunk WriteQuiet
  cases hcheck : sys.writeCheck srv inode indx canusereserve with
  | error st => exact iff_of_true (fun _ => ⟨rfl, rfl, rfl⟩) (fun _ h => nomatch h)
  | ok n =>
    have hn : sys.fs.nodes inode = some n := (writeCheck_ok hcheck).1
    simp only [writeBody, Except.ok.injEq, forall_eq']
    unfold chunkMultiModify
    by_cases hzero : entryAt n indx = 0
    · -- a new chunk: only the want of a server is an error
      rw [and_iff_left fun hne => absurd hzero hne, imp_iff_right hzero, if_pos hzero,
        ← untraced_create_iff sys srv hn]
      unfold createChunk
      by_cases hcs : srv.csids = []
      · have hstatus : (if (srv.overloaded || !srv.csalldata) = true then Status.eagain
            else if (srv.anyServer && srv.csstable) = true then .nospace else .nochunkservers)
            ≠ .ok := by
          split
          · nofun
          · split <;> nofun
        rw [if_pos (by rw [hcs]; rfl), imp_iff_right hcs]
        exact imp_iff_right hstatus
      · rw [if_neg (by rw [List.isEmpty_iff]; exact hcs)]
        exact iff_of_true (fun h => absurd rfl h) fun h => absurd h hcs
    · have hlt := entryAt_mem (Nat.pos_of_ne_zero hzero)
      rw [and_iff_right fun heq => absurd heq hzero, imp_iff_right hzero, if_neg hzero,
        modNode_growTab sys hn hlt]
      cases hc : sys.fs.chunks (entryAt n indx) with
      | none =>
        -- a chunk that is missing is refused at once
        have hchange : sys.changeChunk srv .modify continueop (entryAt n indx) n.sclassid
            = (sys, .error .nochunk) := by
          unfold changeChunk dropDisconnected
          simp only [hc]
        rw [hchange]
        exact iff_of_true (fun _ => ⟨rfl, rfl, rfl⟩) (fun _ h => nomatch h)
      | some c =>
        simp only [Option.some.injEq, forall_eq']
        obtain ⟨hok, herr⟩ := changeChunk_answer sys srv hc
        generalize sys.changeChunk srv .modify continueop (entryAt n indx) n.sclassid = r
          at hok herr ⊢
        by_cases hcan : sys.Changeable srv continueop (entryAt n indx)
        · obtain ⟨v, hv⟩ := hok hcan
          rw [hv]
          exact iff_of_true (fun h => absurd rfl h) fun _ => hcan
        obtain ⟨⟨st, hst, hv⟩, hleaves⟩ := herr hcan
        rw [hv]
        refine (imp_iff_right hst).trans (hleaves.untraced_iff.trans ?_)
        exact ⟨fun hnot hrec => absurd hrec hnot, fun h hrec => hcan (h hrec)⟩

end Write

/-- An empty file. -/
def emptyFile : System :=
  newSystem.modFs fun s => { s with
    nodes := fun i => if i = 2 then some { Master.rootNode 0 with type := .file, nlink := 1 }
      else s.nodes i }

/-- No server can take a new chunk. -/
def noServer : Servers := { oneServer with csids := [], anyServer := false }

/-- **A write that fails and makes the table longer.** -/
theorem failed_write_grows_table :
    (emptyFile.fsWritechunk noServer 2 3 false true false).1.status = .nochunkservers
      ∧ (emptyFile.fs.nodes 2).map FsNode.chunktab = some []
      ∧ ((emptyFile.fsWritechunk noServer 2 3 false true false).2.fs.nodes 2).map FsNode.chunktab
        = some [0, 0, 0, 0]
      ∧ (emptyFile.fsWritechunk noServer 2 3 false true false).2.log = emptyFile.log := by
  decide +kernel

end MfsMaster.System
