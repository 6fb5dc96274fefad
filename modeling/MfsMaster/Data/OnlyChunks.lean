/-
  MfsMaster.Data.OnlyChunks
  **WHAT A CHUNK FUNCTION LEAVES ALONE.**

  A call that looks at one chunk may drop the entries of lost servers and answer a waiting
  request on the way.  When that answer changes no file (`answerIdle`), nodes, edges,
  statistics and quotas are as they were:

      OnlyChunks s t         — `t` is `s` but for the chunks
      NewChunks s t          — `t` is `s` but for the chunks and the next number of one
      changeChunk_frame      — `chunk_univ_multi_modify` and `chunk_univ_multi_truncate`
      swchunks_changeChunk   — no request begins to wait in them
-/
import MfsMaster.Data.RefsWrite

namespace MfsMaster

/-! ## §1. The two frames. -/

variable {s t : Master}

namespace Master

/-- Only chunks differ. -/
def OnlyChunks (s t : Master) : Prop := ∃ cs, t = { s with chunks := cs }

/-- Only chunks and the number of the next one differ. -/
def NewChunks (s t : Master) : Prop := ∃ cs n, t = { s with chunks := cs, nextchunkid := n }

theorem OnlyChunks.refl (s : Master) : OnlyChunks s s := ⟨s.chunks, rfl⟩

theorem OnlyChunks.trans {u : Master} (h : OnlyChunks s t) (h' : OnlyChunks t u) :
    OnlyChunks s u := by
  obtain ⟨cs, rfl⟩ := h
  obtain ⟨cs', rfl⟩ := h'
  exact ⟨cs', rfl⟩

theorem OnlyChunks.next (h : OnlyChunks s t) : t.nextchunkid = s.nextchunkid := by
  obtain ⟨cs, rfl⟩ := h
  rfl

theorem OnlyChunks.newChunks (h : OnlyChunks s t) : NewChunks s t := by
  obtain ⟨cs, rfl⟩ := h
  exact ⟨cs, s.nextchunkid, rfl⟩

theorem NewChunks.trans {u : Master} (h : NewChunks s t) (h' : NewChunks t u) : NewChunks s u := by
  obtain ⟨cs, n, rfl⟩ := h
  obtain ⟨cs', n', rfl⟩ := h'
  exact ⟨cs', n', rfl⟩

theorem NewChunks.nodes (h : NewChunks s t) : t.nodes = s.nodes := by
  obtain ⟨cs, n, rfl⟩ := h
  rfl

theorem onlyChunks_putChunk (s : Master) (chunkid : Nat) (c : Chunk) :
    OnlyChunks s (s.putChunk chunkid c) := ⟨_, rfl⟩

theorem onlyChunks_chunkDelete {chunkid : Nat} : OnlyChunks s (s.chunkDelete chunkid) := ⟨_, rfl⟩

theorem newChunks_addChunk {c : Chunk} : NewChunks s (s.addChunk c) := ⟨_, _, rfl⟩

end Master

variable {chunkid o : Nat} {srv : Servers} {sys : System}

namespace System

open Master (OnlyChunks NewChunks)

/-! ## §2. Answers that change no file. -/

theorem onlyChunks_chunkUnlock :
    OnlyChunks sys.fs (sys.chunkUnlock srv chunkid).2.fs := by
  unfold chunkUnlock
  split
  · exact .refl _
  dsimp only
  split
  · split <;> exact Master.onlyChunks_putChunk _ _ _
  · exact Master.onlyChunks_putChunk _ _ _

theorem onlyChunks_commit {r : Chunk × List Effect} (hone : (statuses r.2).length ≤ 1)
    (hidle : sys.answersMeet srv chunkid (fun w st => answerIdle srv w (some r.1) st) r.2 = true) :
    OnlyChunks sys.fs (sys.commit srv chunkid r).fs := by
  have hput := Master.onlyChunks_putChunk sys.fs chunkid r.1
  rcases commit_idle hone hidle with heq | ⟨sys', hfs, heq⟩
  · rwa [heq]
  · rw [heq]
    exact hput.trans (hfs ▸ onlyChunks_chunkUnlock)

theorem onlyChunks_dropDisconnected (hidle : sys.dropMeets srv chunkid (answerIdle srv) = true) :
    OnlyChunks sys.fs (sys.dropDisconnected srv chunkid).fs := by
  unfold dropMeets at hidle
  unfold dropDisconnected
  cases hc : sys.fs.chunks chunkid with
  | none => exact .refl _
  | some c =>
    rw [hc, Option.bind_some] at hidle
    dsimp only
    cases hr : chunkRemoveDisconnectedChunks srv c with
    | none => exact Master.onlyChunks_chunkDelete
    | some r =>
      rw [hr] at hidle
      exact onlyChunks_commit (statuses_chunkRemoveDisconnectedChunks hr) hidle

/-! ## §3. Changes of a chunk. -/

/-- What a chunk function answers: the chunk it was asked about, or a new one. -/
def SameOrNew (s : Master) (o : Nat) (r : System × Changed) : Prop :=
  NewChunks s r.1.fs ∧ ∀ c op, r.2 = .ok (c, op) → c = o ∨ c = s.nextchunkid

section

variable (hidle : sys.dropMeets srv o (answerIdle srv) = true)
include hidle

theorem changeChunk_frame {ch : ChunkChange}
    {continueop : Bool} {k : Nat} : SameOrNew sys.fs o (sys.changeChunk srv ch continueop o k) := by
  have hdrop := onlyChunks_dropDisconnected hidle
  unfold changeChunk
  dsimp only
  generalize sys.dropDisconnected srv o = sys1 at hdrop ⊢
  split
  · exact ⟨hdrop.newChunks, nofun⟩
  next oc _ =>
  split
  · exact ⟨hdrop.newChunks, nofun⟩
  split
  · exact ⟨hdrop.newChunks, nofun⟩
  -- the preparation gives no answer
  have hnone := statuses_chunkPrepareToModify srv sys1.fs.sclasses oc
  generalize chunkPrepareToModify srv sys1.fs.sclasses oc = p at hnone ⊢
  have hfs : (sys1.commit srv o p.2).fs = sys1.fs.putChunk o p.2.1 :=
    effects_of_no_status srv o hnone (sys1.modFs (·.putChunk o p.2.1))
  have hprep : OnlyChunks sys.fs (sys1.commit srv o p.2).fs :=
    hdrop.trans (hfs ▸ Master.onlyChunks_putChunk sys1.fs o p.2.1)
  split
  · exact ⟨hprep.newChunks, nofun⟩
  split
  · have hput := Master.onlyChunks_putChunk (sys1.commit srv o p.2).fs o
      (ch.finish srv.now (ch.inPlace p.2.1).2)
    refine ⟨(hprep.trans hput).newChunks, fun c op h => .inl ?_⟩
    cases h
    rfl
  · have hleave := Master.onlyChunks_putChunk (sys1.commit srv o p.2).fs o
      (chunkDeleteFileInt (sys1.commit srv o p.2).fs.sclasses p.2.1 k).2
    refine ⟨(hprep.trans hleave).newChunks.trans Master.newChunks_addChunk,
      fun c op h => .inr ?_⟩
    cases h
    exact hprep.next

theorem chunkMultiTruncate_frame (k : Nat) : SameOrNew sys.fs o (sys.chunkMultiTruncate srv o k) :=
  changeChunk_frame hidle

theorem chunkMultiModify_frame (continueop : Bool) (k : Nat) :
    SameOrNew sys.fs o (sys.chunkMultiModify srv continueop o k) := by
  unfold chunkMultiModify
  split
  · unfold createChunk
    split
    · exact ⟨(OnlyChunks.refl _).newChunks, nofun⟩
    refine ⟨Master.newChunks_addChunk, fun c op h => .inr ?_⟩
    cases h
    rfl
  · exact changeChunk_frame hidle

/-! ## §4. Waiting requests. -/

end

variable (sys)

theorem swchunks_chunkUnlock :
    (sys.chunkUnlock srv chunkid).2.swchunks = sys.swchunks := by
  unfold chunkUnlock
  split
  · rfl
  dsimp only
  split
  · split <;> rfl
  · rfl

theorem swchunks_fsRollback {sys : System} {inode indx prev : Nat} :
    (sys.fsRollback srv inode indx prev chunkid).2.swchunks = sys.swchunks := by
  unfold fsRollback
  split
  · rfl
  · exact swchunks_chunkUnlock _

theorem swchunks_fsWriteend (srv : Servers) (inode : Nat) (length : UInt64)
    (chunkid : Nat) (canmodtime : Bool) :
    (sys.fsWriteend srv inode length chunkid canmodtime).2.swchunks = sys.swchunks := by
  unfold fsWriteend
  split
  · rfl
  next sys' hlen =>
    refine (swchunks_chunkUnlock _).trans ?_
    rcases writeend_cases hlen with rfl | ⟨n, _, _, _, rfl⟩ <;> rfl

theorem swchunks_fsDoSetlength (srv : Servers) (ses : Session) (inode : Nat)
    (flags : UInt8) (length : UInt64) :
    (sys.fsDoSetlength srv ses inode flags length).2.swchunks = sys.swchunks := by
  unfold fsDoSetlength
  split
  · rfl
  split
  · rfl
  split
  · split <;> rfl
  · rfl

theorem swchunks_answerRequest {w : SwChunk} {st : Status} :
    (sys.answerRequest srv w st).swchunks = sys.swchunks := by
  unfold answerRequest
  split
  · split
    · exact swchunks_fsWriteend sys srv _ 0 _ false
    · rfl
  · dsimp only
    generalize (if st = Status.ok then csdataAnswer srv (sys.fs.chunks w.chunkid) else st) = st'
    split
    · rfl
    · exact swchunks_fsRollback
  · split
    · exact (swchunks_fsDoSetlength _ srv _ _ _ _).trans (swchunks_chunkUnlock _)
    · exact swchunks_fsRollback

/-- Answers only take requests off the list. -/
theorem swchunks_effects {effs : List Effect} {sys : System} :
    (effs.foldl (effect srv chunkid) sys).swchunks ⊆ sys.swchunks := by
  refine List.foldlRecOn (motive := fun t : System => t.swchunks ⊆ sys.swchunks) effs _
    (List.Subset.refl _) fun t ht e _ => List.Subset.trans ?_ ht
  cases e with
  | setversion | chunkflagsclr => exact List.Subset.refl _
  | status st =>
    show (t.matoclservChunkStatus srv chunkid st).swchunks ⊆ t.swchunks
    unfold matoclservChunkStatus
    split
    · exact List.Subset.refl _
    next swc _ =>
    have herase : t.swchunks.erase swc ⊆ t.swchunks := List.erase_subset
    split
    · rw [swchunks_answerRequest]
      exact herase
    · exact herase

theorem swchunks_changeChunk (srv : Servers) (ch : ChunkChange) (continueop : Bool)
    (o k : Nat) : (sys.changeChunk srv ch continueop o k).1.swchunks ⊆ sys.swchunks := by
  have hdrop : (sys.dropDisconnected srv o).swchunks ⊆ sys.swchunks := by
    unfold dropDisconnected
    split
    · exact List.Subset.refl _
    split
    · exact List.Subset.refl _
    · exact swchunks_effects
  unfold changeChunk
  dsimp only
  generalize sys.dropDisconnected srv o = sys1 at hdrop ⊢
  split
  · exact hdrop
  next oc _ =>
  split
  · exact hdrop
  split
  · exact hdrop
  have hprep : (sys1.commit srv o (chunkPrepareToModify srv sys1.fs.sclasses oc).2).swchunks
      ⊆ sys.swchunks := List.Subset.trans swchunks_effects hdrop
  split
  · exact hprep
  split <;> exact hprep

variable {sys}

end System

end MfsMaster
