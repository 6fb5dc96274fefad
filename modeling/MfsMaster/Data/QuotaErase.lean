/-
  MfsMaster.Data.QuotaErase
  **QUOTAS DO NOT STEER THE DATA PATH** beyond their own test.

  `withQuota Q` puts other limits on the directories.  What happens to the chunk of a write,
  and every answer sent on the way, is the same under all limits.  `fs_writechunk` asks one
  question about them, among its tests (`writeCheck_eq_ok`), and goes on in the same way
  whenever the answer is no:

      writeBody_withQuota
-/
import MfsMaster.Data.RefsWrite

namespace MfsMaster

/-! ## §1. Metadata. -/

namespace Master

/-- Other limits. -/
def withQuota (s : Master) (quota : Nat → Option QuotaNode) : Master := { s with quota := quota }

variable (s : Master) (Q : Nat → Option QuotaNode)

@[simp] theorem chunks_withQuota : (s.withQuota Q).chunks = s.chunks := rfl

@[simp] theorem sclasses_withQuota : (s.withQuota Q).sclasses = s.sclasses := rfl

end Master

/-! ## §2. The leader. -/

namespace System

variable {inode indx : Nat} {n : FsNode}

/-- Other limits. -/
def withQuota (sys : System) (quota : Nat → Option QuotaNode) : System :=
  sys.modFs (·.withQuota quota)

variable (sys : System) (srv : Servers) (Q : Nat → Option QuotaNode)

@[simp] theorem fs_withQuota : (sys.withQuota Q).fs = sys.fs.withQuota Q := rfl

theorem chunkUnlock_withQuota {chunkid : Nat} :
    (sys.withQuota Q).chunkUnlock srv chunkid
      = ((sys.chunkUnlock srv chunkid).1, (sys.chunkUnlock srv chunkid).2.withQuota Q) := by
  unfold chunkUnlock
  rw [fs_withQuota, Master.chunks_withQuota]
  cases sys.fs.chunks chunkid with
  | none => rfl
  | some c =>
    dsimp only
    split
    · split <;> rfl
    · rfl

variable {srv} {chunkid o k : Nat}

theorem answerRequest_withQuota {w : SwChunk} {st : Status}
    (hidle : answerIdle srv w (sys.fs.chunks w.chunkid) st = true) :
    (sys.withQuota Q).answerRequest srv w st = (sys.answerRequest srv w st).withQuota Q := by
  rcases answerRequest_idle hidle with h | ⟨r, h⟩
  · rw [h sys rfl rfl, h (sys.withQuota Q) rfl rfl]
  · rw [h sys rfl rfl, h (sys.withQuota Q) rfl rfl]
    exact congrArg Prod.snd (chunkUnlock_withQuota (sys.changelog r) srv Q)

theorem effects_withQuota {effs : List Effect} (hone : (statuses effs).length ≤ 1)
    (hidle : sys.answersMeet srv chunkid
      (fun w st => answerIdle srv w (sys.fs.chunks w.chunkid) st) effs = true) :
    effs.foldl (effect srv chunkid) (sys.withQuota Q)
      = (effs.foldl (effect srv chunkid) sys).withQuota Q := by
  induction effs generalizing sys with
  | nil => rfl
  | cons e effs ih =>
    rw [List.foldl_cons, List.foldl_cons]
    cases e with
    | setversion v => exact ih (sys.changelog (.setversion chunkid v)) hone hidle
    | chunkflagsclr => exact ih (sys.changelog (.chunkflagsclr srv.now chunkid)) hone hidle
    | status st =>
      have hrest : statuses effs = [] :=
        List.length_eq_zero_iff.mp (Nat.le_zero.mp (Nat.le_of_succ_le_succ hone))
      have hanswer : effect srv chunkid (sys.withQuota Q) (.status st)
          = (effect srv chunkid sys (.status st)).withQuota Q := by
        show (sys.withQuota Q).matoclservChunkStatus srv chunkid st
          = (sys.matoclservChunkStatus srv chunkid st).withQuota Q
        unfold matoclservChunkStatus
        have hlist : (sys.withQuota Q).swchunks = sys.swchunks := rfl
        rw [hlist]
        cases hw : sys.swchunks.find? fun w => w.chunkid == chunkid with
        | none => rfl
        | some w =>
          dsimp only
          split
          next hcon =>
            exact answerRequest_withQuota { sys with swchunks := sys.swchunks.erase w } Q
              (answersMeet_spec hidle List.mem_cons_self hw hcon)
          · rfl
      rw [hanswer]
      refine ih _ (hrest ▸ Nat.zero_le 1) ?_
      unfold answersMeet
      rw [hrest]
      rfl

theorem dropDisconnected_withQuota (hidle : sys.dropMeets srv chunkid (answerIdle srv) = true) :
    (sys.withQuota Q).dropDisconnected srv chunkid
      = (sys.dropDisconnected srv chunkid).withQuota Q := by
  unfold dropMeets at hidle
  unfold dropDisconnected
  rw [fs_withQuota, Master.chunks_withQuota]
  cases hc : sys.fs.chunks chunkid with
  | none => rfl
  | some c =>
    rw [hc, Option.bind_some] at hidle
    dsimp only
    cases hr : chunkRemoveDisconnectedChunks srv c with
    | none => rfl
    | some r =>
      rw [hr] at hidle
      refine effects_withQuota (sys.modFs (·.putChunk chunkid r.1)) Q
        (statuses_chunkRemoveDisconnectedChunks hr) ?_
      refine List.all_eq_true.mpr fun st hst => ?_
      have hone := List.all_eq_true.mp hidle st hst
      have hlist : (sys.modFs (·.putChunk chunkid r.1)).swchunks = sys.swchunks := rfl
      rw [hlist]
      cases hw : sys.swchunks.find? fun w => w.chunkid == chunkid with
      | none => rfl
      | some w =>
        rw [hw] at hone
        have hid : w.chunkid = chunkid := by simpa using List.find?_some hw
        have hchunk : (sys.modFs (·.putChunk chunkid r.1)).fs.chunks w.chunkid = some r.1 :=
          if_pos hid
        dsimp only at hone ⊢
        rw [hchunk]
        exact hone

theorem chunkMultiModify_withQuota (hidle : sys.dropMeets srv o (answerIdle srv) = true)
    (continueop : Bool) :
    ((sys.withQuota Q).chunkMultiModify srv continueop o k).2
      = (sys.chunkMultiModify srv continueop o k).2 := by
  unfold chunkMultiModify
  split
  · unfold createChunk
    split <;> rfl
  unfold changeChunk
  dsimp only
  rw [dropDisconnected_withQuota sys Q hidle]
  generalize sys.dropDisconnected srv o = sys1
  rw [fs_withQuota, Master.chunks_withQuota]
  cases sys1.fs.chunks o with
  | none => rfl
  | some oc =>
    dsimp only
    split
    · rfl
    split
    · rfl
    have hsilent := statuses_chunkPrepareToModify srv sys1.fs.sclasses oc
    have hcommit : (sys1.withQuota Q).commit srv o (chunkPrepareToModify srv sys1.fs.sclasses oc).2
        = (sys1.commit srv o (chunkPrepareToModify srv sys1.fs.sclasses oc).2).withQuota Q := by
      refine effects_withQuota (sys1.modFs (·.putChunk o _)) Q
        (by rw [hsilent]; exact Nat.zero_le 1) ?_
      unfold answersMeet
      rw [hsilent]
      rfl
    rw [Master.sclasses_withQuota, hcommit]
    split
    · rfl
    split <;> rfl

/-! ## §3. `fs_writechunk`. -/

variable (srv)

/-- **The answer to a write** that has passed its tests. -/
theorem writeBody_withQuota (hn : sys.fs.nodes inode = some n)
    (hidle : sys.entryIdle srv inode indx = true) (continueop canmodtime : Bool) :
    ((sys.withQuota Q).writeBody srv inode indx continueop canmodtime n).1
      = (sys.writeBody srv inode indx continueop canmodtime n).1 := by
  unfold entryIdle at hidle
  rw [hn] at hidle
  unfold writeBody
  dsimp only
  have hr := chunkMultiModify_withQuota (k := n.sclassid) (sys.modFs (·.modNode inode
    (.setChunktab (growTab (indx + 1) n.chunktab)))) Q hidle continueop
  have hmod : (sys.withQuota Q).modFs (·.modNode inode
      (.setChunktab (growTab (indx + 1) n.chunktab)))
      = (sys.modFs (·.modNode inode
        (.setChunktab (growTab (indx + 1) n.chunktab)))).withQuota Q := rfl
  rw [hmod, hr]
  split <;> rfl

/-- The tests of a write without a quota. -/
def writeFits (sys : System) (srv : Servers) (inode indx : Nat) (canusereserve : Bool)
    (n : FsNode) : Prop :=
  (!srv.availspace && !canusereserve) = false ∧ sys.fs.nodes inode = some n ∧ n.type.hasData = true
    ∧ hasBit n.eattr eattrImmutable = false ∧ indx ≤ maxIndex

theorem writeCheck_eq_ok {canusereserve : Bool} :
    sys.writeCheck srv inode indx canusereserve = .ok n
      ↔ sys.writeFits srv inode indx canusereserve n
        ∧ sys.fs.fsnodesTestQuota inode (writeDemand sys.fs n indx) = false := by
  simp only [writeCheck, except_bind_eq_ok, require_eq_ok, refuse_eq_ok, exists_const]
  constructor
  · rintro ⟨hspace, m, hm, hd, himm, hidx, hquota, hn⟩
    cases hn
    exact ⟨⟨hspace, hm, by simpa using hd, himm, by simpa using hidx⟩, hquota⟩
  · rintro ⟨⟨hspace, hm, hd, himm, hidx⟩, hquota⟩
    exact ⟨hspace, n, hm, by simp [hd], himm, by simpa using hidx, hquota, rfl⟩

end System

end MfsMaster
