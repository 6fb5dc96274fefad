/-
  MfsMaster.Data.RefsAnswer
  **WHAT CHUNK SERVERS ANSWER AND THE REFERENCES.**

  A chunk function keeps the files of its chunk; what it has to say to a waiting request
  may take a change of a table back.  The references stay sound if every such answer
  finds the table as the request left it: `answerSafe`.
-/
import MfsMaster.Data.RefsTables
import MfsMaster.Data.Reports

namespace MfsMaster.System

open Master

open Master (Sound SameData rollbackSafe)

variable {inode : Nat} {status : Status}

/-! ## §1. Unlocking and the ends of requests. -/

theorem sameData_chunkUnlock {sys : System} {srv : Servers} {chunkid : Nat} :
    SameData sys.fs (sys.chunkUnlock srv chunkid).2.fs := by
  unfold chunkUnlock
  cases hc : sys.fs.chunks chunkid with
  | none => exact .refl _
  | some c =>
    dsimp only
    split
    · have hf : (chunkStateFix (srv.job.run (unlockChunk srv.now c))).files = c.files :=
        (Chunk.files_of_view view_job).trans rfl
      split <;> exact sameData_putChunk hc hf
    · exact sameData_putChunk hc rfl

variable {chunkid : Nat} {sys : System} {srv : Servers} {st : Status} {w : SwChunk}
  {effs : List Effect} {c : Chunk} {r : Chunk × List Effect}

theorem sound_fsRollback (h : sys.fs.Sound) {indx prevchunkid : Nat}
    (hsafe : rollbackSafe sys.fs inode indx prevchunkid chunkid = true) :
    (sys.fsRollback srv inode indx prevchunkid chunkid).2.fs.Sound := by
  unfold fsRollback
  cases hcheck : sys.fs.rollbackCheck inode indx with
  | error st => exact h
  | ok n =>
    obtain ⟨hn, hd, hlt⟩ := rollbackCheck_ok hcheck
    refine Sound.sameData ?_ sameData_chunkUnlock
    exact h.rollbackTable hn hd hlt hsafe

theorem sound_fsWriteend (h : sys.fs.Sound) {length : UInt64} {canmodtime : Bool} :
    (sys.fsWriteend srv inode length chunkid canmodtime).2.fs.Sound := by
  unfold fsWriteend
  split
  · exact h
  next sys' hlen =>
  refine Sound.sameData ?_ sameData_chunkUnlock
  rcases writeend_cases hlen with rfl | ⟨n, _, _, _, rfl⟩
  · exact h
  · exact h.fsnodesSetlength.sameData
      (touched_touchData _ inode srv.now canmodtime).sameData

theorem sound_fsDoSetlength (h : sys.fs.Sound) (srv : Servers) (ses : Session)
    (inode : Nat) (flags : UInt8) (length : UInt64) :
    (sys.fsDoSetlength srv ses inode flags length).2.fs.Sound := by
  unfold fsDoSetlength
  split
  · exact h
  next i n _ =>
  split
  · exact h
  split
  · split
    · exact h.fsnodesSetlength
    · exact h
  · exact h.fsnodesSetlength.sameData (touched_touchData _ i srv.now _).sameData

/-! ## §2. Answers to waiting requests. -/

/-- Does the answer `st` take the request back?  `c` is the chunk of the request. -/
def fails (srv : Servers) (w : SwChunk) (c : Option Chunk) (st : Status) : Bool :=
  match w.type with
  | .create => false
  | .write => (if st = .ok then csdataAnswer srv c else st) != .ok
  | .truncate => st != .ok

/-- If the answer takes the request back, its rollback finds what it left. -/
def answerSafe (s : Master) (srv : Servers) (w : SwChunk) (c : Option Chunk) (st : Status) : Bool :=
  !fails srv w c st || s.rollbackSafe w.inode w.indx w.prevchunkid w.chunkid

/-- The answer changes no file. -/
def answerIdle (srv : Servers) (w : SwChunk) (c : Option Chunk) (st : Status) : Bool :=
  match w.type with
  | .create => true
  | .write => !fails srv w c st || w.prevchunkid == w.chunkid
  | .truncate => st != .ok && w.prevchunkid == w.chunkid

theorem sound_answerRequest (h : sys.fs.Sound)
    (hsafe : answerSafe sys.fs srv w (sys.fs.chunks w.chunkid) st = true) :
    (sys.answerRequest srv w st).fs.Sound := by
  have hroll : fails srv w (sys.fs.chunks w.chunkid) st = true →
      (sys.fsRollback srv w.inode w.indx w.prevchunkid w.chunkid).2.fs.Sound := by
    intro hf
    unfold answerSafe at hsafe
    rw [hf] at hsafe
    exact sound_fsRollback h hsafe
  unfold fails at hroll
  unfold answerRequest
  cases htype : w.type with
  | create =>
    dsimp only
    split
    · exact sound_fsWriteend h
    · exact h
  | write =>
    rw [htype] at hroll
    dsimp only at hroll ⊢
    generalize (if st = Status.ok then csdataAnswer srv (sys.fs.chunks w.chunkid) else st) = st'
      at hroll ⊢
    split
    · exact h
    next hne => exact hroll (by simpa using hne)
  | truncate =>
    rw [htype] at hroll
    dsimp only at hroll ⊢
    split
    · refine sound_fsDoSetlength ?_ srv w.session w.inode w.flags w.fleng
      refine Sound.sameData ?_ sameData_chunkUnlock
      exact h
    next hne => exact hroll (by simpa using hne)

/-- A rollback to the chunk that is there only unlocks it, if the node has the chunk at all. -/
theorem fsRollback_same (sys : System) (srv : Servers) (inode indx chunkid : Nat) :
    (∀ sys' : System, sys'.fs.nodes = sys.fs.nodes →
        (sys'.fsRollback srv inode indx chunkid chunkid).2 = sys')
      ∨ ∃ r, ∀ sys' : System, sys'.fs.nodes = sys.fs.nodes →
        (sys'.fsRollback srv inode indx chunkid chunkid).2
          = ((sys'.changelog r).chunkUnlock srv chunkid).2 := by
  have hcheck : ∀ sys' : System, sys'.fs.nodes = sys.fs.nodes →
      sys'.fs.rollbackCheck inode indx = sys.fs.rollbackCheck inode indx := by
    intro sys' hn
    unfold Master.rollbackCheck Master.dataNode
    rw [hn]
  unfold fsRollback
  cases hc : sys.fs.rollbackCheck inode indx with
  | error st => exact .inl fun sys' hn => by rw [hcheck sys' hn, hc]
  | ok n =>
    refine .inr ⟨.rollback srv.now inode indx chunkid chunkid, fun sys' hn => ?_⟩
    have htab : sys'.fs.rollbackTable inode indx chunkid chunkid n = sys'.fs := if_pos rfl
    rw [hcheck sys' hn, hc]
    dsimp only [modFs]
    rw [htab]

/-- **An idle answer** changes nothing, or unlocks the chunk; which of the two, the nodes and the
chunks decide. -/
theorem answerRequest_idle (hidle : answerIdle srv w (sys.fs.chunks w.chunkid) st = true) :
    (∀ sys' : System, sys'.fs.nodes = sys.fs.nodes → sys'.fs.chunks = sys.fs.chunks →
        sys'.answerRequest srv w st = sys')
      ∨ ∃ r, ∀ sys' : System, sys'.fs.nodes = sys.fs.nodes → sys'.fs.chunks = sys.fs.chunks →
        sys'.answerRequest srv w st = ((sys'.changelog r).chunkUnlock srv w.chunkid).2 := by
  unfold answerIdle fails at hidle
  unfold answerRequest
  have hroll := fsRollback_same sys srv w.inode w.indx w.chunkid
  cases htype : w.type with
  | create =>
    dsimp only
    split
    · exact .inr ⟨.unlock srv.now w.chunkid, fun _ _ _ => rfl⟩
    · exact .inl fun _ _ _ => rfl
  | write =>
    rw [htype] at hidle
    dsimp only at hidle ⊢
    by_cases hok : (if st = .ok then csdataAnswer srv (sys.fs.chunks w.chunkid) else st) = .ok
    · exact .inl fun sys' _ hchunks => by rw [hchunks, if_pos hok]
    have heq : w.prevchunkid = w.chunkid := by simpa [hok] using hidle
    rw [heq]
    refine hroll.imp (fun h sys' hn hchunks => ?_) (Exists.imp fun r h sys' hn hchunks => ?_)
    · rw [hchunks, if_neg hok, h sys' hn]
    · rw [hchunks, if_neg hok, h sys' hn]
  | truncate =>
    rw [htype] at hidle
    simp only [Bool.and_eq_true, bne_iff_ne, ne_eq, beq_iff_eq] at hidle
    simp only [if_neg hidle.1, hidle.2]
    exact hroll.imp (fun h sys' hn _ => h sys' hn) (Exists.imp fun r h sys' hn _ => h sys' hn)

/-- The answers among the effects of a chunk function. -/
def statuses (effs : List Effect) : List Status :=
  effs.filterMap fun e => match e with
    | .status st => some st
    | _ => none

/-- Every answer goes to no request, to one whose client is gone, or passes the test. -/
def answersMeet (sys : System) (srv : Servers) (chunkid : Nat) (test : SwChunk → Status → Bool)
    (effs : List Effect) : Bool :=
  (statuses effs).all fun st => match sys.swchunks.find? fun w => w.chunkid == chunkid with
    | none => true
    | some w => !srv.connected w.client || test w st

theorem effects_of_no_status (srv : Servers) (chunkid : Nat)
    (h : statuses effs = []) (sys : System) :
    (effs.foldl (effect srv chunkid) sys).fs = sys.fs := by
  induction effs generalizing sys with
  | nil => rfl
  | cons e effs ih =>
    cases e with
    | status st => cases h
    | setversion v => exact ih h (sys.changelog (.setversion chunkid v))
    | chunkflagsclr => exact ih h (sys.changelog (.chunkflagsclr srv.now chunkid))

/-- **At most one answer**: the effects leave the metadata alone, or do what the answer does to the
request that waits. -/
theorem effects_fs (h : (statuses effs).length ≤ 1) (sys : System) :
    (effs.foldl (effect srv chunkid) sys).fs = sys.fs
      ∨ ∃ (st : Status) (w : SwChunk) (sys' : System), st ∈ statuses effs ∧ sys'.fs = sys.fs
        ∧ sys.swchunks.find? (fun w => w.chunkid == chunkid) = some w
        ∧ srv.connected w.client = true
        ∧ (effs.foldl (effect srv chunkid) sys).fs = (sys'.answerRequest srv w st).fs := by
  induction effs generalizing sys with
  | nil => exact .inl rfl
  | cons e effs ih =>
    rw [List.foldl_cons]
    cases e with
    | setversion v => exact ih h (sys.changelog (.setversion chunkid v))
    | chunkflagsclr => exact ih h (sys.changelog (.chunkflagsclr srv.now chunkid))
    | status st =>
      have hrest : statuses effs = [] :=
        List.length_eq_zero_iff.mp (Nat.le_zero.mp (Nat.le_of_succ_le_succ h))
      rw [effects_of_no_status srv chunkid hrest]
      have heff : effect srv chunkid sys (.status st)
          = match sys.swchunks.find? fun w => w.chunkid == chunkid with
            | none => sys
            | some w =>
              if srv.connected w.client then
                ({ sys with swchunks := sys.swchunks.erase w } : System).answerRequest srv w st
              else { sys with swchunks := sys.swchunks.erase w } := rfl
      rw [heff]
      cases hw : sys.swchunks.find? fun w => w.chunkid == chunkid with
      | none => exact .inl rfl
      | some w =>
        dsimp only
        split
        next hcon =>
          exact .inr ⟨st, w, { sys with swchunks := sys.swchunks.erase w }, List.mem_cons_self, rfl,
            rfl, hcon, rfl⟩
        · exact .inl rfl

theorem answersMeet_spec {test : SwChunk → Status → Bool}
    (h : sys.answersMeet srv chunkid test effs = true) (hst : st ∈ statuses effs)
    (hw : sys.swchunks.find? (fun w => w.chunkid == chunkid) = some w)
    (hcon : srv.connected w.client = true) : test w st = true := by
  have := List.all_eq_true.mp h st hst
  rw [hw] at this
  simpa [hcon] using this

/-- **A chunk function on the whole state** keeps the books if it keeps the files of the chunk and
its answer is safe. -/
theorem sound_commit (h : sys.fs.Sound)
    (hc : sys.fs.chunks chunkid = some c) (hf : r.1.files = c.files)
    (hone : (statuses r.2).length ≤ 1)
    (hsafe : sys.answersMeet srv chunkid (fun w st => answerSafe sys.fs srv w (some r.1) st) r.2
      = true) : (sys.commit srv chunkid r).fs.Sound := by
  have hput := sameData_putChunk hc hf
  have h1 := h.sameData hput
  unfold commit
  rcases effects_fs hone (sys.modFs (·.putChunk chunkid r.1)) with
    heq | ⟨st, w, sys', hst, hfs, hw, hcon, heq⟩
  · rw [heq]
    exact h1
  rw [heq]
  have hid : w.chunkid = chunkid := by simpa using List.find?_some hw
  have hfs : sys'.fs = sys.fs.putChunk chunkid r.1 := hfs
  refine sound_answerRequest (hfs ▸ h1) ?_
  have htest := answersMeet_spec hsafe hst hw hcon
  have hchunk : (sys.fs.putChunk chunkid r.1).chunks w.chunkid = some r.1 := if_pos hid
  unfold answerSafe at htest ⊢
  rw [hfs, hchunk, rollbackSafe_congr hput]
  exact htest

/-- The same, for answers that change no file: the chunk is stored, and unlocked at most. -/
theorem commit_idle (hone : (statuses r.2).length ≤ 1)
    (hidle : sys.answersMeet srv chunkid (fun w st => answerIdle srv w (some r.1) st) r.2 = true) :
    (sys.commit srv chunkid r).fs = sys.fs.putChunk chunkid r.1
      ∨ ∃ sys' : System, sys'.fs = sys.fs.putChunk chunkid r.1
        ∧ (sys.commit srv chunkid r).fs = (sys'.chunkUnlock srv chunkid).2.fs := by
  unfold commit
  rcases effects_fs hone (sys.modFs (·.putChunk chunkid r.1)) with
    heq | ⟨st, w, sys', hst, hfs, hw, hcon, heq⟩
  · exact .inl heq
  have hid : w.chunkid = chunkid := by simpa using List.find?_some hw
  have hfs : sys'.fs = sys.fs.putChunk chunkid r.1 := hfs
  have hchunk : sys'.fs.chunks w.chunkid = some r.1 := by
    rw [hfs]
    exact if_pos hid
  rw [heq, ← hfs, ← hid]
  rcases answerRequest_idle (hchunk ▸ answersMeet_spec hidle hst hw hcon) with h | ⟨r, h⟩
  · exact .inl (by rw [h sys' rfl rfl])
  · exact .inr ⟨sys'.changelog r, rfl, by rw [h sys' rfl rfl]⟩

theorem sameData_commit (hc : sys.fs.chunks chunkid = some c) (hf : r.1.files = c.files)
    (hone : (statuses r.2).length ≤ 1)
    (hidle : sys.answersMeet srv chunkid (fun w st => answerIdle srv w (some r.1) st) r.2 = true) :
    SameData sys.fs (sys.commit srv chunkid r).fs := by
  have hput := sameData_putChunk hc hf
  rcases commit_idle hone hidle with heq | ⟨sys', hfs, heq⟩
  · rwa [heq]
  · rw [heq]
    exact hput.trans (hfs ▸ sameData_chunkUnlock)

/-! ## §3. Which functions answer. -/

theorem statuses_append (l l' : List Effect) : statuses (l ++ l') = statuses l ++ statuses l' :=
  List.filterMap_append

theorem statuses_revertVersion : statuses (revertVersion c).2 = [] := by
  unfold revertVersion
  split <;> rfl

theorem statuses_chunkDoFastJob : statuses (chunkDoFastJob srv c).2 = [] := by
  unfold chunkDoFastJob
  dsimp only
  split <;> rfl

theorem statuses_chunkEmergencyIncreaseVersion :
    (statuses (chunkEmergencyIncreaseVersion c).2).length ≤ 1 := by
  unfold chunkEmergencyIncreaseVersion
  split
  · exact Nat.zero_le 1
  · exact Nat.le_refl 1

theorem statuses_revert_if {b : Bool} :
    statuses (if b = true then revertVersion c else (c, [])).2 = [] := by
  split
  · exact statuses_revertVersion
  · rfl

theorem statuses_jobAfter (srv : Servers) (c : Chunk) : statuses (jobAfter srv c).2 = [] := by
  unfold jobAfter
  split
  · exact statuses_chunkDoFastJob
  · rfl

theorem statuses_takenBack (c : Chunk) : statuses (takenBack c).2 = [] := by
  unfold takenBack
  split
  · exact statuses_revertVersion
  · rfl

theorem statuses_finishDisconnected : (statuses (finishDisconnected srv c).2).length ≤ 1 := by
  rcases finishDisconnected_cases srv c with ⟨_, h⟩ | ⟨_, ⟨_, h⟩ | ⟨_, h⟩⟩
  · rw [h, statuses_append, statuses_jobAfter]
    split
    · exact Nat.le_refl 1
    · exact Nat.zero_le 1
  · rw [h]
    exact statuses_chunkEmergencyIncreaseVersion
  · rw [h, statuses_append, statuses_takenBack]
    exact Nat.le_refl 1

theorem statuses_chunkRemoveDisconnectedChunks (h : chunkRemoveDisconnectedChunks srv c = some r) :
    (statuses r.2).length ≤ 1 := by
  rcases chunkRemoveDisconnectedChunks_cases h with rfl | ⟨_, rfl⟩ | ⟨_, rfl⟩ | rfl
  · exact Nat.zero_le 1
  · exact Nat.zero_le 1
  · exact Nat.zero_le 1
  · exact statuses_finishDisconnected

theorem statuses_finishOperation {full : Bool} :
    (statuses (finishOperation srv full c).2).length ≤ 1 := by
  unfold finishOperation
  split
  · split
    · exact statuses_chunkEmergencyIncreaseVersion
    · exact Nat.le_refl 1
  · exact Nat.le_refl 1

theorem statuses_chunkOperationStatus {csid ecid : Nat} :
    (statuses (chunkOperationStatus srv c csid ecid status).2).length ≤ 1 := by
  unfold chunkOperationStatus
  dsimp only
  split
  · rw [statuses_append, statuses_revert_if]
    exact statuses_finishOperation
  · rw [statuses_revert_if]
    exact Nat.zero_le 1

theorem statuses_prepareJob {needed : Bool} :
    statuses (prepareJob srv needed c).2.2 = [] := by
  unfold prepareJob
  split
  · exact statuses_chunkDoFastJob
  · rfl

theorem statuses_chunkPrepareToModify (srv : Servers) (tab : SClassTab) (c : Chunk) :
    statuses (chunkPrepareToModify srv tab c).2.2 = [] := by
  have hflags : statuses (clearEcFlags tab c).2 = [] := by
    unfold clearEcFlags
    dsimp only
    split <;> rfl
  rcases chunkPrepareToModify_cases srv tab c with ⟨_, h⟩ | ⟨_, _, _, h, _⟩
  · rw [h]
    rfl
  · rw [h, statuses_append, statuses_append, hflags, statuses_prepareJob, statuses_prepareJob]
    rfl

/-! ## §4. Lost servers, answers and reports. -/

/-- The answers given when the entries of lost servers of a chunk are dropped. -/
def dropMeets (sys : System) (srv : Servers) (chunkid : Nat)
    (test : SwChunk → Option Chunk → Status → Bool) : Bool :=
  match (sys.fs.chunks chunkid).bind (chunkRemoveDisconnectedChunks srv) with
  | none => true
  | some r => sys.answersMeet srv chunkid (fun w st => test w (some r.1) st) r.2

theorem sound_dropDisconnected (h : sys.fs.Sound)
    (hsafe : sys.dropMeets srv chunkid (answerSafe sys.fs srv) = true) :
    (sys.dropDisconnected srv chunkid).fs.Sound := by
  unfold dropMeets at hsafe
  unfold dropDisconnected
  cases hc : sys.fs.chunks chunkid with
  | none => exact h
  | some c =>
    rw [hc, Option.bind_some] at hsafe
    dsimp only
    cases hr : chunkRemoveDisconnectedChunks srv c with
    | none =>
      exact h.retable (retable_chunkDelete 0 hc (fhead_of_forgotten hr)) fun _ => rfl
    | some r =>
      rw [hr] at hsafe
      exact sound_commit h hc (Chunk.files_of_view (view_chunkRemoveDisconnectedChunks hr))
        (statuses_chunkRemoveDisconnectedChunks hr) hsafe

/-- The answers given for an answer of a chunk server. -/
def statusMeets (sys : System) (srv : Servers) (chunkid csid ecid : Nat) (status : Status)
    (test : SwChunk → Option Chunk → Status → Bool) : Bool :=
  match sys.fs.chunks chunkid with
  | none => true
  | some c =>
    let r := chunkOperationStatus srv c csid ecid status
    sys.answersMeet srv chunkid (fun w st => test w (some r.1) st) r.2

theorem sound_answerStatus (h : sys.fs.Sound) {csid ecid : Nat}
    (hsafe : sys.statusMeets srv chunkid csid ecid status (answerSafe sys.fs srv) = true) :
    (sys.answerStatus srv chunkid csid ecid status).fs.Sound := by
  unfold statusMeets at hsafe
  unfold answerStatus
  split
  · exact h
  cases hc : sys.fs.chunks chunkid with
  | none => exact h
  | some c =>
    rw [hc] at hsafe
    exact sound_commit h hc
      (Chunk.files_of_view view_chunkOperationStatus)
      statuses_chunkOperationStatus hsafe

theorem sound_forgetChunk (h : sys.fs.Sound) : (sys.forgetChunk srv chunkid).fs.Sound := by
  unfold forgetChunk
  cases hc : sys.fs.chunks chunkid with
  | none => exact h
  | some c =>
    dsimp only
    split
    next hdel =>
      unfold chunkDeletable at hdel
      simp only [Bool.and_eq_true, beq_iff_eq] at hdel
      exact h.retable (retable_chunkDelete 0 hc hdel.1.2) fun _ => rfl
    · exact h

theorem sameData_chunkJobs : SameData sys.fs (sys.chunkJobs srv chunkid).fs := by
  unfold chunkJobs
  cases hc : sys.fs.chunks chunkid with
  | none => exact .refl _
  | some c =>
    unfold commit
    rw [effects_of_no_status srv chunkid statuses_chunkDoFastJob]
    exact sameData_putChunk hc (Chunk.files_of_view view_chunkDoFastJob)

theorem sound_addUnknown (h : sys.fs.Sound) {ts : UInt32}
    (hnone : sys.fs.chunks chunkid = none) {version : Nat} {lockedto : UInt32} :
    (sys.addUnknown ts chunkid version lockedto).fs.Sound := by
  unfold addUnknown
  generalize hc : ({ chunkNew with version := version30 version, lockedto := lockedto } : Chunk) = c
  have hfhead : c.fhead = .few 0 := by rw [← hc]; rfl
  have hnew : (if chunkid = chunkid then some c else sys.fs.chunks chunkid) = some c := if_pos rfl
  refine h.retable (?_ : Master.Retable sys.fs _ 0 0 0) fun _ => rfl
  refine retable_chunkAt rfl rfl (Nat.le_max_left _ _) (fun j hj => ⟨if_neg hj, fun _ => rfl⟩)
    (fun _ hle => ?_) (fun _ c' hc' => ?_) fun k => ?_
  · exact absurd (Nat.le_trans (Nat.le_max_right _ _) hle) (Nat.not_succ_le_self chunkid)
  · cases hnew.symm.trans hc'
    unfold Chunk.FilesWf
    rw [hfhead]
    trivial
  · rw [refsOf_some hnew, Chunk.refs_of_empty hfhead]
    unfold refsOf
    rw [hnone]

theorem files_reportApply {r : Report} : (r.apply c).files = c.files := by
  refine Chunk.files_of_view ?_
  cases r with
  | has csid ecid version marked => exact view_chunkServerHasChunk
  | damaged csid ecid => exact view_chunkDamaged
  | lost csid ecid => exact view_chunkLost
  | deleted csid ecid ok => exact view_chunkGotDeleteStatus

theorem sound_chunkReport (h : sys.fs.Sound)
    {r : Report} : (sys.chunkReport srv chunkid r).fs.Sound := by
  unfold chunkReport
  split
  · exact h
  refine Sound.sameData ?_ (touched_modChunk _ chunkid fun _ => files_reportApply).sameData
  split
  next hnone =>
    have hnone := Option.isNone_iff_eq_none.mp hnone
    unfold reportUnknown
    split
    · split
      · exact h
      · exact sound_addUnknown h hnone
    · split
      · exact h
      · exact sound_addUnknown h hnone
    · exact h
  · exact h

theorem sound_rollbackWaiting (h : sys.fs.Sound)
    (hsafe : sys.fs.rollbackSafe w.inode w.indx w.prevchunkid w.chunkid = true) :
    (rollbackWaiting srv sys w).fs.Sound :=
  sound_fsRollback h hsafe

end MfsMaster.System
