/-
  MfsMaster.Data.Recorded
  **WHAT THE CHUNK FUNCTIONS LOG BEFORE A CHANGE.**

  A chunk that is to be changed is looked after first: entries of lost servers are dropped, which
  may end an operation and answer the request that waits for it, flags are cleared and urgent
  jobs are done.  For each of these the condition is given under which it writes a record, and
  it is shown that no file changes without one.

      Leaves C sys sys'             — something was logged iff `C`; if nothing was, no file changed
      leaves_dropDisconnected       — entries of lost servers
      chunkPrepareToModify_records  — the preparation of a change
-/
import MfsMaster.Data.RefsAnswer
import MfsMaster.Data.Write

namespace MfsMaster.System

/-! ## §1. Records and what they stand for. -/

/-- The log has grown. -/
def Recorded (sys sys' : System) : Prop :=
  sys.log <+: sys'.log ∧ sys.log.length < sys'.log.length

/-- Nothing was logged, and no file and no statistics have changed. -/
structure Still (sys sys' : System) : Prop where
  log : sys'.log = sys.log
  nodes : sys'.fs.nodes = sys.fs.nodes
  stats : sys'.fs.stats = sys.fs.stats

/-- A change that is logged iff `C`. -/
def Leaves (C : Prop) (sys sys' : System) : Prop :=
  (C → Recorded sys sys') ∧ (¬ C → Still sys sys')

section Leaves

variable {a b c : System} {C D : Prop}

theorem Still.refl {sys : System} : Still sys sys := ⟨rfl, rfl, rfl⟩

theorem Still.trans (h : Still a b) (h' : Still b c) : Still a c :=
  ⟨h'.log.trans h.log, h'.nodes.trans h.nodes, h'.stats.trans h.stats⟩

theorem Still.leaves (h : Still a b) (hC : ¬ C) : Leaves C a b :=
  ⟨fun h => absurd h hC, fun _ => h⟩

theorem Recorded.leaves (h : Recorded a b) (hC : C) : Leaves C a b := ⟨fun _ => h, absurd hC⟩

theorem Leaves.log_le (h : Leaves C a b) : a.log <+: b.log := by
  by_cases hC : C
  · exact (h.1 hC).1
  · exact (h.2 hC).log ▸ List.prefix_rfl

theorem Recorded.append (h : Recorded a b) (h' : b.log <+: c.log) : Recorded a c :=
  ⟨h.1.trans h', Nat.lt_of_lt_of_le h.2 h'.length_le⟩

theorem Leaves.trans (h : Leaves C a b) (h' : Leaves D b c) : Leaves (C ∨ D) a c := by
  refine ⟨fun hor => ?_, fun hnor => ?_⟩
  · rcases hor with hC | hD
    · exact (h.1 hC).append h'.log_le
    · have hd := h'.1 hD
      exact ⟨h.log_le.trans hd.1, Nat.lt_of_le_of_lt h.log_le.length_le hd.2⟩
  · rw [not_or] at hnor
    exact (h.2 hnor.1).trans (h'.2 hnor.2)

theorem Leaves.congr (h : Leaves C a b) (hCD : C ↔ D) : Leaves D a b :=
  ⟨fun hD => h.1 (hCD.mpr hD), fun hD => h.2 fun hC => hD (hCD.mp hC)⟩

theorem Still.leaves_trans (h : Still a b) (h' : Leaves C b c) : Leaves C a c :=
  ((h.leaves not_false).trans h').congr (or_iff_right id)

/-- The log tells whether something was logged. -/
theorem Leaves.log_iff (h : Leaves C a b) : b.log = a.log ↔ ¬ C := by
  refine ⟨fun heq hC => ?_, fun hC => (h.2 hC).log⟩
  have hlt := (h.1 hC).2
  rw [heq] at hlt
  exact Nat.lt_irrefl _ hlt

theorem recorded_changelog {sys : System} {r : DataRecord} : Recorded sys (sys.changelog r) := by
  refine ⟨List.prefix_append _ _, ?_⟩
  show _ < (sys.log ++ [r]).length
  rw [List.length_append]
  exact Nat.lt_succ_self _

theorem still_putChunk {sys : System} {chunkid : Nat} {c : Chunk} :
    Still sys (sys.modFs (·.putChunk chunkid c)) := ⟨rfl, rfl, rfl⟩

end Leaves

/-! ## §2. Waiting requests. -/

section Waiting

variable (sys : System) (srv : Servers)

theorem log_chunkUnlock {chunkid : Nat} : sys.log <+: (sys.chunkUnlock srv chunkid).2.log := by
  unfold chunkUnlock
  split
  · exact List.prefix_rfl
  dsimp only
  split
  · split
    · exact List.prefix_rfl
    · exact List.prefix_append _ _
  · exact List.prefix_rfl

theorem log_fsDoSetlength (ses : Session) (inode : Nat) (flags : UInt8) (length : UInt64) :
    sys.log <+: (sys.fsDoSetlength srv ses inode flags length).2.log := by
  unfold fsDoSetlength
  split
  · exact List.prefix_rfl
  dsimp only
  split
  · exact List.prefix_rfl
  split
  · split
    · exact List.prefix_append _ _
    · exact List.prefix_rfl
  · exact List.prefix_append _ _

/-- A rollback is logged unless its tests refuse it. -/
theorem leaves_fsRollback (inode indx prevchunkid chunkid : Nat) :
    Leaves (∃ n, sys.fs.rollbackCheck inode indx = .ok n) sys
      (sys.fsRollback srv inode indx prevchunkid chunkid).2 := by
  unfold fsRollback
  cases hcheck : sys.fs.rollbackCheck inode indx with
  | error st => exact Still.refl.leaves fun ⟨_, h⟩ => nomatch h
  | ok n =>
    -- what is done to the table before does not touch the log
    have hlog : Recorded sys
        ((sys.modFs (·.rollbackTable inode indx prevchunkid chunkid n)).changelog
          (.rollback srv.now inode indx prevchunkid chunkid)) :=
      recorded_changelog
    exact (hlog.append (log_chunkUnlock _ srv)).leaves ⟨n, rfl⟩

theorem recorded_unlock (chunkid : Nat) : Recorded sys (sys.fsEndSetlength srv chunkid).2 :=
  recorded_changelog.append (log_chunkUnlock _ srv)

/-- The answer `st` to a waiting request is logged; `oc` is the chunk by then. -/
def AnswerRecords (s : Master) (oc : Option Chunk) (w : SwChunk) (st : Status) : Prop :=
  match w.type with
  | .create => st = .ok
  | .write => (st = .ok → csdataAnswer srv oc ≠ .ok) ∧ ∃ n, s.rollbackCheck w.inode w.indx = .ok n
  | .truncate => st = .ok ∨ ∃ n, s.rollbackCheck w.inode w.indx = .ok n

theorem leaves_answerRequest (w : SwChunk) (st : Status) :
    Leaves (AnswerRecords srv sys.fs (sys.fs.chunks w.chunkid) w st) sys
      (sys.answerRequest srv w st) := by
  unfold answerRequest AnswerRecords
  cases w.type with
  | create =>
    dsimp only
    split
    next hst => exact (recorded_unlock sys srv w.chunkid).leaves hst
    next hst => exact Still.refl.leaves hst
  | write =>
    have hroll := leaves_fsRollback sys srv w.inode w.indx w.prevchunkid w.chunkid
    dsimp only
    by_cases hst : st = .ok
    · rw [if_pos hst]
      by_cases hcs : csdataAnswer srv (sys.fs.chunks w.chunkid) = .ok
      · rw [if_pos hcs]
        exact Still.refl.leaves fun h => h.1 hst hcs
      · rw [if_neg hcs]
        exact hroll.congr (and_iff_right fun _ => hcs).symm
    · rw [if_neg hst, if_neg hst]
      exact hroll.congr (and_iff_right fun h => absurd h hst).symm
  | truncate =>
    dsimp only
    split
    next hst =>
      have hend := (recorded_unlock sys srv w.chunkid).append
        (log_fsDoSetlength _ srv w.session w.inode w.flags w.fleng)
      exact hend.leaves (.inl hst)
    next hst =>
      exact (leaves_fsRollback sys srv w.inode w.indx w.prevchunkid w.chunkid).congr
        (or_iff_right hst).symm

/-- A request waits for the chunk, and the answer to it is logged. -/
def WaitingRecords (chunkid : Nat) (oc : Chunk) (st : Status) : Prop :=
  ∃ w, sys.swchunks.find? (fun w => w.chunkid == chunkid) = some w
    ∧ srv.connected w.client = true ∧ AnswerRecords srv sys.fs (some oc) w st

theorem leaves_matoclservChunkStatus {chunkid : Nat} {oc : Chunk}
    (hoc : sys.fs.chunks chunkid = some oc) (st : Status) :
    Leaves (sys.WaitingRecords srv chunkid oc st) sys
      (sys.matoclservChunkStatus srv chunkid st) := by
  unfold matoclservChunkStatus WaitingRecords
  cases hfind : sys.swchunks.find? fun w => w.chunkid == chunkid with
  | none => exact Still.refl.leaves fun ⟨_, h, _⟩ => nomatch h
  | some w =>
    have hbeq : (w.chunkid == chunkid) = true :=
      List.find?_some (p := fun w : SwChunk => w.chunkid == chunkid) hfind
    have hid : w.chunkid = chunkid := eq_of_beq hbeq
    have hstill : Still sys { sys with swchunks := sys.swchunks.erase w } := ⟨rfl, rfl, rfl⟩
    dsimp only
    split
    next hcon =>
      have hanswer := leaves_answerRequest { sys with swchunks := sys.swchunks.erase w } srv w st
      rw [hid] at hanswer
      refine (hstill.leaves_trans hanswer).congr ?_
      show AnswerRecords srv sys.fs (sys.fs.chunks chunkid) w st ↔ _
      rw [hoc]
      exact ⟨fun h => ⟨w, rfl, hcon, h⟩, fun ⟨_, hw, _, h⟩ => Option.some.inj hw ▸ h⟩
    next hcon =>
      refine hstill.leaves ?_
      rintro ⟨_, hw, hcon', _⟩
      exact hcon (Option.some.inj hw ▸ hcon')

end Waiting

/-! ## §3. Effects. -/

variable {es : List Effect} {c : Chunk}

section Effects

variable (sys : System) (srv : Servers) (chunkid : Nat)

theorem leaves_foldl_effect (hes : statuses es = []) :
    ∀ sys : System, (es.foldl (effect srv chunkid) sys).fs = sys.fs
      ∧ (es.foldl (effect srv chunkid) sys).swchunks = sys.swchunks
      ∧ Leaves (es ≠ []) sys (es.foldl (effect srv chunkid) sys) := by
  induction es with
  | nil =>
    intro sys
    exact ⟨rfl, rfl, Still.refl.leaves fun h => h rfl⟩
  | cons e es ih =>
    intro sys
    obtain ⟨hrest, r, hr⟩ : statuses es = [] ∧ ∃ r, effect srv chunkid sys e = sys.changelog r := by
      cases e with
      | status st => exact nomatch hes
      | setversion | chunkflagsclr => exact ⟨hes, _, rfl⟩
    obtain ⟨hfs, hsw, hlog⟩ := ih hrest (sys.changelog r)
    rw [List.foldl_cons, hr]
    exact ⟨hfs, hsw, (recorded_changelog.append hlog.log_le).leaves (List.cons_ne_nil _ _)⟩

theorem leaves_commit (c : Chunk) (hes : statuses es = []) :
    Leaves (es ≠ []) sys (sys.commit srv chunkid (c, es)) :=
  still_putChunk.leaves_trans (leaves_foldl_effect srv chunkid hes _).2.2

/-- A chunk is stored, its records are written and the waiting request is answered. -/
theorem leaves_commit_answer (c : Chunk) (hes : statuses es = []) (st : Status) :
    Leaves (es ≠ [] ∨ sys.WaitingRecords srv chunkid c st) sys
      (sys.commit srv chunkid (c, es ++ [.status st])) := by
  obtain ⟨hfs, hsw, _⟩ := leaves_foldl_effect srv chunkid hes (sys.modFs (·.putChunk chunkid c))
  have hchunk : (sys.commit srv chunkid (c, es)).fs.chunks chunkid = some c := by
    show (es.foldl (effect srv chunkid) (sys.modFs (·.putChunk chunkid c))).fs.chunks chunkid = _
    rw [hfs]
    exact if_pos rfl
  have hanswer := leaves_matoclservChunkStatus (sys.commit srv chunkid (c, es)) srv hchunk st
  have hsame : (sys.commit srv chunkid (c, es)).WaitingRecords srv chunkid c st
      ↔ sys.WaitingRecords srv chunkid c st := by
    unfold WaitingRecords commit
    rw [hfs, hsw]
    rfl
  unfold commit at hanswer ⊢
  rw [List.foldl_append]
  exact (leaves_commit sys srv chunkid c hes).trans (hanswer.congr hsame)

end Effects

/-! ## §4. Entries of lost servers. -/

/-- A job corrects the version of the chunk. -/
def JobCorrects (srv : Servers) (c : Chunk) : Prop :=
  (chunkStateFix (srv.job.run c)).version ≠ c.version

theorem chunkDoFastJob_records {srv : Servers} :
    (chunkDoFastJob srv c).2 ≠ [] ↔ JobCorrects srv c := by
  unfold chunkDoFastJob JobCorrects
  dsimp only
  split
  next h => exact iff_of_false (fun hne => hne rfl) (not_not_intro h)
  next h => exact iff_of_true (List.cons_ne_nil _ _) h

/-- A copy that became stale by the last increase of the version. -/
def revertible (c : Chunk) : Bool :=
  c.slist.any fun s => (s.version + 1) % 2 ^ 32 == c.version && s.isCopy && s.valid.stale

section Loss

variable (sys : System) (srv : Servers) (chunkid : Nat)

/-- The end of an operation of which no answer is outstanding is logged: a replication whose urgent
job corrects the version, or after which a waiting request is answered with a record; any other
operation that has a copy, which gets a new version; and an operation without a copy if its
version is taken back or the waiting request is answered with a record. -/
def EndRecords (c : Chunk) : Prop :=
  let oc := chunkStateFix (finishDisconnected srv c).1
  if isReplication c.operation then
    (srv.urgent = true ∧ JobCorrects srv { c with operation := .none })
      ∨ ((finishDisconnected srv c).1.operation = .none ∧ sys.WaitingRecords srv chunkid oc .ok)
  else (c.slist.any fun s => s.isCopy && s.valid.readable) = true
    ∨ (isVersionOp c.operation = true ∧ revertible c = true)
    ∨ sys.WaitingRecords srv chunkid oc (if srv.nospace then .nospace else .notdone)

/-- Dropping the entries of lost servers is logged: the chunk is forgotten, or its operation no
longer waits for an answer and ends. -/
def LossRecords (c : Chunk) : Prop :=
  (!srv.disc || c.slist.all fun s => srv.valid s.csid) = false
    ∧ (chunkDeletable srv (withoutLost srv c) = true
      ∨ (c.operation ≠ .none ∧ ((withoutLost srv c).slist.any fun s => s.valid.pending) = false
        ∧ sys.EndRecords srv chunkid (withoutLost srv c)))

theorem jobAfter_records (c : Chunk) : (jobAfter srv c).2 ≠ []
      ↔ srv.urgent = true ∧ JobCorrects srv { c with operation := .none } := by
  unfold jobAfter
  split
  next hu => exact chunkDoFastJob_records.trans (and_iff_right hu).symm
  next hu => exact iff_of_false (fun h => h rfl) fun h => hu h.1

theorem takenBack_records :
    (takenBack c).2 ≠ [] ↔ isVersionOp c.operation = true ∧ revertible c = true := by
  unfold takenBack
  split
  next hver =>
    refine Iff.trans ?_ (and_iff_right hver).symm
    unfold revertVersion revertible
    split
    next h => exact iff_of_true (List.cons_ne_nil _ _) h
    next h => exact iff_of_false (fun hne => hne rfl) h
  next hver => exact iff_of_false (fun hne => hne rfl) fun h => hver h.1

theorem leaves_finishDisconnected : Leaves (sys.EndRecords srv chunkid c) sys
      (sys.commit srv chunkid
        (chunkStateFix (finishDisconnected srv c).1, (finishDisconnected srv c).2)) := by
  unfold EndRecords
  rcases finishDisconnected_cases srv c with ⟨hrep, heq⟩ | ⟨hrep, ⟨hcopy, heq⟩ | ⟨hcopy, heq⟩⟩
  · rw [if_pos hrep, heq]
    split
    next hnone =>
      have hleaves := leaves_commit_answer sys srv chunkid (chunkStateFix (jobAfter srv c).1)
        (statuses_jobAfter srv c) .ok
      exact hleaves.congr (or_congr (jobAfter_records srv c) (and_iff_right hnone).symm)
    next hop =>
      rw [List.append_nil]
      have hleaves := leaves_commit sys srv chunkid (chunkStateFix (jobAfter srv c).1)
        (statuses_jobAfter srv c)
      exact hleaves.congr ((jobAfter_records srv c).trans (or_iff_left fun h => hop h.1).symm)
  · -- a copy that can be read gets a new version
    have husable : (c.slist.any fun s => s.valid.usable && s.isCopy) = true := by
      obtain ⟨e, he, h⟩ := List.any_eq_true.mp hcopy
      refine List.any_eq_true.mpr ⟨e, he, ?_⟩
      rw [Bool.and_eq_true] at h ⊢
      refine ⟨?_, h.1⟩
      have hread := h.2
      revert hread
      cases e.valid <;> decide
    have heffs : ∃ v, (chunkEmergencyIncreaseVersion c).2 = [.setversion v] := by
      unfold chunkEmergencyIncreaseVersion
      rw [if_pos husable]
      exact ⟨_, rfl⟩
    obtain ⟨v, hv⟩ := heffs
    rw [hrep, heq, hcopy, hv]
    have hrecord : statuses [.setversion v] = [] := rfl
    have hleaves := leaves_commit sys srv chunkid
      (chunkStateFix (chunkEmergencyIncreaseVersion c).1) hrecord
    exact hleaves.congr (iff_of_true (List.cons_ne_nil _ _) (.inl rfl))
  · rw [hrep, heq, hcopy]
    have hleaves := leaves_commit_answer sys srv chunkid
      (chunkStateFix { (takenBack c).1 with operation := .none }) (statuses_takenBack c)
      (if srv.nospace then .nospace else .notdone)
    exact hleaves.congr ((or_congr_left takenBack_records).trans
      (or_iff_right Bool.false_ne_true).symm)

theorem leaves_dropDisconnected (hc : sys.fs.chunks chunkid = some c) :
    Leaves (sys.LossRecords srv chunkid c) sys (sys.dropDisconnected srv chunkid) := by
  unfold dropDisconnected LossRecords
  rw [hc]
  dsimp only
  generalize hr : chunkRemoveDisconnectedChunks srv c = r
  unfold chunkRemoveDisconnectedChunks at hr
  split at hr
  next hkept =>
    subst hr
    exact still_putChunk.leaves fun h => nomatch hkept.symm.trans h.1
  next hlost =>
  dsimp only at hr
  split at hr
  next hdel =>
    subst hr
    have hrec : Recorded sys ((sys.changelog (.chunkdel srv.now chunkid c.version)).modFs
        (·.chunkDelete chunkid)) := recorded_changelog
    exact hrec.leaves ⟨eq_false_of_ne_true hlost, .inl hdel⟩
  next hdel =>
  split at hr
  next hop =>
    subst hr
    exact still_putChunk.leaves fun h => h.2.elim hdel fun hend => hend.1 hop
  next hop =>
  split at hr
  next hpend =>
    subst hr
    exact still_putChunk.leaves fun h => h.2.elim hdel fun hend => nomatch hpend.symm.trans hend.2.1
  next hpend =>
    subst hr
    refine (leaves_finishDisconnected sys srv chunkid).congr ?_
    exact ⟨fun h => ⟨eq_false_of_ne_true hlost, .inr ⟨hop, eq_false_of_ne_true hpend, h⟩⟩,
      fun h => h.2.elim (absurd · hdel) fun hend => hend.2.2⟩

end Loss

/-! ## §5. The preparation of a change. -/

section Prepare

variable (sys : System) (srv : Servers) (tab : SClassTab)

/-- The test for flags that are to be cleared. -/
def FlagsToClear (c : Chunk) : Prop :=
  (tab.sclassGetKeeparchStoragemode c.sclassid c.archFlag c.trashFlag).ecDataChksumParts ≠ 0
    ∧ (c.archFlag = true ∨ c.trashFlag = true)

/-- The chunk once its flags are cleared and, if it has no copy but could be read, copies are
asked for. -/
def madeReadable (c : Chunk) : Chunk :=
  let c' := (clearEcFlags tab c).1
  if validCopies c = 0 ∧ 0 < c'.allGequiv then chunkStateFix (srv.job.run c') else c'

/-- The number of copies the class of the chunk asks for. -/
def copiesWanted (c : Chunk) : Nat :=
  let c' := (clearEcFlags tab c).1
  tab.sclassCalcGoalEquivalent
    (tab.sclassGetKeeparchStoragemode c'.sclassid c'.archFlag c'.trashFlag)

/-- The preparation of a change is logged: flags are cleared, or an urgent job corrects the
version. -/
def PrepareRecords (c : Chunk) : Prop :=
  c.operation = .none ∧ (c.slist.any fun s => s.valid.pending) = false
    ∧ (FlagsToClear tab c
      ∨ (validCopies c = 0 ∧ 0 < (clearEcFlags tab c).1.allGequiv
        ∧ JobCorrects srv (clearEcFlags tab c).1)
      ∨ ((madeReadable srv tab c).operation = .none ∧ srv.csstable = true ∧ srv.receiving = false
        ∧ 0 < validCopies (madeReadable srv tab c)
        ∧ validCopies (madeReadable srv tab c) < copiesWanted tab c
        ∧ JobCorrects srv (madeReadable srv tab c)))

theorem clearEcFlags_records : (clearEcFlags tab c).2 ≠ [] ↔ FlagsToClear tab c := by
  unfold clearEcFlags FlagsToClear
  dsimp only
  split
  next h => exact iff_of_true (List.cons_ne_nil _ _) h
  next h => exact iff_of_false (fun hne => hne rfl) h

theorem prepareJob_records (needed : Bool) (c : Chunk) :
    (prepareJob srv needed c).2.2 ≠ [] ↔ needed = true ∧ JobCorrects srv c := by
  cases needed with
  | true => exact chunkDoFastJob_records.trans (and_iff_right rfl).symm
  | false => exact iff_of_false (fun hne => hne rfl) fun h => nomatch h.1

theorem append_ne_nil_iff {l l' : List Effect} : l ++ l' ≠ [] ↔ l ≠ [] ∨ l' ≠ [] := by
  rw [ne_eq, List.append_eq_nil_iff, not_and_or]

theorem prepareJob_done {needed : Bool} (hop : c.operation = .none) :
    (prepareJob srv needed c).1 = ((prepareJob srv needed c).2.1.operation == .none) := by
  cases needed with
  | true => rfl
  | false =>
    show true = (c.operation == .none)
    rw [hop]
    rfl

/-- The first job of the preparation. -/
def readableJob (c : Chunk) : Bool × Chunk × List Effect :=
  prepareJob srv (validCopies c == 0 && decide (0 < (clearEcFlags tab c).1.allGequiv))
    (clearEcFlags tab c).1

theorem readableJob_chunk : (readableJob srv tab c).2.1 = madeReadable srv tab c := by
  unfold readableJob madeReadable prepareJob
  by_cases h : validCopies c = 0 ∧ 0 < (clearEcFlags tab c).1.allGequiv
  · rw [if_pos h, if_pos (by simp [h.1, h.2])]
    rfl
  · rw [if_neg h, if_neg (by simpa using h)]

theorem readableJob_records : (readableJob srv tab c).2.2 ≠ []
      ↔ validCopies c = 0 ∧ 0 < (clearEcFlags tab c).1.allGequiv
        ∧ JobCorrects srv (clearEcFlags tab c).1 := by
  unfold readableJob
  rw [prepareJob_records, Bool.and_eq_true, beq_iff_eq, decide_eq_true_iff, and_assoc]

theorem chunkPrepareToModify_records (c : Chunk) :
    (chunkPrepareToModify srv tab c).2.2 ≠ [] ↔ PrepareRecords srv tab c := by
  unfold PrepareRecords
  generalize hr : chunkPrepareToModify srv tab c = r
  unfold chunkPrepareToModify at hr
  split at hr
  next hbusy =>
    subst hr
    exact iff_of_false (fun hne => hne rfl) fun h => hbusy h.1
  next hidle =>
  have hop := Decidable.not_not.mp hidle
  split at hr
  next hpend =>
    subst hr
    exact iff_of_false (fun hne => hne rfl) fun h => nomatch hpend.symm.trans h.2.1
  next hpend =>
  have hclear : (clearEcFlags tab c).1.operation = .none := by
    unfold clearEcFlags
    dsimp only
    split <;> exact hop
  have hdone : (readableJob srv tab c).1 = ((readableJob srv tab c).2.1.operation == .none) :=
    prepareJob_done srv hclear
  have hfirst : (clearEcFlags tab c).2 ++ (readableJob srv tab c).2.2 ≠ []
      ↔ FlagsToClear tab c ∨ validCopies c = 0 ∧ 0 < (clearEcFlags tab c).1.allGequiv
        ∧ JobCorrects srv (clearEcFlags tab c).1 :=
    append_ne_nil_iff.trans
      (or_congr (clearEcFlags_records tab) (readableJob_records srv tab))
  rw [← readableJob_chunk, and_iff_right hop, and_iff_right (eq_false_of_ne_true hpend),
    ← or_assoc, ← hfirst]
  dsimp only at hr
  split at hr
  next hstarted =>
    subst hr
    refine (or_iff_left fun h => ?_).symm
    have hstarted : (!(readableJob srv tab c).1) = true := hstarted
    rw [hdone, h.1] at hstarted
    exact nomatch hstarted
  next hstarted =>
  have hop' : (readableJob srv tab c).2.1.operation = .none := by
    have hstarted : ¬ (!(readableJob srv tab c).1) = true := hstarted
    rw [hdone] at hstarted
    simpa using hstarted
  rw [and_iff_right hop']
  split at hr
  next hunstable =>
    have hnot : ¬ (srv.csstable = true ∧ srv.receiving = false) := by
      rintro ⟨h1, h2⟩
      rw [h1, h2] at hunstable
      exact nomatch hunstable
    refine Iff.trans ?_ (or_iff_left fun h => hnot ⟨h.1, h.2.1⟩).symm
    split at hr <;> subst hr <;> exact Iff.rfl
  next hstable =>
    have hstable : srv.csstable = true ∧ srv.receiving = false := by simpa using hstable
    rw [and_iff_right hstable.1, and_iff_right hstable.2]
    have hsecond := prepareJob_records srv
      (decide (0 < validCopies (readableJob srv tab c).2.1)
        && decide (validCopies (readableJob srv tab c).2.1 < copiesWanted tab c))
      (readableJob srv tab c).2.1
    rw [Bool.and_eq_true, decide_eq_true_iff, decide_eq_true_iff, and_assoc] at hsecond
    rw [← hsecond, ← append_ne_nil_iff]
    split at hr <;> subst hr <;> exact Iff.rfl

end Prepare

end MfsMaster.System
