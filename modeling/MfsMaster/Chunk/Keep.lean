/-
  MfsMaster.Chunk.Keep
  **WHAT THE CHUNK FUNCTIONS LEAVE ALONE.**

  The functions that work on the copies of a chunk (`Chunk.Control`, `Chunk.Modify`)
  touch neither its files nor its flags nor its lock: `Chunk.view`.  The exceptions are
  named here: a modification clears flags that ask for an erasure code and takes the
  lock, and a repair may take a file off.
-/
import MfsMaster.Chunk.Modify

namespace MfsMaster

/-- Files, flags and lock. -/
def Chunk.view (c : Chunk) : (FHead × Nat) × (Bool × Bool) × UInt32 :=
  ((c.fhead, c.sclassid), (c.archFlag, c.trashFlag), c.lockedto)

variable {c c' : Chunk} {csid ecid version : Nat} {srv : Servers} {status : Status}

theorem Chunk.files_of_view (h : c'.view = c.view) : c'.files = c.files :=
  congrArg Prod.fst h

theorem Chunk.refs_of_files (h : c'.files = c.files) (k : Nat) : c'.refs k = c.refs k := by
  have h1 : c'.fhead = c.fhead := congrArg Prod.fst h
  have h2 : c'.sclassid = c.sclassid := congrArg Prod.snd h
  unfold Chunk.refs
  rw [h1, h2]

/-! ## §1. Versions and jobs. -/

theorem view_job {j : Jobs} : (j.run c).view = c.view := by
  unfold Chunk.view
  rw [j.fhead, j.sclassid, (j.flags c).1, (j.flags c).2, j.lockedto]

theorem view_chunkDoFastJob : (chunkDoFastJob srv c).1.view = c.view :=
  view_job

theorem view_raiseEntries {td : Valid → Bool} : (raiseEntries td c).view = c.view := by
  unfold raiseEntries
  split <;> rfl

theorem view_chunkEmergencyIncreaseVersion : (chunkEmergencyIncreaseVersion c).1.view = c.view := by
  unfold chunkEmergencyIncreaseVersion
  split <;> exact view_raiseEntries

theorem view_revertVersion : (revertVersion c).1.view = c.view := by
  unfold revertVersion
  split <;> rfl

/-! ## §2. Servers that went away. -/

/-- The urgent job after a replication. -/
def jobAfter (srv : Servers) (c : Chunk) : Chunk × List Effect :=
  if srv.urgent then chunkDoFastJob srv { c with operation := .none }
  else ({ c with operation := .none }, [])

/-- The version of a chunk without a copy, taken back if it was being raised. -/
def takenBack (c : Chunk) : Chunk × List Effect :=
  if isVersionOp c.operation then revertVersion c else (c, [])

/-- The end of a replication, of another operation that has a copy, and of one without. -/
theorem finishDisconnected_cases (srv : Servers) (c : Chunk) :
    (isReplication c.operation = true ∧ finishDisconnected srv c
        = ((jobAfter srv c).1, (jobAfter srv c).2
          ++ if (jobAfter srv c).1.operation = .none then [.status .ok] else []))
      ∨ isReplication c.operation = false
        ∧ (((c.slist.any fun s => s.isCopy && s.valid.readable) = true
          ∧ finishDisconnected srv c = chunkEmergencyIncreaseVersion c)
        ∨ ((c.slist.any fun s => s.isCopy && s.valid.readable) = false
          ∧ finishDisconnected srv c = ({ (takenBack c).1 with operation := .none },
            (takenBack c).2 ++ [.status (if srv.nospace then .nospace else .notdone)]))) := by
  unfold finishDisconnected jobAfter takenBack
  cases hrep : isReplication c.operation with
  | true =>
    -- the version of a replicated chunk was not raised
    have hver : isVersionOp c.operation = false := by
      revert hrep
      cases c.operation <;> decide
    refine .inl ⟨rfl, ?_⟩
    simp only [hver, Bool.and_false, Bool.false_eq_true, if_false, if_true, List.nil_append]
  | false =>
    cases hcopy : c.slist.any fun s => s.isCopy && s.valid.readable with
    | true => exact .inr ⟨rfl, .inl ⟨rfl, rfl⟩⟩
    | false => exact .inr ⟨rfl, .inr ⟨rfl, rfl⟩⟩

/-- What holds of the chunk however the operation ends. -/
theorem finishDisconnected_rule {P : Chunk → Prop} (hidle : P { c with operation := .none })
    (hjob : P (chunkDoFastJob srv { c with operation := .none }).1)
    (hraised : (c.slist.any fun s => s.isCopy && s.valid.readable) = true →
      P (chunkEmergencyIncreaseVersion c).1)
    (hback : P { (revertVersion c).1 with operation := .none }) :
    P (finishDisconnected srv c).1 := by
  rcases finishDisconnected_cases srv c with ⟨_, h⟩ | ⟨_, ⟨hcopy, h⟩ | ⟨_, h⟩⟩
  · rw [h]
    unfold jobAfter
    split
    · exact hjob
    · exact hidle
  · rw [h]
    exact hraised hcopy
  · rw [h]
    unfold takenBack
    split
    · exact hback
    · exact hidle

theorem view_finishDisconnected : (finishDisconnected srv c).1.view = c.view :=
  finishDisconnected_rule (P := fun d => d.view = c.view) rfl view_chunkDoFastJob
    (fun _ => view_chunkEmergencyIncreaseVersion) view_revertVersion

/-- The chunk without the entries of lost servers. -/
def withoutLost (srv : Servers) (c : Chunk) : Chunk :=
  { c with slist := c.slist.filter fun s => srv.valid s.csid, needverincrease := true }

/-- A chunk that is kept: nothing was lost, or there is no operation, or one that still waits, or
one that ends. -/
theorem chunkRemoveDisconnectedChunks_cases {r : Chunk × List Effect}
    (h : chunkRemoveDisconnectedChunks srv c = some r) :
    r = (c, []) ∨ (c.operation = .none ∧ r = (chunkStateFix (withoutLost srv c), []))
      ∨ (((withoutLost srv c).slist.any fun s => s.valid.pending) = true
        ∧ r = (chunkStateFix { withoutLost srv c with
          interrupted := c.interrupted || !isReplication c.operation }, []))
      ∨ r = (chunkStateFix (finishDisconnected srv (withoutLost srv c)).1,
        (finishDisconnected srv (withoutLost srv c)).2) := by
  unfold chunkRemoveDisconnectedChunks at h
  split at h
  · exact .inl (Option.some.inj h).symm
  dsimp only at h
  split at h
  · cases h
  split at h
  next hop => exact .inr (.inl ⟨hop, (Option.some.inj h).symm⟩)
  split at h
  next hpend => exact .inr (.inr (.inl ⟨hpend, (Option.some.inj h).symm⟩))
  · exact .inr (.inr (.inr (Option.some.inj h).symm))

theorem view_chunkRemoveDisconnectedChunks {r : Chunk × List Effect}
    (h : chunkRemoveDisconnectedChunks srv c = some r) : r.1.view = c.view := by
  rcases chunkRemoveDisconnectedChunks_cases h with rfl | ⟨_, rfl⟩ | ⟨_, rfl⟩ | rfl
  · rfl
  · rfl
  · rfl
  · exact view_finishDisconnected

/-- A chunk is forgotten when it can be deleted without the entries of lost servers. -/
theorem deletable_of_forgotten (h : chunkRemoveDisconnectedChunks srv c = none) :
    srv.disc = true ∧ chunkDeletable srv (withoutLost srv c) = true := by
  unfold chunkRemoveDisconnectedChunks at h
  split at h
  · cases h
  next hlost =>
  rw [Bool.or_eq_true, not_or] at hlost
  dsimp only at h
  split at h
  next hdel => exact ⟨by simpa using hlost.1, hdel⟩
  split at h
  · cases h
  split at h <;> cases h

theorem fhead_of_forgotten (h : chunkRemoveDisconnectedChunks srv c = none) : c.fhead = .few 0 := by
  have hdel := (deletable_of_forgotten h).2
  unfold chunkDeletable at hdel
  simp only [Bool.and_eq_true, beq_iff_eq] at hdel
  exact hdel.1.2

/-! ## §3. Modifications. -/

theorem files_clearEcFlags {tab : SClassTab} : (clearEcFlags tab c).1.files = c.files := by
  unfold clearEcFlags
  dsimp only
  split <;> rfl

theorem view_prepareJob {needed : Bool} : (prepareJob srv needed c).2.1.view = c.view := by
  unfold prepareJob
  split
  · exact view_chunkDoFastJob
  · rfl

/-- The preparation of a change stops at once, or clears the flags and does up to two jobs. -/
theorem chunkPrepareToModify_cases (srv : Servers) (tab : SClassTab) (c : Chunk) :
    let p := chunkPrepareToModify srv tab c
    (p.1 ≠ .ok ∧ p.2 = (c, [])) ∨ ((c.slist.any fun s => s.valid.pending) ≠ true
      ∧ ∃ needed needed', let f := clearEcFlags tab c
        let j := prepareJob srv needed f.1
        let k := prepareJob srv needed' j.2.1
        p.2 = (k.2.1, f.2 ++ j.2.2 ++ k.2.2)
          ∧ (p.1 = .ok → ∃ gequiv, prepareAnswer srv gequiv k.2.1 = .ok)) := by
  unfold chunkPrepareToModify
  split
  · exact .inl ⟨nofun, rfl⟩
  split
  · exact .inl ⟨nofun, rfl⟩
  next hpend =>
  refine .inr ⟨hpend, ?_⟩
  have hnojob : ∀ d l, (d, l)
      = ((prepareJob srv false d).2.1, l ++ (prepareJob srv false d).2.2) := fun d l =>
    congrArg _ (List.append_nil l).symm
  dsimp only
  split
  · exact ⟨_, false, hnojob _ _, nofun⟩
  split
  · split
    · exact ⟨_, false, hnojob _ _, nofun⟩
    · exact ⟨_, false, hnojob _ _, fun h => ⟨_, h⟩⟩
  split
  · exact ⟨_, _, rfl, nofun⟩
  · exact ⟨_, _, rfl, fun h => ⟨_, h⟩⟩

theorem files_chunkPrepareToModify (srv : Servers) (tab : SClassTab) (c : Chunk) :
    (chunkPrepareToModify srv tab c).2.1.files = c.files := by
  rcases chunkPrepareToModify_cases srv tab c with ⟨_, h⟩ | ⟨_, _, _, h, _⟩
  · rw [h]
  · rw [h]
    exact (Chunk.files_of_view (view_prepareJob.trans view_prepareJob)).trans files_clearEcFlags

theorem view_modifyInPlace : (modifyInPlace c).2.view = c.view := by
  unfold modifyInPlace
  split
  · exact view_raiseEntries
  · rfl

theorem view_truncateInPlace : (truncateInPlace c).view = c.view := view_raiseEntries

/-! ## §4. Answers and reports. -/

theorem view_finishOperation {full : Bool} : (finishOperation srv full c).1.view = c.view := by
  unfold finishOperation
  split
  · split
    · exact view_chunkEmergencyIncreaseVersion
    · rfl
  · rfl

theorem revertVersion_eq_self (h : (revertVersion c).2 = []) : (revertVersion c).1 = c := by
  unfold revertVersion at h ⊢
  split at h
  · cases h
  next hno => rw [if_neg hno]

/-- The counters are derived again unless the answer is a success or concerns no entry. -/
theorem chunkOperationStatus_rule {P : Chunk → Prop}
    (hfix : ∀ a, a = (revertVersion (answered c csid ecid status)).1
      ∨ a = answered c csid ecid status → P (chunkStateFix a))
    (hans : (c.slist.any (SEntry.at csid ecid) && status != .ok) = false →
      P (answered c csid ecid status))
    (hfinish : ∀ full d, P d → P (finishOperation srv full d).1) :
    P (chunkOperationStatus srv c csid ecid status).1 := by
  have hstep : ∀ b : Bool,
      let r := if b = true then revertVersion (answered c csid ecid status)
        else (answered c csid ecid status, [])
      P (if ((c.slist.any (SEntry.at csid ecid) && status != .ok) || !r.2.isEmpty) = true
        then chunkStateFix r.1 else r.1) := by
    intro b r
    split
    · refine hfix r.1 ?_
      cases b
      · exact .inr rfl
      · exact .inl rfl
    next hno =>
    obtain ⟨hans', hempty⟩ := Bool.or_eq_false_iff.mp (Bool.eq_false_of_not_eq_true hno)
    have hnil : r.2 = [] := by simpa using hempty
    have hsame : r.1 = answered c csid ecid status := by
      cases b
      · rfl
      · exact revertVersion_eq_self hnil
    rw [hsame]
    exact hans hans'
  unfold chunkOperationStatus
  dsimp only
  split
  · exact hfinish _ _ (hstep _)
  · exact hstep _

theorem view_chunkOperationStatus :
    (chunkOperationStatus srv c csid ecid status).1.view = c.view := by
  refine chunkOperationStatus_rule (P := fun d => d.view = c.view) (fun a ha => ?_) (fun _ => rfl)
    fun full d hd => view_finishOperation.trans hd
  rcases ha with rfl | rfl
  · exact view_revertVersion
  · rfl

theorem view_chunkServerHasChunk {marked : Bool} :
    (chunkServerHasChunk c csid ecid version marked).view = c.view := by
  unfold chunkServerHasChunk
  split
  · dsimp only
    split <;> rfl
  dsimp only
  split
  · rfl
  split <;> rfl

theorem view_chunkDamaged : (chunkDamaged c csid ecid).view = c.view := by
  unfold chunkDamaged
  split <;> rfl

theorem view_chunkLost : (chunkLost c csid ecid).view = c.view := by
  unfold chunkLost
  split <;> rfl

theorem view_chunkGotDeleteStatus {ok : Bool} :
    (chunkGotDeleteStatus c csid ecid ok).view = c.view := by
  unfold chunkGotDeleteStatus
  split
  · dsimp only
    split <;> rfl
  · rfl

end MfsMaster
