/-
  MfsMaster.Chunk.Booked
  **WHAT THE FUNCTIONS ON A CHUNK DO TO ITS COUNTERS**, one function at a time.

  Most functions that change the list of copies end with `chunk_state_fix`; some do not,
  because what they change is not counted, or because they count themselves.  Two change
  what is counted and leave the counters alone all the same, so they are `Recounted` under
  a condition only:

      chunkOperationStatus — a success answer revives an entry that was given up meanwhile
      chunkGotStatusData   — a correction replaces the entries of a server

  The first never leaves a chunk that has lost its last usable entry and still counts some
  (`EmptyIsZero.chunkOperationStatus`).
-/
import MfsMaster.Chunk.Exact
import MfsMaster.Chunk.Status

namespace MfsMaster

variable {version ecid sclassid : Nat} {srv : Servers} {tab : SClassTab} {csids : List Nat}

/-! ## §1. The invariants. -/

/-- Exact counters, and the order of the list, which the correction by status data relies on. -/
structure Booked (c : Chunk) : Prop where
  counters : Exact c
  ordered : Ordered c.slist

/-- Something of the chunk is usable. -/
def AnyUsable (l : List SEntry) : Prop := ∃ s ∈ l, s.valid.usable = true

/-- No usable entry, no redundancy counted. -/
def EmptyIsZero (c : Chunk) : Prop := ¬ AnyUsable c.slist → c.allGequiv = 0 ∧ c.regGequiv = 0

/-- Calls of `chunk_state_change`, the last one first, lead from a state to another: each of them
takes the chunk from where the one before it left it. -/
def Leads (k : ChunkState) : List (ChunkState × ChunkState) → ChunkState → Prop
  | [], k' => k' = k
  | (old, new) :: moves, k' => k' = new ∧ Leads k moves old

/-- The counters of the master hear of the whole way of a chunk from a state to its own. -/
def Chunk.Told (c : Chunk) (k : ChunkState) : Prop := Leads k c.moves c.state

/-- A function that changes the state of a chunk by calls of `chunk_state_change` only. -/
def Tells (c c' : Chunk) : Prop := ∀ k, c.Told k → c'.Told k

/-- What `chunk_state_fix` needs of the function before it. -/
structure Fixable (c c' : Chunk) : Prop where
  tells : Tells c c'
  ordered : Ordered c.slist → Ordered c'.slist

/-- What a function that keeps account of its changes does to a chunk. -/
structure Recounted (c c' : Chunk) : Prop where
  booked : Booked c → Booked c'
  empty : EmptyIsZero c → EmptyIsZero c'
  tells : Tells c c'

variable {c c' : Chunk} {s : SEntry} {td : Valid → Bool} {op : Operation} {status : Status}
  {l : List SEntry} {csid : Nat} {parts : List PartData} {a : Around} {ondangerlist : Bool}

theorem Exact.emptyIsZero (h : Exact c) : EmptyIsZero c := by
  intro hnone
  have hall : (c.slist.filter fun s => s.valid.usable) = [] :=
    List.filter_eq_nil_iff.mpr fun s hs hu => hnone ⟨s, hs, hu⟩
  have hcounters := exact_iff.mp h
  unfold Chunk.counters countersOf at hcounters
  rw [hall] at hcounters
  exact Prod.mk.inj (Prod.mk.inj hcounters).2

theorem anyUsable_iff : AnyUsable l ↔ seen l ≠ [] := by
  unfold AnyUsable seen SEntry.seen
  simp

/-- A function that does not derive the counters again and leaves something usable. -/
theorem EmptyIsZero.of_keeps (h : EmptyIsZero c) (hcounters : c'.counters = c.counters)
    (hkeeps : AnyUsable c.slist → AnyUsable c'.slist) : EmptyIsZero c' := by
  intro hnone
  obtain ⟨hall, hreg⟩ := h fun hany => hnone (hkeeps hany)
  unfold Chunk.counters at hcounters
  simp only [Prod.mk.injEq] at hcounters
  rw [hcounters.2.1, hcounters.2.2]
  exact ⟨hall, hreg⟩

theorem tells_of_counted (h : c'.counted = c.counted) : Tells c c' := by
  intro k hk
  unfold Chunk.Told at hk ⊢
  rwa [show c'.state = c.state from congrArg Prod.fst h,
    show c'.moves = c.moves from congrArg Prod.snd h]

theorem Tells.trans {c'' : Chunk} (h : Tells c c') (h' : Tells c' c'') : Tells c c'' :=
  fun k hk => h' k (h k hk)

theorem tells_stateChange : Tells c (c.stateChange c') :=
  fun _ hk => ⟨rfl, hk⟩

/-- A setter that changes nothing need not be called. -/
theorem Tells.ifNew (h : Tells c c') : Tells c (c.ifNew c') := by
  intro k hk
  show Leads k (if c'.state = c.state then c.moves else c'.moves) c'.state
  split
  next hsame =>
    rw [hsame]
    exact hk
  · exact h k hk

/-- `chunk_state_fix` tells of what it changes. -/
theorem Tells.fix (h : Tells c c') : Tells c (chunkStateFix c') :=
  h.trans tells_stateChange.ifNew

/-- The copies, their counters and the operation are the same; the class and the flags are changed
by their setters. -/
structure SameCopies (c c' : Chunk) : Prop where
  counters : c'.counters = c.counters
  slist : c'.slist = c.slist
  operation : c'.operation = c.operation
  tells : Tells c c'

theorem SameCopies.refl : SameCopies c c := ⟨rfl, rfl, rfl, fun _ => id⟩

theorem copies_newFlags {archFlag trashFlag : Bool} :
    SameCopies c (c.newFlags archFlag trashFlag) :=
  ⟨rfl, rfl, rfl, tells_stateChange.ifNew⟩

theorem copies_newSclass {f : FHead} : SameCopies c ({ c with fhead := f }.newSclass sclassid) :=
  ⟨rfl, rfl, rfl, fun k hk =>
    tells_stateChange.ifNew k (show Chunk.Told { c with fhead := f } k from hk)⟩

theorem Recounted.refl : Recounted c c := ⟨id, id, fun _ => id⟩

theorem Recounted.trans {c'' : Chunk} (h : Recounted c c') (h' : Recounted c' c'') :
    Recounted c c'' :=
  ⟨fun hb => h'.booked (h.booked hb), fun he => h'.empty (h.empty he), h.tells.trans h'.tells⟩

theorem Fixable.trans {c'' : Chunk} (h : Fixable c c') (h' : Fixable c' c'') : Fixable c c'' :=
  ⟨h.tells.trans h'.tells, fun hord => h'.ordered (h.ordered hord)⟩

/-- A function that ends with `chunk_state_fix`. -/
theorem recounted_fix (h : Fixable c c') : Recounted c (chunkStateFix c') :=
  ⟨fun hb => ⟨exact_chunkStateFix, h.ordered hb.ordered⟩,
    fun _ => exact_chunkStateFix.emptyIsZero, h.tells.fix⟩

/-- A function that keeps the counters and the entries they are derived from. -/
theorem recounted_of_tells (hcounters : c'.counters = c.counters)
    (hseen : seen c'.slist = seen c.slist) (hord : Ordered c.slist → Ordered c'.slist)
    (htells : Tells c c') : Recounted c c' := by
  refine ⟨fun h => ⟨h.counters.of_seen hcounters hseen, hord h.ordered⟩,
    fun h => h.of_keeps hcounters fun hany => ?_, htells⟩
  rwa [anyUsable_iff, hseen, ← anyUsable_iff]

/-- A function that changes nothing that is counted. -/
theorem recounted_seen (hcounted : c'.counted = c.counted) (hseen : seen c'.slist = seen c.slist)
    (hord : Ordered c.slist → Ordered c'.slist) : Recounted c c' :=
  recounted_of_tells
    (congrArg (fun v => (v.1.storageMode, v.1.allGequiv, v.1.regGequiv)) hcounted) hseen hord
    (tells_of_counted hcounted)

theorem recounted_same (hcounted : c'.counted = c.counted) (hlist : c'.slist = c.slist) :
    Recounted c c' :=
  recounted_seen hcounted (by rw [hlist]) (by rw [hlist]; exact id)

theorem SameCopies.recounted (h : SameCopies c c') : Recounted c c' :=
  recounted_of_tells h.counters (by rw [h.slist]) (by rw [h.slist]; exact id) h.tells

/-- `chunk_state_fix` where what is counted may have changed, nothing where it is as before. -/
theorem recounted_fix_if {b : Bool} (hord : Ordered c.slist → Ordered c'.slist)
    (hcounted : c'.counted = c.counted) (hseen : b = false → seen c'.slist = seen c.slist) :
    Recounted c (if b = true then chunkStateFix c' else c') := by
  cases b with
  | true => exact recounted_fix ⟨tells_of_counted hcounted, hord⟩
  | false => exact recounted_seen hcounted (hseen rfl) hord

/-! ## §2. Versions. -/

theorem csid_raiseEntry (s : SEntry) : (raiseEntry td version s).csid = s.csid := by
  unfold raiseEntry
  split
  · split <;> rfl
  · rfl

/-- A copy that is asked to follow stays usable, with the same mark when `td` recognises it. -/
theorem seen_raiseEntry (htd : s.valid.usable = true → td s.valid = !s.valid.regular)
    (hcopy : s.valid.usable = true → s.isCopy = true) :
    (raiseEntry td version s).seen = s.seen := by
  unfold raiseEntry
  split
  next hu =>
    rw [if_pos (hcopy hu), htd hu]
    unfold SEntry.seen
    rw [if_pos hu]
    cases hr : s.valid.regular <;> rfl
  · rfl

theorem recounted_raiseEntries
    (htd : ∀ s ∈ c.slist, s.valid.usable = true → td s.valid = !s.valid.regular) :
    Recounted c (raiseEntries td c) := by
  refine recounted_fix_if (fun h => h.map csid_raiseEntry) rfl
    fun hparts => seen_map fun s hs => ?_
  refine seen_raiseEntry (htd s hs) fun hu => ?_
  have hno := List.any_eq_false.mp hparts s hs
  simpa [hu] using hno

theorem recounted_chunkEmergencyIncreaseVersion :
    Recounted c (chunkEmergencyIncreaseVersion c).1 := by
  have hraised : Recounted c (raiseEntries (fun v => v == .tdvalid || v == .tdbusy) c) :=
    recounted_raiseEntries fun s _ => by cases s.valid <;> decide
  unfold chunkEmergencyIncreaseVersion
  split
  · exact hraised.trans (recounted_same rfl rfl)
  · exact hraised

theorem csid_revertEntry (s : SEntry) : (revertEntry version s).csid = s.csid := by
  unfold revertEntry
  split
  · split <;> rfl
  · rfl

theorem fixable_revertVersion : Fixable c (revertVersion c).1 := by
  unfold revertVersion
  split
  · exact ⟨fun _ => id, fun h => h.map csid_revertEntry⟩
  · exact ⟨fun _ => id, id⟩

/-! ## §3. Jobs. -/

/-- What surrounds a call: the servers, and what the jobs meet. -/
structure Around where
  srv : Servers
  env : Chunk → JobEnv
  tab : SClassTab

/-- The servers, with `chunk_do_jobs` as the job. -/
def Around.servers (a : Around) : Servers := { a.srv with job := .of a.env a.tab }

theorem jobFrame_job : JobFrame c (a.servers.job.run c) :=
  jobFrame_chunkDoJobs

theorem fixable_job : Fixable c (a.servers.job.run c) :=
  ⟨tells_of_counted (congrArg Prod.snd jobFrame_job.kept), jobFrame_job.ordered⟩

theorem recounted_chunkDoFastJob : Recounted c (chunkDoFastJob a.servers c).1 :=
  recounted_fix fixable_job

/-- No entry waits for an answer while its server is marked for removal. -/
def NoTdbusy (l : List SEntry) : Prop := ∀ s ∈ l, s.valid ≠ .tdbusy

/-- The jobs ask for new entries on regular servers only. -/
theorem NoTdbusy.job (h : NoTdbusy c.slist) :
    NoTdbusy (MfsMaster.chunkDoFastJob a.servers c).1.slist := by
  intro s' hs'
  rcases jobFrame_job.entries s' hs' with ⟨s, hs, hstep⟩ | hbusy
  · cases hstep with
    | same => exact h _ hs
    | delete | drop | adopt | adoptMarked => exact nofun
  · rw [hbusy]
    exact nofun

/-! ## §4. Servers that went away. -/

theorem fixable_chunkEmergencyIncreaseVersion : Fixable c (chunkEmergencyIncreaseVersion c).1 := by
  refine ⟨recounted_chunkEmergencyIncreaseVersion.tells, fun h => ?_⟩
  have hraised : ∀ td, Ordered (raiseEntries td c).slist := by
    intro td
    unfold raiseEntries
    split <;> exact h.map csid_raiseEntry
  unfold chunkEmergencyIncreaseVersion
  split <;> exact hraised _

theorem fixable_finishDisconnected : Fixable c (finishDisconnected a.servers c).1 := by
  have hidle : Fixable c { c with operation := .none } := ⟨fun _ => id, id⟩
  refine finishDisconnected_rule hidle (hidle.trans ?_)
    (fun _ => fixable_chunkEmergencyIncreaseVersion) (fixable_revertVersion.trans ⟨fun _ => id, id⟩)
  exact ⟨recounted_chunkDoFastJob.tells, jobFrame_job.ordered⟩

theorem recounted_chunkRemoveDisconnectedChunks {r : Chunk × List Effect}
    (hr : chunkRemoveDisconnectedChunks a.servers c = some r) : Recounted c r.1 := by
  have hlost : Fixable c (withoutLost a.servers c) := ⟨fun _ => id, fun h => h.filter _⟩
  rcases chunkRemoveDisconnectedChunks_cases hr with rfl | ⟨_, rfl⟩ | ⟨_, rfl⟩ | rfl
  · exact .refl
  · exact recounted_fix hlost
  · exact recounted_fix ⟨hlost.tells, hlost.ordered⟩
  · exact recounted_fix (hlost.trans fixable_finishDisconnected)

/-! ## §5. Answers. -/

theorem csid_answerEntry {s' : SEntry}
    (h : answerEntry op status s = some s') : s'.csid = s.csid := by
  unfold answerEntry at h
  split at h
  · cases h
    rfl
  split at h
  · split at h
    · cases h
      rfl
    split at h
    · cases h
    · cases h
      rfl
  · cases h
    rfl

theorem ordered_answerEntries (h : Ordered l) : Ordered (answerEntries op csid ecid status l) := by
  refine h.filterMap fun s s' hs => ?_
  split at hs
  · exact csid_answerEntry hs
  · cases hs
    rfl

/-- An answer about an entry that is not there, or a success. -/
theorem slist_answered (h : (c.slist.any (SEntry.at csid ecid) && status != .ok) = false) :
    (answered c csid ecid status).slist = c.slist ∨ status = .ok := by
  refine (Bool.and_eq_false_iff.mp h).imp (fun hno => ?_) fun hok => by simpa using hok
  unfold answered answerEntries
  rw [List.filterMap_congr (g := some), List.filterMap_some]
  intro s hs
  exact if_neg (List.any_eq_false.mp hno s hs)

theorem seen_answerEntries_ok (h : ∀ s ∈ l, s.at csid ecid = true → s.valid.usable = true) :
    seen (answerEntries op csid ecid .ok l) = seen l := by
  unfold seen answerEntries
  rw [List.filterMap_filterMap]
  refine List.filterMap_congr fun s hs => ?_
  by_cases hat : s.at csid ecid = true
  · have hu := h s hs hat
    rw [if_pos hat]
    unfold answerEntry
    rw [if_pos rfl]
    show (s.setValid _).seen = s.seen
    unfold SEntry.seen
    revert hu
    cases hv : s.valid <;> simp [SEntry.setValid, Valid.usable, Valid.regular]
  · rw [if_neg hat]
    rfl

/-- The answer of a server to an operation, when it concerns an entry that is still in use. -/
def AnswersUsable (c : Chunk) (csid ecid : Nat) (status : Status) : Prop :=
  status = .ok → ∀ s ∈ c.slist, s.at csid ecid = true → s.valid.usable = true

instance (c : Chunk) (csid ecid : Nat) (status : Status) :
    Decidable (AnswersUsable c csid ecid status) :=
  inferInstanceAs (Decidable (_ → ∀ s ∈ c.slist, _ → _))

theorem recounted_finishOperation {full : Bool} : Recounted c (finishOperation srv full c).1 := by
  unfold finishOperation
  split
  · split
    · exact recounted_chunkEmergencyIncreaseVersion
    · exact recounted_same rfl rfl
  · exact recounted_same rfl rfl

theorem Booked.chunkOperationStatus (h : Booked c) (hans : AnswersUsable c csid ecid status) :
    Booked (chunkOperationStatus srv c csid ecid status).1 := by
  have hord : Ordered (answered c csid ecid status).slist :=
    ordered_answerEntries h.ordered
  refine chunkOperationStatus_rule (fun a ha => ⟨exact_chunkStateFix, ?_⟩) (fun hfix => ?_)
    fun full d => recounted_finishOperation.booked
  · rcases ha with rfl | rfl
    · exact fixable_revertVersion.ordered hord
    · exact hord
  · refine ⟨h.counters.of_seen rfl ?_, hord⟩
    rcases slist_answered hfix with heq | rfl
    · rw [heq]
    · exact seen_answerEntries_ok (hans rfl)

/-- A success answer leaves its entry usable and the others as they are. -/
theorem AnyUsable.answerEntries_ok (h : AnyUsable l) :
    AnyUsable (answerEntries op csid ecid .ok l) := by
  obtain ⟨s, hs, hu⟩ := h
  by_cases hat : s.at csid ecid = true
  · refine ⟨_, List.mem_filterMap.mpr ⟨s, hs, (if_pos hat).trans rfl⟩, ?_⟩
    unfold SEntry.setValid
    dsimp only
    split <;> rfl
  · exact ⟨s, List.mem_filterMap.mpr ⟨s, hs, if_neg hat⟩, hu⟩

/-- Unlike exact counters, this survives any answer. -/
theorem EmptyIsZero.chunkOperationStatus (h : EmptyIsZero c) :
    EmptyIsZero (chunkOperationStatus srv c csid ecid status).1 := by
  refine chunkOperationStatus_rule (fun _ _ => exact_chunkStateFix.emptyIsZero) (fun hfix => ?_)
    fun full d => recounted_finishOperation.empty
  refine h.of_keeps rfl fun hany => ?_
  rcases slist_answered hfix with heq | rfl
  · rwa [heq]
  · exact hany.answerEntries_ok

theorem tells_chunkOperationStatus : Tells c (chunkOperationStatus srv c csid ecid status).1 := by
  refine chunkOperationStatus_rule (fun a ha => ?_) (fun _ _ => id)
    fun full d hd => hd.trans recounted_finishOperation.tells
  rcases ha with rfl | rfl
  · have hanswered : Tells c (answered c csid ecid status) := fun _ => id
    exact (hanswered.trans fixable_revertVersion.tells).fix
  · exact Tells.fix fun _ => id

/-! ## §6. Reports. -/

theorem csid_reportKnown {marked : Bool} (s : SEntry) : (reportKnown marked s).csid = s.csid := by
  unfold reportKnown
  split
  · rfl
  split <;> rfl

theorem recounted_chunkServerHasChunk {marked : Bool} :
    Recounted c (chunkServerHasChunk c csid ecid version marked) := by
  unfold chunkServerHasChunk
  split
  · dsimp only
    split
    · exact .refl
    · exact recounted_fix ⟨fun _ => id, fun h => h.modFirst csid_reportKnown⟩
  · have hord (h : Ordered c.slist) :
        Ordered (chunkNewCopy (reportedEntry c csid ecid version marked) c.slist) :=
      h.chunkNewCopy
    split
    next hver =>
      -- a wrong version is not counted
      refine recounted_seen rfl (seen_chunkNewCopy ?_) hord
      unfold reportedEntry
      rw [if_pos hver]
      cases marked <;> rfl
    next hver =>
      have hentry : reportedEntry c csid ecid version marked
          = ⟨csid, if marked then .tdvalid else .valid, ecid, c.version⟩ := if_neg hver
      have husable : (reportedEntry c csid ecid version marked).valid.usable = true := by
        rw [hentry]
        cases marked <;> rfl
      split
      next hfast =>
        obtain ⟨hecid, hmode, hall, hreg⟩ := hfast
        refine ⟨fun h => ⟨exact_fastPath h.counters
          (s := reportedEntry c csid ecid version marked) ?_ husable hmode hall ?_ rfl ?_,
          hord h.ordered⟩, fun _ hnone => ?_, fun _ hk => ⟨rfl, hk⟩⟩
        · rw [hentry, hecid]
          rfl
        · rw [hentry]
          intro hregular
          rcases hreg with hmarked | hlt
          · rw [hmarked] at hregular
            cases hregular
          · exact hlt
        · rw [hentry]
          rw [hmode]
          cases marked <;> rfl
        · exact absurd ⟨_, mem_chunkNewCopy.mpr (.inl rfl), husable⟩ hnone
      · exact recounted_fix ⟨fun _ => id, hord⟩

theorem recounted_chunkDamaged : Recounted c (chunkDamaged c csid ecid) := by
  unfold chunkDamaged
  split
  · exact recounted_fix ⟨fun _ => id, fun h => h.modFirst fun _ => rfl⟩
  · exact recounted_seen rfl (seen_chunkNewCopy rfl) fun h => h.chunkNewCopy

theorem recounted_chunkLost : Recounted c (chunkLost c csid ecid) := by
  unfold chunkLost
  split
  · exact recounted_fix ⟨fun _ => id, fun h => h.filter _⟩
  · exact .refl

theorem recounted_chunkGotDeleteStatus {ok : Bool} :
    Recounted c (chunkGotDeleteStatus c csid ecid ok) := by
  unfold chunkGotDeleteStatus
  split
  · refine recounted_fix_if (fun h => h.filter _) rfl fun hexpected =>
      seen_filter fun s hs hat => ?_
    -- what goes away was marked for deletion
    have hdel := List.any_eq_false.mp hexpected s hs
    have hv : s.valid = .del := by
      rw [Bool.not_eq_false'] at hat
      simpa [hat] using hdel
    exact SEntry.seen_of_not_usable (by rw [hv]; rfl)
  · refine recounted_seen rfl (seen_map fun s _ => ?_) fun h => h.map fun s => ?_
    · split
      next hdel =>
        rw [SEntry.seen_of_not_usable (s := s) (by rw [hdel.2]; rfl)]
        rfl
      · rfl
    · split <;> rfl

/-! ## §7. Replications and splits. -/

theorem recounted_finishReplication {check : Bool} :
    Recounted c (finishReplication a.servers check ondangerlist c).1 := by
  have hidle : Recounted c { c with operation := .none } := recounted_same rfl rfl
  unfold finishReplication
  split
  · exact hidle.trans recounted_chunkDoFastJob
  · exact hidle

theorem recounted_replicatedHigh (c : Chunk) (csid ecid version : Nat) (status : Status) :
    Recounted c (replicatedHigh c csid ecid version status) := by
  unfold replicatedHigh replicatedEntries
  dsimp only
  split
  · exact recounted_fix_if (fun h => h.filter _) rfl nofun
  split
  · refine recounted_fix_if (fun h => h.map fun s => by split <;> rfl) rfl fun hno =>
      seen_map fun s hs => ?_
    rw [if_neg (List.any_eq_false.mp hno s hs)]
  refine recounted_fix_if (fun h => h.map fun s => by split <;> rfl) rfl fun _ =>
    seen_map fun s _ => ?_
  split
  next hat =>
    have hbusy : s.valid = .busy := beq_iff_eq.mp (Bool.and_eq_true _ _ ▸ hat).2
    unfold SEntry.seen
    rw [hbusy]
    rfl
  · rfl

theorem recounted_replicatedLow : Recounted c (replicatedLow srv c csid ecid version status) := by
  unfold replicatedLow
  split
  · exact .refl
  split
  · split
    · exact recounted_fix ⟨fun _ => id, fun h => h.modFirst fun _ => rfl⟩
    · exact .refl
  split
  · exact recounted_seen rfl (seen_chunkNewCopy rfl) fun h => h.chunkNewCopy
  · exact recounted_fix ⟨fun _ => id, fun h => h.chunkNewCopy⟩

theorem recounted_chunkGotReplicateStatus :
    Recounted c (chunkGotReplicateStatus a.servers ondangerlist c csid ecid version status).1 := by
  unfold chunkGotReplicateStatus
  split
  · have hhigh := recounted_replicatedHigh c csid ecid version status
    dsimp only
    split
    · exact hhigh
    · exact hhigh.trans recounted_finishReplication
  · exact recounted_replicatedLow

theorem recounted_chunkGotLocalsplitStatus {operation : Operation} : Recounted c
      (chunkGotLocalsplitStatus a.servers ondangerlist operation c csid version status).1 := by
  unfold chunkGotLocalsplitStatus
  split
  · exact .refl
  generalize decide (status ≠ .ok ∨ version ≠ c.version) = failed
  refine Recounted.trans ?_ recounted_finishReplication
  refine recounted_fix_if (fun h => h.map fun s => by split <;> [split <;> rfl; rfl]) rfl
    fun hfix => seen_map fun s hs => ?_
  split
  next hat =>
    have hno : failed = false := by
      rcases Bool.and_eq_false_iff.mp hfix with hno | hnone
      · exact hno
      · exact absurd hat (List.any_eq_false.mp hnone s hs)
    have hpend : s.valid.pending = true := (Bool.and_eq_true _ _ ▸ hat).2
    rw [hno, if_neg Bool.false_ne_true]
    unfold SEntry.seen
    revert hpend
    cases hv : s.valid <;> simp [SEntry.setValid, Valid.usable, Valid.regular, Valid.pending]
  · rfl

/-! ## §8. Status data. -/

theorem mem_insertPart {x : SEntry} : x ∈ insertPart s l ↔ x = s ∨ x ∈ l := by
  induction l with
  | nil => exact List.mem_singleton.trans ⟨.inl, fun h => h.resolve_right List.not_mem_nil⟩
  | cons si l ih =>
    unfold insertPart
    split
    · rw [List.mem_cons, ih, List.mem_cons]
      tauto
    · rw [List.mem_cons]

theorem csid_of_mem_statusEntries (h : s ∈ statusEntries c csid parts) : s.csid = csid := by
  refine List.foldlRecOn (motive := fun l => ∀ s ∈ l, s.csid = csid) parts
    (fun l p => insertPart (statusEntry c csid p) l) nofun
    (fun l hl p _ s hs => ?_) s h
  rcases mem_insertPart.mp hs with heq | hmem
  · rw [heq]
    rfl
  · exact hl s hmem

/-- In an ordered list the correction puts entries in place of those of the server. -/
theorem Ordered.replaceServer (h : Ordered l) (csid : Nat) (reported : List SEntry) :
    let lo := l.filter fun s => s.csid < csid
    let hi := l.filter fun s => csid < s.csid
    l = lo ++ ((l.filter fun s => s.csid == csid) ++ hi)
      ∧ replaceServer csid reported l = lo ++ (reported ++ hi) := by
  induction l with
  | nil => exact ⟨rfl, (List.append_nil reported).symm⟩
  | cons s l ih =>
    obtain ⟨hle, hl⟩ := ordered_cons.mp h
    obtain ⟨hold, hnew⟩ := ih hl
    have hlo : csid ≤ s.csid → (l.filter fun s => s.csid < csid) = [] := fun hs =>
      List.filter_eq_nil_iff.mpr fun x hx => by simpa using hs.trans (hle x hx)
    unfold MfsMaster.replaceServer
    simp only [List.filter_cons, beq_iff_eq, decide_eq_true_eq]
    rcases Nat.lt_trichotomy s.csid csid with hlt | rfl | hgt
    · rw [if_pos hlt, if_neg hlt.ne, if_neg hlt.not_gt, if_pos hlt, hnew]
      exact ⟨congrArg (s :: ·) hold, rfl⟩
    · rw [hlo le_rfl] at hold hnew
      rw [if_neg (lt_irrefl _), if_pos rfl, if_neg (lt_irrefl _), if_neg (lt_irrefl _), if_pos rfl,
        hlo le_rfl]
      exact ⟨congrArg (s :: ·) hold, hnew⟩
    · have hmid : (l.filter fun s => s.csid == csid) = [] :=
        List.filter_eq_nil_iff.mpr fun x hx => by simpa using (hgt.trans_le (hle x hx)).ne'
      rw [hlo hgt.le, hmid] at hold
      rw [if_neg hgt.not_gt, if_neg hgt.ne', if_pos hgt, if_neg hgt.not_gt, if_neg hgt.ne',
        hlo hgt.le, hmid]
      exact ⟨congrArg (s :: ·) hold, congrArg (reported ++ s :: ·) hold⟩

/-- The server confirms the usable copies and parts it is listed with: the same ones, with the
same mark for removal. -/
def ConfirmsUsable (c : Chunk) (csid : Nat) (parts : List PartData) : Prop :=
  seen (statusEntries c csid parts) = seen (c.slist.filter fun s => s.csid == csid)

instance (c : Chunk) (csid : Nat) (parts : List PartData) :
    Decidable (ConfirmsUsable c csid parts) :=
  inferInstanceAs (Decidable (_ = _))

theorem Booked.chunkGotStatusData (h : Booked c) {fixmode : Bool}
    (hconf : fixmode = true → c.operation = .none → ConfirmsUsable c csid parts) :
    Booked (chunkGotStatusData c csid parts fixmode) := by
  unfold MfsMaster.chunkGotStatusData
  split
  · exact h
  next hop =>
  dsimp only
  split
  next hfix =>
    have hconf := hconf (Bool.and_eq_true _ _ ▸ hfix).2 (not_not.mp hop)
    obtain ⟨hold, hnew⟩ := h.ordered.replaceServer csid (statusEntries c csid parts)
    have hlo : ∀ s ∈ c.slist.filter fun s => s.csid < csid, s.csid < csid :=
      fun s hs => by simpa using (List.mem_filter.mp hs).2
    have hhi : ∀ s ∈ c.slist.filter fun s => csid < s.csid, csid < s.csid :=
      fun s hs => by simpa using (List.mem_filter.mp hs).2
    rw [hnew]
    refine ⟨h.counters.of_seen rfl ?_, ?_⟩
    · unfold ConfirmsUsable seen at hconf
      unfold seen
      conv_rhs => rw [hold]
      rw [List.filterMap_append, List.filterMap_append, List.filterMap_append,
        List.filterMap_append, hconf]
    · have hord := List.pairwise_map.mp h.ordered
      refine List.pairwise_map.mpr (List.pairwise_append.mpr ⟨hord.filter _,
        List.pairwise_append.mpr ⟨List.pairwise_of_forall_mem_list fun x hx y hy => ?_,
          hord.filter _, fun x hx y hy => ?_⟩, fun x hx y hy => ?_⟩)
      · rw [csid_of_mem_statusEntries hx, csid_of_mem_statusEntries hy]
      · rw [csid_of_mem_statusEntries hx]
        exact (hhi y hy).le
      · rcases List.mem_append.mp hy with hy | hy
        · rw [csid_of_mem_statusEntries hy]
          exact (hlo x hx).le
        · exact ((hlo x hx).trans (hhi y hy)).le
  · exact h

theorem chunkGotStatusData_of_not_fixmode :
    chunkGotStatusData c csid parts false = c := by
  unfold chunkGotStatusData
  split
  · rfl
  · dsimp only
    rw [Bool.and_false, if_neg Bool.false_ne_true]

theorem tells_chunkGotStatusData {fixmode : Bool} :
    Tells c (chunkGotStatusData c csid parts fixmode) := by
  unfold chunkGotStatusData
  split
  · exact fun _ => id
  dsimp only
  split <;> exact fun _ => id

/-! ## §9. Changes of the data. -/

theorem copies_clearEcFlags : SameCopies c (clearEcFlags tab c).1 := by
  unfold clearEcFlags
  dsimp only
  split
  · exact ⟨rfl, rfl, rfl, tells_stateChange⟩
  · exact .refl

/-- The way to a change: the counters are kept, and no entry waits on a server marked for
removal. -/
structure Prepared (c c' : Chunk) : Prop where
  recounted : Recounted c c'
  noTdbusy : NoTdbusy c'.slist

theorem Prepared.prepareJob (h : Prepared c c') {needed : Bool} :
    Prepared c (prepareJob a.servers needed c').2.1 := by
  unfold MfsMaster.prepareJob
  split
  · exact ⟨h.recounted.trans recounted_chunkDoFastJob, h.noTdbusy.job⟩
  · exact h

/-- `chunk_prepare_to_modify` keeps the counters, and lets a change through only when no entry
waits on a server marked for removal. -/
theorem recounted_chunkPrepareToModify : let p := chunkPrepareToModify a.servers tab c
    Recounted c p.2.1 ∧ (p.1 = .ok → NoTdbusy p.2.1.slist) := by
  intro p
  rcases chunkPrepareToModify_cases a.servers tab c with ⟨hno, heq⟩ | ⟨hpend, _, _, heq, _⟩
  · rw [show p.2 = _ from heq]
    exact ⟨.refl, fun hok => absurd hok hno⟩
  · have hready : Prepared c (clearEcFlags tab c).1 := by
      refine ⟨copies_clearEcFlags.recounted, fun s hs htd => hpend ?_⟩
      rw [copies_clearEcFlags.slist] at hs
      exact List.any_eq_true.mpr ⟨s, hs, by rw [htd]; rfl⟩
    rw [show p.2 = _ from heq]
    exact ⟨hready.prepareJob.prepareJob.recounted, fun _ => hready.prepareJob.prepareJob.noTdbusy⟩

/-- Without `TDBUSY` entries the marked ones are those in state `TDVALID`. -/
theorem NoTdbusy.marked (h : NoTdbusy l) :
    ∀ s ∈ l, s.valid.usable = true → (s.valid == .tdvalid) = !s.valid.regular := by
  intro s hs hu
  have hno := h s hs
  revert hu hno
  cases s.valid <;> decide

theorem recounted_modifyInPlace (h : NoTdbusy c.slist) : Recounted c (modifyInPlace c).2 := by
  unfold modifyInPlace
  split
  · exact (recounted_raiseEntries h.marked).trans (recounted_same rfl rfl)
  · exact .refl

theorem recounted_truncateInPlace (h : NoTdbusy c.slist) : Recounted c (truncateInPlace c) :=
  (recounted_raiseEntries h.marked).trans (recounted_same rfl rfl)

/-- Copies only: nothing for the codes to count. -/
theorem filter_ec_of_copies (h : ∀ s ∈ l, s.isCopy = true) :
    l.filter SEntry.isEc8 = [] ∧ l.filter SEntry.isEc4 = [] := by
  have hecid : ∀ s ∈ l, s.ecid = 0 := fun s hs => beq_iff_eq.mp (h s hs)
  constructor
  · refine List.filter_eq_nil_iff.mpr fun s hs => ?_
    unfold SEntry.isEc8
    rw [hecid s hs]
    decide
  · refine List.filter_eq_nil_iff.mpr fun s hs => ?_
    unfold SEntry.isEc4
    rw [hecid s hs]
    decide

theorem storageKindOf_copies (h : ∀ s ∈ l, s.isCopy = true) : storageKindOf l = .copies := by
  obtain ⟨h8, h4⟩ := filter_ec_of_copies h
  have hecge : chunkCalcEcge l = (0, .copies) := by
    unfold chunkCalcEcge
    rw [h8, h4]
    rfl
  unfold storageKindOf
  rw [hecge, h8, h4]
  dsimp only
  split
  · rfl
  · rw [if_pos (Nat.zero_le _)]

theorem mem_newOn (h : s ∈ csids.foldl (fun l csid => chunkNewCopy ⟨csid, .busy, 0, 1⟩ l) l) :
    s ∈ l ∨ (s.valid = .busy ∧ s.ecid = 0) := by
  refine List.foldlRecOn (motive := fun l' => ∀ s ∈ l', s ∈ l ∨ (s.valid = .busy ∧ s.ecid = 0))
    csids _ (fun _ => .inl) (fun l' hl csid _ s hs => ?_) s h
  rcases mem_chunkNewCopy.mp hs with heq | hmem
  · exact .inr (heq ▸ ⟨rfl, rfl⟩)
  · exact hl s hmem

theorem length_newOn :
    (csids.foldl (fun l csid => chunkNewCopy ⟨csid, .busy, 0, 1⟩ l) l).length
      = l.length + csids.length := by
  induction csids generalizing l with
  | nil => rfl
  | cons csid csids ih =>
    rw [List.foldl_cons, ih, (chunkNewCopy_perm _ l).length_eq, List.length_cons, List.length_cons]
    omega

theorem booked_newOn : Booked (newOn tab sclassid op csids) := by
  have hentries : ∀ s ∈ (newOn tab sclassid op csids).slist, s.valid = .busy ∧ s.ecid = 0 :=
    fun s hs => (mem_newOn hs).resolve_left List.not_mem_nil
  have hlen : (newOn tab sclassid op csids).slist.length = csids.length :=
    length_newOn.trans (Nat.zero_add _)
  have hnil : Ordered [] := List.Pairwise.nil
  have hord : Ordered (newOn tab sclassid op csids).slist := hnil.foldl_newCopy
  refine ⟨exact_iff.mpr ?_, hord⟩
  generalize (newOn tab sclassid op csids).slist = l at hentries hlen
  have hall : l.filter (fun s => s.valid.usable) = l :=
    List.filter_eq_self.mpr fun s hs => by rw [(hentries s hs).1]; rfl
  have hreg : l.filter (fun s => s.valid.regular) = l :=
    List.filter_eq_self.mpr fun s hs => by rw [(hentries s hs).1]; rfl
  have hcopy : ∀ s ∈ l, s.isCopy = true := fun s hs => beq_iff_eq.mpr (hentries s hs).2
  unfold countersOf
  dsimp only
  rw [hall, hreg, storageKindOf_copies hcopy, if_pos rfl, List.filter_eq_self.mpr hcopy, hlen]
  rfl

/-! ## §10. Repair, files and flags. -/

theorem copies_chunkAddFileInt : SameCopies c (chunkAddFileInt tab c sclassid) := by
  unfold chunkAddFileInt
  split
  · split
    · exact copies_newSclass
    split
    · split
      · exact ⟨rfl, rfl, rfl, fun _ => id⟩
      · exact copies_newSclass
    · exact copies_newSclass
  · exact copies_newSclass

theorem copies_chunkDeleteFileInt : SameCopies c (chunkDeleteFileInt tab c sclassid).2 := by
  unfold chunkDeleteFileInt
  split
  · split
    · exact .refl
    split
    · exact .refl
    split
    · exact copies_newSclass
    · exact ⟨rfl, rfl, rfl, fun _ => id⟩
  · split
    · exact .refl
    · exact copies_newSclass

theorem copies_chunkChangeFileInt {prev new : Nat} :
    SameCopies c (chunkChangeFileInt tab c prev new).2 := by
  unfold chunkChangeFileInt
  split
  · split
    · exact .refl
    split
    · exact copies_newSclass
    split
    · exact .refl
    · exact copies_newSclass
  · dsimp only
    split
    · exact .refl
    · exact copies_newSclass

theorem copies_chunkRecalcSclassid : SameCopies c (chunkRecalcSclassid tab c) := by
  unfold chunkRecalcSclassid
  split
  · exact .refl
  split
  · exact .refl
  · exact copies_newSclass

theorem copies_chunkMrFlagsclr {ts : UInt32} : SameCopies c (chunkMrFlagsclr c ts) := by
  unfold chunkMrFlagsclr
  split
  · exact .refl
  · exact ⟨rfl, rfl, rfl, tells_stateChange⟩

theorem told_newOn : (newOn tab sclassid op csids).Told chunkNew.state := by
  have hadd : SameCopies { chunkNew with version := 1 }
      (chunkAddFileInt tab { chunkNew with version := 1 } sclassid) := copies_chunkAddFileInt
  exact ⟨rfl, hadd.tells _ rfl⟩

theorem csid_repairWithParts {code : SEntry → Bool} (s : SEntry) :
    (repairWithParts srv code version s).csid = s.csid := by
  unfold repairWithParts
  split
  · split <;> rfl
  split <;> rfl

theorem csid_repairWithCopies (s : SEntry) : (repairWithCopies srv version s).csid = s.csid := by
  unfold repairWithCopies
  split
  · split
    · split <;> rfl
    · rfl
  split <;> rfl

theorem recounted_chunkRepair {chunkid : Nat}
    {erase : Bool} : Recounted c (chunkRepair srv tab chunkid sclassid erase c).2 := by
  have hstill : Recounted c (c.setWriteinprogress false) := recounted_same rfl rfl
  unfold chunkRepair
  split
  · exact .refl
  dsimp only
  split
  · exact hstill
  refine hstill.trans ?_
  have hparts : ∀ code, Recounted (c.setWriteinprogress false)
      (repairEc srv code (c.setWriteinprogress false)).2 := fun code =>
    recounted_fix ⟨fun _ => id, fun h => h.map csid_repairWithParts⟩
  unfold repairBody
  dsimp only
  split
  · split
    · exact hparts _
    split
    · exact hparts _
    split
    · exact copies_chunkDeleteFileInt.recounted
    · exact recounted_same rfl rfl
  · exact recounted_fix ⟨fun _ => id, fun h => h.map csid_repairWithCopies⟩

end MfsMaster
