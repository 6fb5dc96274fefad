/-
  MfsMaster.Chunk.Pending
  **AN OPERATION HAS A SERVER TO WAIT FOR**: answers, lost servers, reports, changes and
  repairs, one function at a time.

      Awaited.chunkRemoveDisconnectedChunks  — servers that go away
      awaited_chunkOperationStatus           — an answer, when it is `AnswerSafe`
      OthersPending.*                        — reports that take an entry away
      Awaited.chunkRepair                    — a repair, when it is `RepairSafe`

  Operations on parts are the exception: an emergency increase of the version leaves parts
  behind and starts nothing when there is no copy, and a repair may find nobody to ask.
-/
import MfsMaster.Chunk.Booked

namespace MfsMaster

/-! ## §1. Rules for the entries. -/

variable {c c' : Chunk} {l : List SEntry} {f : SEntry → SEntry} {p : SEntry → Bool} {s : SEntry}
  {csid ecid : Nat} {srv : Servers} {a : Around} {op : Operation} {ondangerlist : Bool}

variable {status : Status} {version sclassid : Nat} {tab : SClassTab} {code : SEntry → Bool}

theorem anyPending_iff : (l.any fun s => s.valid.pending) = true ↔ AnyPending l := by
  rw [List.any_eq_true]
  rfl

theorem Awaited.of_same (h : Awaited c) (hop : c'.operation = c.operation)
    (hlist : c'.slist = c.slist) : Awaited c' :=
  h.of_keeps hop fun hany => by rwa [hlist]

theorem Awaited.chunkStateFix (h : Awaited c) : Awaited (chunkStateFix c) :=
  h.of_same rfl rfl

/-- Every entry stays, but for the first one that the test is true of, which is changed. -/
theorem mem_modFirst {x : SEntry} (hx : x ∈ l) :
    x ∈ modFirst p f l ∨ (l.find? p = some x ∧ f x ∈ modFirst p f l) := by
  induction l with
  | nil => cases hx
  | cons y l ih =>
    unfold modFirst
    rw [List.find?_cons]
    cases hy : p y with
    | true =>
      rcases List.mem_cons.mp hx with rfl | hx
      · exact .inr ⟨rfl, List.mem_cons_self⟩
      · exact .inl (List.mem_cons_of_mem _ hx)
    | false =>
      rcases List.mem_cons.mp hx with rfl | hx
      · exact .inl List.mem_cons_self
      · exact (ih hx).imp (List.mem_cons_of_mem y) (And.imp_right (List.mem_cons_of_mem y))

theorem AnyPending.modFirst (h : AnyPending l)
    (hf : ∀ s ∈ l, p s = true → s.valid.pending = true → (f s).valid.pending = true) :
    AnyPending (modFirst p f l) := by
  obtain ⟨s, hs, hpend⟩ := h
  rcases mem_modFirst hs with hkept | ⟨hfind, hnew⟩
  · exact ⟨s, hkept, hpend⟩
  · exact ⟨f s, hnew, hf s hs (List.find?_some hfind) hpend⟩

theorem mem_modFirst_of_not (hs : s ∈ l) (hp : p s = false) : s ∈ modFirst p f l := by
  refine (mem_modFirst hs).resolve_right fun h => ?_
  rw [List.find?_some h.1] at hp
  cases hp

theorem AnyPending.chunkNewCopy (h : AnyPending l) : AnyPending (chunkNewCopy s l) := by
  obtain ⟨x, hx, hp⟩ := h
  exact ⟨x, mem_chunkNewCopy.mpr (.inr hx), hp⟩

theorem awaited_chunkDoFastJob : Awaited (chunkDoFastJob a.servers c).1 :=
  awaited_chunkDoJobs.chunkStateFix

/-! ## §2. Ends of operations. -/

/-- A full copy that is in use. -/
def AnyCopy (l : List SEntry) : Prop := ∃ s ∈ l, (s.valid.usable && s.isCopy) = true

instance (l : List SEntry) : Decidable (AnyCopy l) :=
  inferInstanceAs (Decidable (∃ s ∈ l, (s.valid.usable && s.isCopy) = true))

/-- The copies in use are asked to follow when the version goes up. -/
theorem anyPending_raiseEntries (h : AnyCopy c.slist) {td : Valid → Bool} :
    AnyPending (raiseEntries td c).slist := by
  have hmap : AnyPending (c.slist.map (raiseEntry td (c.version + 1))) := by
    obtain ⟨s, hs, hcopy⟩ := h
    obtain ⟨husable, hcopy⟩ := Bool.and_eq_true_iff.mp hcopy
    refine ⟨_, List.mem_map_of_mem hs, ?_⟩
    unfold raiseEntry
    rw [if_pos husable, if_pos hcopy]
    split <;> rfl
  unfold raiseEntries
  split <;> exact hmap

/-- An emergency increase of the version starts an operation when there is a copy; without one
it leaves the operation as it was. -/
theorem awaited_chunkEmergencyIncreaseVersion (h : AnyCopy c.slist) :
    Awaited (chunkEmergencyIncreaseVersion c).1 := by
  intro _
  unfold chunkEmergencyIncreaseVersion
  split <;> exact anyPending_raiseEntries h

theorem anyCopy_of_readable
    (h : (l.any fun s => s.isCopy && s.valid.readable) = true) : AnyCopy l := by
  obtain ⟨s, hs, hcopy⟩ := List.any_eq_true.mp h
  obtain ⟨hcopy, hread⟩ := Bool.and_eq_true_iff.mp hcopy
  refine ⟨s, hs, ?_⟩
  rw [hcopy, Bool.and_true]
  revert hread
  cases s.valid <;> simp [Valid.readable, Valid.usable]

theorem awaited_finishDisconnected : Awaited (finishDisconnected a.servers c).1 :=
  finishDisconnected_rule (awaited_of_none rfl) awaited_chunkDoFastJob
    (fun hcopies => awaited_chunkEmergencyIncreaseVersion (anyCopy_of_readable hcopies))
    (awaited_of_none rfl)

/-- **Lost servers end an operation**, or others are still to answer. -/
theorem Awaited.chunkRemoveDisconnectedChunks (h : Awaited c) {r : Chunk × List Effect}
    (hr : chunkRemoveDisconnectedChunks a.servers c = some r) : Awaited r.1 := by
  rcases chunkRemoveDisconnectedChunks_cases hr with rfl | ⟨hnone, rfl⟩ | ⟨hpending, rfl⟩ | rfl
  · exact h
  · exact awaited_of_none hnone
  · exact fun _ => anyPending_iff.mp hpending
  · exact awaited_finishDisconnected.chunkStateFix

/-- The chunk can do without an operation after this answer: it is about a full copy, or others
are still to answer, or a full copy is in use, or nothing has gone wrong. -/
def AnswerSafe (c : Chunk) (csid ecid : Nat) (status : Status) : Prop :=
  ecid = 0 ∨ AnyPending (c.slist.filter fun s => !s.at csid ecid) ∨ AnyCopy c.slist
    ∨ c.interrupted = false
      ∧ (status = .ok ∨ status = .notdone ∨ c.slist.any (SEntry.at csid ecid) = false)

instance (c : Chunk) (csid ecid : Nat) (status : Status) :
    Decidable (AnswerSafe c csid ecid status) :=
  inferInstanceAs (Decidable (ecid = 0 ∨ _ ∨ _ ∨ _ ∧ _))

theorem mem_answerEntries_of_not_at (hs : s ∈ l) (hat : s.at csid ecid = false) :
    s ∈ answerEntries op csid ecid status l :=
  List.mem_filterMap.mpr ⟨s, hs, by rw [hat, if_neg Bool.false_ne_true]⟩

theorem AnyCopy.revertVersion (h : AnyCopy c.slist) : AnyCopy (revertVersion c).1.slist := by
  unfold MfsMaster.revertVersion
  split
  · obtain ⟨s, hs, hused⟩ := h
    refine ⟨_, List.mem_map_of_mem hs, ?_⟩
    have hcopy : s.isCopy = true := (Bool.and_eq_true_iff.mp hused).2
    unfold revertEntry
    split
    · split
      · exact hcopy
      · exact hcopy
      · exact hused
    · exact hused
  · exact h

/-- The end of an operation on copies, on parts beside a copy, or without a failure. -/
theorem awaited_finishOperation {full : Bool}
    (h : full = true → c.interrupted = true → AnyCopy c.slist) :
    Awaited (finishOperation srv full c).1 := by
  unfold finishOperation
  split
  next hfull =>
    split
    next hint => exact awaited_chunkEmergencyIncreaseVersion (h hfull hint)
    · exact awaited_of_none rfl
  · exact awaited_of_none rfl

/-- **An answer ends the operation when no other is outstanding.** -/
theorem awaited_chunkOperationStatus (h : AnswerSafe c csid ecid status) :
    Awaited (chunkOperationStatus srv c csid ecid status).1 := by
  obtain ⟨a, ha⟩ : ∃ a, a = answered c csid ecid status := ⟨_, rfl⟩
  -- what is left of the list before the end of the operation is looked at
  have hfixed : ∀ b b' : Bool,
      let r := if b = true then MfsMaster.revertVersion a else (a, [])
      let c' := if b' = true then chunkStateFix r.1 else r.1
      (AnyCopy a.slist → AnyCopy c'.slist) ∧ c'.interrupted = a.interrupted := by
    intro b b'
    have hint : (MfsMaster.revertVersion a).1.interrupted = a.interrupted := by
      unfold MfsMaster.revertVersion
      split <;> rfl
    cases b with
    | false => cases b' <;> exact ⟨id, rfl⟩
    | true => cases b' <;> exact ⟨AnyCopy.revertVersion, hint⟩
  have hcopy : answerComplete a ecid = true → a.interrupted = true →
      (a.slist.any fun s => s.valid.pending) = false → AnyCopy a.slist := by
    intro hfull hint hdone
    by_cases hecid : ecid = 0
    · -- the answer is complete with a full copy
      subst hecid
      refine anyCopy_of_readable ?_
      simpa [answerComplete, List.any_filter, Bool.and_comm] using hfull
    rcases h.resolve_left hecid with hothers | hcopies | ⟨hquiet, hgood⟩
    · obtain ⟨s, hs, hpend⟩ := hothers
      obtain ⟨hs, hat⟩ := List.mem_filter.mp hs
      have hin : s ∈ a.slist := ha ▸ mem_answerEntries_of_not_at hs (by simpa using hat)
      exact absurd hpend (List.any_eq_false.mp hdone s hin)
    · obtain ⟨s, hs, hc⟩ := hcopies
      have hat : s.at csid ecid = false := by
        have hzero : s.ecid = 0 := beq_iff_eq.mp (Bool.and_eq_true_iff.mp hc).2
        unfold SEntry.at
        rw [hzero, beq_false_of_ne (Ne.symm hecid), Bool.and_false]
      exact ⟨s, ha ▸ mem_answerEntries_of_not_at hs hat, hc⟩
    · -- nothing went wrong before, nor with this answer
      have hnot : a.interrupted = false := by
        rw [ha]
        show (c.interrupted || (c.slist.any (SEntry.at csid ecid) && status != .ok
          && status != .notdone)) = false
        rw [hquiet]
        rcases hgood with rfl | rfl | hno
        · simp
        · simp
        · rw [hno]
          rfl
      rw [hnot] at hint
      cases hint
  unfold chunkOperationStatus
  dsimp only
  rw [← ha]
  split
  next hdone =>
    refine awaited_finishOperation fun hfull hint => (hfixed _ _).1 (hcopy hfull ?_ ?_)
    · exact (hfixed _ _).2.symm.trans hint
    · simpa using hdone
  next hwaits =>
    -- some entry is still busy, so no increase is taken back
    have hwaits : (a.slist.any fun s => s.valid.pending) = true := by simpa using hwaits
    intro _
    rw [hwaits]
    simp only [Bool.not_true, Bool.false_and, Bool.false_eq_true, if_false]
    split <;> exact anyPending_iff.mp hwaits

theorem awaited_finishReplication {check : Bool} :
    Awaited (finishReplication a.servers check ondangerlist c).1 := by
  unfold finishReplication
  split
  · exact awaited_chunkDoFastJob
  · exact awaited_of_none rfl

/-- A replication of low priority is no operation of the chunk: what it changes was not busy. -/
theorem Awaited.replicatedLow (h : Awaited c) :
    Awaited (replicatedLow srv c csid ecid version status) := by
  unfold MfsMaster.replicatedLow
  split
  · exact h
  split
  next s hfind =>
    split
    next hvalid =>
      refine h.of_keeps rfl fun hany => ?_
      obtain ⟨x, hx, hp⟩ := hany
      refine ⟨x, (mem_modFirst hx).resolve_right fun hfirst => ?_, hp⟩
      rw [hfind] at hfirst
      rw [← Option.some.inj hfirst.1, hvalid.1] at hp
      cases hp
    · exact h
  · split <;> exact h.of_keeps rfl fun hany => hany.chunkNewCopy

theorem Awaited.chunkGotReplicateStatus (h : Awaited c) :
    Awaited (chunkGotReplicateStatus a.servers ondangerlist c csid ecid version status).1 := by
  unfold MfsMaster.chunkGotReplicateStatus
  split
  · dsimp only
    split
    next hbusy =>
      intro _
      obtain ⟨s, hs, hb⟩ := List.any_eq_true.mp hbusy
      exact ⟨s, hs, by rw [beq_iff_eq.mp hb]; rfl⟩
    · exact awaited_finishReplication
  · exact h.replicatedLow

theorem Awaited.chunkGotLocalsplitStatus (h : Awaited c) {operation : Operation} :
    Awaited
      (chunkGotLocalsplitStatus a.servers ondangerlist operation c csid version status).1 := by
  unfold MfsMaster.chunkGotLocalsplitStatus
  split
  · exact h
  · exact awaited_finishReplication

/-! ## §3. Reports. -/

theorem Awaited.chunkServerHasChunk (h : Awaited c)
    {marked : Bool} : Awaited (chunkServerHasChunk c csid ecid version marked) := by
  unfold MfsMaster.chunkServerHasChunk
  split
  · dsimp only
    split
    · exact h
    refine h.of_keeps rfl fun hany => hany.modFirst fun s _ _ hp => ?_
    unfold reportKnown
    rw [if_pos hp]
    cases marked <;> rfl
  · have hnew : ∀ s, Awaited { c with slist := chunkNewCopy s c.slist } :=
      fun s => h.of_keeps rfl fun hany => hany.chunkNewCopy
    split
    · exact (hnew _).of_same rfl rfl
    split <;> exact (hnew _).of_same rfl rfl

/-- A report that takes an entry away from an operation leaves another one to wait for. -/
def OthersPending (c : Chunk) (csid ecid : Nat) : Prop :=
  c.operation ≠ .none → AnyPending (c.slist.filter fun s => !s.at csid ecid)

instance (c : Chunk) (csid ecid : Nat) : Decidable (OthersPending c csid ecid) :=
  inferInstanceAs (Decidable (c.operation ≠ .none → _))

theorem OthersPending.keeps (h : OthersPending c csid ecid) (hop : c'.operation = c.operation)
    (hmem : ∀ s ∈ c.slist, s.at csid ecid = false → s ∈ c'.slist) : Awaited c' := by
  intro hne
  obtain ⟨s, hs, hp⟩ := h (hop ▸ hne)
  obtain ⟨hs, hat⟩ := List.mem_filter.mp hs
  exact ⟨s, hmem s hs (by simpa using hat), hp⟩

theorem OthersPending.chunkDamaged (h : OthersPending c csid ecid) :
    Awaited (chunkDamaged c csid ecid) := by
  unfold MfsMaster.chunkDamaged
  split
  · exact h.keeps rfl fun s hs hat => mem_modFirst_of_not hs hat
  · exact h.keeps rfl fun s hs _ => mem_chunkNewCopy.mpr (.inr hs)

theorem OthersPending.chunkLost (h : OthersPending c csid ecid) :
    Awaited (chunkLost c csid ecid) := by
  unfold MfsMaster.chunkLost
  split
  · exact h.keeps rfl fun s hs hat => List.mem_filter.mpr ⟨hs, by rw [hat]; rfl⟩
  · exact h.keeps rfl fun s hs _ => hs

theorem OthersPending.chunkGotDeleteStatus
    (h : OthersPending c csid ecid) : Awaited (chunkGotDeleteStatus c csid ecid true) := by
  have hkeeps : Awaited { c with slist := c.slist.filter fun s => !s.at csid ecid } :=
    h.keeps rfl fun s hs hat => List.mem_filter.mpr ⟨hs, by rw [hat]; rfl⟩
  unfold MfsMaster.chunkGotDeleteStatus
  rw [if_pos rfl]
  dsimp only
  split
  · exact hkeeps.chunkStateFix
  · exact hkeeps

/-- A refused deletion concerns entries marked `DEL` only. -/
theorem Awaited.chunkGotDeleteStatus (h : Awaited c) :
    Awaited (chunkGotDeleteStatus c csid ecid false) := by
  unfold MfsMaster.chunkGotDeleteStatus
  rw [if_neg Bool.false_ne_true]
  refine h.of_keeps rfl fun hany => hany.map fun s _ hp => ?_
  split
  next hdel =>
    rw [hdel.2] at hp
    cases hp
  · exact hp

/-! ## §4. Changes of the data. -/

theorem Awaited.prepareJob (h : Awaited c) {needed : Bool} :
    Awaited (prepareJob a.servers needed c).2.1 := by
  unfold MfsMaster.prepareJob
  split
  · exact awaited_chunkDoFastJob
  · exact h

theorem anyCopy_of_prepareAnswer {gequiv : Nat}
    (h : prepareAnswer srv gequiv c = .ok) : AnyCopy c.slist := by
  unfold prepareAnswer at h
  dsimp only at h
  split at h
  · cases h
  split at h
  · split at h
    · split at h <;> cases h
    · split at h <;> cases h
  next hpos =>
    obtain ⟨s, hs⟩ := List.exists_mem_of_length_pos (Nat.pos_of_ne_zero hpos)
    obtain ⟨hs, hcopy⟩ := List.mem_filter.mp hs
    exact anyCopy_of_readable (List.any_eq_true.mpr ⟨s, hs, hcopy⟩)

/-- A change goes on only with a copy to send it to. -/
theorem Awaited.chunkPrepareToModify (h : Awaited c) :
    Awaited (chunkPrepareToModify a.servers tab c).2.1
      ∧ ((chunkPrepareToModify a.servers tab c).1 = .ok →
        AnyCopy (chunkPrepareToModify a.servers tab c).2.1.slist) := by
  have hflags : Awaited (clearEcFlags tab c).1 := by
    unfold clearEcFlags
    dsimp only
    split
    · exact h.of_same rfl rfl
    · exact h
  rcases chunkPrepareToModify_cases a.servers tab c with ⟨hno, heq⟩ | ⟨_, _, _, heq, hanswer⟩
  · rw [heq]
    exact ⟨h, fun hok => absurd hok hno⟩
  · rw [heq]
    refine ⟨hflags.prepareJob.prepareJob, fun hok => ?_⟩
    obtain ⟨gequiv, hgequiv⟩ := hanswer hok
    exact anyCopy_of_prepareAnswer hgequiv

theorem Awaited.modifyInPlace (h : Awaited c) (hcopy : AnyCopy c.slist) :
    Awaited (modifyInPlace c).2 := by
  unfold MfsMaster.modifyInPlace
  split
  · exact fun _ => anyPending_raiseEntries hcopy
  · exact h

theorem awaited_truncateInPlace (hcopy : AnyCopy c.slist) : Awaited (truncateInPlace c) :=
  fun _ => anyPending_raiseEntries hcopy

theorem awaited_newOn {csids : List Nat}
    (h : op ≠ .none → csids ≠ []) : Awaited (newOn tab sclassid op csids) := by
  intro hop
  have hlen : (newOn tab sclassid op csids).slist.length = csids.length :=
    length_newOn.trans (Nat.zero_add _)
  obtain ⟨s, hs⟩ := List.exists_mem_of_length_pos (hlen ▸ List.length_pos_of_ne_nil (h hop))
  obtain ⟨hbusy, _⟩ := (mem_newOn hs).resolve_left List.not_mem_nil
  exact ⟨s, hs, by rw [hbusy]; rfl⟩

theorem awaited_duplicateOf {oc : Chunk} : Awaited (duplicateOf tab sclassid op oc) := by
  refine awaited_newOn fun hop hempty => hop ?_
  rw [hempty]
  rfl

/-! ## §5. Repair. -/

/-- A repair with the parts of a code finds a part to send the version to. -/
def RepairSafe (srv : Servers) (l : List SEntry) : Prop :=
  AnyPending l ∨ ∀ code ∈ [(4, SEntry.isEc4), (8, SEntry.isEc8)],
    code.1 ≤ distinctParts (repairParts srv code.2 l) →
      ∃ s ∈ repairParts srv code.2 l, s.valid.stale = true

instance (srv : Servers) (l : List SEntry) : Decidable (RepairSafe srv l) :=
  inferInstanceAs (Decidable (AnyPending l ∨ ∀ code ∈ _, _ → ∃ s ∈ _, _))

theorem pending_repairWithParts
    (h : s.valid.pending = true) : (repairWithParts srv code version s).valid.pending = true := by
  unfold repairWithParts
  split
  · split
    · rfl
    · rfl
    · exact h
  split
  next hread =>
    rw [pending_of_readable (Bool.and_eq_true_iff.mp hread).2] at h
    cases h
  · exact h

theorem awaited_repairEc
    (h : AnyPending c.slist ∨ ∃ s ∈ repairParts srv code c.slist, s.valid.stale = true) :
    Awaited (repairEc srv code c).2 := by
  refine Awaited.chunkStateFix fun _ => ?_
  rcases h with hany | ⟨s, hs, hstale⟩
  · exact hany.map fun s _ hp => pending_repairWithParts hp
  obtain ⟨hs, hpart⟩ := List.mem_filter.mp hs
  refine ⟨_, List.mem_map_of_mem hs, ?_⟩
  unfold repairWithParts
  rw [if_pos (Bool.and_eq_true_iff.mp hpart).1]
  revert hstale
  cases hv : s.valid <;> simp [Valid.stale, Valid.pending]

theorem Awaited.repairWithCopies (h : Awaited c) {v : Nat} :
    Awaited { c with slist := c.slist.map (repairWithCopies srv v) } := by
  refine h.of_keeps rfl fun hany => hany.map fun s _ hp => ?_
  unfold MfsMaster.repairWithCopies
  split
  · split
    · split
      next hv =>
        rw [hv] at hp
        cases hp
      next hv =>
        rw [hv] at hp
        cases hp
      · exact hp
    · exact hp
  split
  next hread =>
    rw [pending_of_readable hread] at hp
    cases hp
  · exact hp

/-- **A repair has somebody to send the version to**, or starts nothing. -/
theorem Awaited.chunkRepair (h : Awaited c)
    (hsafe : RepairSafe srv c.slist) {chunkid : Nat} {erase : Bool} :
    Awaited (chunkRepair srv tab chunkid sclassid erase c).2 := by
  have hwrite : Awaited (c.setWriteinprogress false) := h.of_same rfl rfl
  have hparts : ∀ code ∈ [(4, SEntry.isEc4), (8, SEntry.isEc8)],
      code.1 ≤ distinctParts (repairParts srv code.2 c.slist) →
      AnyPending c.slist ∨ ∃ s ∈ repairParts srv code.2 c.slist, s.valid.stale = true := by
    intro code hcode hfull
    exact hsafe.imp id fun hstale => hstale code hcode hfull
  unfold MfsMaster.chunkRepair
  split
  · exact h
  dsimp only
  split
  · exact hwrite
  unfold repairBody
  dsimp only
  split
  · split
    next hfull =>
      exact awaited_repairEc (hparts (8, SEntry.isEc8) (by simp) hfull.1)
    split
    next hfull => exact awaited_repairEc (hparts (4, SEntry.isEc4) (by simp) hfull)
    split
    · exact hwrite.of_same copies_chunkDeleteFileInt.operation
        copies_chunkDeleteFileInt.slist
    · exact hwrite.of_same rfl rfl
  · exact (hwrite.repairWithCopies.of_same rfl rfl).chunkStateFix

end MfsMaster
