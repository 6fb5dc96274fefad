/-
  MfsMaster.Data.Counters
  **THE COUNTERS OF A CHUNK MATCH ITS COPIES**, over whole runs.

      ChunkEvent             — everything that happens to a chunk record
      booked_step            — one event keeps the counters
      chunk_counters_exact   — so does a run, unless a success answer revives an entry or
                               a correction by status data changes what is usable
-/
import MfsMaster.Data.Write
import MfsMaster.Chunk.Booked
import MfsMaster.Lib.Replay

namespace MfsMaster

/-! ## §1. Everything that happens to a chunk record. -/

/-- `chunk_univ_multi_modify` or `chunk_univ_multi_truncate`. -/
def changeOf (truncate : Bool) : System.ChunkChange := if truncate then .truncate else .modify

/-- An event of a chunk.  A call that first drops the entries of lost servers is two events, and
so is one that forgets the chunk in the end; an answer to a waiting client is followed by an
event of its own. -/
inductive ChunkEvent where
  /-- The chunk is loaded, or known to a server only. -/
  | appear (version : Nat) (lockedto : UInt32) (archFlag trashFlag : Bool)
  | create (ts : UInt32) (tab : SClassTab) (sclassid : Nat) (csids : List Nat)
  | duplicate (truncate : Bool) (ts : UInt32) (tab : SClassTab) (sclassid : Nat) (oc : Chunk)
  | dropLost (a : Around)
  | answer (srv : Servers) (csid ecid : Nat) (status : Status)
  | replicated (a : Around) (ondangerlist : Bool) (csid ecid version : Nat) (status : Status)
  | split (a : Around) (ondangerlist : Bool) (operation : Operation) (csid version : Nat)
      (status : Status)
  | report (r : Report)
  | statusData (csid : Nat) (parts : List PartData) (fixmode : Bool)
  | change (a : Around) (truncate : Bool) (sclassid : Nat)
  | repair (srv : Servers) (tab : SClassTab) (chunkid sclassid : Nat) (erase : Bool)
  | jobs (a : Around)
  | unlock (a : Around)
  | forget (srv : Servers)
  | addFile (tab : SClassTab) (sclassid : Nat)
  | deleteFile (tab : SClassTab) (sclassid : Nat)
  | changeFile (tab : SClassTab) (prev new : Nat)
  | archflag (b : Bool)
  | trashflag (b : Bool)
  | autoarch (archreftime : UInt32) (intrash : Bool)
  | recalc (tab : SClassTab)
  | flagsclr (ts : UInt32)
  /-- The version and the lock are taken from a record of the change log. -/
  | stamp (version : Nat) (lockedto : UInt32)
  /-- `chunk_state_fix` once clients that waited for the end of an operation were answered. -/
  | recount

variable {c c' : Chunk} {e : ChunkEvent}

namespace ChunkEvent

/-- The chunk an event makes. -/
def born : ChunkEvent → Option Chunk
  | .appear version lockedto archFlag trashFlag =>
    some ({ chunkNew with
      version := version30 version, lockedto := lockedto }.newFlags archFlag trashFlag)
  | .create ts tab sclassid csids =>
    some (System.ChunkChange.modify.finish ts (createOn tab sclassid csids))
  | .duplicate truncate ts tab sclassid oc =>
    some ((changeOf truncate).finish ts
      (duplicateOf tab sclassid (changeOf truncate).dupOp oc))
  | _ => none

/-- The change of a chunk, on the chunk itself: one file changes it in place, one of several
files leaves it. -/
def changeChunk (a : Around) (ch : System.ChunkChange) (sclassid : Nat) (c : Chunk) : Chunk :=
  if c.fhead = .few 0 then c
  else
    let p := chunkPrepareToModify a.servers a.tab c
    if p.1 ≠ .ok then p.2.1
    else if c.fhead = .few 1 then ch.finish a.srv.now (ch.inPlace p.2.1).2
    else (chunkDeleteFileInt a.tab p.2.1 sclassid).2

/-- What an event does to a chunk that is there; `none` when it is forgotten. -/
def apply (c : Chunk) : ChunkEvent → Option Chunk
  | .appear .. | .create .. | .duplicate .. => some c
  | .dropLost a => (chunkRemoveDisconnectedChunks a.servers c).map Prod.fst
  | .answer srv csid ecid status =>
    some (if chunkCheckEcid ecid then (chunkOperationStatus srv c csid ecid status).1 else c)
  | .replicated a ondangerlist csid ecid version status =>
    some (if chunkCheckEcid ecid then
      (chunkGotReplicateStatus a.servers ondangerlist c csid ecid version status).1 else c)
  | .split a ondangerlist operation csid version status =>
    some (chunkGotLocalsplitStatus a.servers ondangerlist operation c csid version status).1
  | .report r => some (if chunkCheckEcid r.ecid then r.apply c else c)
  | .statusData csid parts fixmode => some (chunkGotStatusData c csid parts fixmode)
  | .change a truncate sclassid => some (changeChunk a (changeOf truncate) sclassid c)
  | .repair srv tab chunkid sclassid erase => some (chunkRepair srv tab chunkid sclassid erase c).2
  | .jobs a => some (chunkDoFastJob a.servers c).1
  | .unlock a =>
    let c := Master.unlockChunk a.srv.now c
    some (if a.srv.urgent then (chunkDoFastJob a.servers c).1 else c)
  | .forget srv => if chunkDeletable srv c then none else some c
  | .addFile tab sclassid => some (chunkAddFileInt tab c sclassid)
  | .deleteFile tab sclassid => some (chunkDeleteFileInt tab c sclassid).2
  | .changeFile tab prev new => some (chunkChangeFileInt tab c prev new).2
  | .archflag b => some (chunkSetArchflagInt c b).1
  | .trashflag b => some (chunkSetTrashflagInt c b).2
  | .autoarch archreftime intrash => some (chunkSetAutoarchInt c archreftime intrash).1
  | .recalc tab => some (chunkRecalcSclassid tab c)
  | .flagsclr ts => some (chunkMrFlagsclr c ts)
  | .stamp version lockedto => some { c with version := version30 version, lockedto := lockedto }
  | .recount => some (chunkStateFix c)

/-- One event on what is known of a chunk. -/
def step : Option Chunk → ChunkEvent → Option Chunk
  | none, e => e.born
  | some c, e => e.apply c

/-- The event needs no `chunk_state_fix` that the code does not make: a success answer concerns
an entry still in use, and a correction by status data confirms the usable entries. -/
def Settled (c : Chunk) : ChunkEvent → Prop
  | .answer _ csid ecid status => AnswersUsable c csid ecid status
  | .statusData csid parts fixmode =>
    fixmode = true → c.operation = .none → ConfirmsUsable c csid parts
  | _ => True

/-- The condition on a step. -/
def StepSettled (st : Option Chunk) (e : ChunkEvent) : Prop := ∀ c ∈ st, e.Settled c

/-- Events that do more than change files, flags, version or the lock of a chunk. -/
def Acts : ChunkEvent → Prop
  | .dropLost _ | .answer .. | .replicated .. | .split .. | .report _ | .statusData .. | .change ..
  | .repair .. | .jobs _ | .unlock _ | .recount => True
  | _ => False

/-- The other events leave the copies and the operation alone. -/
theorem quiet_or_acts (hc' : e.apply c = some c') : e.Acts ∨ SameCopies c c' := by
  cases e with
  | forget srv =>
    change (if chunkDeletable srv c = true then none else some c) = some c' at hc'
    split at hc'
    · cases hc'
    · cases hc'
      exact .inr .refl
  | addFile tab sclassid =>
    cases hc'
    exact .inr copies_chunkAddFileInt
  | deleteFile tab sclassid =>
    cases hc'
    exact .inr copies_chunkDeleteFileInt
  | changeFile tab prev new =>
    cases hc'
    exact .inr copies_chunkChangeFileInt
  | trashflag b =>
    cases hc'
    unfold chunkSetTrashflagInt
    split
    · exact .inr .refl
    · exact .inr copies_newFlags
  | archflag | autoarch =>
    cases hc'
    exact .inr copies_newFlags
  | recalc tab =>
    cases hc'
    exact .inr copies_chunkRecalcSclassid
  | flagsclr ts =>
    cases hc'
    exact .inr copies_chunkMrFlagsclr
  | appear | create | duplicate | stamp =>
    cases hc'
    exact .inr ⟨rfl, rfl, rfl, fun _ => id⟩
  | _ => exact .inl trivial

theorem recounted_report {r : Report} : Recounted c (r.apply c) := by
  cases r with
  | has csid ecid version marked => exact recounted_chunkServerHasChunk
  | damaged csid ecid => exact recounted_chunkDamaged
  | lost csid ecid => exact recounted_chunkLost
  | deleted csid ecid ok => exact recounted_chunkGotDeleteStatus

theorem recounted_finish {ch : System.ChunkChange} {ts : UInt32} : Recounted c (ch.finish ts c) :=
  recounted_same rfl rfl

theorem booked_born (h : e.born = some c) : Booked c := by
  cases e with
  | appear version lockedto archFlag trashFlag =>
    cases h
    exact ⟨exact_iff.mpr rfl, List.Pairwise.nil⟩
  | create | duplicate =>
    cases h
    exact recounted_finish.booked booked_newOn
  | _ => cases h

theorem recounted_changeChunk {a : Around} {truncate : Bool} {sclassid : Nat} :
    Recounted c (changeChunk a (changeOf truncate) sclassid c) := by
  obtain ⟨hprep, hready⟩ := recounted_chunkPrepareToModify
  unfold changeChunk
  split
  · exact .refl
  dsimp only
  split
  · exact hprep
  next hok =>
  have hready := hready (not_not.mp hok)
  refine hprep.trans ?_
  split
  · cases truncate with
    | true => exact (recounted_truncateInPlace hready).trans recounted_finish
    | false => exact (recounted_modifyInPlace hready).trans recounted_finish
  · exact copies_chunkDeleteFileInt.recounted

/-- **Every event keeps account of its changes**, answers and status data apart. -/
theorem recounted_apply (hc' : e.apply c = some c') :
    (∃ srv csid ecid status, e = .answer srv csid ecid status)
      ∨ (∃ csid parts fixmode, e = .statusData csid parts fixmode) ∨ Recounted c c' := by
  rcases quiet_or_acts hc' with hacts | hquiet
  swap
  · exact .inr (.inr hquiet.recounted)
  cases e with
  | answer srv csid ecid status => exact .inl ⟨srv, csid, ecid, status, rfl⟩
  | statusData csid parts fixmode => exact .inr (.inl ⟨csid, parts, fixmode, rfl⟩)
  | dropLost a =>
    obtain ⟨r, hr, rfl⟩ := Option.map_eq_some_iff.mp hc'
    exact .inr (.inr (recounted_chunkRemoveDisconnectedChunks hr))
  | replicated a ondangerlist csid ecid version status =>
    cases hc'
    refine .inr (.inr ?_)
    split
    · exact recounted_chunkGotReplicateStatus
    · exact .refl
  | split a ondangerlist operation csid version status =>
    cases hc'
    exact .inr (.inr recounted_chunkGotLocalsplitStatus)
  | report r =>
    cases hc'
    refine .inr (.inr ?_)
    split
    · exact recounted_report
    · exact .refl
  | change a truncate sclassid =>
    cases hc'
    exact .inr (.inr recounted_changeChunk)
  | repair srv tab chunkid sclassid erase =>
    cases hc'
    exact .inr (.inr recounted_chunkRepair)
  | jobs a =>
    cases hc'
    exact .inr (.inr recounted_chunkDoFastJob)
  | unlock a =>
    have hopen : Recounted c (Master.unlockChunk a.srv.now c) := recounted_same rfl rfl
    cases hc'
    refine .inr (.inr (hopen.trans ?_))
    split
    · exact recounted_chunkDoFastJob
    · exact .refl
  | recount =>
    cases hc'
    exact .inr (.inr (recounted_fix ⟨fun _ => id, id⟩))
  | _ => cases hacts

/-- **Every event tells the counters of the master** what it does to the state of a chunk. -/
theorem tells_apply (hc' : e.apply c = some c') : Tells c c' := by
  obtain ⟨srv, csid, ecid, status, rfl⟩ | ⟨csid, parts, fixmode, rfl⟩ | hrec := recounted_apply hc'
  · cases hc'
    split
    · exact tells_chunkOperationStatus
    · exact fun _ => id
  · cases hc'
    exact tells_chunkGotStatusData
  · exact hrec.tells

theorem told_born (h : e.born = some c) : c.Told chunkNew.state := by
  cases e with
  | appear version lockedto archFlag trashFlag =>
    cases h
    exact tells_stateChange.ifNew _ rfl
  | create | duplicate =>
    cases h
    exact recounted_finish.tells _ told_newOn
  | _ => cases h

theorem booked_apply (h : Booked c) (hset : e.Settled c)
    (hc' : e.apply c = some c') : Booked c' := by
  obtain ⟨srv, csid, ecid, status, rfl⟩ | ⟨csid, parts, fixmode, rfl⟩ | hrec := recounted_apply hc'
  · cases hc'
    split
    · exact h.chunkOperationStatus hset
    · exact h
  · cases hc'
    exact h.chunkGotStatusData hset
  · exact hrec.booked h

theorem booked_step {st : Option Chunk} (h : ∀ c ∈ st, Booked c)
    (hset : StepSettled st e) : ∀ c ∈ step st e, Booked c := by
  intro c' hc'
  cases st with
  | none => exact booked_born hc'
  | some c => exact booked_apply (h c rfl) (hset c rfl) hc'

end ChunkEvent

/-! ## §2. Runs. -/

/-- **The counters of a chunk match its copies** after every event of a run in which success
answers concern entries in use and corrections confirm them. -/
theorem chunk_counters_exact (es : List ChunkEvent)
    (hset : Lib.StepsMeet ChunkEvent.step ChunkEvent.StepSettled none es) :
    ∀ c, Lib.run ChunkEvent.step none es = some c → Exact c := by
  have hrun : ∀ (es : List ChunkEvent) (st : Option Chunk), (∀ c ∈ st, Booked c) →
      Lib.StepsMeet ChunkEvent.step ChunkEvent.StepSettled st es →
      ∀ c ∈ Lib.run ChunkEvent.step st es, Booked c :=
    Lib.run_invariant fun _ _ => ChunkEvent.booked_step
  intro c hc
  have hnone : ∀ c ∈ (none : Option Chunk), Booked c := fun c h => absurd h (Option.not_mem_none c)
  exact (hrun es none hnone hset c hc).counters

/-- Two servers. -/
def twoServers : Servers :=
  { now := 10, valid := fun csid => csid == 1 || csid == 2, disc := false, csstable := true
    receiving := false, csalldata := true, replock := fun _ => false, nospace := false
    canBeFixed := fun _ => false, strictUnmatched := false, csids := [1, 2], overloaded := false
    anyServer := true, availspace := true, urgent := false, connected := fun _ => true
    job := .idle }

/-- A chunk is made on two servers, which answer; a third one has a copy too. -/
def threeCopies : List ChunkEvent :=
  [.create 10 .sclassNew 2 [1, 2], .answer twoServers 1 0 .ok, .answer twoServers 2 0 .ok,
    .report (.has 3 0 1 false)]

theorem chunk_counters_three_copies :
    (Lib.run ChunkEvent.step none threeCopies).map Chunk.counters = some (.copies, 3, 3)
      ∧ ∀ c, Lib.run ChunkEvent.step none threeCopies = some c → Exact c :=
  have first : ∀ c ∈ Lib.run ChunkEvent.step none (threeCopies.take 1),
      AnswersUsable c 1 0 .ok := by decide
  have second : ∀ c ∈ Lib.run ChunkEvent.step none (threeCopies.take 2),
      AnswersUsable c 2 0 .ok := by decide
  ⟨by decide, chunk_counters_exact threeCopies
    ⟨fun c h => absurd h (Option.not_mem_none c), first, second, fun _ _ => trivial, trivial⟩⟩

/-- One of the two copies is reported damaged before the server answers that it was made. -/
def damagedBeforeAnswer : List ChunkEvent :=
  [.create 10 .sclassNew 2 [1, 2], .answer twoServers 1 0 .ok, .report (.damaged 2 0),
    .answer twoServers 2 0 .ok]

/-- A server that had a copy says that it has nothing of the chunk. -/
def correctedCopy : List ChunkEvent :=
  [.appear 1 0 false false, .report (.has 1 0 1 false), .statusData 1 [] true]

/-- **Stale counters**: after the late answer two copies are valid and one is counted; after the
correction no copy is left and one is counted. -/
theorem chunk_counters_stale :
    (∃ c, Lib.run ChunkEvent.step none damagedBeforeAnswer = some c ∧ ¬ Exact c)
      ∧ ∃ c, Lib.run ChunkEvent.step none correctedCopy = some c ∧ ¬ Exact c :=
  have stale {o : Option Chunk} (h : ¬ ∀ c ∈ o, Exact c) : ∃ c, o = some c ∧ ¬ Exact c := by
    simpa using h
  ⟨stale (by decide), stale (by decide)⟩

end MfsMaster
