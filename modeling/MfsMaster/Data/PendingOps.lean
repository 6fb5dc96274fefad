/-
  MfsMaster.Data.PendingOps
  **NO CHUNK IS LEFT IN AN OPERATION THAT NOBODY WORKS ON**, over whole runs.

      ChunkEvent.Attended     — what one event must not do: take the last busy entry away
                                from an operation, end an interrupted operation on parts
                                without a full copy, repair with parts that need nothing
      awaited_step            — one event keeps `Awaited`
      chunk_operation_awaited — so does a run
-/
import MfsMaster.Chunk.Pending
import MfsMaster.Data.Counters

namespace MfsMaster

/-! ## §1. One event. -/

variable {c : Chunk} {e : ChunkEvent}

namespace ChunkEvent

/-- The report takes no entry away that an operation still needs. -/
def ReportAttended (c : Chunk) : Report → Prop
  | .has .. | .deleted _ _ false => True
  | .damaged csid ecid | .lost csid ecid | .deleted csid ecid true => OthersPending c csid ecid

/-- The event leaves an operation of the chunk with somebody to wait for. -/
def Attended : Option Chunk → ChunkEvent → Prop
  | none, .create _ tab sclassid csids =>
    csids.take (tab.sclassGetCreateStoragemode sclassid).labelscnt.toNat ≠ []
  | some c, .answer _ csid ecid status => AnswerSafe c csid ecid status
  | some c, .report r => ReportAttended c r
  | some c, .repair srv _ _ _ _ => RepairSafe srv c.slist
  | _, _ => True

theorem awaited_report (h : Awaited c) {r : Report} (hr : ReportAttended c r) :
    Awaited (r.apply c) := by
  cases r with
  | has csid ecid version marked => exact h.chunkServerHasChunk
  | damaged csid ecid => exact hr.chunkDamaged
  | lost csid ecid => exact hr.chunkLost
  | deleted csid ecid ok =>
    cases ok with
    | true => exact hr.chunkGotDeleteStatus
    | false => exact h.chunkGotDeleteStatus

theorem awaited_finish (h : Awaited c) {ch : System.ChunkChange} {ts : UInt32} :
    Awaited (ch.finish ts c) :=
  h.of_same rfl rfl

theorem awaited_born (hatt : Attended none e) (h : e.born = some c) : Awaited c := by
  cases e with
  | appear version lockedto archFlag trashFlag =>
    cases h
    exact awaited_of_none rfl
  | create ts tab sclassid csids =>
    cases h
    exact awaited_finish (awaited_newOn fun _ => hatt)
  | duplicate truncate ts tab sclassid oc =>
    cases h
    exact awaited_finish awaited_duplicateOf
  | _ => cases h

theorem Awaited.changeChunk (h : Awaited c) {a : Around} {truncate : Bool}
    {sclassid : Nat} : Awaited (changeChunk a (changeOf truncate) sclassid c) := by
  obtain ⟨hprepared, hcopy⟩ := h.chunkPrepareToModify
  unfold ChunkEvent.changeChunk
  split
  · exact h
  dsimp only
  split
  · exact hprepared
  next hok =>
  have hcopy := hcopy (not_not.mp hok)
  split
  · cases truncate with
    | true => exact awaited_finish (awaited_truncateInPlace hcopy)
    | false => exact awaited_finish (hprepared.modifyInPlace hcopy)
  · exact hprepared.of_same copies_chunkDeleteFileInt.operation
      copies_chunkDeleteFileInt.slist

/-- **Every event leaves an operation with somebody to wait for.** -/
theorem awaited_apply {c' : Chunk} (h : Awaited c)
    (hatt : Attended (some c) e) (hc' : e.apply c = some c') : Awaited c' := by
  rcases quiet_or_acts hc' with hacts | hquiet
  swap
  · exact h.of_same hquiet.operation hquiet.slist
  cases e with
  | dropLost a =>
    obtain ⟨r, hr, rfl⟩ := Option.map_eq_some_iff.mp hc'
    exact h.chunkRemoveDisconnectedChunks hr
  | answer srv csid ecid status =>
    cases hc'
    split
    · exact awaited_chunkOperationStatus hatt
    · exact h
  | replicated a ondangerlist csid ecid version status =>
    cases hc'
    split
    · exact h.chunkGotReplicateStatus
    · exact h
  | split a ondangerlist operation csid version status =>
    cases hc'
    exact h.chunkGotLocalsplitStatus
  | report r =>
    cases hc'
    split
    · exact awaited_report h hatt
    · exact h
  | statusData csid parts fixmode =>
    cases hc'
    -- status data are looked at between operations only
    unfold chunkGotStatusData
    split
    · exact h
    next hnone =>
    have hnone : c.operation = .none := not_not.mp hnone
    dsimp only
    split
    · exact awaited_of_none hnone
    · exact h
  | change a truncate sclassid =>
    cases hc'
    exact Awaited.changeChunk h
  | repair srv tab chunkid sclassid erase =>
    cases hc'
    exact h.chunkRepair hatt
  | jobs a =>
    cases hc'
    exact awaited_chunkDoFastJob
  | unlock a =>
    have hopen : Awaited (Master.unlockChunk a.srv.now c) := h.of_same rfl rfl
    cases hc'
    split
    · exact awaited_chunkDoFastJob
    · exact hopen
  | recount =>
    cases hc'
    exact h.of_same rfl rfl
  | _ => cases hacts

theorem awaited_step {st : Option Chunk} (h : ∀ c ∈ st, Awaited c)
    (hatt : Attended st e) : ∀ c ∈ step st e, Awaited c := by
  intro c' hc'
  cases st with
  | none => exact awaited_born hatt hc'
  | some c => exact awaited_apply (h c rfl) hatt hc'

end ChunkEvent

/-! ## §2. Runs. -/

/-- **A chunk is never left in an operation**, in any state of a run in which no event takes
away what the operation waits for. -/
theorem chunk_operation_awaited (es : List ChunkEvent)
    (hatt : Lib.StepsMeet ChunkEvent.step ChunkEvent.Attended none es) (n : Nat) :
    ∀ c, Lib.run ChunkEvent.step none (es.take n) = some c →
      (∀ s ∈ c.slist, s.valid.pending = false) → c.operation = .none := by
  have hrun : ∀ (es : List ChunkEvent) (st : Option Chunk), (∀ c ∈ st, Awaited c) →
      Lib.StepsMeet ChunkEvent.step ChunkEvent.Attended st es →
      ∀ c ∈ Lib.run ChunkEvent.step st es, Awaited c :=
    Lib.run_invariant fun _ _ => ChunkEvent.awaited_step
  have hnone : ∀ c ∈ (none : Option Chunk), Awaited c := fun c h => absurd h (Option.not_mem_none c)
  intro c hc hidle
  by_contra hop
  obtain ⟨s, hs, hp⟩ := hrun (es.take n) none hnone (hatt.take n) c hc hop
  rw [hidle s hs] at hp
  cases hp

theorem chunk_operation_awaited_three_copies :
    (Lib.run ChunkEvent.step none threeCopies).map Chunk.operation = some .none
      ∧ ∀ c, Lib.run ChunkEvent.step none (threeCopies.take 4) = some c →
        (∀ s ∈ c.slist, s.valid.pending = false) → c.operation = .none :=
  have servers : [1, 2].take (SClassTab.sclassNew.sclassGetCreateStoragemode 2).labelscnt.toNat
      ≠ [] := by decide
  ⟨by decide, chunk_operation_awaited threeCopies
    ⟨servers, .inl rfl, .inl rfl, trivial, trivial⟩ 4⟩

/-- Any server is connected. -/
def allServers : Servers := { twoServers with valid := fun _ => true }

/-- Four parts of the 4-part code, all valid and all on one server, so that the loss of that
server is not survived; the file is repaired. -/
def repairOfValidParts : List ChunkEvent :=
  [.appear 5 0 false false, .report (.has 1 0x10 5 false), .report (.has 1 0x11 5 false),
    .report (.has 1 0x12 5 false), .report (.has 1 0x13 5 false),
    .repair allServers .sclassNew 1 2 false]

/-- Five parts of another version on five servers; the file is repaired, one server fails and
the others succeed. -/
def interruptedRepair : List ChunkEvent :=
  [.appear 5 0 false false, .report (.has 1 0x10 6 false), .report (.has 2 0x11 6 false),
    .report (.has 3 0x12 6 false), .report (.has 4 0x13 6 false), .report (.has 5 0x14 6 false),
    .repair allServers .sclassNew 1 2 false, .answer allServers 1 0x10 .wrongversion,
    .answer allServers 2 0x11 .ok, .answer allServers 3 0x12 .ok, .answer allServers 4 0x13 .ok,
    .answer allServers 5 0x14 .ok]

/-- **Operations left behind**: the repair sets a version that nobody was asked to take over;
after the interrupted one the emergency increase of the version finds no copy to send it to. -/
theorem chunk_operation_stranded :
    (∃ c, Lib.run ChunkEvent.step none repairOfValidParts = some c
        ∧ (∀ s ∈ c.slist, s.valid.pending = false) ∧ c.operation = .setVersion)
      ∧ ∃ c, Lib.run ChunkEvent.step none interruptedRepair = some c
        ∧ (∀ s ∈ c.slist, s.valid.pending = false) ∧ c.operation = .setVersion :=
  have stranded {o : Option Chunk}
      (h : (o.map fun c => (c.slist.all fun s => !s.valid.pending, c.operation))
        = some (true, .setVersion)) :
      ∃ c, o = some c ∧ (∀ s ∈ c.slist, s.valid.pending = false) ∧ c.operation = .setVersion := by
    simpa using h
  ⟨stranded (by decide), stranded (by decide)⟩

end MfsMaster
