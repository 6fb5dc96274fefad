/-
  MfsMaster.Data.References
  **CHUNK REFERENCES OVER WHOLE RUNS OF THE LEADER.**

  Clients change names, attributes, lengths and data, chunk servers answer and report,
  clients go away, the trash is emptied: in any order.  `RefsExact` says that the counters
  of every chunk are the entries that name it.  It holds in every state of a run whose
  rollbacks find what their requests left:

      StepSafe      — the condition on one step
      Sound.step    — a safe step keeps the books
      refs_exact_of_safe_run — every state of a safe run has exact references
-/
import Mathlib.Data.Set.Card
import Mathlib.Algebra.BigOperators.Ring.Finset
import MfsMaster.Lib.Replay
import MfsMaster.Data.RefsSnapshot
import MfsMaster.Data.RefsWrite

namespace MfsMaster

/-! ## §1. Exact references. -/

/-- Entry `p.2` of the file `p.1` of class `k` names the chunk. -/
def Master.Names (s : Master) (chunkid k : Nat) (p : Nat × Nat) : Prop :=
  ∃ n, s.nodes p.1 = some n ∧ n.type.hasData = true ∧ n.sclassid = k ∧ chunkid ≠ 0
    ∧ n.chunktab[p.2]? = some chunkid

/-- **The file list of every chunk is the multiset of the classes of the entries that name it**,
and every entry names a chunk that counts it. -/
structure Master.RefsExact (s : Master) : Prop where
  finite : ∀ chunkid k, {p | s.Names chunkid k p}.Finite
  counts : ∀ chunkid c k, s.chunks chunkid = some c → c.refs k = {p | s.Names chunkid k p}.ncard
  named : ∀ chunkid k p, s.Names chunkid k p → ∃ c, s.chunks chunkid = some c ∧ 0 < c.refs k

namespace Master

theorem names_iff (s : Master) (chunkid k : Nat) (p : Nat × Nat) :
    s.Names chunkid k p ↔ chunkid ≠ 0 ∧ ∃ tab, s.dataAt p.1 = some (some (k, tab))
      ∧ tab[p.2]? = some chunkid := by
  constructor
  · rintro ⟨n, hn, hd, hk, h0, hc⟩
    exact ⟨h0, n.chunktab, hk ▸ dataAt_of_hasData hn hd, hc⟩
  rintro ⟨h0, tab, hdata, hc⟩
  obtain ⟨n, hn, hndata⟩ := Option.map_eq_some_iff.mp hdata
  unfold FsNode.data at hndata
  split at hndata
  next hd =>
    cases hndata
    exact ⟨n, hn, hd, rfl, h0, hc⟩
  · cases hndata

theorem card_indices {l : List Nat} {c : Nat} :
    ((Finset.range l.length).filter fun j => l[j]? = some c).card = l.count c := by
  rw [Finset.card_filter]
  induction l with
  | nil => rfl
  | cons x l ih =>
    rw [List.length_cons, Finset.sum_range_succ', List.count_cons, ← ih]
    simp only [List.getElem?_cons_succ, List.getElem?_cons_zero, Option.some.injEq, beq_iff_eq]

/-- The entries of the node `i` that name the chunk. -/
def entries (s : Master) (chunkid k i : Nat) : Finset Nat :=
  match s.dataAt i with
  | some (some (k', tab)) =>
    if chunkid ≠ 0 ∧ k = k' then (Finset.range tab.length).filter fun j => tab[j]? = some chunkid
    else ∅
  | _ => ∅

theorem mem_entries {s : Master} {chunkid k i j : Nat} :
    j ∈ s.entries chunkid k i ↔ s.Names chunkid k (i, j) := by
  rw [names_iff]
  unfold entries
  split
  next k' tab hdata =>
    have hlt : tab[j]? = some chunkid → j < tab.length := fun h =>
      (List.getElem?_eq_some_iff.mp h).1
    rw [hdata]
    split
    next hk =>
      obtain ⟨h0, hk⟩ := hk
      subst hk
      simp only [Finset.mem_filter, Finset.mem_range]
      constructor
      · exact fun h => ⟨h0, tab, rfl, h.2⟩
      rintro ⟨_, tab', heq, hc⟩
      cases heq
      exact ⟨hlt hc, hc⟩
    next hk =>
      constructor
      · exact fun h => absurd h (Finset.notMem_empty j)
      rintro ⟨h0, tab', heq, _⟩
      cases heq
      exact absurd ⟨h0, rfl⟩ hk
  next hno =>
    constructor
    · exact fun h => absurd h (Finset.notMem_empty j)
    rintro ⟨_, tab, hdata, _⟩
    exact absurd hdata (hno k tab)

theorem card_entries (s : Master) (chunkid k i : Nat) :
    (s.entries chunkid k i).card = s.uses i (chunkid, k) := by
  unfold entries uses dataUses
  split
  next k' tab hdata =>
    rw [hdata]
    show _ = tabUses k' tab (chunkid, k)
    unfold tabUses
    split
    · exact card_indices
    · rfl
  next hno =>
    split
    next k' tab hdata => exact absurd hdata (hno k' tab)
    · rfl

/-- All entries that name a chunk, gathered from the nodes of a finite set. -/
theorem coe_gathered {s : Master} {S : Finset Nat} {chunkid k : Nat}
    (hS : ∀ i a, s.uses i a ≠ 0 → i ∈ S) :
    ↑((S.sigma (s.entries chunkid k)).map (Equiv.sigmaEquivProd Nat Nat).toEmbedding)
      = {p | s.Names chunkid k p} := by
  ext p
  obtain ⟨i, j⟩ := p
  rw [Finset.mem_coe, Finset.mem_map_equiv, Finset.mem_sigma]
  show i ∈ S ∧ j ∈ s.entries chunkid k i ↔ s.Names chunkid k (i, j)
  rw [mem_entries]
  refine ⟨fun h => h.2, fun h => ⟨hS i (chunkid, k) ?_, h⟩⟩
  rw [← card_entries]
  exact Finset.card_ne_zero_of_mem (mem_entries.mpr h)

/-- **Balanced books are exact references.** -/
theorem Sound.refsExact {s : Master} (h : s.Sound) : s.RefsExact := by
  have hS : ∀ i a, s.uses i a ≠ 0 → i ∈ h.balanced.finite.toFinset := fun i a hne =>
    (Set.Finite.mem_toFinset h.balanced.finite).mpr ⟨a, hne⟩
  refine ⟨fun chunkid k => ?_, fun chunkid c k hc => ?_, fun chunkid k p hp => ?_⟩
  · rw [← coe_gathered hS]
    exact Finset.finite_toSet _
  · rw [← coe_gathered hS, Set.ncard_coe_finset, Finset.card_map, Finset.card_sigma,
      ← refsOf_some hc, h.balanced.sum_finset _ hS]
    exact Finset.sum_congr rfl fun i _ => (card_entries s chunkid k i).symm
  obtain ⟨h0, tab, hdata, hp⟩ := (names_iff s chunkid k p).mp hp
  have hpos := h.entry hdata (List.mem_of_getElem? hp) h0
  obtain ⟨c, hc⟩ := Option.isSome_iff_exists.mp (isSome_of_refsOf hpos)
  exact ⟨c, hc, by rwa [refsOf_some hc] at hpos⟩

theorem sound_fsNew (ts : UInt32) (sclasses : SClassTab) (patterns : List Pattern)
    (keep : Bool) (links : Nat) : (fsNew ts sclasses patterns keep links).Sound where
  balanced := by
    have huses : (fsNew ts sclasses patterns keep links).uses = fun _ _ => 0 := by
      funext i a
      unfold uses dataAt fsNew
      dsimp only
      split <;> rfl
    rw [huses]
    exact Lib.Balanced.empty
  chunks := ⟨Nat.one_pos, fun _ _ => rfl, fun _ _ h => by cases h⟩
  pool := by
    refine ⟨Nat.zero_le _, fun i hi => ?_⟩
    revert hi
    show (if i = rootId then some (rootNode ts) else none).isSome = true → _
    split
    next hroot =>
      rw [hroot]
      exact fun _ => ⟨rfl, Nat.lt_of_sub_pos (Nat.succ_pos _)⟩
    · nofun

end Master

/-! ## §2. Steps of the leader. -/

/-- What happens to the leader: requests of clients, answers and reports of chunk servers, and its
own loops.  `srv` is what the chunk functions learn about the servers during the step. -/
inductive DataStep where
  | names (ts : UInt32) (cl : Client) (op : NsOp)
  | attributes (ts : UInt32) (cl : Client) (op : Master.AttrOp)
  | recover (ts : UInt32) (rootinode : Nat) (f : SesFlags) (c : Cred) (op : Master.RecoverOp)
      (rnd : Nat → UInt32) (fuel : Nat)
  | undel (ts : UInt32) (rootinode : Nat) (f : SesFlags) (inode : Nat)
  | purge (ts : UInt32) (rootinode : Nat) (f : SesFlags) (inode : Nat)
  | trashRemove (ts : UInt32) (f : SesFlags) (inode uid : Nat)
  | emptyTrash (ts : UInt32) (buckets bid : Nat)
  | emptySustained (ts : UInt32) (buckets bid : Nat)
  | snapshot (a : SnapArgs) (q : Master.SnapRequest)
  | append (ts : UInt32) (ses : Session) (c : Cred) (flags : UInt8)
      (inode inodeSrc sliceFrom sliceTo : Nat)
  | repair (srv : Servers) (ses : Session) (c : Cred) (inode : Nat) (erase : Bool)
  | write (srv : Servers) (client : Nat) (ses : Session) (type : SwType) (inode indx : Nat)
      (continueop canmodtime canusereserve : Bool)
  | truncate (srv : Servers) (client : Nat) (q : System.LengthRequest)
  | writeEnd (srv : Servers) (inode : Nat) (length : UInt64) (chunkid : Nat) (canmodtime : Bool)
  | disconnect (srv : Servers) (client : Nat)
  | dropLost (srv : Servers) (chunkid : Nat)
  | answer (srv : Servers) (chunkid csid ecid : Nat) (status : Status)
  | report (srv : Servers) (chunkid : Nat) (r : Report)
  | forget (srv : Servers) (chunkid : Nat)
  | jobs (srv : Servers) (chunkid : Nat)
  | openFiles (open' : OpenFiles)

namespace System

/-- The requests `matoclserv_beforedisconnect` takes back, in its order. -/
def waitingOf (sys : System) (client : Nat) : List SwChunk :=
  (sys.swchunks.filter fun w => w.client == client).insertionSort
    fun v w => v.chunkid % 256 ≤ w.chunkid % 256

/-- One step of the leader. -/
def step (sys : System) : DataStep → System
  | .names ts cl op => { sys with fs := (sys.fs.nsLeader ts cl op).state }
  | .attributes ts cl op => { sys with fs := (sys.fs.attrLeader ts cl op).state }
  | .recover ts root f c op rnd fuel =>
    match sys.fs.fsUnivTrashRecover ts root f c op rnd fuel with
    | some r => { sys with fs := r.state }
    | none => sys
  | .undel ts root f inode => { sys with fs := (sys.fs.fsUnivUndel ts root f inode).2 }
  | .purge ts root f inode => { sys with fs := (sys.fs.fsUnivPurge ts root f inode).2 }
  | .trashRemove ts f inode uid => { sys with fs := (sys.fs.fsUnivTrashRemove ts f inode uid).2 }
  | .emptyTrash ts buckets bid => { sys with fs := sys.fs.fsUnivEmptyTrashPart ts buckets bid }
  | .emptySustained ts buckets bid =>
    { sys with fs := sys.fs.fsUnivEmptySustainedPart ts buckets bid }
  | .snapshot a q => { sys with fs := (sys.fs.fsUnivSnapshot a q).2.2 }
  | .append ts ses c flags inode inodeSrc sliceFrom sliceTo =>
    (sys.fsAppendSlice ts ses c flags inode inodeSrc sliceFrom sliceTo).2
  | .repair srv ses c inode erase => (sys.fsRepair srv ses c inode erase).2
  | .write srv client ses type inode indx continueop canmodtime canusereserve =>
    (sys.fuseWriteChunk srv client ses type inode indx continueop canmodtime canusereserve).2
  | .truncate srv client q => (sys.fuseTruncate srv client q).2
  | .writeEnd srv inode length chunkid canmodtime =>
    (sys.fsWriteend srv inode length chunkid canmodtime).2
  | .disconnect srv client => sys.matoclservBeforedisconnect srv client
  | .dropLost srv chunkid => sys.dropDisconnected srv chunkid
  | .answer srv chunkid csid ecid status => sys.answerStatus srv chunkid csid ecid status
  | .report srv chunkid r => sys.chunkReport srv chunkid r
  | .forget srv chunkid => sys.forgetChunk srv chunkid
  | .jobs srv chunkid => sys.chunkJobs srv chunkid
  | .openFiles open' => { sys with fs := { sys.fs with openFiles := open' } }

/-- **The condition on a step.**  Every rollback it makes finds what its request left
(`rollbackSafe`); a write or a truncation is not interrupted by the end of another request on its
chunk; a repair does not meet a part of version 0. -/
def StepSafe (sys : System) : DataStep → Prop
  | .repair _ ses c inode _ => repairSafe sys.fs ses c inode = true
  | .write srv _ _ _ inode indx _ _ _ => sys.entryIdle srv inode indx = true
  | .truncate srv _ q => sys.truncateIdle srv q = true
  | .disconnect srv client =>
    Lib.StepsMeet (rollbackWaiting srv)
      (fun sys w => sys.fs.rollbackSafe w.inode w.indx w.prevchunkid w.chunkid = true) sys
      (sys.waitingOf client)
  | .dropLost srv chunkid => sys.dropMeets srv chunkid (answerSafe sys.fs srv) = true
  | .answer srv chunkid csid ecid status =>
    sys.statusMeets srv chunkid csid ecid status (answerSafe sys.fs srv) = true
  | _ => True

instance StepSafe.decidable (sys : System) : (e : DataStep) → Decidable (sys.StepSafe e)
  | .repair .. | .write .. | .truncate .. | .dropLost .. | .answer .. =>
    inferInstanceAs (Decidable (_ = true))
  | .disconnect .. => inferInstanceAs (Decidable (Lib.StepsMeet _ _ _ _))
  | .names .. | .attributes .. | .recover .. | .undel .. | .purge .. | .trashRemove ..
  | .emptyTrash .. | .emptySustained .. | .snapshot .. | .append .. | .writeEnd ..
  | .report .. | .forget .. | .jobs .. | .openFiles .. => isTrue trivial

/-- **A safe step keeps the books.** -/
theorem sound_step {sys : System} (h : sys.fs.Sound) {e : DataStep} (hsafe : sys.StepSafe e) :
    (sys.step e).fs.Sound := by
  cases e with
  | names ts cl op => exact h.nsLeader
  | attributes ts cl op => exact h.attrLeader
  | recover ts root f c op rnd fuel =>
    unfold step
    dsimp only
    split
    next r hr => exact h.fsUnivTrashRecover hr
    · exact h
  | undel ts root f inode => exact h.fsUnivUndel
  | purge ts root f inode => exact h.fsUnivPurge
  | trashRemove ts f inode uid => exact h.fsUnivTrashRemove
  | emptyTrash ts buckets bid => exact h.fsUnivEmptyTrashPart
  | emptySustained ts buckets bid => exact h.fsUnivEmptySustainedPart
  | snapshot a q => exact h.fsUnivSnapshot a q
  | append ts ses c flags inode inodeSrc sliceFrom sliceTo =>
    exact sound_fsAppendSlice h
  | repair srv ses c inode erase => exact sound_fsRepair h hsafe
  | write srv client ses type inode indx continueop canmodtime canusereserve =>
    exact sound_fuseWriteChunk h hsafe
  | truncate srv client q => exact sound_fuseTruncate h hsafe
  | writeEnd srv inode length chunkid canmodtime =>
    exact sound_fsWriteend h
  | disconnect srv client =>
    have hrun : ∀ (ws : List SwChunk) (sys : System), sys.fs.Sound →
        Lib.StepsMeet (rollbackWaiting srv) (fun sys w =>
          sys.fs.rollbackSafe w.inode w.indx w.prevchunkid w.chunkid = true) sys ws →
        (Lib.run (rollbackWaiting srv) sys ws).fs.Sound :=
      Lib.run_invariant fun _ _ hs hw => sound_rollbackWaiting hs hw
    exact hrun _ sys h hsafe
  | dropLost srv chunkid => exact sound_dropDisconnected h hsafe
  | answer srv chunkid csid ecid status => exact sound_answerStatus h hsafe
  | report srv chunkid r => exact sound_chunkReport h
  | forget srv chunkid => exact sound_forgetChunk h
  | jobs srv chunkid => exact h.sameData sameData_chunkJobs
  | openFiles open' => exact h.sameData (.of_eq rfl rfl rfl rfl)

/-! ## §3. Runs. -/

/-- The leader of a new file system. -/
def start (ts : UInt32) (sclasses : SClassTab) (patterns : List Pattern)
    (keepEmptyFilesInTrash : Bool) (maxAllowedHardLinks : Nat) : System :=
  { fs := .fsNew ts sclasses patterns keepEmptyFilesInTrash maxAllowedHardLinks
    swchunks := [], vleng := fun _ => 0, log := [] }

/-- **Chunk references are exact** in every state of a run whose steps are safe. -/
theorem refs_exact_of_safe_run (ts : UInt32) (sclasses : SClassTab) (patterns : List Pattern)
    (keepEmptyFilesInTrash : Bool) (maxAllowedHardLinks : Nat) (es : List DataStep)
    (hsafe : Lib.StepsMeet step StepSafe
      (start ts sclasses patterns keepEmptyFilesInTrash maxAllowedHardLinks) es) :
    (Lib.run step (start ts sclasses patterns keepEmptyFilesInTrash maxAllowedHardLinks)
      es).fs.RefsExact := by
  have hrun : ∀ (es : List DataStep) (sys : System), sys.fs.Sound →
      Lib.StepsMeet step StepSafe sys es → (Lib.run step sys es).fs.Sound :=
    Lib.run_invariant fun _ _ hs he => sound_step hs he
  have hnew := Master.sound_fsNew ts sclasses patterns keepEmptyFilesInTrash maxAllowedHardLinks
  exact (hrun es _ hnew hsafe).refsExact

/-- One chunk server, number 1, that has room. -/
def oneServer : Servers :=
  { now := 10, valid := fun csid => csid == 1, disc := false, csstable := true, receiving := false
    csalldata := true, replock := fun _ => false, nospace := false, canBeFixed := fun _ => false
    strictUnmatched := false, csids := [1], overloaded := false, anyServer := true
    availspace := true, urgent := false, connected := fun _ => true, job := .idle }

/-- A session of root. -/
def rootClient : Client :=
  { rootinode := rootId, readonly := false, ignoregid := false, admin := false, cred := ⟨0, [0]⟩ }

def rootSession : Session := { rootinode := rootId, flags := rootClient.flags }

/-- A new file of the root directory. -/
def makeNode (name : Name) : DataStep := .names 10 rootClient (.mknod rootId name .file 0o644 0 0)

/-- Client 7 changes the length of a file, and writes its first chunk. -/
def setLength (inode : Nat) (length : UInt64) : DataStep :=
  .truncate oneServer 7 ⟨rootSession, ⟨0, [0]⟩, inode, 0, length, false, false⟩

def writeFirst (inode : Nat) : DataStep :=
  .write oneServer 7 rootSession .write inode 0 false true true

/-- The server did not make the copy of a chunk. -/
def refuseChunk (chunkid : Nat) : DataStep := .answer oneServer chunkid 1 0 .notdone

def newSystem : System := start 0 .sclassNew [] false 32767

/-- A first write that fails is rolled back to an empty table. -/
def failedWrite : List DataStep := [makeNode [0x61], writeFirst 2, refuseChunk 1]

theorem refs_exact_failed_write :
    Lib.StepsMeet step StepSafe newSystem failedWrite
      ∧ (Lib.run step newSystem failedWrite).fs.RefsExact :=
  ⟨by decide, refs_exact_of_safe_run 0 .sclassNew [] false 32767 failedWrite (by decide)⟩

/-- The chunk of a write under way gets a second file by appending; the first file is cut and
written again; then the write fails. -/
def lateFailure : List DataStep :=
  [makeNode [0x61], makeNode [0x62], setLength 2 1, writeFirst 2,
    .append 10 rootSession ⟨0, [0]⟩ 0 3 2 0 1, setLength 2 0, writeFirst 2, refuseChunk 1]

/-- The rollback takes the reference of the second file. -/
theorem refs_exact_late_failure : ¬ (Lib.run step newSystem lateFailure).fs.RefsExact := by
  intro h
  have hfile : ((Lib.run step newSystem lateFailure).fs.nodes 3).map
      (fun n => (n.type.hasData, n.sclassid, n.chunktab)) = some (true, 1, [1]) := by decide
  have hchunk : ((Lib.run step newSystem lateFailure).fs.chunks 1).map (fun c => c.refs 1)
      = some 0 := by decide
  obtain ⟨n, hn, hdata⟩ := Option.map_eq_some_iff.mp hfile
  obtain ⟨hd, hk, htab⟩ : n.type.hasData = true ∧ n.sclassid = 1 ∧ n.chunktab = [1] := by
    simpa using hdata
  obtain ⟨c, hc, hpos⟩ := h.named 1 1 (3, 0) ⟨n, hn, hd, hk, Nat.one_ne_zero, by rw [htab]; rfl⟩
  rw [hc, Option.map_some] at hchunk
  exact Nat.ne_of_gt hpos (Option.some.inj hchunk)

end System

end MfsMaster
