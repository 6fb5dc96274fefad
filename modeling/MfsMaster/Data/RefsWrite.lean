/-
  MfsMaster.Data.RefsWrite
  **REQUESTS FOR CHUNKS AND THE REFERENCES.**

  A write or a truncation exchanges one entry of a table: the counters gain the new chunk
  and lose the old one (`changeChunk_spec`).  Repair takes entries away, and appending adds
  those of another file.
-/
import MfsMaster.Data.RefsAnswer
import MfsMaster.Data.Write

namespace MfsMaster.System

open Master

open Master (Sound SameData Retable)

variable {u : Master} {client sclassid : Nat} {erase : Bool}

/-! ## §1. One chunk. -/

/-- What a change of the chunk `o` of a file `i` of class `k` does: on an error nothing, else the
counters gain the new chunk and lose the old one. -/
def Exchanges (s : Master) (i k o : Nat) (r : System × Changed) : Prop :=
  match r.2 with
  | .error _ => SameData s r.1.fs
  | .ok (n, _) => r.1.fs.dataAt i = s.dataAt i ∧ Retable s r.1.fs i (tabUses k [n]) (tabUses k [o])

variable {i k chunkid indx inode : Nat} {s : Master} {sys : System} {c : Chunk} {srv : Servers}
  {tab rest : List Nat} {n : FsNode} {ses : Session} {q : LengthRequest} {code : SEntry → Bool}
  {t : Master} {o : Nat} {ch : ChunkChange} {continueop canusereserve : Bool}

theorem Exchanges.of_sameData (hs : SameData s t)
    {r : System × Changed} (h : Exchanges t i k o r) : Exchanges s i k o r := by
  unfold Exchanges at h ⊢
  split at h
  · exact hs.trans h
  refine ⟨h.1.trans (hs.nodes i), ((hs.retable i).trans h.2).congr (fun a => ?_) fun a => ?_⟩
  · exact (Nat.zero_add _).symm
  · exact (Nat.zero_add _).symm

theorem createChunk_spec (h : sys.fs.Sound) : Exchanges sys.fs i k 0 (sys.createChunk srv k) := by
  unfold createChunk
  split
  · exact SameData.refl _
  refine ⟨rfl, (retable_addChunk h.chunks i ?_).congr (fun _ => rfl) fun a => ?_⟩
  · rfl
  · exact tabUses_zero k a

/-- The entries of lost servers go without an answer that changes a file. -/
theorem dropDisconnected_spec (hc : sys.fs.chunks chunkid = some c) (hne : c.fhead ≠ .few 0)
    (hidle : sys.dropMeets srv chunkid (answerIdle srv) = true) :
    SameData sys.fs (sys.dropDisconnected srv chunkid).fs := by
  unfold dropMeets at hidle
  unfold dropDisconnected
  rw [hc, Option.bind_some] at hidle
  rw [hc]
  dsimp only
  cases hr : chunkRemoveDisconnectedChunks srv c with
  | none => exact absurd (fhead_of_forgotten hr) hne
  | some r =>
    rw [hr] at hidle
    exact sameData_commit hc (Chunk.files_of_view (view_chunkRemoveDisconnectedChunks hr))
      (statuses_chunkRemoveDisconnectedChunks hr) hidle

/-- A copy of a shared chunk is made, and the file leaves the shared one. -/
theorem changeShared_spec (h : sys.fs.ChunksOk) (h0 : chunkid ≠ 0) {oc : Chunk}
    (hoc : sys.fs.chunks chunkid = some oc) (hpos : 0 < oc.refs k) :
    Exchanges sys.fs i k chunkid (sys.changeShared srv ch chunkid k oc) := by
  have hdel := retable_deleteOne (i := i) h hoc h0 rfl hpos
  have hadd := retable_addChunk (hdel.chunks h) i
    (c := ch.finish srv.now (duplicateOf sys.fs.sclasses k ch.dupOp oc)) (k := k) rfl
  refine ⟨rfl, (hdel.trans hadd).congr (fun a => ?_) fun a => ?_⟩
  · exact (Nat.zero_add _).symm
  · rfl

theorem changeChunk_spec (h : sys.fs.Sound) (hch : ∀ c, (ch.inPlace c).2.files = c.files)
    (hdata : sys.fs.dataAt i = some (some (k, tab))) (hmem : o ∈ tab) (h0 : o ≠ 0)
    (hidle : sys.dropMeets srv o (answerIdle srv) = true) :
    Exchanges sys.fs i k o (sys.changeChunk srv ch continueop o k) := by
  have hpos := h.entry hdata hmem h0
  obtain ⟨c, hc⟩ := Option.isSome_iff_exists.mp (isSome_of_refsOf hpos)
  rw [refsOf_some hc] at hpos
  have hdrop := dropDisconnected_spec hc
    (fun hempty => Nat.ne_of_gt hpos (Chunk.refs_of_empty hempty)) hidle
  refine Exchanges.of_sameData hdrop ?_
  unfold changeChunk
  dsimp only
  have hok := hdrop.chunksOk h.chunks
  have hfiles := hdrop.chunks o
  rw [hc] at hfiles
  generalize sys.dropDisconnected srv o = sys1 at hok hfiles ⊢
  obtain ⟨oc, hoc, hof⟩ := Option.map_eq_some_iff.mp hfiles
  rw [hoc]
  dsimp only
  split
  · exact SameData.refl _
  split
  · exact SameData.refl _
  -- the preparation gives no answer and keeps the files
  have hpf := files_chunkPrepareToModify srv sys1.fs.sclasses oc
  have hnone := statuses_chunkPrepareToModify srv sys1.fs.sclasses oc
  generalize chunkPrepareToModify srv sys1.fs.sclasses oc = p at hpf hnone ⊢
  have hput : SameData sys1.fs (sys1.fs.putChunk o p.2.1) := sameData_putChunk hoc hpf
  have hfs : (sys1.commit srv o p.2).fs = sys1.fs.putChunk o p.2.1 :=
    effects_of_no_status srv o hnone (sys1.modFs (·.putChunk o p.2.1))
  rw [← hfs] at hput
  have hchunk : (sys1.commit srv o p.2).fs.chunks o = some p.2.1 := by
    rw [hfs]
    exact if_pos rfl
  refine Exchanges.of_sameData hput ?_
  split
  · exact SameData.refl _
  split
  · have hown : SameData _ ((sys1.commit srv o p.2).fs.putChunk o
        (ch.finish srv.now (ch.inPlace p.2.1).2)) := sameData_putChunk hchunk (hch p.2.1)
    exact ⟨hown.nodes i, hown.retable_refl⟩
  refine changeShared_spec (hput.chunksOk hok) h0 hchunk ?_
  rw [Chunk.refs_of_files (hpf.trans hof)]
  exact hpos

/-- `chunk_multi_modify` of the entry `o`, which may be empty. -/
theorem chunkMultiModify_spec (h : sys.fs.Sound) (continueop : Bool)
    (hdata : sys.fs.dataAt i = some (some (k, tab))) (hmem : o ∈ tab)
    (hidle : sys.dropMeets srv o (answerIdle srv) = true) :
    Exchanges sys.fs i k o (sys.chunkMultiModify srv continueop o k) := by
  unfold chunkMultiModify
  split
  next h0 =>
    rw [h0]
    exact createChunk_spec h
  next h0 =>
    exact changeChunk_spec h (fun c => Chunk.files_of_view view_modifyInPlace) hdata
      hmem h0 hidle

theorem chunkMultiTruncate_spec (h : sys.fs.Sound) (hdata : sys.fs.dataAt i = some (some (k, tab)))
    (hmem : o ∈ tab) (h0 : o ≠ 0) (hidle : sys.dropMeets srv o (answerIdle srv) = true) :
    Exchanges sys.fs i k o (sys.chunkMultiTruncate srv o k) :=
  changeChunk_spec h (fun _ => Chunk.files_of_view view_truncateInPlace) hdata hmem h0
    hidle

/-! ## §2. Writes. -/

theorem dataAt_setEntry {n : Nat} (hdata : t.dataAt i = some (some (k, tab)))
    (hu : SameData (t.modNode i fun n' => n'.setChunktab (n'.chunktab.set indx n)) u) :
    u.dataAt i = some (some (k, tab.set indx n)) := by
  obtain ⟨nd, hnd, hndata⟩ := Option.map_eq_some_iff.mp hdata
  refine (hu.dataAt_modNode hnd).trans (congrArg some ?_)
  unfold FsNode.data at hndata ⊢
  split at hndata
  next hd =>
    cases hndata
    exact if_pos hd
  · cases hndata

theorem sound_setEntry (h : s.Sound) {n : Nat}
    (hdata : s.dataAt i = some (some (k, tab))) (hlt : indx < tab.length)
    (hkeep : t.dataAt i = s.dataAt i)
    (hr : Retable s t i (tabUses k [n]) (tabUses k [tab.getD indx 0]))
    (hu : SameData (t.modNode i fun n' => n'.setChunktab (n'.chunktab.set indx n)) u) :
    u.Sound := by
  have hd' := dataAt_setEntry (hkeep.trans hdata) hu
  refine h.change (hr.modNode_same hu) hdata k (tab.set indx n) hd' fun a => ?_
  have := tabUses_set k a hlt n
  omega

theorem writeCheck_ok (h : sys.writeCheck srv inode indx canusereserve = .ok n) :
    sys.fs.nodes inode = some n ∧ n.type.hasData = true := by
  simp only [writeCheck, except_bind_eq_ok, require_eq_ok, refuse_eq_ok, exists_const] at h
  obtain ⟨_, m, hm, hd, _, _, _, hn⟩ := h
  cases hn
  exact ⟨hm, by simpa using hd⟩

/-- The request does not disturb another one: the entries of lost servers of the chunk it is about
go without an answer that changes a file. -/
def entryIdle (sys : System) (srv : Servers) (i indx : Nat) : Bool :=
  match sys.fs.nodes i with
  | none => true
  | some n => sys.dropMeets srv (entryAt n indx) (answerIdle srv)

theorem sameData_writeTable {nchunkid : Nat} {nlength : UInt64} {psr : StatsRecord} :
    SameData (s.modNode inode fun n => n.setChunktab (n.chunktab.set indx nchunkid))
      (writeTable s inode indx nchunkid nlength psr) := by
  refine (((sameData_modNode
    (fun n => if n.length < nlength then n.setLength nlength else n) fun n _ => ?_).trans
    sameData_fixRatio).trans sameData_mapStats).trans
    (sameData_modNode .clearSnapshot fun _ _ => rfl)
  split <;> rfl

theorem sound_fsWritechunk (h : sys.fs.Sound)
    (hidle : sys.entryIdle srv inode indx = true) (continueop canmodtime canusereserve : Bool) :
    (sys.fsWritechunk srv inode indx continueop canmodtime canusereserve).2.fs.Sound := by
  unfold fsWritechunk
  cases hcheck : sys.writeCheck srv inode indx canusereserve with
  | error st => exact h
  | ok n =>
    obtain ⟨hn, hd⟩ := writeCheck_ok hcheck
    unfold entryIdle at hidle
    rw [hn] at hidle
    obtain ⟨hlt, hentry⟩ := growTab_entry
    -- the table is made long enough first
    obtain ⟨sys1, hsys1, hdata1, h1, hidle1⟩ : ∃ sys1 : System,
        sys.modFs (·.modNode inode (.setChunktab (growTab (indx + 1) n.chunktab))) = sys1
        ∧ sys1.fs.dataAt inode = some (some (n.sclassid, growTab (indx + 1) n.chunktab))
        ∧ sys1.fs.Sound ∧ sys1.dropMeets srv (entryAt n indx) (answerIdle srv) = true := by
      refine ⟨_, rfl, ((SameData.refl _).dataAt_modNode hn).trans (congrArg some (if_pos hd)), ?_,
        hidle⟩
      refine h.changeNode hn hd ((SameData.refl _).retable inode) hn (.refl _) (if_pos hd)
        fun a => congrArg (0 + ·) (tabUses_growTab ..).symm
    dsimp only [writeBody]
    rw [hsys1]
    have hmem : entryAt n indx ∈ growTab (indx + 1) n.chunktab := by
      unfold entryAt
      rw [← hentry]
      exact getD_mem hlt
    have hspec := chunkMultiModify_spec h1 continueop hdata1 hmem hidle1
    generalize sys1.chunkMultiModify srv continueop (entryAt n indx) n.sclassid = r at hspec ⊢
    unfold Exchanges at hspec
    split
    next hr =>
      rw [hr] at hspec
      exact h1.sameData hspec
    next nchunkid opflag hr =>
    rw [hr] at hspec
    refine Sound.sameData ?_ (touched_touchData _ inode srv.now canmodtime).sameData
    refine sound_setEntry h1 hdata1 hlt hspec.1 ?_
      sameData_writeTable
    rw [hentry]
    exact hspec.2

theorem sound_fuseWriteChunk (h : sys.fs.Sound) (hidle : sys.entryIdle srv inode indx = true)
    {type : SwType} {canmodtime : Bool} :
    (sys.fuseWriteChunk srv client ses type inode indx continueop canmodtime
      canusereserve).2.fs.Sound := by
  have hw := sound_fsWritechunk h hidle continueop canmodtime canusereserve
  unfold fuseWriteChunk
  split
  · exact h
  dsimp only
  split
  · exact hw
  split
  · exact hw
  split
  · exact sound_fsWriteend hw
  · exact hw

/-! ## §3. Truncations. -/

theorem nodeFindOpened_node {opened : Bool} {p : Nat × FsNode}
    (h : s.nodeFindOpened ses opened inode = some p) : s.nodes p.1 = some p.2 := by
  unfold nodeFindOpened at h
  split at h
  · split at h
    · obtain ⟨n, hn, hp⟩ := Option.map_eq_some_iff.mp h
      cases hp
      exact hn
    · cases h
  · exact findExt_node h

theorem lengthCheck_ok {length : Option UInt64} (h : sys.lengthCheck q = .ok (i, n, length)) :
    sys.fs.nodes i = some n ∧ n.type.hasData = true := by
  simp only [lengthCheck, except_bind_eq_ok, require_eq_ok, refuse_eq_ok, exists_const] at h
  obtain ⟨_, p, hp, _, _, _, hd, h⟩ := h
  have hnode := nodeFindOpened_node hp
  have hd : p.2.type.hasData = true := by simpa using hd
  split at h
  · cases h
    exact ⟨hnode, hd⟩
  simp only [except_bind_eq_ok, refuse_eq_ok, exists_const] at h
  obtain ⟨_, _, _, _, _, h⟩ := h
  cases h
  exact ⟨hnode, hd⟩

/-- A truncation does not disturb another request. -/
def truncateIdle (sys : System) (srv : Servers) (q : LengthRequest) : Bool :=
  match sys.lengthCheck q with
  | .ok (_, n, some length) =>
    sys.dropMeets srv (entryAt n (length >>> 26).toUInt32.toNat) (answerIdle srv)
  | _ => true

theorem entryAt_mem (h : 0 < entryAt n indx) : indx < n.chunktab.length := by
  unfold entryAt at h
  refine Nat.lt_of_not_le fun hle => ?_
  rw [List.getD_eq_getElem?_getD, List.getElem?_eq_none hle] at h
  exact Nat.lt_irrefl 0 h

theorem sound_fsTrySetlength (h : sys.fs.Sound)
    (hidle : sys.truncateIdle srv q = true) : (sys.fsTrySetlength srv q).2.fs.Sound := by
  unfold truncateIdle at hidle
  unfold fsTrySetlength
  split
  · exact h
  · exact h
  next i n length hcheck =>
  rw [hcheck] at hidle
  obtain ⟨hn, hd⟩ := lengthCheck_ok hcheck
  dsimp only at hidle ⊢
  generalize (length >>> 26).toUInt32.toNat = indx at hidle ⊢
  split
  next hcut =>
    have hdata := dataAt_of_hasData hn hd
    have hlt := entryAt_mem hcut.2.2
    have hspec := chunkMultiTruncate_spec h hdata (getD_mem hlt)
      (Nat.ne_of_gt hcut.2.2) hidle
    change Exchanges sys.fs i n.sclassid (entryAt n indx)
      (sys.chunkMultiTruncate srv (entryAt n indx) n.sclassid) at hspec
    generalize sys.chunkMultiTruncate srv (entryAt n indx) n.sclassid = r at hspec ⊢
    unfold Exchanges at hspec
    split
    next hr =>
      rw [hr] at hspec
      exact h.sameData hspec
    next nchunkid opflag hr =>
      rw [hr] at hspec
      exact sound_setEntry h hdata hlt hspec.1 hspec.2 (SameData.refl _)
  · exact h

theorem sound_fuseTruncate (h : sys.fs.Sound) (hidle : sys.truncateIdle srv q = true) :
    (sys.fuseTruncate srv client q).2.fs.Sound := by
  have ht := sound_fsTrySetlength h hidle
  unfold fuseTruncate
  dsimp only
  split
  · exact ht
  split
  · exact sound_fsDoSetlength ht srv q.session q.inode q.flags q.length
  · exact ht

/-! ## §4. Appending. -/

theorem sound_fsAppendSlice (h : sys.fs.Sound) {ts : UInt32}
    {c : Cred} {flags : UInt8} {inodeSrc sliceFrom sliceTo : Nat} :
    (sys.fsAppendSlice ts ses c flags inode inodeSrc sliceFrom sliceTo).2.fs.Sound := by
  unfold fsAppendSlice
  split
  · exact h
  next p sp hcheck =>
  simp only [appendCheck, except_bind_eq_ok, require_eq_ok, refuse_eq_ok, exists_const] at hcheck
  obtain ⟨_, _, sp', hsp, p', hp, hsd, _, hd, _, _, heq⟩ := hcheck
  cases heq
  have hwork := fun slice : Nat × Nat => h.fsnodesAppendSliceOfChunks ts (findExt_node hp)
    (findExt_node hsp) (by simpa using hd) (by simpa using hsd) slice.1 slice.2
  split
  · exact h
  split
  · exact h
  next slice _ =>
  dsimp only
  split
  · exact h
  split
  · exact h
  split
  · exact hwork slice
  · exact h

/-! ## §5. Repair. -/

/-- No part that a repair can build on has version 0, which stands for a chunk given up. -/
def partsOk (c : Chunk) : Bool :=
  c.slist.all fun s => s.isCopy || !(s.valid.usable || s.valid.stale) || 0 < s.version

theorem bestVersion_pos {l : List SEntry} (hne : l ≠ []) (hpos : ∀ s ∈ l, 0 < s.version) :
    0 < bestVersion l := by
  have hfold : ∀ (l : List SEntry) (v : Nat), v ≤ l.foldl (fun v s => max v s.version) v :=
    fun l v => List.foldlRecOn (motive := (v ≤ ·)) l _ (Nat.le_refl v) fun _ hw _ _ =>
      hw.trans (Nat.le_max_left _ _)
  cases l with
  | nil => exact absurd rfl hne
  | cons s l =>
    have h1 := hpos s List.mem_cons_self
    have h2 := hfold l (max 0 s.version)
    exact Nat.lt_of_lt_of_le (Nat.lt_of_lt_of_le h1 (Nat.le_max_right _ _)) h2

theorem isCopy_of_code {s : SEntry} (h : s.isEc8 = true ∨ s.isEc4 = true) : s.isCopy = false := by
  unfold SEntry.isEc8 SEntry.isEc4 at h
  unfold SEntry.isCopy
  simp only [Bool.and_eq_true, decide_eq_true_eq] at h
  simp only [beq_eq_false_iff_ne, ne_eq]
  omega

/-- Enough parts of a code, none of them with version 0. -/
theorem repairEc_pos (hok : partsOk c = true) (hcode : ∀ s, code s = true → s.isCopy = false)
    (hfull : 1 ≤ distinctParts (repairParts srv code c.slist)) : 0 < (repairEc srv code c).1 := by
  refine bestVersion_pos (fun hnil => ?_) fun s hs => ?_
  · rw [hnil] at hfull
    exact absurd hfull (by decide)
  unfold repairParts at hs
  simp only [List.mem_filter, Bool.and_eq_true] at hs
  have := List.all_eq_true.mp hok s hs.1
  rw [hcode s hs.2.1.2, hs.2.2] at this
  simpa using this

/-- `partsOk` of one entry: a copy, of no use, or of a version. -/
def PartOk (s : SEntry) : Prop :=
  s.isCopy = true ∨ (s.valid.usable || s.valid.stale) = false ∨ 0 < s.version

theorem partsOk_iff : partsOk c = true ↔ ∀ s ∈ c.slist, PartOk s := by
  unfold partsOk PartOk
  simp only [List.all_eq_true, Bool.or_eq_true, Bool.not_eq_true', decide_eq_true_eq, or_assoc]

theorem partsOk_map {c' : Chunk} (hok : partsOk c = true) {f : SEntry → SEntry}
    (hl : c'.slist = c.slist.map f) (hf : ∀ s, PartOk s → PartOk (f s)) : partsOk c' = true := by
  rw [partsOk_iff, hl, List.forall_mem_map]
  exact fun s hs => hf s (partsOk_iff.mp hok s hs)

theorem partsOk_repairEc (hok : partsOk c = true)
    (hpos : 0 < (repairEc srv code c).1) : partsOk (repairEc srv code c).2 = true := by
  refine partsOk_map hok (f := repairWithParts srv code (repairEc srv code c).1) rfl fun s hs => ?_
  unfold repairWithParts
  split
  · split
    · exact .inr (.inr hpos)
    · exact .inr (.inr hpos)
    · exact hs
  split
  · exact .inr (.inl rfl)
  · exact hs

theorem partOk_repairWithCopies {version : Nat} {s : SEntry} (h : PartOk s) :
    PartOk (repairWithCopies srv version s) := by
  unfold repairWithCopies
  split
  next hcopy =>
    split
    · split
      · exact .inl hcopy
      · exact .inl hcopy
      · exact h
    · exact h
  · split
    · exact .inr (.inl rfl)
    · exact h

/-- **A repair gives the chunk up, or keeps its files and answers with a version.** -/
theorem repairBody_cases {tab : SClassTab} (hok : partsOk c = true) :
    let r := repairBody srv tab sclassid erase c
    (0 < r.1 ∧ r.2.files = c.files ∧ partsOk r.2 = true)
      ∨ (r.1 = 0 ∧ r.2 = (chunkDeleteFileInt tab c sclassid).2) := by
  have hec : ∀ code : SEntry → Bool, (∀ s, code s = true → s.isCopy = false) →
      1 ≤ distinctParts (repairParts srv code c.slist) →
      0 < (repairEc srv code c).1 ∧ (repairEc srv code c).2.files = c.files
        ∧ partsOk (repairEc srv code c).2 = true :=
    fun code hcode hfull => ⟨repairEc_pos hok hcode hfull, rfl,
      partsOk_repairEc hok (repairEc_pos hok hcode hfull)⟩
  unfold repairBody
  dsimp only
  split
  · split
    next hfull =>
      exact .inl (hec _ (fun s hs => isCopy_of_code (.inl hs)) (Nat.le_trans (by decide) hfull.1))
    split
    next hfull =>
      exact .inl (hec _ (fun s hs => isCopy_of_code (.inr hs)) (Nat.le_trans (by decide) hfull))
    split
    · exact .inr ⟨rfl, rfl⟩
    · exact .inl ⟨Nat.lt_of_lt_of_le (by decide) (Nat.le_add_left (2 ^ 31) c.version), rfl, hok⟩
  next hv =>
    exact .inl ⟨Nat.pos_of_ne_zero hv, rfl,
      partsOk_map hok rfl fun s => partOk_repairWithCopies⟩

theorem chunkRepair_cases {tab : SClassTab}
    (hok : partsOk c = true) : let r := chunkRepair srv tab chunkid sclassid erase c
    partsOk r.2 = true ∧ ((r.1 ≠ some 0 ∧ r.2.files = c.files)
      ∨ (r.1 = some 0 ∧ r.2 = (chunkDeleteFileInt tab (c.setWriteinprogress false) sclassid).2)) := by
  have hok' : partsOk (c.setWriteinprogress false) = true := hok
  unfold chunkRepair
  split
  · exact ⟨hok, .inl ⟨nofun, rfl⟩⟩
  dsimp only
  split
  · exact ⟨hok, .inl ⟨nofun, rfl⟩⟩
  rcases repairBody_cases hok' with ⟨hpos, hf, hp⟩ | ⟨hzero, heq⟩
  · exact ⟨hp, .inl ⟨fun h => Nat.ne_of_gt hpos (Option.some.inj h), hf⟩⟩
  refine ⟨?_, .inr ⟨congrArg some hzero, heq⟩⟩
  rw [heq]
  unfold partsOk at hok' ⊢
  rwa [slist_chunkDeleteFileInt]

/-- The chunks of the rest of a table can be repaired. -/
def PartsOk (s : Master) (rest : List Nat) : Prop :=
  ∀ chunkid ∈ rest, ∀ c, s.chunks chunkid = some c → partsOk c = true

theorem PartsOk.putChunk (h : PartsOk s rest) (chunkid : Nat)
    (hc : partsOk c = true) : PartsOk (s.putChunk chunkid c) rest := by
  intro d hd c'
  show (if d = chunkid then some c else s.chunks d) = some c' → _
  split
  · intro heq
    cases heq
    exact hc
  · exact h d hd c'

/-- The copies of every chunk are what they were. -/
def SameCopies (s t : Master) : Prop :=
  ∀ chunkid, (t.chunks chunkid).map Chunk.slist = (s.chunks chunkid).map Chunk.slist

theorem sameCopies_touchData {ts : UInt32} {canmodmtime : Bool} :
    SameCopies s (s.touchData i ts canmodmtime) := by
  refine touchData_kept (fun _ _ _ h => h) (fun t chunkid h j => ?_) i ts canmodmtime fun _ => rfl
  refine Eq.trans ?_ (h j)
  show (if j = chunkid then (t.chunks j).map _ else t.chunks j).map Chunk.slist = _
  split
  · rw [Option.map_map]
    rfl
  · rfl

theorem PartsOk.sameCopies (h : PartsOk s rest) (hst : SameCopies s t) : PartsOk t rest := by
  intro chunkid hmem c hc
  have hmap := hst chunkid
  rw [hc] at hmap
  obtain ⟨c', hc', hl⟩ := Option.map_eq_some_iff.mp hmap.symm
  have hok := h chunkid hmem c' hc'
  unfold partsOk at hok ⊢
  rwa [← hl]

theorem sound_repairEntry (h : sys.fs.Sound) {done : List Nat}
    (hdata : sys.fs.dataAt i = some (some (k, done ++ chunkid :: rest)))
    (hparts : PartsOk sys.fs (chunkid :: rest)) :
    let r := repairEntry srv i k erase sys (chunkid, done.length)
    r.fs.Sound ∧ PartsOk r.fs rest
      ∧ ∃ nchunkid, r.fs.dataAt i = some (some (k, done ++ nchunkid :: rest)) := by
  have hparts' : PartsOk sys.fs rest := fun d hd => hparts d (List.mem_cons_of_mem chunkid hd)
  unfold repairEntry repairChunk
  by_cases h0 : chunkid = 0
  · rw [if_pos h0]
    exact ⟨h, hparts', chunkid, hdata⟩
  rw [if_neg h0]
  have hpos := h.entry hdata (List.mem_append_right done List.mem_cons_self) h0
  obtain ⟨c, hc⟩ := Option.isSome_iff_exists.mp (isSome_of_refsOf hpos)
  rw [refsOf_some hc] at hpos
  rw [hc]
  dsimp only
  obtain ⟨hok, hcases⟩ := chunkRepair_cases
    (hparts chunkid List.mem_cons_self c hc)
  generalize chunkRepair srv sys.fs.sclasses chunkid k erase c = r at hok hcases ⊢
  have hparts1 := hparts'.putChunk chunkid hok
  rcases hcases with ⟨hkeep, hfiles⟩ | ⟨hzero, hdel⟩
  · -- the chunk keeps its files, and the table its entry
    have hsame := sameData_putChunk hc hfiles
    split
    · exact ⟨h.sameData hsame, hparts1, chunkid, (hsame.nodes i).trans hdata⟩
    next nversion hv =>
    have hv0 : 0 < nversion := Nat.pos_of_ne_zero fun h0 => hkeep (by rw [hv, h0])
    rw [if_pos hv0]
    have htouch := hsame.trans (touched_touchData _ i srv.now true).sameData
    exact ⟨h.sameData htouch, hparts1.sameCopies sameCopies_touchData, chunkid,
      (htouch.nodes i).trans hdata⟩
  · -- the chunk is given up: the file leaves it, and the entry is cleared
    rw [hzero]
    dsimp only
    rw [if_neg (Nat.lt_irrefl 0)]
    have hr : Retable sys.fs (sys.fs.putChunk chunkid r.2) i 0 (tabUses k [chunkid]) := by
      rw [hdel]
      exact retable_deleteOne h.chunks hc h0 rfl hpos
    have htouch := (touched_touchData (sys.fs.putChunk chunkid r.2) i srv.now true).sameData
    have hr' : Retable sys.fs ((sys.fs.putChunk chunkid r.2).touchData i srv.now true) i
        (tabUses k [0]) (tabUses k [(done ++ chunkid :: rest).getD done.length 0]) := by
      refine (hr.trans (htouch.retable i)).congr (fun a => tabUses_zero k a) fun a => ?_
      simp
    have hnode := (htouch.nodes i).trans (show _ = sys.fs.dataAt i from rfl)
    refine ⟨sound_setEntry h hdata (by simp) hnode hr' (SameData.refl _),
      hparts1.sameCopies sameCopies_touchData, 0, ?_⟩
    refine (dataAt_setEntry (hnode.trans hdata) (SameData.refl _)).trans ?_
    simp

/-- **Repair of a whole table**, entry by entry. -/
theorem sound_repairLoop (srv : Servers) (erase : Bool) :
    ∀ {sys : System} (done : List Nat), sys.fs.Sound →
      sys.fs.dataAt i = some (some (k, done ++ rest)) → PartsOk sys.fs rest →
      ((rest.zipIdx done.length).foldl (repairEntry srv i k erase) sys).fs.Sound := by
  induction rest with
  | nil => exact fun _ h _ _ => h
  | cons chunkid rest ih =>
    intro sys done h hdata hparts
    obtain ⟨h1, hparts1, nchunkid, hdata1⟩ := sound_repairEntry h hdata hparts
    rw [List.append_cons] at hdata1
    have := ih (done ++ [nchunkid]) h1 hdata1 hparts1
    rwa [List.length_append] at this

/-- No chunk of the file has a part of version 0 that a repair could build on. -/
def repairSafe (s : Master) (ses : Session) (c : Cred) (inode : Nat) : Bool :=
  match repairCheck s ses c inode with
  | .error _ => true
  | .ok (_, n) => n.chunktab.all fun chunkid => (s.chunks chunkid).all partsOk

theorem sound_fsRepair (h : sys.fs.Sound) {c : Cred}
    (hsafe : repairSafe sys.fs ses c inode = true) :
    (sys.fsRepair srv ses c inode erase).2.fs.Sound := by
  unfold repairSafe at hsafe
  unfold fsRepair
  split
  · exact h
  next i n hcheck =>
  rw [hcheck] at hsafe
  simp only [repairCheck, except_bind_eq_ok, require_eq_ok, refuse_eq_ok, exists_const] at hcheck
  obtain ⟨_, p, hp, hd, _, _, heq⟩ := hcheck
  cases heq
  have hd : n.type.hasData = true := by simpa using hd
  have hparts : PartsOk sys.fs n.chunktab := fun chunkid hmem ch hch => by
    have := List.all_eq_true.mp hsafe chunkid hmem
    rwa [hch] at this
  have hloop := sound_repairLoop srv erase [] h (dataAt_of_hasData (findExt_node hp) hd) hparts
  exact hloop.sameData (.of_eq rfl rfl rfl rfl)

end MfsMaster.System
