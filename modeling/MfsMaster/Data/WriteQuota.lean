/-
  MfsMaster.Data.WriteQuota
  **HARD QUOTAS AND WRITES** (`fs_writechunk`, `fsnodes_test_quota`).

  Before a write the growth it may cause is tested once against the limits of every
  directory above the file; after it the growth that the recount finds is added to the
  statistics of these directories, once per name of the file.  The tested growth of the
  realsize is a 32-bit product.

      usage_after                   — what a directory is charged
      write_keeps_hard_quotas_iff   — for which files no limit whatsoever is broken
-/
import Mathlib
import MfsMaster.Data.QuotaErase
import MfsMaster.Data.WriteGrowth
import MfsMaster.Fs.Tree

namespace MfsMaster

/-! ## §1. Measures of usage. -/

/-- What a quota of bytes can limit. -/
inductive Measure where
  | length
  | size
  | realsize
  deriving Repr, DecidableEq

namespace Measure

def usage : Measure → StatsRecord → UInt64
  | .length, sr => sr.length
  | .size, sr => sr.size
  | .realsize, sr => sr.realsize

def asked : Measure → Demand → UInt64
  | .length, d => d.length
  | .size, d => d.size
  | .realsize, d => d.realsize

/-- The hard limit. -/
def limit : Measure → QuotaNode → UInt64
  | .length, q => q.hlength
  | .size, q => q.hsize
  | .realsize, q => q.hrealsize

/-- `QUOTA_FLAG_H*`. -/
def hardFlag : Measure → UInt8
  | .length => Master.quotaFlagHlength
  | .size => Master.quotaFlagHsize
  | .realsize => Master.quotaFlagHrealsize

theorem usage_sub (m : Measure) (a b : StatsRecord) :
    m.usage (a.sub b) = m.usage a - m.usage b := by
  cases m <;> rfl

/-- The same record is added `k` times. -/
theorem usage_iterate (m : Measure) (sr : StatsRecord) (k : Nat) (x : StatsRecord) :
    m.usage ((fun p : StatsRecord => p.add sr)^[k] x) = m.usage x + UInt64.ofNat k * m.usage sr := by
  induction k generalizing x with
  | zero =>
    show m.usage x = m.usage x + 0 * m.usage sr
    rw [UInt64.zero_mul, UInt64.add_zero]
  | succ k ih =>
    have hone : m.usage (x.add sr) = m.usage x + m.usage sr := by cases m <;> rfl
    rw [Function.iterate_succ_apply, ih, hone, UInt64.ofNat_add, UInt64.add_mul]
    show _ = m.usage x + (_ + 1 * m.usage sr)
    rw [UInt64.one_mul]
    ac_rfl

end Measure

/-- No hard limit of `q` is passed on the way from `before` to `after`. -/
def KeepsHard (q : QuotaNode) (before after : StatsRecord) : Prop :=
  ∀ m : Measure, hasBit q.flags m.hardFlag = true →
    m.usage after ≤ m.usage before ∨ m.usage after ≤ m.limit q

/-- The test of one hard limit. -/
def Measure.over (m : Measure) (q : QuotaNode) (psr : StatsRecord) (d : Demand) : Bool :=
  0 < m.asked d && hasBit q.flags m.hardFlag && m.limit q < m.usage psr + m.asked d

theorem overLimits_hard (q : QuotaNode) (psr : StatsRecord) (d : Demand) :
    Master.overLimits q psr d true
      = (((0 < d.inodes && hasBit q.flags Master.quotaFlagHinodes
            && q.hinodes < psr.inodes + d.inodes)
          || Measure.over .length q psr d) || Measure.over .size q psr d
        || Measure.over .realsize q psr d) := rfl

variable {q : QuotaNode} {psr : StatsRecord} {d : Nat} {m : Measure} {n : FsNode} {s : Master}
  {continueop canmodtime canusereserve : Bool} {Q : Nat → Option QuotaNode} {dem : Demand}
  {charge tested : UInt64}

/-- What a test that does not refuse says of a hard limit. -/
theorem fits_of_not_over {d : Demand} (h : Master.overLimits q psr d true = false)
    (hflag : hasBit q.flags m.hardFlag = true) :
    m.asked d = 0 ∨ m.usage psr + m.asked d ≤ m.limit q := by
  have hm : m.over q psr d = false := by
    rw [overLimits_hard] at h
    simp only [Bool.or_eq_false_iff] at h
    cases m with
    | length => exact h.1.1.2
    | size => exact h.1.2
    | realsize => exact h.2
  unfold Measure.over at hm
  rw [hflag] at hm
  by_cases hzero : m.asked d = 0
  · exact .inl hzero
  have hpos := UInt64.pos_iff_ne_zero.mpr hzero
  simp only [hpos, decide_true, Bool.true_and, decide_eq_false_iff_not] at hm
  exact .inr (UInt64.not_lt.mp hm)

/-- A quota with one hard limit. -/
def oneLimit (m : Measure) (limit : UInt64) : QuotaNode :=
  { exceeded := false, flags := m.hardFlag, sinodes := 0, hinodes := 0
    slength := 0, hlength := limit, ssize := 0, hsize := limit, srealsize := 0, hrealsize := limit }

theorem limit_oneLimit (m m' : Measure) (limit : UInt64) : m'.limit (oneLimit m limit) = limit := by
  cases m' <;> rfl

/-- The flags of the measures are different bits, and none is the one of the inodes. -/
theorem hasBit_hardFlag (m m' : Measure) : hasBit m.hardFlag m'.hardFlag = decide (m' = m) := by
  cases m <;> cases m' <;> decide

theorem hasBit_hinodes : hasBit m.hardFlag Master.quotaFlagHinodes = false := by
  cases m <;> decide

theorem not_over_oneLimit {d : Demand} {limit : UInt64}
    (h : m.asked d = 0 ∨ m.usage psr + m.asked d ≤ limit) :
    Master.overLimits (oneLimit m limit) psr d true = false := by
  have hflags : (oneLimit m limit).flags = m.hardFlag := rfl
  -- only the limit of `m` is switched on
  have hover : ∀ m' : Measure, m'.over (oneLimit m limit) psr d = false := by
    intro m'
    unfold Measure.over
    rw [hflags, hasBit_hardFlag, limit_oneLimit]
    by_cases hm : m' = m
    · rw [hm]
      rcases h with hzero | hle
      · simp [hzero]
      · simp [UInt64.not_lt.mpr hle]
    · simp [hm]
  rw [overLimits_hard, hflags, hasBit_hinodes, hover, hover, hover, Bool.and_false, Bool.false_and]
  rfl

/-! ## §2. The growth that is charged. -/

namespace Master

/-- A walk that changes the statistics of each directory it meets. -/
theorem stats_mapStats {ds : List Nat} {f : StatsRecord → StatsRecord} :
    (s.mapStats ds f).stats d = f^[ds.count d] (s.stats d) := by
  unfold mapStats
  generalize s.stats = st
  induction ds generalizing st with
  | nil => rfl
  | cons a ds ih =>
    rw [List.foldl_cons, ih, List.count_cons]
    by_cases ha : a = d
    · rw [if_pos ha.symm, if_pos (by simpa using ha), Function.iterate_succ_apply]
    · rw [if_neg (fun h => ha h.symm), if_neg (by simpa using ha)]
      rfl

theorem stats_touchData {i : Nat} {ts : UInt32} {canmodmtime : Bool} :
    (s.touchData i ts canmodmtime).stats = s.stats :=
  touchData_kept (P := fun t => t.stats = s.stats) (fun _ _ _ h => h) (fun _ _ h => h) i ts
    canmodmtime rfl

theorem usage_nodeStats (hd : n.type.hasData = true) {dir : StatsRecord} {ratio : UInt8} :
    m.usage (nodeStats n dir ratio) = match m with
      | .length => n.length
      | .size => tabSize (weight (lastChunk n.length)) n.chunktab 0
      | .realsize => tabSize (weight (lastChunk n.length)) n.chunktab 0 * ratio.toUInt64 / 16 := by
  rw [← chunkTabStats_size]
  unfold nodeStats
  cases htype : n.type with
  | file | trash | sustained => cases m <;> rfl
  | directory | symlink | fifo | blockdev | chardev | socket =>
    rw [htype] at hd
    cases hd

end Master

namespace System

variable {indx inode : Nat} {sys : System} {srv : Servers}

/-- The size of a file as it is counted. -/
def fileSize (n : FsNode) : UInt64 :=
  (Master.chunkTabStats (Master.lastChunk n.length) n.chunktab 0).2

/-- **The growth a write is charged with**, for each name of the file: the length it makes sure of,
the size of the chunks that newly count, and the share of it on the disks. -/
def growth (s : Master) (n : FsNode) (indx : Nat) : Measure → UInt64
  | .length => newLength n indx - n.length
  | .size => sizeGrowth n indx
  | .realsize =>
    let ratio := (s.newRatio n).toUInt64
    (fileSize n + sizeGrowth n indx) * ratio / 16 - fileSize n * ratio / 16

theorem chunkMultiModify_error {sys : System} {srv : Servers} {continueop : Bool} {o k : Nat}
    {st : Status} (h : (sys.chunkMultiModify srv continueop o k).2 = .error st) : st ≠ .ok := by
  unfold chunkMultiModify at h
  split at h
  · unfold createChunk at h
    split at h
    · cases h
      split
      · nofun
      · split <;> nofun
    · cases h
  · unfold changeChunk at h
    dsimp only at h
    split at h
    · cases h
      nofun
    split at h
    · cases h
      nofun
    split at h
    · cases h
      nofun
    split at h
    next hne =>
      cases h
      exact hne
    split at h <;> cases h

theorem chunkMultiModify_pos {sys : System} {srv : Servers} {continueop : Bool} {o k c : Nat}
    {op : Bool} (hnext : 0 < sys.fs.nextchunkid)
    (hidle : sys.dropMeets srv o (answerIdle srv) = true)
    (h : (sys.chunkMultiModify srv continueop o k).2 = .ok (c, op)) : 0 < c := by
  rcases (chunkMultiModify_frame hidle continueop k).2 c op h with heq | heq
  · by_cases ho : o = 0
    · -- a new chunk takes the next number
      unfold chunkMultiModify createChunk at h
      rw [if_pos ho] at h
      split at h
      · cases h
      · cases h
        exact hnext
    · omega
  · rw [heq]
    exact hnext

/-! ## §3. The statistics after a write. -/

/-- A tree whose files have the realsize ratio of their class. -/
structure Accounted (s : Master) : Prop where
  tree : s.DirTree
  ratios : ∀ i n, s.nodes i = some n → n.type.hasData = true → s.realsizeRatio i = s.newRatio n
  next : 0 < s.nextchunkid

/-- The file after a write. -/
def written (n : FsNode) (indx c : Nat) : FsNode :=
  { n with chunktab := (growTab (indx + 1) n.chunktab).set indx c, length := newLength n indx }

/-- The growth is the difference of the two counts. -/
theorem growth_eq {c : Nat} (hd : n.type.hasData = true) (hmax : indx ≤ maxIndex) (hc : 0 < c)
    {dir dir' : StatsRecord} : m.usage (Master.nodeStats (written n indx c) dir' (s.newRatio n))
        - m.usage (Master.nodeStats n dir (s.newRatio n))
      = growth s n indx m := by
  have hd' : (written n indx c).type.hasData = true := hd
  have hsize : Master.tabSize (Master.weight (Master.lastChunk (written n indx c).length))
      (written n indx c).chunktab 0
      = Master.tabSize (Master.weight (Master.lastChunk n.length)) n.chunktab 0
        + sizeGrowth n indx := tabSize_write hmax hc
  rw [Master.usage_nodeStats hd', Master.usage_nodeStats hd]
  cases m with
  | length => rfl
  | size =>
    show Master.tabSize _ _ 0 - Master.tabSize _ _ 0 = sizeGrowth n indx
    rw [hsize, UInt64.add_comm, UInt64.add_sub_cancel]
  | realsize =>
    show Master.tabSize _ _ 0 * _ / 16 - Master.tabSize _ _ 0 * _ / 16 = _
    rw [hsize]
    unfold growth fileSize
    rw [Master.chunkTabStats_size]

/-- The file `writeTable` leaves. -/
def tabled (n : FsNode) (indx c : Nat) (nlength : UInt64) : FsNode :=
  let n := n.setChunktab (n.chunktab.set indx c)
  if n.length < nlength then n.setLength nlength else n

/-- The end of `fs_writechunk` adds the difference of the two counts along all ways. -/
theorem stats_writeTable (hn : s.nodes inode = some n) (hd : n.type.hasData = true) {c : Nat}
    {nlength : UInt64} : (writeTable s inode indx c nlength psr).stats d
      = (fun p : StatsRecord => p.add ((Master.nodeStats (tabled n indx c nlength) (s.stats inode)
          (s.newRatio n)).sub psr))^[(s.above inode).count d] (s.stats d) := by
  unfold writeTable
  dsimp only
  generalize hs2 : (s.modNode inode fun n => n.setChunktab (n.chunktab.set indx c)).modNode inode
    (fun n' => if n'.length < nlength then n'.setLength nlength else n') = s2
  have hnode : s2.nodes inode = some (tabled n indx c nlength) := by
    rw [← hs2, Master.modNode_nodes, if_pos rfl, Master.modNode_nodes, if_pos rfl, hn]
    rfl
  -- class and archive mode of the file are not touched, and so neither is its ratio
  have hkeep : (tabled n indx c nlength).type = n.type
      ∧ s2.newRatio (tabled n indx c nlength) = s.newRatio n := by
    unfold tabled
    dsimp only
    rw [← hs2]
    split <;> exact ⟨rfl, rfl⟩
  have hwanted : s2.wantedRatio inode = s.newRatio n := by
    unfold Master.wantedRatio
    rw [hnode]
    show (if (tabled n indx c nlength).type.hasData then _ else _) = _
    rw [hkeep.1, if_pos hd, hkeep.2]
  obtain ⟨hstats, habove⟩ : s2.stats = s.stats ∧ s2.above inode = s.above inode := by
    rw [← hs2]
    exact ⟨rfl, rfl⟩
  have hcount : (s2.fixRatio inode).fsnodesGetStats inode
      = Master.nodeStats (tabled n indx c nlength) (s.stats inode) (s.newRatio n) := by
    unfold Master.fsnodesGetStats Master.fixRatio
    dsimp only
    rw [hnode, if_pos rfl, hwanted, hstats]
  show (((s2.fixRatio inode).addSubStatsAbove inode
    ((s2.fixRatio inode).fsnodesGetStats inode) psr).stats d) = _
  rw [hcount]
  unfold Master.addSubStatsAbove
  rw [Master.stats_mapStats]
  show (fun p : StatsRecord => p.add _)^[(s2.above inode).count d] (s2.stats d) = _
  rw [habove, hstats]

/-- **What a directory is charged** by a successful write: the growth of the file, once for every
way that leads from the file to the directory. -/
theorem usage_after (h : Accounted sys.fs)
    (hn : sys.fs.nodes inode = some n) (hd : n.type.hasData = true) (hmax : indx ≤ maxIndex)
    (hidle : sys.entryIdle srv inode indx = true)
    (hok : (sys.writeBody srv inode indx continueop canmodtime n).1.status = .ok) :
    m.usage ((sys.writeBody srv inode indx continueop canmodtime n).2.fs.stats d)
      = m.usage (sys.fs.stats d)
        + UInt64.ofNat ((sys.fs.above inode).count d) * growth sys.fs n indx m := by
  unfold entryIdle at hidle
  rw [hn] at hidle
  unfold writeBody at hok ⊢
  dsimp only at hok ⊢
  -- the table is made long enough, then the chunk is prepared: nothing else changes
  generalize hsys1 : sys.modFs (·.modNode inode (.setChunktab (growTab (indx + 1) n.chunktab))) = sys1
    at hok ⊢
  have hfs1 : sys1.fs = sys.fs.modNode inode (.setChunktab (growTab (indx + 1) n.chunktab)) := by
    rw [← hsys1]
    rfl
  have hidle1 : sys1.dropMeets srv (entryAt n indx) (answerIdle srv) = true := hsys1 ▸ hidle
  have hnext1 : 0 < sys1.fs.nextchunkid := hsys1 ▸ h.next
  have hframe := (chunkMultiModify_frame hidle1 continueop n.sclassid).1
  have herr := @chunkMultiModify_error sys1 srv continueop (entryAt n indx) n.sclassid
  have hpos := @chunkMultiModify_pos sys1 srv continueop (entryAt n indx) n.sclassid
  generalize sys1.chunkMultiModify srv continueop (entryAt n indx) n.sclassid = r
    at hok hframe herr hpos ⊢
  cases hr : r.2 with
  | error st =>
    rw [hr] at hok
    exact absurd hok (herr hr)
  | ok p =>
    obtain ⟨c, op⟩ := p
    have hc : 0 < c := hpos hnext1 hidle1 hr
    obtain ⟨cs, nx, hfs⟩ := hframe
    rw [hfs1] at hfs
    have hnode : r.1.fs.nodes inode
        = some (n.setChunktab (growTab (indx + 1) n.chunktab)) := by
      rw [hfs]
      show (if inode = inode then (sys.fs.nodes inode).map _ else _) = _
      rw [if_pos rfl, hn]
      rfl
    have htabled : tabled (n.setChunktab (growTab (indx + 1) n.chunktab)) indx c
        (writeLength n indx) = written n indx c := by
      unfold tabled written newLength
      show (if n.length < writeLength n indx then _ else _) = _
      split <;> rfl
    show m.usage ((Master.touchData (writeTable r.1.fs inode indx c (writeLength n indx)
      (sys.fs.fsnodesGetStats inode)) inode srv.now canmodtime).stats d) = _
    rw [Master.stats_touchData, stats_writeTable hnode hd, Measure.usage_iterate,
      Measure.usage_sub, htabled]
    have hprev : sys.fs.fsnodesGetStats inode
        = Master.nodeStats n (sys.fs.stats inode) (sys.fs.newRatio n) := by
      unfold Master.fsnodesGetStats
      rw [hn]
      show Master.nodeStats n _ (sys.fs.realsizeRatio inode) = _
      rw [h.ratios inode n hn hd]
    obtain ⟨habove, hstats, hratio⟩ : r.1.fs.above inode = sys.fs.above inode
        ∧ r.1.fs.stats = sys.fs.stats
        ∧ r.1.fs.newRatio (n.setChunktab (growTab (indx + 1) n.chunktab)) = sys.fs.newRatio n := by
      rw [hfs]
      exact ⟨rfl, rfl, rfl⟩
    rw [hprev, habove, hstats, hratio, growth_eq hd hmax hc]

/-! ## §4. The test before a write. -/

theorem neverOk_writeCheck : NeverOk (sys.writeCheck srv inode indx canusereserve) := by
  simp [writeCheck]

theorem Accounted.withQuota (h : Accounted s) : Accounted (s.withQuota Q) :=
  ⟨⟨h.tree.top, h.tree.parent, h.tree.hung, h.tree.chains⟩, h.ratios, h.next⟩

/-- A write that fits, under limits that let it through. -/
theorem fsWritechunk_withQuota (hfits : sys.writeFits srv inode indx canusereserve n)
    (htest : (sys.fs.withQuota Q).fsnodesTestQuota inode (writeDemand sys.fs n indx) = false) :
    (sys.withQuota Q).fsWritechunk srv inode indx continueop canmodtime canusereserve
      = (sys.withQuota Q).writeBody srv inode indx continueop canmodtime n := by
  rw [fsWritechunk, (writeCheck_eq_ok (sys.withQuota Q) srv).mpr ⟨hfits, htest⟩]

/-- A write that succeeds fits, and the limits let it through. -/
theorem fits_of_fsWritechunk
    (hok : ((sys.withQuota Q).fsWritechunk srv inode indx continueop canmodtime
      canusereserve).1.status = .ok) :
    ∃ n, sys.writeFits srv inode indx canusereserve n
      ∧ (sys.fs.withQuota Q).fsnodesTestQuota inode (writeDemand sys.fs n indx) = false := by
  rw [fsWritechunk] at hok
  cases hc : (sys.withQuota Q).writeCheck srv inode indx canusereserve with
  | error st =>
    rw [hc] at hok
    have hst : st = .ok := hok
    exact absurd (hst ▸ hc) neverOk_writeCheck
  | ok n => exact ⟨n, (writeCheck_eq_ok (sys.withQuota Q) srv).mp hc⟩

/-- A test that does not refuse has found room under every limit above. -/
theorem not_over_of_test (h : s.DirTree) (hfile : s.isDir inode = false)
    (htest : (s.withQuota Q).fsnodesTestQuota inode dem = false) (hd : d ∈ s.above inode)
    (hq : Q d = some q) : Master.overLimits q (s.stats d) dem true = false := by
  have hup : d ∈ s.upwards inode := by
    rw [h.upwards_of_file hfile]
    exact List.mem_cons_of_mem inode hd
  have hone := List.any_eq_false.mp htest d hup
  unfold Master.fsnodesTestQuotaNoparents at hone
  rw [show (s.withQuota Q).quota d = some q from hq] at hone
  have hdir : (s.withQuota Q).isDir d = true := h.isDir_of_above hd
  simp only [hdir, Bool.true_and, Bool.not_eq_true, Bool.or_eq_false_iff] at hone
  exact hone.1

/-- The limits of one directory. -/
def quotaAt (d : Nat) (q : QuotaNode) : Nat → Option QuotaNode :=
  fun j => if j = d then some q else none

theorem test_quotaAt
    (hexc : q.exceeded = false) (hover : Master.overLimits q (s.stats d) dem true = false)
    (inode : Nat) : (s.withQuota (quotaAt d q)).fsnodesTestQuota inode dem = false := by
  refine List.any_eq_false.mpr fun j _ => ?_
  have hquota : (s.withQuota (quotaAt d q)).quota j = if j = d then some q else none := rfl
  rw [Master.fsnodesTestQuotaNoparents, hquota]
  by_cases hj : j = d
  · rw [if_pos hj, hj]
    show ¬ ((s.withQuota (quotaAt d q)).isDir d && (Master.overLimits q (s.stats d) dem true
      || (q.exceeded && Master.overLimits q (s.stats d) dem false))) = true
    rw [hover, hexc]
    simp
  · rw [if_neg hj]
    exact Bool.false_ne_true

/-! ## §5. Writes and hard quotas. -/

/-- The growth of the realsize that is tested is the product of the tested growth of the size and
the largest storage factor of the class. -/
def TestedExactly (s : Master) (n : FsNode) (indx : Nat) : Prop :=
  (writeDemand s n indx).realsize.toNat
    = (s.sclasses.sclassGetKeeparchMaxstorageEights n.sclassid).toNat
      * (writeDemand s n indx).size.toNat / 8

/-- A write under the limits `Q` breaks none of them, and tests the realsize exactly. -/
def KeepsQuotas (sys : System) (srv : Servers) (inode indx : Nat)
    (continueop canmodtime canusereserve : Bool) (Q : Nat → Option QuotaNode) : Prop :=
  let r := (sys.withQuota Q).fsWritechunk srv inode indx continueop canmodtime canusereserve
  r.1.status = .ok →
    (∀ d ∈ sys.fs.above inode, ∀ q ∈ Q d, KeepsHard q (sys.fs.stats d) (r.2.fs.stats d))
      ∧ ∀ n ∈ sys.fs.nodes inode, TestedExactly sys.fs n indx

/-- A charge that is covered by a test, in the arithmetic of the counters. -/
def Covered (usage charge tested : UInt64) : Prop :=
  usage + charge ≤ usage ∨ (tested ≠ 0 ∧ usage + charge ≤ usage + tested)

instance (usage charge tested : UInt64) : Decidable (Covered usage charge tested) :=
  inferInstanceAs (Decidable (_ ∨ _))

/-- **The condition.**  The tested product has 32 bits, and for every directory above the file the
growth of the file, taken once per way, is covered by the tested growth. -/
structure ChargedAsTested (s : Master) (inode : Nat) (n : FsNode) (indx : Nat) : Prop where
  product : (s.sclasses.sclassGetKeeparchMaxstorageEights n.sclassid).toNat
    * (writeDemand s n indx).size.toNat < 2 ^ 32
  charge : ∀ d ∈ s.above inode, ∀ m : Measure, Covered (m.usage (s.stats d))
    (UInt64.ofNat ((s.above inode).count d) * growth s n indx m) (m.asked (writeDemand s n indx))

/-- A 32-bit product is exact when it does not wrap, and never when it does. -/
theorem testedExactly_iff :
    TestedExactly s n indx
      ↔ (s.sclasses.sclassGetKeeparchMaxstorageEights n.sclassid).toNat
        * (writeDemand s n indx).size.toNat < 2 ^ 32 := by
  unfold TestedExactly writeDemand sizeDemand
  dsimp only
  generalize (s.sclasses.sclassGetKeeparchMaxstorageEights n.sclassid) = eights
  generalize (if (Master.lastChunk n.length).1 < indx ∨ entryAt n indx = 0 then fullChunk
    else if indx = (Master.lastChunk n.length).1
      then fullChunk - (Master.lastChunk n.length).2.toUInt32 else 0) = sizediff
  rw [UInt32.toNat_toUInt64, UInt32.toNat_toUInt64, UInt32.toNat_div, UInt32.toNat_mul,
    UInt8.toNat_toUInt32]
  show eights.toNat * sizediff.toNat % 2 ^ 32 / 8 = _ ↔ _
  generalize eights.toNat * sizediff.toNat = x
  omega

theorem test_no_quota : (s.withQuota fun _ => none).fsnodesTestQuota inode dem = false :=
  List.any_eq_false.mpr fun _ _ => Bool.false_ne_true

/-- A charge that is covered breaks no limit the test accepts. -/
theorem Covered.keeps {usage limit : UInt64} (h : Covered usage charge tested)
    (hfits : tested = 0 ∨ usage + tested ≤ limit) :
    usage + charge ≤ usage ∨ usage + charge ≤ limit := by
  rcases h with hless | ⟨hne, hle⟩
  · exact .inl hless
  · exact .inr (UInt64.le_trans hle (hfits.resolve_left hne))

/-- The tightest limit the test accepts: 0 when nothing is tested. -/
def tightest (usage tested : UInt64) : UInt64 := if tested = 0 then 0 else usage + tested

theorem tightest_fits (usage tested : UInt64) :
    tested = 0 ∨ usage + tested ≤ tightest usage tested := by
  unfold tightest
  by_cases h : tested = 0
  · exact .inl h
  · rw [if_neg h]
    exact .inr (UInt64.le_refl _)

/-- A charge that the tightest limit survives is covered. -/
theorem covered_of_tightest {usage : UInt64}
    (h : usage + charge ≤ usage ∨ usage + charge ≤ tightest usage tested) :
    Covered usage charge tested := by
  rcases h with hless | hle
  · exact .inl hless
  unfold tightest at hle
  split at hle
  next =>
    -- nothing is left of the usage
    have hzero : usage + charge = 0 := UInt64.le_zero_iff.mp hle
    rw [Covered, hzero]
    exact .inl (UInt64.zero_le)
  next hne => exact .inr ⟨hne, hle⟩

section Exact

variable {sys : System} {srv : Servers} {inode indx : Nat} {n : FsNode}
  {continueop canmodtime canusereserve : Bool} (h : Accounted sys.fs)
  (hidle : sys.entryIdle srv inode indx = true)
  (hfits : sys.writeFits srv inode indx canusereserve n)

include hidle hfits

/-- **A write that fits** is answered alike under all limits that let it through. -/
theorem status_withQuota
    (htest : (sys.fs.withQuota Q).fsnodesTestQuota inode (writeDemand sys.fs n indx) = false) :
    ((sys.withQuota Q).fsWritechunk srv inode indx continueop canmodtime canusereserve).1
      = (sys.writeBody srv inode indx continueop canmodtime n).1 := by
  rw [fsWritechunk_withQuota hfits htest]
  exact writeBody_withQuota sys srv Q hfits.2.1 hidle continueop canmodtime

variable (hbody : (sys.writeBody srv inode indx continueop canmodtime n).1.status = .ok)

include h hbody

/-- The usage after a write under the limits `Q`. -/
theorem usage_after_withQuota
    (htest : (sys.fs.withQuota Q).fsnodesTestQuota inode (writeDemand sys.fs n indx) = false)
    (d : Nat) (m : Measure) :
    m.usage (((sys.withQuota Q).fsWritechunk srv inode indx continueop canmodtime
        canusereserve).2.fs.stats d)
      = m.usage (sys.fs.stats d)
        + UInt64.ofNat ((sys.fs.above inode).count d) * growth sys.fs n indx m := by
  obtain ⟨_, hn, hdata, _, hmax⟩ := id hfits
  rw [fsWritechunk_withQuota hfits htest]
  have h' : Accounted (sys.withQuota Q).fs := h.withQuota
  refine usage_after h' hn hdata hmax hidle ?_
  rw [writeBody_withQuota sys srv Q hn hidle]
  exact hbody

/-- A write whose charge is covered keeps the limits it is made under. -/
theorem keepsHard_of_charged (hcharged : ChargedAsTested sys.fs inode n indx)
    (htest : (sys.fs.withQuota Q).fsnodesTestQuota inode (writeDemand sys.fs n indx) = false)
    (hd : d ∈ sys.fs.above inode) (hq : Q d = some q) :
    KeepsHard q (sys.fs.stats d) (((sys.withQuota Q).fsWritechunk srv inode indx continueop
      canmodtime canusereserve).2.fs.stats d) := by
  obtain ⟨_, hn, hdata, _, _⟩ := id hfits
  have hfile : sys.fs.isDir inode = false := by
    rw [← Bool.not_eq_true, Master.isDir_iff _ hn]
    intro hdir
    rw [hdir] at hdata
    cases hdata
  intro m hflag
  have hroom := fits_of_not_over (not_over_of_test h.tree hfile htest hd hq) hflag
  rw [usage_after_withQuota h hidle hfits hbody htest]
  exact (hcharged.charge d hd m).keeps hroom

/-- A write that keeps every limit on `d` has a covered charge there. -/
theorem covered_of_keeps
    (hkeep : ∀ Q, sys.KeepsQuotas srv inode indx continueop canmodtime canusereserve Q)
    (hd : d ∈ sys.fs.above inode) :
    Covered (m.usage (sys.fs.stats d))
      (UInt64.ofNat ((sys.fs.above inode).count d) * growth sys.fs n indx m)
      (m.asked (writeDemand sys.fs n indx)) := by
  -- the tightest limit on `d` alone lets the write through
  have hroom := tightest_fits (m.usage (sys.fs.stats d)) (m.asked (writeDemand sys.fs n indx))
  apply covered_of_tightest
  generalize tightest (m.usage (sys.fs.stats d)) (m.asked (writeDemand sys.fs n indx)) = limit
    at hroom ⊢
  have htest := test_quotaAt (q := oneLimit m limit) rfl (not_over_oneLimit hroom) inode
  have hok : ((sys.withQuota (quotaAt d (oneLimit m limit))).fsWritechunk srv inode indx continueop
      canmodtime canusereserve).1.status = .ok := by
    rw [status_withQuota hidle hfits htest]
    exact hbody
  have hkept := (hkeep _ hok).1 d hd (oneLimit m limit) (if_pos rfl) m
    ((hasBit_hardFlag m m).trans (decide_eq_true rfl))
  rwa [usage_after_withQuota h hidle hfits hbody htest, limit_oneLimit] at hkept

end Exact

variable {labelscnt : UInt8} {names : List Name}

/-- **When a write breaks no hard quota**, wherever quotas are set and whatever their limits are:
exactly when the growth it is charged with is covered by the growth it is tested for. -/
theorem write_keeps_hard_quotas_iff (sys : System) (h : Accounted sys.fs) (srv : Servers)
    (inode indx : Nat) (hidle : sys.entryIdle srv inode indx = true)
    (continueop canmodtime canusereserve : Bool) :
    (∀ Q, sys.KeepsQuotas srv inode indx continueop canmodtime canusereserve Q)
      ↔ (((sys.withQuota fun _ => none).fsWritechunk srv inode indx continueop canmodtime
          canusereserve).1.status = .ok →
        ∀ n ∈ sys.fs.nodes inode, ChargedAsTested sys.fs inode n indx) := by
  constructor
  · intro hkeep hok n hn
    obtain ⟨n', hfits, htest⟩ := fits_of_fsWritechunk hok
    cases hfits.2.1.symm.trans hn
    have hbody := hok
    rw [status_withQuota hidle hfits htest] at hbody
    exact ⟨testedExactly_iff.mp ((hkeep _ hok).2 n hn),
      fun d hd m => covered_of_keeps h hidle hfits hbody hkeep hd⟩
  · intro hcond Q hok
    obtain ⟨n, hfits, htest⟩ := fits_of_fsWritechunk hok
    have hbody := hok
    rw [status_withQuota hidle hfits htest] at hbody
    have hfree : ((sys.withQuota fun _ => none).fsWritechunk srv inode indx continueop canmodtime
        canusereserve).1.status = .ok := by
      rw [status_withQuota hidle hfits test_no_quota]
      exact hbody
    have hcharged := hcond hfree n hfits.2.1
    refine ⟨fun d hd q hq => keepsHard_of_charged h hidle hfits hbody hcharged htest hd hq,
      fun n' hn' => ?_⟩
    cases hfits.2.1.symm.trans hn'
    exact testedExactly_iff.mpr hcharged.product

/-! ## §6. A file in the root directory. -/

/-- A class with a number of copies. -/
def copiesClass (labelscnt : UInt8) : SClassTab :=
  { tab := fun _ => { SClassTab.blank with keep := SClassTab.copies labelscnt }
    maxECRedundancyLevel := 1 }

/-- File 2 has the length of two chunks, none of which was written, and several names. -/
def namedFile (labelscnt : UInt8) (names : List Name) : System :=
  newSystem.modFs fun s => { s with
    nodes := fun i => if i = 2 then
        some { Master.rootNode 0 with type := .file, length := 2 ^ 27 }
      else s.nodes i
    edges := names.map fun name => ⟨some rootId, name, 2⟩
    realsizeRatio := fun _ => labelscnt * 8 * 2
    sclasses := copiesClass labelscnt }

theorem namedFile_isDir : (namedFile labelscnt names).fs.isDir d = true ↔ d = rootId := by
  show ((if d = 2 then some _ else if d = rootId then some _ else none : Option FsNode).map
    FsNode.type == some NodeType.directory) = true ↔ _
  by_cases h2 : d = 2
  · rw [if_pos h2, h2]
    decide
  rw [if_neg h2]
  by_cases h1 : d = rootId
  · rw [if_pos h1, h1]
    decide
  · rw [if_neg h1]
    exact ⟨fun h => absurd h (by decide), fun h => absurd h h1⟩

theorem namedFile_accounted : Accounted (namedFile labelscnt names).fs := by
  have hedge : ∀ e ∈ (namedFile labelscnt names).fs.edges, e.parent = some rootId ∧ e.child = 2 := by
    intro e he
    obtain ⟨name, _, rfl⟩ := List.mem_map.mp he
    exact ⟨rfl, rfl⟩
  have hroot : dirsOf (namedFile labelscnt names).fs.edges rootId = [] := by
    rw [List.eq_nil_iff_forall_not_mem]
    intro p hp
    obtain ⟨e, he, _, hc⟩ := mem_dirsOf.mp hp
    rw [(hedge e he).2] at hc
    exact absurd hc (by decide)
  refine ⟨⟨fun e he hc => ?_, fun e he p hp => ?_, fun e he _ hp => ?_, fun d hd => ?_⟩,
    fun i n hn hd => ?_, Nat.one_pos⟩
  · rw [(hedge e he).2] at hc
    exact absurd hc (by decide)
  · rw [(hedge e he).1] at hp
    cases hp
    exact namedFile_isDir.mpr rfl
  · rw [(hedge e he).1] at hp
    cases hp
  · cases namedFile_isDir.mp hd
    exact ⟨_, .top hroot⟩
  -- every class is the same, and it has no archive
  show labelscnt * 8 * 2 = (copiesClass labelscnt).sclassGetKeeparchStorageEights n.sclassid
    n.keepmode * 2
  cases n.keepmode <;> rfl

/-- With one name and two copies no limit is broken by the first chunk. -/
theorem write_keeps_hard_quotas_two_copies :
    Accounted (namedFile 2 [[0x61]]).fs
      ∧ ∀ Q, (namedFile 2 [[0x61]]).KeepsQuotas oneServer 2 0 false true true Q := by
  refine ⟨namedFile_accounted, (write_keeps_hard_quotas_iff _ namedFile_accounted oneServer
    2 0 (by decide) false true true).mpr fun _ n hn => ?_⟩
  cases hn
  refine ⟨by decide, fun d hd m => ?_⟩
  have habove : (namedFile 2 [[0x61]]).fs.above 2 = [rootId] := by decide
  rw [habove, List.mem_singleton] at hd
  rw [hd]
  cases m <;> decide +kernel

/-- **Hard quotas broken by one write.**  With nine copies the product that is tested has more than
32 bits: 70 MB are allowed, 604 MB are taken.  A file with two names in a directory is charged
twice and tested once. -/
theorem write_breaks_hard_quotas :
    Accounted (namedFile 9 [[0x61]]).fs
      ∧ (((namedFile 9 [[0x61]]).withQuota (quotaAt rootId (oneLimit .realsize 70000000))).fsWritechunk
          oneServer 2 0 false true true).1.status = .ok
      ∧ ((namedFile 9 [[0x61]]).fs.stats rootId).realsize = 0
      ∧ ((((namedFile 9 [[0x61]]).withQuota (quotaAt rootId
          (oneLimit .realsize 70000000))).fsWritechunk oneServer 2 0 false true true).2.fs.stats
          rootId).realsize = 604053504
      ∧ Accounted (namedFile 2 [[0x61], [0x62]]).fs
      ∧ (((namedFile 2 [[0x61], [0x62]]).withQuota (quotaAt rootId
          (oneLimit .size 70000000))).fsWritechunk oneServer 2 0 false true true).1.status = .ok
      ∧ ((namedFile 2 [[0x61], [0x62]]).fs.stats rootId).size = 0
      ∧ ((((namedFile 2 [[0x61], [0x62]]).withQuota (quotaAt rootId
          (oneLimit .size 70000000))).fsWritechunk oneServer 2 0 false true true).2.fs.stats
          rootId).size = 134234112 := by
  refine ⟨namedFile_accounted, ?_, ?_, ?_, namedFile_accounted, ?_, ?_, ?_⟩ <;>
    decide +kernel

end System

end MfsMaster
