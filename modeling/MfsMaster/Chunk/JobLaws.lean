/-
  MfsMaster.Chunk.JobLaws
  **LAWS OF THE JOBS THAT HOLD FOR ONE CODE ONLY** (`chunk_do_jobs`).

  The parts of the 4-part and of the 8-part code are meant to be treated alike, and are not:

      both_label_limits_iff  — of the checksum parts on servers that match both labels, those
                               of the 8-part code are counted when they are the last one only
-/
import MfsMaster.Chunk.JobFrame

namespace MfsMaster

variable {env : JobEnv} {tab : SClassTab} {c : Chunk} {m : JobMode}

/-! ## §1. Parts on servers that match both labels. -/

/-- The checksum parts of either code: `0x14..0x1C` and `0x28..0x30`. -/
def SEntry.isChecksum (s : SEntry) : Bool := s.between 0x14 0x1C || s.between 0x28 0x30

theorem onBoth_eq_countP (part : SEntry → Bool) (l : List SEntry) : onBoth env part l
    = (l.filter fun s => env.labelled false s.csid 0 && env.labelled false s.csid 1).countP part := by
  rw [List.countP_eq_length_filter, List.filter_filter]
  exact congrArg (fun p => (l.filter p).length) (funext fun s => Bool.and_assoc _ _ _)

/-- What the counter misses, and what it counts besides. -/
theorem onBoth_isChksumPart (l : List SEntry) :
    onBoth env isChksumPart l + onBoth env (SEntry.between 0x28 0x2F) l
      = onBoth env SEntry.isChecksum l + onBoth env (fun s => 0x30 < s.ecid) l := by
  simp only [onBoth_eq_countP]
  generalize (l.filter fun s => _ && _) = l
  induction l with
  | nil => rfl
  | cons s l ih =>
    simp only [List.countP_cons, isChksumPart, SEntry.isChecksum, SEntry.between, Bool.and_eq_true,
      Bool.or_eq_true, decide_eq_true_eq] at ih ⊢
    split_ifs <;> omega

/-- The limits of a mode with an erasure code and two labels. -/
theorem limits_of_jobMode (h : jobMode env tab c = some m) (hkeep : m.usekeep = 0)
    (hec : m.sm.ecDataChksumParts ≠ 0) (hlabels : m.sm.labelscnt = 2) :
    m.dataLimit = ((env.counts false).chksumAllvalid + (env.counts false).bothAllvalid : Int)
        - 2 * (m.sm.ecDataChksumParts.toNat % 16 : Nat) - onBoth env isDataPart c.slist
      ∧ m.chksumLimit = ((env.counts false).dataAllvalid + (env.counts false).bothAllvalid : Int)
        - ((m.sm.ecDataChksumParts.toNat / 16 : Nat) + (m.sm.ecDataChksumParts.toNat % 16 : Nat))
        - onBoth env isChksumPart c.slist := by
  unfold jobMode at h
  dsimp only at h
  split at h
  next hgoal hcode =>
    cases h
    dsimp only at hkeep hec hlabels ⊢
    simp only [hkeep, if_true] at hec hlabels ⊢
    rw [if_pos ⟨hec, trivial, hlabels⟩, if_pos ⟨hec, trivial, hlabels⟩]
    exact ⟨rfl, rfl⟩
  · cases h

/-- **The counters and limits for servers that match both labels** are the documented ones when
the parts `0x28..0x2F` on such servers are as many as those above `0x30`, of which there are none:
`ecid>=0x28 && ecid>=0x30` is not true of the former. -/
theorem both_label_limits_iff (h : jobMode env tab c = some m) (hkeep : m.usekeep = 0)
    (hec : m.sm.ecDataChksumParts ≠ 0) (hlabels : m.sm.labelscnt = 2) :
    (onBoth env isDataPart c.slist
        = onBoth env (fun s => s.between 0x10 0x13 || s.between 0x20 0x27) c.slist
      ∧ onBoth env isChksumPart c.slist = onBoth env SEntry.isChecksum c.slist
      ∧ m.dataLimit = ((env.counts false).chksumAllvalid + (env.counts false).bothAllvalid : Int)
        - 2 * (m.sm.ecDataChksumParts.toNat % 16 : Nat)
        - onBoth env (fun s => s.between 0x10 0x13 || s.between 0x20 0x27) c.slist
      ∧ m.chksumLimit = ((env.counts false).dataAllvalid + (env.counts false).bothAllvalid : Int)
        - ((m.sm.ecDataChksumParts.toNat / 16 : Nat) + (m.sm.ecDataChksumParts.toNat % 16 : Nat))
        - onBoth env SEntry.isChecksum c.slist)
      ↔ onBoth env (SEntry.between 0x28 0x2F) c.slist
        = onBoth env (fun s => 0x30 < s.ecid) c.slist := by
  obtain ⟨hdata, hchksum⟩ := limits_of_jobMode h hkeep hec hlabels
  have hcount := @onBoth_isChksumPart env c.slist
  constructor
  · rintro ⟨_, hsame, _, _⟩
    omega
  intro hbal
  have hsame : onBoth env isChksumPart c.slist = onBoth env SEntry.isChecksum c.slist := by omega
  exact ⟨rfl, hsame, hdata, hsame ▸ hchksum⟩

/-- Twenty servers, all of them connected, that match both labels. -/
def twentyServers : JobEnv :=
  { now := 1, extrajob := 0, valid := fun _ => true, scount := 20, replservers := 20
    replock := false, dontdelete := false, sent := fun _ => false, labelsMode := fun _ => .std
    counts := fun _ => ⟨20, 20, 0, 0, 0, 0, 20, 20⟩, labelled := fun _ _ _ => true
    endanger := fun _ => 0, shouldBlock := fun _ => false, stopJobs := false
    oneCopyEmpty := true, reads := fun _ => true, lessrepl := [], ordered := []
    groupOk := [], groupOverloaded := [], groupLimited := [], canSplit := fun _ => false
    splitSent := false, replSent := fun _ _ => false, hasSource := fun _ => false
    advancedMatch := fun _ _ => ⟨fun _ => none, fun _ => none⟩
    extendedMatch := fun _ _ _ => false, useTopology := false, availSpace := fun _ => true
    noRebalance := true, rebalance := fun _ _ => none }

/-- An archive class with a code and two labels. -/
def twoLabels (parts : UInt8) : SClassTab :=
  { tab := fun _ => { SClassTab.blank with arch := ⟨2, parts, true⟩ }
    maxECRedundancyLevel := 9 }

/-- A file's chunk of version 5 in the archive, with the parts `first`, `first+1`, … on as many
servers. -/
def partsOf (state : Valid) (version first count : Nat) : Chunk :=
  { chunkNew with
    version := 5, sclassid := 1, archFlag := true, fhead := .few 1
    slist := (List.range count).map fun i => ⟨i + 1, state, first + i, version⟩ }

/-- Data parts only. -/
theorem both_label_limits_data : ∃ m ∈ jobMode twentyServers (twoLabels 0x81)
    (partsOf .valid 5 0x20 8), m.dataLimit = 10 := by
  obtain ⟨m, hm, hkeep, hsm⟩ : ∃ m ∈ jobMode twentyServers (twoLabels 0x81)
    (partsOf .valid 5 0x20 8), m.usekeep = 0 ∧ m.sm = ⟨2, 0x81, true⟩ :=
    ⟨_, rfl, by decide, by decide⟩
  have h := (both_label_limits_iff hm hkeep (by rw [hsm]; decide) (by rw [hsm])).mpr (by decide)
  refine ⟨m, hm, ?_⟩
  rw [h.2.2.1, hsm]
  decide

/-- All nine parts: the checksum part `0x28` is not counted. -/
theorem both_label_limits_miss : ∃ m ∈ jobMode twentyServers (twoLabels 0x81)
      (partsOf .valid 5 0x20 9), m.usekeep = 0 ∧ m.sm = ⟨2, 0x81, true⟩ ∧ m.chksumLimit = 11
    ∧ onBoth twentyServers SEntry.isChecksum (partsOf .valid 5 0x20 9).slist = 1 :=
  ⟨_, rfl, by decide, by decide, by decide, by decide⟩

end MfsMaster
