/-
  MfsMaster.Pattern.Store
  **STORING AND LOADING THE CREATION PATTERNS** (`patterns_store`, `patterns_load`).

  The records of the patterns follow each other, and a record without name and for any
  user and group ends them.  A record is put together in a buffer that is a byte too short
  for the longest names.  The loader refuses to go on with `PATTERNS_MAX` patterns before it
  looks for the last record, so a full table does not come back:

      patternsStore_eq         — which tables are written within the buffer
      patternsLoad_stream      — what is loaded from a table that is not full
      patternsLoad_full        — a full table is refused
-/
import MfsMaster.Lib.Pack
import MfsMaster.Pattern.Table

namespace MfsMaster

open Lib (Reader)
open Lib.Reader

/-! ## §1. The stream. -/

/-- The record of a pattern. -/
def patternBytes (p : PatternEntry) : List UInt8 :=
  put8bit (UInt8.ofNat p.gname.val.length) ++ put32bit p.euid ++ put32bit p.egid
    ++ put8bit p.priority ++ put8bit p.omask ++ put8bit p.scid ++ put16bit p.trashretention
    ++ put8bit p.seteattr ++ put8bit p.clreattr ++ p.gname.val

/-- The record that ends the patterns. -/
def patternsEnd : List UInt8 := put8bit 0 ++ put32bit patternEugidAny ++ put32bit patternEugidAny

/-- The size of `databuff` in `patterns_store`. -/
def patternsDatabuff : Nat := 256 + 4 + 4 + 1 + 1 + 1 + 2 + 1

/-- What `patterns_store` writes to the file. -/
def patternsStream (t : PatternTab) : List UInt8 := (t.map patternBytes).flatten ++ patternsEnd

/-- `patterns_store`; `none` stands for a record that is written past the end of `databuff`. -/
def patternsStore (t : PatternTab) : Option (List UInt8) :=
  if ∀ p ∈ t, (patternBytes p).length ≤ patternsDatabuff then some (patternsStream t) else none

/-- A name of `n` bytes. -/
def getName (n : UInt8) : Reader NameBytes := fun s =>
  if n.toNat ≤ s.length then
    some (⟨s.take n.toNat, (List.length_take_le _ _).trans (Nat.le_of_lt_succ n.toNat_lt)⟩,
      s.drop n.toNat)
  else none

/-- `bio_skip`. -/
def skipBytes (n : Nat) : Reader Unit := fun s => some ((), s.drop n)

/-- The rest of a record after its first three fields. -/
def getPattern (mver : Nat) (gnleng : UInt8) (euid egid : UInt32) : Reader PatternEntry := do
  let priority ← get8bit
  let omask ← get8bit
  let scid ← get8bit
  let trashretention ← get16bit
  let seteattr ← get8bit
  let clreattr ← if mver = 0x10 then pure 0 else get8bit
  let gname ← getName gnleng
  pure ⟨gname, euid, egid, priority, omask, scid, trashretention, seteattr, clreattr⟩

/-- One round of the loop of `patterns_load`, with `i` records behind it. -/
def patternsLoadRound (mver : Nat) (ignoreflag : Bool) (st : Nat × PatternTab) :
    Reader ((Nat × PatternTab) ⊕ PatternTab) :=
  if patternsMax ≤ st.1 ∧ !ignoreflag then refused
  else do
    let gnleng ← get8bit
    let euid ← get32bit
    let egid ← get32bit
    if gnleng = 0 ∧ euid = patternEugidAny ∧ egid = patternEugidAny then pure (.inr st.2)
    else if st.1 < patternsMax then do
      let p ← getPattern mver gnleng euid egid
      pure (.inl (st.1 + 1, st.2 ++ [p]))
    else do
      skipBytes ((if mver = 0x10 then 6 else 7) + gnleng.toNat)
      pure (.inl (st.1 + 1, st.2))

/-- `patterns_load`; `none` stands for -1. -/
def patternsLoad (q : Sorter) (mver : Nat) (ignoreflag : Bool) (stream : List UInt8) :
    Option PatternTab :=
  if 0x11 < mver then none
  else (loopAll (patternsLoadRound mver ignoreflag) (0, []) stream).bind fun r =>
    patternsHaveChanged q r.1 r.1

/-- The names that fit into the buffer. -/
theorem patternsStore_eq (t : PatternTab) : patternsStore t
      = if ∀ p ∈ t, p.gname.val.length ≤ 254 then some (patternsStream t) else none := by
  have hleng : ∀ p : PatternEntry,
      (patternBytes p).length ≤ patternsDatabuff ↔ p.gname.val.length ≤ 254 := by
    intro p
    have hlength : (patternBytes p).length = 16 + p.gname.val.length := by
      unfold patternBytes
      rw [List.length_append]
      rfl
    rw [hlength]
    unfold patternsDatabuff
    omega
  unfold patternsStore
  simp only [hleng]

/-! ## §2. What is read back. -/

theorem reads_getName {name : NameBytes} :
    (getName (UInt8.ofNat name.val.length)).Reads name.val name := by
  intro rest
  have hlen : (UInt8.ofNat name.val.length).toNat = name.val.length :=
    UInt8.toNat_ofNat_of_lt' (Nat.lt_succ_of_le name.property)
  unfold getName
  simp only [hlen]
  rw [if_pos (by rw [List.length_append]; omega)]
  simp only [List.take_left, List.drop_left]

variable {p : PatternEntry} {t : PatternTab}

theorem reads_getPattern :
    (getPattern 0x11 (UInt8.ofNat p.gname.val.length) p.euid p.egid).Reads
      (put8bit p.priority ++ (put8bit p.omask ++ (put8bit p.scid ++ (put16bit p.trashretention
        ++ (put8bit p.seteattr ++ (put8bit p.clreattr ++ p.gname.val)))))) p := by
  refine (reads_get8bit _).bind ?_
  refine (reads_get8bit _).bind ?_
  refine (reads_get8bit _).bind ?_
  refine reads_get16bit.bind ?_
  refine (reads_get8bit _).bind ?_
  refine Reads.bind (a := p.clreattr) (reads_get8bit _) ?_
  exact reads_getName.map _

/-- A round reads a pattern that has a name. -/
theorem reads_round (hname : p.gname.val ≠ []) {i : Nat} (hi : i < patternsMax) :
    (patternsLoadRound 0x11 false (i, t)).Reads (patternBytes p) (.inl (i + 1, t ++ [p])) := by
  have hleng : UInt8.ofNat p.gname.val.length ≠ 0 := by
    intro hzero
    have hmod := congrArg UInt8.toNat hzero
    rw [UInt8.toNat_ofNat_of_lt' (Nat.lt_succ_of_le p.gname.property)] at hmod
    exact hname (List.length_eq_zero_iff.mp hmod)
  unfold patternsLoadRound patternBytes
  rw [if_neg fun h => absurd h.1 (Nat.not_le.mpr hi)]
  simp only [List.append_assoc]
  refine (reads_get8bit _).bind ?_
  refine (reads_get32bit _).bind ?_
  refine (reads_get32bit _).bind ?_
  rw [if_neg fun h => hleng h.1, if_pos hi]
  exact reads_getPattern.map _

theorem reads_patternsEnd {i : Nat} (hi : i < patternsMax) :
    (patternsLoadRound 0x11 false (i, t)).Reads patternsEnd (.inr t) := by
  unfold patternsLoadRound patternsEnd
  rw [if_neg fun h => absurd h.1 (Nat.not_le.mpr hi)]
  simp only [List.append_assoc]
  refine (reads_get8bit _).bind ?_
  refine (reads_get32bit _).bind ?_
  have hlast := (reads_get32bit patternEugidAny).map
    fun _ => (Sum.inr t : (Nat × PatternTab) ⊕ PatternTab)
  exact hlast

/-! ## §3. Tables. -/

/-- What every table keeps. -/
structure PatternTab.Wf (t : PatternTab) : Prop where
  acceptable : ∀ p ∈ t, p.acceptable = true
  made : ∀ p ∈ t, (globNew p.gname).isSome = true
  keys : (t.map PatternEntry.key).Nodup
  fits : t.length ≤ patternsMax

theorem PatternTab.Wf.perm {t' : PatternTab} (h : t.Wf) (hperm : t'.Perm t) : t'.Wf where
  acceptable := fun p hp => h.acceptable p (hperm.mem_iff.mp hp)
  made := fun p hp => h.made p (hperm.mem_iff.mp hp)
  keys := (hperm.map PatternEntry.key).nodup_iff.mpr h.keys
  fits := hperm.length_eq ▸ h.fits

theorem PatternTab.Wf.filter (h : t.Wf) {keep : PatternEntry → Bool} :
    PatternTab.Wf (t.filter keep) where
  acceptable := fun p hp => h.acceptable p (List.mem_filter.mp hp).1
  made := fun p hp => h.made p (List.mem_filter.mp hp).1
  keys := h.keys.sublist (List.filter_sublist.map _)
  fits := (List.length_filter_le _ _).trans h.fits

theorem PatternEntry.name_ne_nil (h : p.acceptable = true) : p.gname.val ≠ [] := by
  intro hnil
  unfold PatternEntry.acceptable at h
  rw [hnil] at h
  cases h

/-- The state of the loader after one more pattern. -/
def patternRead (st : Nat × PatternTab) (p : PatternEntry) : Nat × PatternTab :=
  (st.1 + 1, st.2 ++ [p])

/-- A record is accepted while there is room. -/
def patternAccept (st : Nat × PatternTab) (p : PatternEntry) : Option (Nat × PatternTab) :=
  if st.1 < patternsMax then some (patternRead st p) else none

/-- The rounds of the loader over the records of a table. -/
theorem foldlM_patternAccept {i : Nat} {before : PatternTab} (hfits : i + t.length ≤ patternsMax) :
    t.foldlM patternAccept (i, before) = some (i + t.length, before ++ t) := by
  induction t generalizing i before with
  | nil => rw [List.append_nil]; rfl
  | cons p t ih =>
    rw [List.length_cons] at hfits ⊢
    rw [List.foldlM_cons, patternAccept, if_pos (show i < patternsMax by omega)]
    refine (ih (show i + 1 + t.length ≤ patternsMax by omega)).trans ?_
    rw [List.append_assoc, Nat.add_right_comm]
    rfl

section
variable {t : PatternTab} (h : t.Wf)
include h

theorem patternBytes_ne_nil : ∀ p ∈ t, patternBytes p ≠ [] := by
  intro p hp hnil
  have hlen := congrArg List.length hnil
  unfold patternBytes at hlen
  simp only [List.length_append, List.length_nil] at hlen
  exact PatternEntry.name_ne_nil (h.acceptable p hp) (List.length_eq_zero_iff.mp (by omega))

theorem reads_rounds : ∀ st p st', p ∈ t → patternAccept st p = some st' →
    (patternsLoadRound 0x11 false st).Reads (patternBytes p) (.inl st') := by
  intro st p st' hp hst
  unfold patternAccept at hst
  split at hst
  next hi =>
    cases hst
    exact reads_round (PatternEntry.name_ne_nil (h.acceptable p hp)) hi
  · cases hst

/-- Every record of the table is accepted. -/
theorem accepted_all : t.foldlM patternAccept (0, []) = some (t.length, t) :=
  (foldlM_patternAccept (by rw [Nat.zero_add]; exact h.fits)).trans (by rw [Nat.zero_add]; rfl)

/-- What is loaded from a table that is not full. -/
theorem patternsLoad_stream {q : Sorter} (hroom : t.length < patternsMax) :
    patternsLoad q 0x11 false (patternsStream t) = some (q.sort t) := by
  have hread : (loopAll (patternsLoadRound 0x11 false) (0, [])).Reads (patternsStream t) t :=
    loopAll_accepted (reads_rounds h) (accepted_all h) (patternBytes_ne_nil h)
      (reads_patternsEnd hroom)
  have hall := hread []
  rw [List.append_nil] at hall
  unfold patternsLoad
  rw [if_neg (by decide), hall]
  show patternsHaveChanged q t t = _
  unfold patternsHaveChanged
  rw [if_pos (List.all_eq_true.mpr h.made)]

/-- **A full table is refused**: its last record is never looked at. -/
theorem patternsLoad_full {q : Sorter} (hfull : t.length = patternsMax) :
    patternsLoad q 0x11 false (patternsStream t) = none := by
  obtain ⟨fuel, hafter⟩ := loopAll_after (reads_rounds h) (accepted_all h) (patternBytes_ne_nil h)
  unfold patternsLoad patternsStream
  rw [if_neg (by decide), hafter]
  show (patternsLoadRound 0x11 false (t.length, t) patternsEnd).bind _ >>= _ = none
  unfold patternsLoadRound
  rw [if_pos ⟨hfull.ge, rfl⟩]
  rfl

end

end MfsMaster
