/-
  MfsMaster.Chunk.Files
  **THE FILES OF A CHUNK** (`chunk_add_file`, `chunk_delete_file`,
  `chunk_change_file`) and the ARCH/TRASH flags.

  A chunk counts the files it belongs to by storage class, in a packed form: up to
  four files of one class are a plain number, everything else is a list of counters.
  `Chunk.refs c k` is the number of files of class `k`; the theorems say what the three
  operations do to it.  Where the C code stops the master (`massert`), the model
  leaves the chunk as it is: `refs` says when that happens.
-/
import Mathlib
import MfsMaster.Chunk.Types

namespace MfsMaster

open Chunk

/-! ## §1. References. -/

/-- The number of files of class `k` in a list of counters. -/
def refsIn (k : Nat) (l : List FRef) : Nat :=
  (l.map fun r => if r.sclassid = k then r.fcount else 0).sum

@[simp] theorem refsIn_nil (k : Nat) : refsIn k [] = 0 := rfl

@[simp] theorem refsIn_cons (k : Nat) (r : FRef) (l : List FRef) :
    refsIn k (r :: l) = (if r.sclassid = k then r.fcount else 0) + refsIn k l := rfl

/-- The number of files of class `k` a file list stands for. -/
def FHead.refs (sclassid k : Nat) : FHead → Nat
  | .few n => if sclassid = k then n else 0
  | .many l => refsIn k l

/-- The number of files of class `k` the chunk belongs to. -/
def Chunk.refs (c : Chunk) (k : Nat) : Nat :=
  c.fhead.refs c.sclassid k

theorem Chunk.refs_newSclass (c : Chunk) (sclassid k : Nat) :
    (c.newSclass sclassid).refs k = c.fhead.refs sclassid k := rfl

variable {c : Chunk} {l : List FRef} {sclassid : Nat} {l' : List FRef}

theorem Chunk.refs_of_empty (h : c.fhead = .few 0) {k : Nat} : c.refs k = 0 := by
  unfold refs
  rw [h]
  exact ite_self 0

/-- `c->fhead>FLISTONEFILEINDX`: the chunk belongs to more than one file. -/
def FHead.shared : FHead → Bool
  | .few n => 1 < n
  | .many _ => true

/-! ## §2. The class of a chunk. -/

section Class

variable (tab : SClassTab)

/-- The class with the highest joining priority in a list, 0 for the empty one. -/
def bestClass (l : List FRef) : Nat :=
  (l.foldl (fun (b : Nat × Nat) r =>
    let pri := tab.sclassGetJoiningPriority r.sclassid
    if b.2 < pri then (r.sclassid, pri) else b) (0, 0)).1

/-- `chunk_compact_and_find_sclassid`: a list of one counter becomes a number when it is
small enough; the new class of the chunk is returned. -/
def chunkCompactAndFindSclassid (sclassid : Nat) : FHead → FHead × Nat
  | .few n => (.few n, if n = 0 then 0 else sclassid)
  | .many [] => (.few 0, 0)
  | .many [r] =>
    (if r.fcount < flistFirstIndx then .few r.fcount else .many [r], r.sclassid)
  | .many l => (.many l, bestClass tab l)

/-- The chunk with a new file list, its class recomputed. -/
def Chunk.setFiles (c : Chunk) (f : FHead) : Chunk :=
  let r := chunkCompactAndFindSclassid tab c.sclassid f
  { c with fhead := r.1 }.newSclass r.2

/-! ## §3. The three operations. -/

/-- One pass of `chunk_add_file_int`: the first counter of the class that is not full. -/
def addLoop (sclassid : Nat) : List FRef → Option (List FRef)
  | [] => none
  | r :: l =>
    if r.sclassid = sclassid ∧ r.fcount < flistMaxFcount then
      some ({ r with fcount := r.fcount + 1 } :: l)
    else (addLoop sclassid l).map (r :: ·)

/-- `chunk_add_file_int`. -/
def chunkAddFileInt (c : Chunk) (sclassid : Nat) : Chunk :=
  match c.fhead with
  | .few n =>
    if n = 0 then { c with fhead := .few 1 }.newSclass sclassid
    else if n < flistFirstIndx - 1 then
      if sclassid = c.sclassid then { c with fhead := .few (n + 1) }
      else c.setFiles tab (.many [⟨n, c.sclassid⟩, ⟨1, sclassid⟩])
    else
      let l := [⟨n, c.sclassid⟩]
      c.setFiles tab (.many ((addLoop sclassid l).getD (⟨1, sclassid⟩ :: l)))
  | .many l => c.setFiles tab (.many ((addLoop sclassid l).getD (⟨1, sclassid⟩ :: l)))

/-- One pass of `chunk_delete_file_int`: the first counter of the class, which disappears
when it was 1. -/
def deleteLoop (sclassid : Nat) : List FRef → Option (List FRef)
  | [] => none
  | r :: l =>
    if r.sclassid = sclassid then
      some (if 1 < r.fcount then { r with fcount := r.fcount - 1 } :: l else l)
    else (deleteLoop sclassid l).map (r :: ·)

/-- `chunk_delete_file_int` with `delete_timeout = 0`. -/
def chunkDeleteFileInt (c : Chunk) (sclassid : Nat) : Status × Chunk :=
  match c.fhead with
  | .few n =>
    if n = 0 then (.chunklost, c)
    -- massert(sclassid==c->sclassid)
    else if sclassid ≠ c.sclassid then (.chunklost, c)
    else if n = 1 then (.ok, { c with fhead := .few 0 }.newSclass 0)
    else (.ok, { c with fhead := .few (n - 1) })
  | .many l =>
    match deleteLoop sclassid l with
    | none => (.chunklost, c) -- massert(flags==1)
    | some l' => (.ok, c.setFiles tab (.many l'))

theorem slist_chunkDeleteFileInt :
    (chunkDeleteFileInt tab c sclassid).2.slist = c.slist := by
  unfold chunkDeleteFileInt
  split
  · split
    · rfl
    split
    · rfl
    split <;> rfl
  · split <;> rfl

/-- The pass of `chunk_change_file`; the flags say whether `newsclassid` was counted up and
whether `prevsclassid` was counted down. -/
def changeLoop (prev new : Nat) : List FRef → Bool → Bool → List FRef × Bool × Bool
  | [], up, down => ([], up, down)
  | r :: l, up, down =>
    if up && down then (r :: l, up, down)
    else if r.sclassid = prev ∧ down = false then
      let rest := changeLoop prev new l up true
      (if 1 < r.fcount then { r with fcount := r.fcount - 1 } :: rest.1 else rest.1, rest.2)
    else if r.sclassid = new ∧ r.fcount < flistMaxFcount ∧ up = false then
      let rest := changeLoop prev new l true down
      ({ r with fcount := r.fcount + 1 } :: rest.1, rest.2)
    else
      let rest := changeLoop prev new l up down
      (r :: rest.1, rest.2)

/-- `chunk_change_file` on an existing chunk, for `prevsclassid != newsclassid`. -/
def chunkChangeFileInt (c : Chunk) (prev new : Nat) : Status × Chunk :=
  match c.fhead with
  | .few n =>
    if n = 0 then (.chunklost, c)
    else if n = 1 then (.ok, c.newSclass new)
    -- massert(prevsclassid==c->sclassid)
    else if prev ≠ c.sclassid then (.chunklost, c)
    else (.ok, c.setFiles tab (.many [⟨n - 1, c.sclassid⟩, ⟨1, new⟩]))
  | .many l =>
    let r := changeLoop prev new l false false
    if r.2.2 = false then (.chunklost, c) -- massert(flags&2)
    else
      let l' := if r.2.1 then r.1 else ⟨1, new⟩ :: r.1
      (.ok, c.setFiles tab (.many l'))

/-- `chunk_recalc_sclassid`: the priorities of the classes may have changed. -/
def chunkRecalcSclassid (c : Chunk) : Chunk :=
  match c.fhead with
  | .few _ => c
  | .many l =>
    -- massert(sclassid>0)
    if bestClass tab l = 0 then c else c.newSclass (bestClass tab l)

end Class

/-! ## §4. Flags. -/

/-- `chunk_set_archflag` on an existing chunk; `true` when the flag changed. -/
def chunkSetArchflagInt (c : Chunk) (archflag : Bool) : Chunk × Bool :=
  (c.newFlags archflag c.trashFlag, c.archFlag != archflag)

/-- `chunk_set_trashflag` on an existing chunk. -/
def chunkSetTrashflagInt (c : Chunk) (trashflag : Bool) : Status × Chunk :=
  if trashflag && c.fhead.shared then (.notdone, c)
  else (.ok, c.newFlags c.archFlag trashflag)

/-- `chunk_set_autoarch` on an existing chunk; the flags say which of `archflagchanged` and
`trashflagchanged` is counted up. -/
def chunkSetAutoarchInt (c : Chunk) (archreftime : UInt32) (intrash : Bool) : Chunk × Bool × Bool :=
  let arch := c.lockedto < archreftime && !c.archFlag
  let trash := (!intrash || c.fhead.shared) && c.trashFlag
  (c.newFlags (c.archFlag || arch) (c.trashFlag && !trash), arch, trash)

/-- `chunk_mr_flagsclr` on an existing chunk. -/
def chunkMrFlagsclr (c : Chunk) (ts : UInt32) : Chunk :=
  if ts ≤ c.lockedto then c else chunkStateSetFlags c false false

/-! ## §5. What the operations do to the references. -/

/-- No counter of a file list is 0. -/
def FHead.Wf : FHead → Prop
  | .few _ => True
  | .many l => ∀ r ∈ l, 0 < r.fcount

/-- The file list of the chunk has no empty counter. -/
def Chunk.FilesWf (c : Chunk) : Prop := c.fhead.Wf

section Refs

variable (tab : SClassTab)

variable {r : FRef} {P : FRef → Prop} {prev new : Nat}

theorem refs_setFiles {f : FHead} {k : Nat} :
    (c.setFiles tab f).refs k = f.refs c.sclassid k := by
  show (chunkCompactAndFindSclassid tab c.sclassid f).1.refs
    (chunkCompactAndFindSclassid tab c.sclassid f).2 k = _
  cases f with
  | few n =>
    by_cases hn : n = 0
    · simp [chunkCompactAndFindSclassid, FHead.refs, hn]
    · simp [chunkCompactAndFindSclassid, FHead.refs, hn]
  | many l =>
    match l with
    | [] =>
      show (if 0 = k then 0 else 0) = 0
      split <;> rfl
    | [r] =>
      simp only [chunkCompactAndFindSclassid]
      split
      · simp [FHead.refs]
      · rfl
    | r :: r' :: l => rfl

theorem filesWf_setFiles {f : FHead} (hf : f.Wf) : (c.setFiles tab f).FilesWf := by
  unfold setFiles Chunk.FilesWf
  match f with
  | .few _ => trivial
  | .many [] => trivial
  | .many [r] =>
    simp only [chunkCompactAndFindSclassid]
    split
    · trivial
    · exact hf
  | .many (_ :: _ :: _) => exact hf

theorem refsIn_raise (k : Nat) (r : FRef) (l : List FRef) :
    refsIn k ({ r with fcount := r.fcount + 1 } :: l)
      = refsIn k (r :: l) + if k = r.sclassid then 1 else 0 := by
  simp only [refsIn_cons]
  by_cases hk : k = r.sclassid
  · rw [if_pos hk.symm, if_pos hk.symm, if_pos hk]
    omega
  · rw [if_neg (Ne.symm hk), if_neg (Ne.symm hk), if_neg hk]
    omega

/-- One file less; a counter of 1 disappears. -/
theorem refsIn_lower (k : Nat) (hr : 0 < r.fcount) (l : List FRef) :
    refsIn k (if 1 < r.fcount then { r with fcount := r.fcount - 1 } :: l else l)
      + (if k = r.sclassid then 1 else 0) = refsIn k (r :: l) := by
  rw [refsIn_cons]
  by_cases hk : k = r.sclassid
  · rw [if_pos hk, if_pos hk.symm]
    split
    · rw [refsIn_cons, if_pos hk.symm]
      dsimp only
      omega
    · omega
  · rw [if_neg hk, if_neg (Ne.symm hk)]
    split
    · rw [refsIn_cons, if_neg (Ne.symm hk)]
      omega
    · omega

theorem refsIn_addLoop (h : addLoop sclassid l = some l')
    {k : Nat} : refsIn k l' = refsIn k l + if k = sclassid then 1 else 0 := by
  induction l generalizing l' with
  | nil => cases h
  | cons r l ih =>
    unfold addLoop at h
    split at h
    next hr =>
      cases h
      rw [← hr.1]
      exact refsIn_raise k r l
    · obtain ⟨rest, hrest, rfl⟩ := Option.map_eq_some_iff.mp h
      rw [refsIn_cons, refsIn_cons, ih hrest]
      omega

/-- What survives counting up and down holds of every counter. -/
structure Steady (P : FRef → Prop) : Prop where
  up : ∀ r : FRef, P r → r.fcount < flistMaxFcount → P { r with fcount := r.fcount + 1 }
  down : ∀ r : FRef, P r → 1 < r.fcount → P { r with fcount := r.fcount - 1 }

theorem steady_pos : Steady fun r => 0 < r.fcount :=
  ⟨fun _ _ _ => Nat.succ_pos _, fun _ _ h => Nat.sub_pos_of_lt h⟩

theorem Steady.addLoop (hP : Steady P) (h : addLoop sclassid l = some l')
    (hl : ∀ r ∈ l, P r) : ∀ r ∈ l', P r := by
  induction l generalizing l' with
  | nil => cases h
  | cons r l ih =>
    obtain ⟨hr, hl⟩ := List.forall_mem_cons.mp hl
    unfold MfsMaster.addLoop at h
    split at h
    next hs =>
      cases h
      exact List.forall_mem_cons.mpr ⟨hP.up r hr hs.2, hl⟩
    · obtain ⟨rest, hrest, rfl⟩ := Option.map_eq_some_iff.mp h
      exact List.forall_mem_cons.mpr ⟨hr, ih hrest hl⟩

theorem Steady.lower (hP : Steady P) (hr : P r) (hl : ∀ r ∈ l, P r) :
    ∀ r' ∈ if 1 < r.fcount then { r with fcount := r.fcount - 1 } :: l else l, P r' := by
  split
  next h => exact List.forall_mem_cons.mpr ⟨hP.down r hr h, hl⟩
  · exact hl

theorem Steady.deleteLoop (hP : Steady P)
    (h : deleteLoop sclassid l = some l') (hl : ∀ r ∈ l, P r) : ∀ r ∈ l', P r := by
  induction l generalizing l' with
  | nil => cases h
  | cons r l ih =>
    obtain ⟨hr, hl⟩ := List.forall_mem_cons.mp hl
    unfold MfsMaster.deleteLoop at h
    split at h
    · cases h
      exact hP.lower hr hl
    · obtain ⟨rest, hrest, rfl⟩ := Option.map_eq_some_iff.mp h
      exact List.forall_mem_cons.mpr ⟨hr, ih hrest hl⟩

theorem Steady.changeLoop (hP : Steady P) (hl : ∀ r ∈ l, P r)
    (up down : Bool) : ∀ r ∈ (changeLoop prev new l up down).1, P r := by
  induction l generalizing up down with
  | nil => exact hl
  | cons r l ih =>
    obtain ⟨hr, hl'⟩ := List.forall_mem_cons.mp hl
    unfold MfsMaster.changeLoop
    split
    · exact hl
    split
    · exact hP.lower hr (ih hl' _ _)
    split
    next hnew => exact List.forall_mem_cons.mpr ⟨hP.up r hr hnew.2.1, ih hl' _ _⟩
    · exact List.forall_mem_cons.mpr ⟨hr, ih hl' _ _⟩

/-- The list `chunk_add_file_int` leaves: a counter was raised, or there is a new one. -/
theorem refsIn_addOrNew (sclassid : Nat) (l : List FRef) (k : Nat) :
    refsIn k ((addLoop sclassid l).getD (⟨1, sclassid⟩ :: l))
      = refsIn k l + if k = sclassid then 1 else 0 := by
  cases h : addLoop sclassid l with
  | none =>
    rw [Option.getD_none, refsIn_cons]
    by_cases hk : k = sclassid
    · subst hk
      simp only [if_true]
      omega
    · simp [hk, Ne.symm hk]
  | some l' => exact refsIn_addLoop h

theorem Steady.addOrNew (hP : Steady P) (hnew : P ⟨1, sclassid⟩)
    (hl : ∀ r ∈ l, P r) : ∀ r ∈ (MfsMaster.addLoop sclassid l).getD (⟨1, sclassid⟩ :: l), P r := by
  cases h : MfsMaster.addLoop sclassid l with
  | none => exact List.forall_mem_cons.mpr ⟨hnew, hl⟩
  | some l' => exact hP.addLoop h hl

/-- `chunk_add_file_int` adds one reference. -/
theorem refs_chunkAddFileInt {k : Nat} :
    (chunkAddFileInt tab c sclassid).refs k = c.refs k + if k = sclassid then 1 else 0 := by
  unfold chunkAddFileInt
  cases hf : c.fhead with
  | few n =>
    have hc : c.refs k = if c.sclassid = k then n else 0 := by
      unfold refs
      rw [hf]
      rfl
    dsimp only
    by_cases hn : n = 0
    · rw [if_pos hn, hc, hn, refs_newSclass]
      simp [FHead.refs, eq_comm]
    rw [if_neg hn]
    split
    · split
      next hs =>
        subst hs
        rw [hc]
        by_cases hk : k = c.sclassid
        · simp [refs, FHead.refs, hk]
        · simp [refs, FHead.refs, hk, Ne.symm hk]
      next hs =>
        rw [refs_setFiles, hc]
        simp [FHead.refs, eq_comm]
    · rw [refs_setFiles, hc]
      simp only [FHead.refs, refsIn_addOrNew, refsIn_cons, refsIn_nil, Nat.add_zero]
  | many l =>
    rw [refs_setFiles]
    simp only [FHead.refs, refsIn_addOrNew, refs, hf]

theorem filesWf_chunkAddFileInt (hc : c.FilesWf) : (chunkAddFileInt tab c sclassid).FilesWf := by
  unfold chunkAddFileInt
  unfold Chunk.FilesWf at hc
  cases hf : c.fhead with
  | few n =>
    dsimp only
    by_cases hn : n = 0
    · rw [if_pos hn]
      trivial
    have hone : (FHead.many [⟨n, c.sclassid⟩]).Wf := by
      intro r hr
      rw [List.mem_singleton.mp hr]
      exact Nat.pos_of_ne_zero hn
    rw [if_neg hn]
    split
    · split
      · trivial
      refine filesWf_setFiles tab (List.forall_mem_cons.mpr ⟨Nat.pos_of_ne_zero hn, ?_⟩)
      intro r hr
      rw [List.mem_singleton.mp hr]
      exact Nat.one_pos
    · exact filesWf_setFiles tab (steady_pos.addOrNew Nat.one_pos hone)
  | many l =>
    rw [hf] at hc
    exact filesWf_setFiles tab (steady_pos.addOrNew Nat.one_pos hc)

/-- The pass that counts a class down finds it when it is counted at all. -/
theorem deleteLoop_spec (hl : (FHead.many l).Wf) (hpos : 0 < refsIn sclassid l) :
    ∃ l', deleteLoop sclassid l = some l'
      ∧ ∀ k, refsIn k l' + (if k = sclassid then 1 else 0) = refsIn k l := by
  induction l with
  | nil => exact absurd hpos (by simp)
  | cons r l ih =>
    obtain ⟨hr, hl⟩ := List.forall_mem_cons.mp hl
    unfold deleteLoop
    by_cases hs : r.sclassid = sclassid
    · rw [if_pos hs, ← hs]
      exact ⟨_, rfl, fun k => refsIn_lower k hr l⟩
    rw [if_neg hs]
    rw [refsIn_cons, if_neg hs, Nat.zero_add] at hpos
    obtain ⟨l', hl', hrefs⟩ := ih hl hpos
    refine ⟨r :: l', by rw [hl']; rfl, fun k => ?_⟩
    rw [refsIn_cons, refsIn_cons, Nat.add_assoc, hrefs k]

/-- A chunk without a list counts files of its own class only. -/
theorem few_of_refs_pos {n s k : Nat} (h : 0 < (FHead.few n).refs s k) : k = s ∧ 0 < n := by
  by_cases hs : s = k
  · rw [FHead.refs, if_pos hs] at h
    exact ⟨hs.symm, h⟩
  · rw [FHead.refs, if_neg hs] at h
    exact absurd h (Nat.lt_irrefl 0)

/-- `chunk_delete_file_int` takes away one reference that is there. -/
theorem chunkDeleteFileInt_spec (hc : c.FilesWf) (hpos : 0 < c.refs sclassid) :
    (chunkDeleteFileInt tab c sclassid).2.FilesWf
      ∧ ∀ k, (chunkDeleteFileInt tab c sclassid).2.refs k + (if k = sclassid then 1 else 0)
        = c.refs k := by
  unfold chunkDeleteFileInt
  unfold Chunk.FilesWf at hc
  unfold refs at hpos
  cases hf : c.fhead with
  | few n =>
    rw [hf] at hpos
    obtain ⟨hs, hn⟩ := few_of_refs_pos hpos
    dsimp only
    rw [if_neg (by omega), if_neg (not_not_intro hs)]
    split
    next h1 =>
      refine ⟨trivial, fun k => ?_⟩
      rw [refs_newSclass]
      simp only [refs, hf, FHead.refs, hs]
      by_cases hk : k = c.sclassid
      · simp [hk, h1]
      · simp [hk, Ne.symm hk]
    next h1 =>
      refine ⟨trivial, fun k => ?_⟩
      simp only [refs, hf, FHead.refs, hs]
      by_cases hk : k = c.sclassid
      · rw [if_pos hk.symm, if_pos hk.symm, if_pos hk]
        omega
      · simp [hk, Ne.symm hk]
  | many l =>
    rw [hf] at hc hpos
    obtain ⟨l', hl', hrefs⟩ := deleteLoop_spec hc hpos
    dsimp only
    rw [hl']
    refine ⟨filesWf_setFiles tab (steady_pos.deleteLoop hl' hc), fun k => ?_⟩
    rw [refs_setFiles]
    simp only [refs, hf, FHead.refs]
    exact hrefs k

theorem deleteLoop_none (hl : (FHead.many l).Wf)
    (hzero : refsIn sclassid l = 0) : deleteLoop sclassid l = none := by
  induction l with
  | nil => rfl
  | cons r l ih =>
    obtain ⟨hr, hl⟩ := List.forall_mem_cons.mp hl
    rw [refsIn_cons] at hzero
    have hs : r.sclassid ≠ sclassid := by
      intro hs
      rw [if_pos hs] at hzero
      omega
    unfold deleteLoop
    rw [if_neg hs, ih hl (by omega)]
    rfl

/-- `chunk_delete_file_int` of a class that is not counted changes nothing. -/
theorem chunkDeleteFileInt_of_refs_zero (hc : c.FilesWf)
    (hzero : c.refs sclassid = 0) : (chunkDeleteFileInt tab c sclassid).2 = c := by
  unfold chunkDeleteFileInt
  unfold Chunk.FilesWf at hc
  unfold refs at hzero
  cases hf : c.fhead with
  | few n =>
    dsimp only
    by_cases hn : n = 0
    · rw [if_pos hn]
    by_cases hs : sclassid = c.sclassid
    · rw [hf, FHead.refs, if_pos hs.symm] at hzero
      exact absurd hzero hn
    · rw [if_neg hn, if_pos hs]
  | many l =>
    rw [hf] at hc hzero
    dsimp only
    rw [deleteLoop_none hc hzero]

/-- The pass of `chunk_change_file`: what it moved, by the flags it returns. -/
theorem changeLoop_spec (hne : prev ≠ new) (hl : (FHead.many l).Wf)
    (up down : Bool) : let r := changeLoop prev new l up down
    (up = true → r.2.1 = true) ∧ (down = true → r.2.2 = true)
      ∧ (down = false → 0 < refsIn prev l → r.2.2 = true)
      ∧ ∀ k, refsIn k r.1 + (if k = prev ∧ down = false ∧ r.2.2 = true then 1 else 0)
        = refsIn k l + (if k = new ∧ up = false ∧ r.2.1 = true then 1 else 0) := by
  induction l generalizing up down with
  | nil => cases up <;> cases down <;> simp [changeLoop]
  | cons r l ih =>
    obtain ⟨hr, hl⟩ := List.forall_mem_cons.mp hl
    unfold changeLoop
    by_cases hboth : (up && down) = true
    · rw [if_pos hboth]
      rw [Bool.and_eq_true] at hboth
      simp only [hboth.1, hboth.2]
      simp
    rw [if_neg hboth]
    by_cases hprev : r.sclassid = prev ∧ down = false
    · rw [if_pos hprev]
      obtain ⟨rfl, rfl⟩ := hprev
      obtain ⟨hup, hdown, _, hrefs⟩ := ih hl up true
      have hdown := hdown rfl
      refine ⟨hup, by simp, fun _ _ => hdown, fun k => ?_⟩
      have hrefs := hrefs k
      have hlower := refsIn_lower k hr (changeLoop r.sclassid new l up true).1
      simp only [Bool.true_eq_false, false_and, and_false, if_false] at hrefs
      simp only [hdown, and_true]
      rw [refsIn_cons] at hlower ⊢
      omega
    rw [if_neg hprev]
    by_cases hnew : r.sclassid = new ∧ r.fcount < flistMaxFcount ∧ up = false
    · rw [if_pos hnew]
      obtain ⟨rfl, _, rfl⟩ := hnew
      obtain ⟨hup, hdown, hfind, hrefs⟩ := ih hl true down
      have hup := hup rfl
      refine ⟨by simp, hdown, ?_, fun k => ?_⟩
      · intro hd hpos
        rw [refsIn_cons, if_neg (Ne.symm hne), Nat.zero_add] at hpos
        exact hfind hd hpos
      have hrefs := hrefs k
      have hraise := refsIn_raise k r (changeLoop prev r.sclassid l true down).1
      simp only [Bool.true_eq_false, false_and, and_false, if_false] at hrefs
      simp only [hup, and_true]
      rw [refsIn_cons k r] at hraise ⊢
      omega
    rw [if_neg hnew]
    obtain ⟨hup, hdown, hfind, hrefs⟩ := ih hl up down
    refine ⟨hup, hdown, ?_, fun k => ?_⟩
    · intro hd hpos
      rw [refsIn_cons, if_neg fun hs => hprev ⟨hs, hd⟩, Nat.zero_add] at hpos
      exact hfind hd hpos
    · rw [refsIn_cons, refsIn_cons, Nat.add_assoc, hrefs k, Nat.add_assoc]

/-- `chunk_change_file` moves one reference that is there to the other class. -/
theorem chunkChangeFileInt_spec (hc : c.FilesWf) (hne : prev ≠ new) (hpos : 0 < c.refs prev) :
    (chunkChangeFileInt tab c prev new).2.FilesWf
      ∧ ∀ k, (chunkChangeFileInt tab c prev new).2.refs k + (if k = prev then 1 else 0)
        = c.refs k + if k = new then 1 else 0 := by
  unfold chunkChangeFileInt
  unfold Chunk.FilesWf at hc
  unfold refs at hpos
  cases hf : c.fhead with
  | few n =>
    rw [hf] at hpos
    obtain ⟨hs, hn⟩ := few_of_refs_pos hpos
    dsimp only
    rw [if_neg (by omega)]
    split
    next h1 =>
      refine ⟨hc, fun k => ?_⟩
      rw [refs_newSclass]
      simp only [refs, hf, FHead.refs, h1, hs]
      simp only [eq_comm (a := k)]
      omega
    next h1 =>
      rw [if_neg (not_not_intro hs)]
      refine ⟨filesWf_setFiles tab ?_, fun k => ?_⟩
      · refine List.forall_mem_cons.mpr ⟨by dsimp only; omega, fun r hr => ?_⟩
        rw [List.mem_singleton.mp hr]
        exact Nat.one_pos
      rw [refs_setFiles]
      simp only [refs, hf, FHead.refs, refsIn_cons, refsIn_nil, hs]
      simp only [eq_comm (a := k)]
      by_cases hk : c.sclassid = k
      · rw [if_pos hk, if_pos hk, if_pos hk]
        omega
      · rw [if_neg hk, if_neg hk, if_neg hk]
        omega
  | many l =>
    rw [hf] at hc hpos
    have hwf : ∀ r ∈ (changeLoop prev new l false false).1, 0 < r.fcount :=
      steady_pos.changeLoop hc false false
    obtain ⟨_, _, hfind, hrefs⟩ := changeLoop_spec hne hc false false
    have hdown := hfind rfl hpos
    dsimp only
    rw [if_neg (by rw [hdown]; decide)]
    refine ⟨filesWf_setFiles tab ?_, fun k => ?_⟩
    · split
      · exact hwf
      · exact List.forall_mem_cons.mpr ⟨Nat.one_pos, hwf⟩
    rw [refs_setFiles]
    have hrefs := hrefs k
    simp only [hdown, and_true, true_and] at hrefs
    simp only [refs, hf, FHead.refs]
    by_cases hup : (changeLoop prev new l false false).2.1 = true
    · simp only [hup, and_true, if_true] at hrefs ⊢
      exact hrefs
    simp only [hup, Bool.false_eq_true, and_false, if_false, Nat.add_zero] at hrefs ⊢
    rw [refsIn_cons]
    simp only [eq_comm (a := new)]
    omega

end Refs

end MfsMaster
