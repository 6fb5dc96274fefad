/-
  MfsMaster.Data.Histogram
  **THE CHUNK COUNTERS ARE HISTOGRAMS OF THE CHUNK TABLE** (`chunks.c`).

  `allchunkcopycounts`, `allchunkec8counts`, … count the chunks by storage mode, by class
  and flags, and by the losses they survive.  They are changed by `chunk_new`, by
  `chunk_delete` and by `chunk_state_change`, which takes a chunk out of the cell of its
  old state and puts it into the cell of its new one.

      tell_telescope           — however many states a function passes through, the
                                 chunk ends up in the cell of the last one
      Histogram.insert, Histogram.change, Histogram.delete
                               — creation, change and deletion keep the histograms
      chunk_counters_histogram — over whole runs: cells, sums and the number of chunks

  `chunk_delete` counts down level 0 whatever the counters of the chunk say; that they say
  0 is `EmptyIsZero`, kept function by function in `Chunk.Booked`.
-/
import MfsMaster.Chunk.Store
import MfsMaster.Data.Counters
import Mathlib.Algebra.BigOperators.Group.Finset.Basic
import Mathlib.Data.Fintype.Prod
import Mathlib.Data.Fintype.BigOperators

namespace MfsMaster

/-! ## §1. The counters. -/

instance : Fintype StorageKind :=
  ⟨{.copies, .ec8, .ec4}, fun k => by cases k <;> decide⟩

/-- A cell of the matrices: storage mode, class and flags, level. -/
abbrev Cell := StorageKind × Fin 1024 × Fin 11

namespace ChunkState

/-- `sclassid + MAXSCLASS * (flags & FLAG_MASK)`; the class is a `uint8_t`. -/
def indx (k : ChunkState) : Fin 1024 :=
  ⟨k.sclassid % 256 + 256 * (k.archFlag.toNat + 2 * k.trashFlag.toNat), by
    cases k.archFlag <;> cases k.trashFlag <;>
      simp only [Bool.toNat_false, Bool.toNat_true] <;> omega⟩

/-- `if (ge>9) ge=10`. -/
def level (ge : Nat) : Fin 11 :=
  ⟨min 10 ge, by omega⟩

def allCell (k : ChunkState) : Cell := (k.storageMode, k.indx, level k.allGequiv)

def regCell (k : ChunkState) : Cell := (k.storageMode, k.indx, level k.regGequiv)

end ChunkState

/-- The counters.  They are unbounded here: one that was counted below zero stays below it. -/
structure ChunkCounts where
  chunks : Int
  all : Cell → Int
  reg : Cell → Int

/-- One chunk more or less in a cell. -/
def bump (m : Cell → Int) (cell : Cell) (d : Int) : Cell → Int :=
  fun x => if x = cell then m x + d else m x

theorem bump_apply (m : Cell → Int) (a : Cell) (d : Int) (cell : Cell) :
    bump m a d cell = m cell + if a = cell then d else 0 := by
  unfold bump
  simp only [eq_comm (a := cell)]
  split <;> omega

namespace ChunkCounts

def zero : ChunkCounts := { chunks := 0, all := fun _ => 0, reg := fun _ => 0 }

/-- The counters in `chunk_new`: a new chunk is in cell `[0][0]` of the copies. -/
def chunkNew (n : ChunkCounts) : ChunkCounts :=
  { chunks := n.chunks + 1
    all := bump n.all MfsMaster.chunkNew.state.allCell 1
    reg := bump n.reg MfsMaster.chunkNew.state.regCell 1 }

/-- The counters in `chunk_delete`: level 0 of the class and mode of the chunk. -/
def chunkDelete (n : ChunkCounts) (k : ChunkState) : ChunkCounts :=
  { chunks := n.chunks - 1
    all := bump n.all (k.storageMode, k.indx, 0) (-1)
    reg := bump n.reg (k.storageMode, k.indx, 0) (-1) }

/-- `chunk_state_change`. -/
def chunkStateChange (n : ChunkCounts) (old new : ChunkState) : ChunkCounts :=
  { n with
    all := bump (bump n.all old.allCell (-1)) new.allCell 1
    reg := bump (bump n.reg old.regCell (-1)) new.regCell 1 }

/-- The calls of `chunk_state_change` during a function, the last one first. -/
def tell (n : ChunkCounts) : List (ChunkState × ChunkState) → ChunkCounts
  | [] => n
  | (old, new) :: moves => (n.tell moves).chunkStateChange old new

theorem bump_self (m : Cell → Int) (a : Cell) : bump (bump m a (-1)) a 1 = m := by
  funext cell
  simp only [bump_apply]
  split <;> omega

theorem bump_cancel (m : Cell → Int) (a b c : Cell) :
    bump (bump (bump (bump m a (-1)) b 1) b (-1)) c 1 = bump (bump m a (-1)) c 1 := by
  funext cell
  simp only [bump_apply]
  split <;> split <;> omega

/-- **Only the first and the last state count**, when each call starts where the one before it
ended. -/
theorem tell_telescope (n : ChunkCounts) {k k' : ChunkState}
    {moves : List (ChunkState × ChunkState)} (h : Leads k moves k') :
    n.tell moves = n.chunkStateChange k k' := by
  induction moves generalizing k' with
  | nil =>
    rw [show k' = k from h]
    unfold chunkStateChange
    rw [bump_self, bump_self]
    rfl
  | cons move moves ih =>
    obtain ⟨rfl, hmoves⟩ := h
    rw [tell, ih hmoves]
    unfold chunkStateChange
    rw [bump_cancel, bump_cancel]

end ChunkCounts

/-! ## §2. The table. -/

/-- The chunk table and the counters. -/
structure ChunkTable where
  table : List (Nat × Chunk)
  counts : ChunkCounts

/-- What happens to the table. -/
inductive TableEvent where
  /-- An event of one chunk. -/
  | chunk (chunkid : Nat) (e : ChunkEvent)
  /-- A record of a metadata image (`chunk_load`). -/
  | load (h : ChunkHeader) (l : List FRef) (sclassid : Nat)
  /-- The replay of a `CHUNKDEL` record. -/
  | mrChunkdel (ts : UInt32) (chunkid version : Nat)

/-- A chunk whose calls of `chunk_state_change` are in the counters. -/
def Chunk.settled (c : Chunk) : Chunk := { c with moves := [] }

variable {c : Chunk} {e : ChunkEvent} {p : Nat × Chunk} {srv : Servers} {t : List (Nat × Chunk)}

namespace ChunkTable

/-- The chunk with an id. -/
def find (t : List (Nat × Chunk)) (chunkid : Nat) : Option Chunk :=
  (t.find? fun p => p.1 == chunkid).map Prod.snd

/-- Put another chunk in the place of the one with an id. -/
def put (chunkid : Nat) (c : Chunk) : List (Nat × Chunk) → List (Nat × Chunk)
  | [] => []
  | p :: t => if p.1 == chunkid then (chunkid, c) :: t else p :: put chunkid c t

/-- Take the chunk with an id out. -/
def drop (chunkid : Nat) : List (Nat × Chunk) → List (Nat × Chunk)
  | [] => []
  | p :: t => if p.1 == chunkid then t else p :: drop chunkid t

/-- `chunk_new`, and what its caller makes of the chunk. -/
def insert (s : ChunkTable) (chunkid : Nat) (c : Chunk) : ChunkTable :=
  { table := (chunkid, c.settled) :: s.table, counts := s.counts.chunkNew.tell c.moves }

/-- The chunk with an id becomes another one. -/
def change (s : ChunkTable) (chunkid : Nat) (c : Chunk) : ChunkTable :=
  { table := put chunkid c.settled s.table, counts := s.counts.tell c.moves }

/-- `chunk_delete`. -/
def delete (s : ChunkTable) (chunkid : Nat) (c : Chunk) : ChunkTable :=
  { table := drop chunkid s.table, counts := s.counts.chunkDelete c.state }

/-- The master does not have all data (`chunk_counters_in_progress()!=0`) while servers are known
to be disconnected. -/
def consistent : ChunkEvent → ChunkEvent
  | .dropLost a =>
    .dropLost { a with srv := { a.srv with csalldata := a.srv.csalldata && !a.srv.disc } }
  | e => e

/-- The replay of a `CHUNKDEL` record finds a chunk nobody needs. -/
def replayDeletable (ts : UInt32) (version : Nat) (c : Chunk) : Bool :=
  c.version == version && c.fhead == .few 0 && c.slist.isEmpty && c.lockedto < ts

/-- One event. -/
def step (s : ChunkTable) : TableEvent → ChunkTable
  | .chunk chunkid e =>
    match find s.table chunkid with
    | none => match e.born with
      | none => s
      | some c => s.insert chunkid c
    | some c => match (consistent e).apply c with
      | none => s.delete chunkid c
      | some c' => s.change chunkid c'
  | .load h l sclassid =>
    match find s.table h.chunkid with
    | some _ => s
    | none => s.insert h.chunkid (h.chunk l sclassid)
  | .mrChunkdel ts chunkid version =>
    match find s.table chunkid with
    | none => s
    | some c => if replayDeletable ts version c then s.delete chunkid c else s

def empty : ChunkTable := { table := [], counts := .zero }

/-! ## §3. Counting in a list. -/

/-- The chunks of a table in a cell. -/
def inCell (f : ChunkState → Cell) (t : List (Nat × Chunk)) (cell : Cell) : Int :=
  (t.countP fun p => f p.2.state = cell : Nat)

section Cells

variable (f : ChunkState → Cell) {t : List (Nat × Chunk)} {chunkid : Nat} {c c' : Chunk}

theorem inCell_cons (p : Nat × Chunk) (t : List (Nat × Chunk)) (cell : Cell) :
    inCell f (p :: t) cell = inCell f t cell + if f p.2.state = cell then 1 else 0 := by
  unfold inCell
  rw [List.countP_cons]
  by_cases h : f p.2.state = cell <;> simp [h]

/-- The chunk with an id can be moved to the front, and another one put in its place there. -/
theorem perm_of_find (c' : Chunk) (h : find t chunkid = some c) :
    t.Perm ((chunkid, c) :: drop chunkid t)
      ∧ (put chunkid c' t).Perm ((chunkid, c') :: drop chunkid t) := by
  induction t with
  | nil => cases h
  | cons p t ih =>
    unfold find at h ih
    rw [List.find?_cons] at h
    unfold put drop
    cases hp : p.1 == chunkid with
    | true =>
      rw [hp] at h
      have heq : p = (chunkid, c) := Prod.ext (beq_iff_eq.mp hp) (Option.some.inj h)
      exact ⟨.of_eq (congrArg (· :: t) heq), .refl _⟩
    | false =>
      rw [hp] at h
      obtain ⟨hold, hnew⟩ := ih h
      exact ⟨(hold.cons p).trans (.swap ..), (hnew.cons p).trans (.swap ..)⟩

theorem mem_of_find (h : find t chunkid = some c) : (chunkid, c) ∈ t :=
  (perm_of_find c h).1.mem_iff.mpr List.mem_cons_self

theorem sum_inCell : ∑ cell, inCell f t cell = t.length := by
  induction t with
  | nil => exact Finset.sum_eq_zero fun _ _ => rfl
  | cons p t ih =>
    have hone : ∑ cell, (if f p.2.state = cell then (1 : Int) else 0) = 1 := by
      rw [Finset.sum_ite_eq Finset.univ (f p.2.state) fun _ => (1 : Int),
        if_pos (Finset.mem_univ _)]
    rw [Finset.sum_congr rfl fun cell _ => inCell_cons f p t cell, Finset.sum_add_distrib, ih,
      hone, List.length_cons]
    push_cast
    rfl

end Cells

/-! ## §4. The invariant. -/

/-- A matrix counts the chunks of a table by a cell of each of them. -/
def Counts (f : ChunkState → Cell) (m : Cell → Int) (t : List (Nat × Chunk)) : Prop :=
  ∀ cell, m cell = inCell f t cell

section Counting

variable {f : ChunkState → Cell} {m : Cell → Int}

theorem Counts.add (h : Counts f m t) (p : Nat × Chunk) :
    Counts f (bump m (f p.2.state) 1) (p :: t) := by
  intro cell
  rw [bump_apply, inCell_cons, h cell]

theorem Counts.sub (h : Counts f m (p :: t)) : Counts f (bump m (f p.2.state) (-1)) t := by
  intro cell
  rw [bump_apply, h cell, inCell_cons]
  split <;> omega

theorem Counts.perm {t' : List (Nat × Chunk)} (h : Counts f m t) (hperm : t.Perm t') :
    Counts f m t' :=
  fun cell => (h cell).trans (congrArg Nat.cast (hperm.countP_eq _))

end Counting

/-- The counters are the histograms of the table. -/
structure Histogram (s : ChunkTable) : Prop where
  chunks : s.counts.chunks = s.table.length
  all : ∀ cell, s.counts.all cell = inCell ChunkState.allCell s.table cell
  reg : ∀ cell, s.counts.reg cell = inCell ChunkState.regCell s.table cell
  empties : ∀ p ∈ s.table, EmptyIsZero p.2
  settled : ∀ p ∈ s.table, p.2.moves = []

section Steps

variable {s : ChunkTable} {chunkid : Nat} {c c' : Chunk}

/-- Creation: from cell `[0][0]` to the cell of the chunk as it is used. -/
theorem Histogram.insert (h : s.Histogram) (hc : EmptyIsZero c) (htold : c.Told chunkNew.state) :
    (s.insert chunkid c).Histogram := by
  unfold ChunkTable.insert
  rw [ChunkCounts.tell_telescope _ htold]
  refine ⟨?_, ?_, ?_, ?_, ?_⟩
  · show s.counts.chunks + 1 = _
    rw [h.chunks, List.length_cons]
    push_cast
    rfl
  · exact (Counts.add h.all (chunkid, chunkNew)).sub.add (chunkid, c.settled)
  · exact (Counts.add h.reg (chunkid, chunkNew)).sub.add (chunkid, c.settled)
  · exact List.forall_mem_cons.mpr ⟨hc, h.empties⟩
  · exact List.forall_mem_cons.mpr ⟨rfl, h.settled⟩

/-- A change: from the cell of the old state to that of the new one. -/
theorem Histogram.change (h : s.Histogram) (hfind : find s.table chunkid = some c)
    (hc : EmptyIsZero c') (htells : Tells c c') : (s.change chunkid c').Histogram := by
  obtain ⟨hold, hnew⟩ := perm_of_find c'.settled hfind
  have htold : c.Told c.state := by
    unfold Chunk.Told
    rw [h.settled _ (mem_of_find hfind)]
    rfl
  have hboth {Q : Chunk → Prop} (hQ : ∀ p ∈ s.table, Q p.2) (hQ' : Q c'.settled) :
      ∀ p ∈ put chunkid c'.settled s.table, Q p.2 := by
    intro p hp
    rcases List.mem_cons.mp (hnew.mem_iff.mp hp) with rfl | hp
    · exact hQ'
    · exact hQ p (hold.mem_iff.mpr (List.mem_cons_of_mem _ hp))
  unfold ChunkTable.change
  rw [ChunkCounts.tell_telescope _ (htells _ htold)]
  refine ⟨?_, ?_, ?_, hboth h.empties hc, hboth (Q := fun c => c.moves = []) h.settled rfl⟩
  · show s.counts.chunks = _
    rw [h.chunks, hold.length_eq, hnew.length_eq]
    rfl
  · exact ((Counts.perm h.all hold).sub.add (chunkid, c'.settled)).perm hnew.symm
  · exact ((Counts.perm h.reg hold).sub.add (chunkid, c'.settled)).perm hnew.symm

/-- Deletion of a chunk without entries: its cells are those of level 0. -/
theorem Histogram.delete (h : s.Histogram) (hfind : find s.table chunkid = some c)
    (hempty : c.slist = []) : (s.delete chunkid c).Histogram := by
  obtain ⟨hold, _⟩ := perm_of_find c hfind
  have hzero : c.allGequiv = 0 ∧ c.regGequiv = 0 := by
    refine h.empties _ (mem_of_find hfind) fun hany => ?_
    obtain ⟨x, hx, _⟩ := hany
    rw [hempty] at hx
    cases hx
  have hlevel : ∀ {ge : Nat}, ge = 0 → 0 = ChunkState.level ge := by
    rintro ge rfl
    rfl
  have hrest {p : Nat × Chunk} (hp : p ∈ drop chunkid s.table) : p ∈ s.table :=
    hold.mem_iff.mpr (List.mem_cons_of_mem _ hp)
  refine ⟨?_, ?_, ?_, fun p hp => h.empties p (hrest hp), fun p hp => h.settled p (hrest hp)⟩
  · show s.counts.chunks - 1 = ((drop chunkid s.table).length : Int)
    rw [h.chunks, hold.length_eq, List.length_cons]
    omega
  all_goals
    unfold ChunkTable.delete ChunkCounts.chunkDelete
  · rw [hlevel hzero.1]
    exact (Counts.perm h.all hold).sub
  · rw [hlevel hzero.2]
    exact (Counts.perm h.reg hold).sub

end Steps

/-! ## §5. Events. -/

/-- Status data do not correct the table. -/
def NotFixmode : ChunkEvent → Prop
  | .statusData _ _ fixmode => fixmode = false
  | _ => True

/-- **Every event but a correction by status data** keeps the invariant of one chunk. -/
theorem emptyIsZero_apply {c' : Chunk} (h : EmptyIsZero c) (hfix : NotFixmode e)
    (hc' : e.apply c = some c') : EmptyIsZero c' := by
  obtain ⟨srv, csid, ecid, status, rfl⟩ | ⟨csid, parts, fixmode, rfl⟩ | hrec :=
    ChunkEvent.recounted_apply hc'
  · cases hc'
    split
    · exact h.chunkOperationStatus
    · exact h
  · have hfix : fixmode = false := hfix
    subst hfix
    cases hc'
    rw [chunkGotStatusData_of_not_fixmode]
    exact h
  · exact hrec.empty h

theorem slist_of_deletable (h : chunkDeletable srv c = true) : c.slist = [] := by
  unfold chunkDeletable at h
  simp only [Bool.and_eq_true, List.isEmpty_iff] at h
  exact h.1.1.2

/-- While servers are known to be disconnected no chunk is forgotten: the test for deletion
comes before `chunk_state_fix`, but it never succeeds. -/
theorem chunkRemoveDisconnectedChunks_isSome (hdata : srv.csalldata = true → srv.disc = false) :
    chunkRemoveDisconnectedChunks srv c ≠ none := by
  intro hnone
  obtain ⟨hdisc, hdel⟩ := deletable_of_forgotten hnone
  unfold chunkDeletable at hdel
  rw [Bool.and_eq_true] at hdel
  rw [hdata hdel.2] at hdisc
  cases hdisc

theorem slist_of_forgotten (h : (consistent e).apply c = none) : c.slist = [] := by
  cases e with
  | forget srv =>
    change (if chunkDeletable srv c = true then none else some c) = none at h
    split at h
    next hdel => exact slist_of_deletable hdel
    · cases h
  | dropLost a =>
    refine absurd (Option.map_eq_none_iff.mp h) (chunkRemoveDisconnectedChunks_isSome ?_)
    intro hdata
    have hboth : (a.srv.csalldata && !a.srv.disc) = true := hdata
    rw [Bool.and_eq_true, Bool.not_eq_true'] at hboth
    exact hboth.2
  | _ => cases h

section Load

variable {header : ChunkHeader} {l : List FRef} {sclassid : Nat}

theorem emptyIsZero_load : EmptyIsZero (header.chunk l sclassid) := by
  intro _
  match l with
  | [] | [_] | _ :: _ :: _ => exact ⟨rfl, rfl⟩

/-- A loaded chunk tells of its class, if it has files, and of its flags. -/
theorem told_load : (header.chunk l sclassid).Told chunkNew.state := by
  match l with
  | [] => exact ⟨rfl, rfl⟩
  | [_] | _ :: _ :: _ => exact ⟨rfl, rfl, rfl⟩

end Load

/-- The condition of a step: no correction by status data. -/
def StepNotFixmode (_ : ChunkTable) : TableEvent → Prop
  | .chunk _ e => NotFixmode e
  | _ => True

theorem notFixmode_consistent (h : NotFixmode e) : NotFixmode (consistent e) := by
  unfold consistent
  split
  · trivial
  · exact h

/-- **Step lemma.** -/
theorem Histogram.step {s : ChunkTable} (h : s.Histogram) {e : TableEvent}
    (hc : s.StepNotFixmode e) : (s.step e).Histogram := by
  unfold ChunkTable.step
  cases e with
  | chunk chunkid e =>
    dsimp only
    split
    next hnone =>
      split
      · exact h
      next c hborn =>
        exact h.insert (ChunkEvent.booked_born hborn).counters.emptyIsZero
          (ChunkEvent.told_born hborn)
    next c hfind =>
      split
      next hgone => exact h.delete hfind (slist_of_forgotten hgone)
      next c' hc' =>
        refine h.change hfind ?_ (ChunkEvent.tells_apply hc')
        exact emptyIsZero_apply (h.empties _ (mem_of_find hfind)) (notFixmode_consistent hc) hc'
  | load header l sclassid =>
    dsimp only
    split
    · exact h
    · exact h.insert emptyIsZero_load told_load
  | mrChunkdel ts chunkid version =>
    dsimp only
    split
    · exact h
    next c hfind =>
    split
    next hdel =>
      unfold replayDeletable at hdel
      simp only [Bool.and_eq_true, List.isEmpty_iff] at hdel
      exact h.delete hfind hdel.1.2
    · exact h

theorem empty_histogram : empty.Histogram :=
  ⟨rfl, fun _ => rfl, fun _ => rfl, List.forall_mem_nil _, List.forall_mem_nil _⟩

/-! ## §6. Runs. -/

theorem inCell_nonneg {f : ChunkState → Cell} {cell : Cell} : 0 ≤ inCell f t cell :=
  Int.natCast_nonneg _

/-- **The counters are exact histograms.**  After every run without corrections by status data,
each cell of the six matrices is the number of chunks in that cell, the sums are the number of
chunks, and no counter is below zero. -/
theorem chunk_counters_histogram (es : List TableEvent)
    (hmeet : Lib.StepsMeet step StepNotFixmode empty es) :
    (∀ cell, (Lib.run step empty es).counts.all cell
        = inCell ChunkState.allCell (Lib.run step empty es).table cell
      ∧ (Lib.run step empty es).counts.reg cell
        = inCell ChunkState.regCell (Lib.run step empty es).table cell
      ∧ 0 ≤ (Lib.run step empty es).counts.all cell
      ∧ 0 ≤ (Lib.run step empty es).counts.reg cell)
    ∧ ∑ cell, (Lib.run step empty es).counts.all cell = (Lib.run step empty es).table.length
    ∧ ∑ cell, (Lib.run step empty es).counts.reg cell = (Lib.run step empty es).table.length
    ∧ (Lib.run step empty es).counts.chunks = (Lib.run step empty es).table.length := by
  have h : (Lib.run step empty es).Histogram :=
    Lib.run_invariant (fun _ _ h hc => h.step hc) es empty empty_histogram hmeet
  refine ⟨fun cell => ⟨h.all cell, h.reg cell, ?_, ?_⟩, ?_, ?_, h.chunks⟩
  · rw [h.all]
    exact inCell_nonneg
  · rw [h.reg]
    exact inCell_nonneg
  · rw [Finset.sum_congr rfl fun cell _ => h.all cell]
    exact sum_inCell _
  · rw [Finset.sum_congr rfl fun cell _ => h.reg cell]
    exact sum_inCell _

/-- Two chunks are made, one of them loses its only copy and is deleted. -/
def makeAndDelete : List TableEvent :=
  [.chunk 1 (.create 10 .sclassNew 2 [1, 2]), .load ⟨2, 5, 0, 1, 0⟩ [] 0,
    .chunk 2 (.report (.has 1 0 5 false)), .chunk 2 (.report (.lost 1 0)),
    .chunk 2 (.forget twoServers)]

/-- The run meets the condition; chunk 1 is left, in the cell of its class with two copies. -/
theorem chunk_counters_make_and_delete :
    (Lib.run step empty makeAndDelete).counts.all (.copies, 2, 2) = 1
      ∧ ∑ cell, (Lib.run step empty makeAndDelete).counts.all cell = 1 := by
  have hmeet : Lib.StepsMeet step StepNotFixmode empty makeAndDelete :=
    ⟨trivial, trivial, trivial, trivial, trivial, trivial⟩
  obtain ⟨_, hsum, _⟩ := chunk_counters_histogram makeAndDelete hmeet
  refine ⟨by decide, hsum.trans ?_⟩
  decide

end ChunkTable

end MfsMaster
