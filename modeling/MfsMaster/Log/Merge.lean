/-
  MfsMaster.Log.Merge
  **RESTORING FROM CHANGELOGS** (`merger.c`, `restore_file` in `restore.c`).

  The merger keeps one cursor for each file in a heap ordered by the id at the cursor, hands
  the smallest line to `restore_file` and moves that cursor.  A line whose id does not rise,
  or rises by MAXIDHOLE or more, ends its file.  `restore_file` compares the id with the
  version of the metadata and with the last id it saw — at the first line it takes the last
  id to be the one before.

  Main result: `restore_in_order` — as long as no line has been taken, the smallest id must
  not be above the version, and no file may jump by MAXIDHOLE: then lines are applied each at
  its own version, once, in order, and a hole stops the run.
-/
import MfsMaster.Lib.Heap
import Mathlib.Algebra.Order.Group.Nat
import Mathlib.Logic.Function.Iterate

namespace MfsMaster

/-! ## §1. Files and cursors. -/

/-- A line of a changelog file as `merger_nextentry` splits it: the number it begins with, and
what follows the colon.  Ids are below `2 ^ 63 - MAXIDHOLE`, where `strtoll` and
`nextid + maxidhole` are exact. -/
structure LogLine where
  id : Nat
  text : List UInt8
  deriving Repr, DecidableEq, Inhabited

/-- An `hentry`: the line at the cursor (`nextid`, `ptr`) and the lines behind it. -/
structure HEntry where
  shfilename : Nat
  cur : LogLine
  rest : List LogLine
  deriving Repr, DecidableEq, Inhabited

namespace HEntry

def nextid (e : HEntry) : Nat := e.cur.id

/-- The lines not handed on yet. -/
def lines (e : HEntry) : List LogLine := e.cur :: e.rest

end HEntry

variable {lv : Nat} {e : HEntry}

/-- `MAXIDHOLE`. -/
def maxidhole : Nat := 10000

/-- `merger_nextentry`; `none` where `nextid` becomes −1. -/
def mergerNextentry (e : HEntry) : Option HEntry :=
  match e.rest with
  | [] => none
  | l :: rest =>
    if e.nextid < l.id ∧ l.id < e.nextid + maxidhole then some { e with cur := l, rest := rest }
    else none

/-! ## §2. `restore_file`. -/

/-- What is restored: `meta_version` and `restore_line`.  A line that does not parse (`none`) is
refused before anything is applied; the number is the status of the operation. -/
structure Restorable (σ : Type) where
  version : σ → Nat
  restoreLine : σ → LogLine → Option (σ × Nat)

/-- A call of `restore_line`: the id of the line, the version at that time, and whether the line
parsed. -/
structure RestoreCall where
  id : Nat
  version : Nat
  parsed : Bool
  deriving Repr, DecidableEq

/-- The metadata, the static variables of `restore_file` and the calls made so far, the last
one first. -/
structure Restoring (σ : Type) where
  data : σ
  v : Nat := 0
  lastv : Nat := 0
  lastshfn : Option Nat := none
  calls : List RestoreCall := []

variable {σ : Type} (R : Restorable σ) (r : Restoring σ)

/-- The start of `restore_file`: at the first line the version is read, and `lv - 1` (64 bits)
becomes the last id. -/
def Restoring.enter (lv : Nat) : Restoring σ :=
  if r.lastv = 0 ∨ r.v = 0 ∨ r.lastshfn = none then
    { r with v := R.version r.data, lastv := if lv = 0 then 2 ^ 64 - 1 else lv - 1 }
  else r

/-- The end of `restore_file`. -/
def Restoring.took (shfilename lv : Nat) : Restoring σ :=
  { r with lastv := lv, lastshfn := some shfilename }

/-- The part of `restore_file` that hands the line on. -/
def Restoring.hand (shfilename : Nat) (l : LogLine) : Restoring σ × Int :=
  match R.restoreLine r.data l with
  | none => ({ r with calls := ⟨l.id, R.version r.data, false⟩ :: r.calls }, 0)
  | some (data, status) =>
    let r := { r with data := data, calls := ⟨l.id, R.version r.data, true⟩ :: r.calls }
    if status ≠ 0 then (r, -1)
    else if l.id + 1 ≠ R.version data then ({ r with v := R.version data }, -1)
    else ({ r with v := R.version data }.took shfilename l.id, 0)

def restoreFile (shfilename : Nat) (l : LogLine) : Restoring σ × Int :=
  let r := r.enter R l.id
  if l.id < r.lastv then (r, 0)
  else if l.id < r.v ∨ l.id = r.lastv then (r.took shfilename l.id, 0)
  else if r.lastv + 1 < l.id then (r, -2)
  else r.hand R shfilename l

/-! ## §3. `merger_start` and `merger_loop`. -/

/-- The heap, what is restored, and the status the loop returned with (0 until then). -/
structure Merger (σ : Type) where
  heapsize : Nat
  heap : Nat → HEntry
  restoring : Restoring σ
  status : Int := 0

/-- One file of `merger_start`. -/
def Merger.add (s : Merger σ) (file : Nat × List LogLine) : Merger σ :=
  match file.2 with
  | [] => s
  | l :: rest =>
    { s with
      heapsize := s.heapsize + 1
      heap := Heap.sortUp HEntry.nextid s.heapsize
        (fun i => if i = s.heapsize then ⟨file.1, l, rest⟩ else s.heap i) s.heapsize }

def mergerStart (data : σ) (files : List (Nat × List LogLine)) : Merger σ :=
  files.foldl Merger.add ⟨0, fun _ => default, { data := data }, 0⟩

/-- `merger_heap_sort_down` on a heap with another top. -/
def Merger.sortDown (s : Merger σ) (n : Nat) (h : Nat → HEntry) : Merger σ :=
  { s with heapsize := n, heap := Heap.sortDown HEntry.nextid n n h 0 }

/-- The cursor at the top moves on, or its entry is deleted. -/
def Merger.moveTop (s : Merger σ) : Merger σ :=
  match mergerNextentry (s.heap 0) with
  | some e => s.sortDown s.heapsize fun i => if i = 0 then e else s.heap i
  | none => s.sortDown (s.heapsize - 1) (Heap.swap s.heap 0 (s.heapsize - 1))

/-- One turn of the loop of `merger_loop`. -/
def mergerTurn (s : Merger σ) : Merger σ :=
  let out := restoreFile R s.restoring (s.heap 0).shfilename (s.heap 0).cur
  if s.heapsize = 0 then s
  else if out.2 = 0 then { s with restoring := out.1 }.moveTop
  else { s with heapsize := 0, restoring := out.1, status := out.2 }

/-! ## §4. One line. -/

variable {R} {r : Restoring σ} {shfilename : Nat} {l : LogLine} {r' : Restoring σ}

/-- What holds of `restore_file` between two lines: once a line has been taken, the version it
keeps is the version of the metadata, the last id is below it, and ids to come are not below
`next`. -/
def Restoring.Ready (R : Restorable σ) (r : Restoring σ) (next : Nat) : Prop :=
  r.lastshfn ≠ none → r.v = R.version r.data ∧ 0 < r.lastv ∧ r.lastv < r.v ∧ r.lastv ≤ next

/-- What `restore_file` does with a line that is not below the last one. -/
structure Restored (R : Restorable σ) (r : Restoring σ) (l : LogLine) (out : Restoring σ × Int) :
    Prop where
  calls : out.1.calls = r.calls ∧ out.1.data = r.data ∨
    ∃ parsed, out.1.calls = ⟨l.id, R.version r.data, parsed⟩ :: r.calls ∧
      l.id = R.version r.data ∧ (out.2 = 0 → parsed → l.id < R.version out.1.data)
  ready : out.2 = 0 → out.1.Ready R l.id
  passed : out.2 = 0 → l.id ≤ R.version out.1.data ∧ R.version r.data ≤ R.version out.1.data
  hole : R.version r.data < l.id → out.2 < 0 ∧ out.1.calls = r.calls ∧ out.1.data = r.data

/-- The first line or not, `restore_file` compares with the version and a last id. -/
structure Restoring.Entered (R : Restorable σ) (r r' : Restoring σ) (lv : Nat) : Prop where
  data : r'.data = r.data
  calls : r'.calls = r.calls
  v : r'.v = R.version r.data
  lastv_le : r'.lastv ≤ lv
  first : r'.lastshfn = none → r'.lastv + 1 = lv
  later : r'.lastshfn ≠ none → 0 < r'.lastv ∧ r'.lastv < R.version r.data
  lastshfn : r'.lastshfn = r.lastshfn

theorem Restoring.Ready.entered (hready : r.Ready R lv) (h0 : lv ≠ 0) :
    Entered R r (r.enter R lv) lv := by
  unfold enter
  by_cases hnone : r.lastshfn = none
  · rw [if_pos (.inr (.inr hnone)), if_neg h0]
    exact ⟨rfl, rfl, rfl, Nat.sub_le _ _, fun _ => by dsimp only; omega,
      fun h => absurd hnone h, rfl⟩
  obtain ⟨hv, hpos, hlt, hle⟩ := hready hnone
  rw [if_neg (by simp only [hnone, or_false]; omega)]
  exact ⟨rfl, rfl, hv, hle, fun h => absurd h hnone, fun _ => ⟨hpos, hv ▸ hlt⟩, rfl⟩

theorem Restoring.Entered.lastv_lt (he : r.Entered R r' lv)
    (hfirst : r.lastshfn = none → lv ≤ R.version r.data) : r'.lastv < R.version r.data := by
  by_cases hnone : r'.lastshfn = none
  · have := he.first hnone
    have := hfirst (he.lastshfn ▸ hnone)
    omega
  · exact (he.later hnone).2

theorem restored_hand (he : r.Entered R r' l.id) (hlast : r'.lastv < R.version r.data)
    (hid : l.id = R.version r.data) : Restored R r l (r'.hand R shfilename l) := by
  unfold Restoring.hand
  rw [he.data, he.calls]
  have hno : ¬R.version r.data < l.id := by omega
  split
  · refine ⟨.inr ⟨false, rfl, hid, nofun⟩, fun _ hs => ?_, fun _ => ⟨hid.le, le_rfl⟩,
      fun hlt => absurd hlt hno⟩
    exact ⟨he.v, (he.later hs).1, he.v ▸ hlast, he.lastv_le⟩
  next data status _ =>
  split
  · exact ⟨.inr ⟨true, rfl, hid, nofun⟩, nofun, nofun, fun hlt => absurd hlt hno⟩
  split
  · exact ⟨.inr ⟨true, rfl, hid, nofun⟩, nofun, nofun, fun hlt => absurd hlt hno⟩
  next hver =>
  have hver : l.id + 1 = R.version data := Decidable.not_not.mp hver
  have hlt : l.id < R.version data := by omega
  exact ⟨.inr ⟨true, rfl, hid, fun _ _ => hlt⟩,
    fun _ _ => ⟨rfl, by dsimp only [Restoring.took]; omega, hlt, le_rfl⟩,
    fun _ => ⟨hlt.le, hid ▸ hlt.le⟩, fun hlt => absurd hlt hno⟩

theorem neg_two : (-2 : Int) < 0 := by decide

/-- At id 0 the last id becomes the largest number, and the line is passed over. -/
theorem restoreFile_zero (hready : r.Ready R l.id) (h0 : l.id = 0) :
    r.lastshfn = none ∧ restoreFile R r shfilename l
      = ({ r with v := R.version r.data, lastv := 2 ^ 64 - 1 }, 0) := by
  have hnone : r.lastshfn = none := by
    by_contra hs
    have := hready hs
    omega
  have henter : r.enter R l.id = { r with v := R.version r.data, lastv := 2 ^ 64 - 1 } := by
    rw [Restoring.enter, if_pos (.inr (.inr hnone)), if_pos h0]
  unfold restoreFile
  rw [henter, if_pos (by dsimp only; omega)]
  exact ⟨hnone, rfl⟩

theorem restored_restoreFile (hready : r.Ready R l.id)
    (hfirst : r.lastshfn = none → l.id ≤ R.version r.data) :
    Restored R r l (restoreFile R r shfilename l) := by
  by_cases h0 : l.id = 0
  · obtain ⟨hnone, hout⟩ := restoreFile_zero hready h0
    rw [hout]
    exact ⟨.inl ⟨rfl, rfl⟩, fun _ hs => absurd hnone hs, fun _ => ⟨h0 ▸ Nat.zero_le _, le_rfl⟩,
      fun hlt => by omega⟩
  · have he := hready.entered h0
    unfold restoreFile
    generalize r.enter R l.id = r' at he
    rw [if_neg (Nat.not_lt.mpr he.lastv_le), he.v]
    have hlt := he.lastv_lt hfirst
    have hle := he.lastv_le
    split
    · next hid =>
      have hid : l.id < R.version r.data := by omega
      have hdata := congrArg R.version he.data
      refine ⟨.inl ⟨he.calls, he.data⟩, fun _ _ => ?_, fun _ => ?_, fun h => by omega⟩
      · exact ⟨he.v.trans hdata.symm, Nat.pos_of_ne_zero h0, he.v ▸ hid, le_rfl⟩
      · exact ⟨hdata.symm ▸ hid.le, hdata.ge⟩
    · split
      · exact ⟨.inl ⟨he.calls, he.data⟩, nofun, nofun, fun _ => ⟨neg_two, he.calls, he.data⟩⟩
      · exact restored_hand he hlt (by omega)

/-! ## §5. One turn. -/

variable {s : Merger σ} {files : List (Nat × List LogLine)}

/-- The ids of an entry rise. -/
def HEntry.Rising (e : HEntry) : Prop := e.lines.Pairwise (·.id < ·.id)

/-- The line is still to come. -/
def Merger.Reads (s : Merger σ) (l : LogLine) : Prop :=
  ∃ e, Heap.Filled s.heapsize s.heap e ∧ l ∈ e.lines

/-- The condition on a turn: the smallest id is not above the version as long as no line has been
taken, and the file it is from does not jump. -/
def Merger.Meets (R : Restorable σ) (s : Merger σ) : Prop :=
  s.heapsize ≠ 0 →
    (s.restoring.lastshfn = none → (s.heap 0).nextid ≤ R.version s.restoring.data) ∧
      ∀ l ∈ (s.heap 0).rest.head?, l.id < (s.heap 0).nextid + maxidhole

/-- The heap holds rising files in order. -/
structure Merger.Sorted (s : Merger σ) : Prop where
  ordered : Heap.Ordered HEntry.nextid s.heapsize s.heap
  rising : ∀ e, Heap.Filled s.heapsize s.heap e → e.Rising

theorem mergerNextentry_eq (hr : e.Rising)
    (hjump : ∀ l ∈ e.rest.head?, l.id < e.nextid + maxidhole) :
    e.rest = [] ∨ ∃ e', mergerNextentry e = some e' ∧ e'.lines = e.rest := by
  unfold mergerNextentry
  cases hrest : e.rest with
  | nil => exact .inl rfl
  | cons l rest =>
    have hlt : e.nextid < l.id := by
      refine List.rel_of_pairwise_cons hr ?_
      rw [hrest]
      exact List.mem_cons_self
    rw [hrest] at hjump
    exact .inr ⟨_, if_pos ⟨hlt, hjump l rfl⟩, rfl⟩

theorem mergerNextentry_some {e' : HEntry} (h : mergerNextentry e = some e') :
    e'.lines = e.rest ∧ e.nextid < e'.nextid := by
  unfold mergerNextentry at h
  split at h
  · cases h
  next hrest =>
  split at h
  · next hid =>
    cases h
    exact ⟨hrest.symm, hid.1⟩
  · cases h

/-- **The heap after a move**: the entries below the top, and the top with its cursor moved. -/
theorem Merger.moveTop_spec (hs : Heap.Ordered HEntry.nextid s.heapsize s.heap)
    (hsize : s.heapsize ≠ 0) :
    Heap.Ordered HEntry.nextid s.moveTop.heapsize s.moveTop.heap ∧
      ∀ e, Heap.Filled s.moveTop.heapsize s.moveTop.heap e ↔
        (∃ i, 0 < i ∧ i < s.heapsize ∧ s.heap i = e) ∨ mergerNextentry (s.heap 0) = some e := by
  unfold Merger.moveTop
  cases hnext : mergerNextentry (s.heap 0) with
  | none =>
    -- the last entry comes to the top
    dsimp only [Merger.sortDown]
    refine ⟨Heap.ordered_top hs (by omega) fun i h0 hi => ?_, fun e => Heap.filled_top.trans ?_⟩
    · rw [Heap.swap, if_neg (by omega), if_neg (by omega)]
    rw [or_iff_left nofun]
    unfold Heap.swap
    constructor
    · rintro ⟨i, hi, rfl⟩
      dsimp only
      split
      · exact ⟨s.heapsize - 1, by omega, by omega, rfl⟩
      · exact ⟨i, by omega, by omega, (if_neg (by omega)).symm⟩
    · rintro ⟨i, h0, hi, rfl⟩
      by_cases hn : i = s.heapsize - 1
      · exact ⟨0, by omega, hn ▸ if_pos rfl⟩
      · exact ⟨i, by omega, (if_neg (by omega)).trans (if_neg hn)⟩
  | some e' =>
    dsimp only [Merger.sortDown]
    refine ⟨Heap.ordered_top hs le_rfl fun i h0 _ => if_neg (by omega),
      fun e => Heap.filled_top.trans ?_⟩
    constructor
    · rintro ⟨i, hi, rfl⟩
      dsimp only
      split
      · exact .inr rfl
      · exact .inl ⟨i, by omega, hi, rfl⟩
    · rintro (⟨i, h0, hi, rfl⟩ | h)
      · exact ⟨i, hi, if_neg (by omega)⟩
      · cases h
        exact ⟨0, by omega, if_pos rfl⟩

theorem Merger.top_le_moveTop (hs : Heap.Ordered HEntry.nextid s.heapsize s.heap)
    (hsize : s.heapsize ≠ 0) (e : HEntry)
    (he : Heap.Filled s.moveTop.heapsize s.moveTop.heap e) : (s.heap 0).nextid ≤ e.nextid := by
  obtain ⟨i, _, hi, rfl⟩ | hnext := ((Merger.moveTop_spec hs hsize).2 e).mp he
  · exact Heap.top_le hs hi
  · exact (mergerNextentry_some hnext).2.le

/-- After a turn the ids to come are not below the one handed on, and no larger one is lost. -/
structure Merger.Moved (s s' : Merger σ) : Prop where
  sorted : s'.Sorted
  le : ∀ e, Heap.Filled s'.heapsize s'.heap e → (s.heap 0).nextid ≤ e.nextid
  reads : ∀ l, s.Reads l → (s.heap 0).nextid < l.id → s'.Reads l

theorem Merger.Sorted.moveTop (hs : s.Sorted) (hsize : s.heapsize ≠ 0)
    (hjump : ∀ l ∈ (s.heap 0).rest.head?, l.id < (s.heap 0).nextid + maxidhole) :
    s.Moved s.moveTop := by
  have hrise : (s.heap 0).Rising := hs.rising _ ⟨0, by omega, rfl⟩
  obtain ⟨hordered, hfilled⟩ := Merger.moveTop_spec hs.ordered hsize
  refine ⟨⟨hordered, fun e he => ?_⟩, Merger.top_le_moveTop hs.ordered hsize, ?_⟩
  · obtain ⟨i, _, hi, rfl⟩ | hnext := (hfilled e).mp he
    · exact hs.rising _ ⟨i, hi, rfl⟩
    · rw [HEntry.Rising, (mergerNextentry_some hnext).1]
      exact hrise.tail
  · rintro l ⟨_, ⟨i, hi, rfl⟩, hmem⟩ hid
    by_cases h0 : i = 0
    · subst h0
      obtain rfl | hmem := List.mem_cons.mp hmem
      · exact absurd hid (Nat.lt_irrefl _)
      obtain hnil | ⟨e, hnext, hlines⟩ := mergerNextentry_eq hrise hjump
      · exact absurd hmem (hnil ▸ List.not_mem_nil)
      · exact ⟨e, (hfilled e).mpr (.inr hnext), hlines ▸ hmem⟩
    · exact ⟨_, (hfilled _).mpr (.inl ⟨i, by omega, hi, rfl⟩), hmem⟩

/-! ## §6. The run. -/

/-- Lines are handed to `restore_line` only at their own version, no id is applied twice, and ids
rise (the last call stands first). -/
structure Handed (calls : List RestoreCall) : Prop where
  place : ∀ c ∈ calls, c.id = c.version
  once : (calls.filter (·.parsed)).Pairwise (fun a b => b.id < a.id)

/-- What restoring promises of a state it reaches. -/
structure Merger.InOrder (R : Restorable σ) (files : List (Nat × List LogLine)) (s : Merger σ) :
    Prop where
  handed : Handed s.restoring.calls
  /-- No line above the version has been passed over … -/
  waiting : s.status = 0 → ∀ f ∈ files, ∀ l ∈ f.2, R.version s.restoring.data < l.id → s.Reads l
  /-- … and where only such lines are to come, the next turn is an error and applies none. -/
  stops : s.status = 0 → s.heapsize ≠ 0 → (∀ l, s.Reads l → R.version s.restoring.data < l.id) →
    (mergerTurn R s).status < 0 ∧ (mergerTurn R s).restoring.data = s.restoring.data ∧
      (mergerTurn R s).restoring.calls = s.restoring.calls

/-- The invariant of the loop while it runs. -/
structure Merger.Live (R : Restorable σ) (files : List (Nat × List LogLine)) (s : Merger σ) :
    Prop where
  sorted : s.Sorted
  ready : ∀ e, Heap.Filled s.heapsize s.heap e → s.restoring.Ready R e.nextid
  below : ∀ c ∈ s.restoring.calls, c.parsed → c.id < R.version s.restoring.data
  waiting : ∀ f ∈ files, ∀ l ∈ f.2, R.version s.restoring.data < l.id → s.Reads l

structure Merger.Merging (R : Restorable σ) (files : List (Nat × List LogLine)) (s : Merger σ) :
    Prop where
  handed : Handed s.restoring.calls
  live : s.status = 0 → s.Live R files
  stopped : s.status ≠ 0 → s.heapsize = 0

theorem Merger.moveTop_same (s : Merger σ) :
    s.moveTop.restoring = s.restoring ∧ s.moveTop.status = s.status := by
  unfold Merger.moveTop
  split <;> exact ⟨rfl, rfl⟩

/-- What `restore_file` does with the line at the top. -/
theorem Merger.Live.restored (hs : s.Live R files) (hmeet : s.Meets R) (hsize : s.heapsize ≠ 0) :
    Restored R s.restoring (s.heap 0).cur
      (restoreFile R s.restoring (s.heap 0).shfilename (s.heap 0).cur) :=
  restored_restoreFile (hs.ready _ ⟨0, by omega, rfl⟩) (hmeet hsize).1

theorem Merger.Live.next {out : Restoring σ × Int} (hs : s.Live R files) (hmeet : s.Meets R)
    (hsize : s.heapsize ≠ 0) (hr : Restored R s.restoring (s.heap 0).cur out) (hok : out.2 = 0) :
    ({ s with restoring := out.1 }.moveTop).Live R files := by
  have hmoved : Merger.Moved { s with restoring := out.1 } _ :=
    Merger.Sorted.moveTop ⟨hs.sorted.ordered, hs.sorted.rising⟩ hsize (hmeet hsize).2
  obtain ⟨hle, hmono⟩ := hr.passed hok
  refine ⟨hmoved.sorted, fun e he => ?_, ?_, ?_⟩
  all_goals rw [(Merger.moveTop_same _).1]
  · intro hstarted
    obtain ⟨hv, hpos, hlt, hnext⟩ := hr.ready hok hstarted
    exact ⟨hv, hpos, hlt, hnext.trans (hmoved.le e he)⟩
  · intro c hc hparsed
    obtain ⟨hcalls, _⟩ | ⟨parsed, hcalls, _, hnew⟩ := hr.calls
    · exact (hs.below c (hcalls ▸ hc) hparsed).trans_le hmono
    rw [hcalls] at hc
    obtain rfl | hc := List.mem_cons.mp hc
    · exact hnew hok hparsed
    · exact (hs.below c hc hparsed).trans_le hmono
  · intro f hf l hl hid
    exact hmoved.reads l (hs.waiting f hf l hl (hmono.trans_lt hid)) (hle.trans_lt hid)

theorem Handed.restored {out : Restoring σ × Int} (hh : Handed r.calls) (hr : Restored R r l out)
    (hbelow : ∀ c ∈ r.calls, c.parsed → c.id < R.version r.data) : Handed out.1.calls := by
  obtain ⟨hcalls, _⟩ | ⟨parsed, hcalls, hid, _⟩ := hr.calls
  · exact hcalls ▸ hh
  rw [hcalls]
  refine ⟨List.forall_mem_cons.mpr ⟨hid, hh.place⟩, ?_⟩
  rw [List.filter_cons]
  split
  · refine List.pairwise_cons.mpr ⟨fun c hc => ?_, hh.once⟩
    obtain ⟨hc, hparsed⟩ := List.mem_filter.mp hc
    exact hid ▸ hbelow c hc hparsed
  · exact hh.once

theorem Merger.Merging.turn (hs : s.Merging R files) (hmeet : s.Meets R) :
    (mergerTurn R s).Merging R files := by
  unfold mergerTurn
  dsimp only
  split
  · exact hs
  next hsize =>
  have hlive := hs.live (by_contra fun h => hsize (hs.stopped h))
  have hr := hlive.restored hmeet hsize
  generalize restoreFile R s.restoring (s.heap 0).shfilename (s.heap 0).cur = out at hr
  have hhanded := hs.handed.restored hr hlive.below
  split
  · next hok =>
    have hsame := Merger.moveTop_same { s with restoring := out.1 }
    exact ⟨hsame.1 ▸ hhanded, fun _ => hlive.next hmeet hsize hr hok,
      fun hne => absurd (hs.stopped (hsame.2 ▸ hne)) hsize⟩
  · next hne => exact ⟨hhanded, fun h => absurd h hne, fun _ => rfl⟩

theorem Merger.Merging.inOrder (hs : s.Merging R files) (hmeet : s.Meets R) :
    s.InOrder R files := by
  refine ⟨hs.handed, fun h => (hs.live h).waiting, fun hok hsize habove => ?_⟩
  have hr := (hs.live hok).restored hmeet hsize
  obtain ⟨hneg, hcalls, hdata⟩ := hr.hole (habove _ ⟨_, ⟨0, by omega, rfl⟩, List.mem_cons_self⟩)
  unfold mergerTurn
  rw [if_neg hsize, if_neg hneg.ne]
  exact ⟨hneg, hdata, hcalls⟩

theorem Merger.add_spec {f : Nat × List LogLine}
    (hs : Heap.Ordered HEntry.nextid s.heapsize s.heap) :
    Heap.Ordered HEntry.nextid (s.add f).heapsize (s.add f).heap ∧
      (∀ e, Heap.Filled (s.add f).heapsize (s.add f).heap e ↔
        Heap.Filled s.heapsize s.heap e ∨ f = (e.shfilename, e.lines)) ∧
      (s.add f).restoring = s.restoring ∧ (s.add f).status = s.status := by
  obtain ⟨name, lines⟩ := f
  unfold Merger.add
  cases lines with
  | nil => exact ⟨hs, fun e => by simp [HEntry.lines], rfl, rfl⟩
  | cons l rest =>
    refine ⟨Heap.ordered_push hs fun i hi => if_neg hi.ne, fun e => ?_, rfl, rfl⟩
    refine (Heap.filled_sortUp HEntry.nextid (Nat.lt_succ_self _)).trans ⟨?_, ?_⟩
    · rintro ⟨i, hi, rfl⟩
      dsimp only
      split
      · exact .inr rfl
      · exact .inl ⟨i, by omega, rfl⟩
    · rintro (⟨i, hi, rfl⟩ | h)
      · exact ⟨i, by omega, if_neg hi.ne⟩
      · cases h
        exact ⟨s.heapsize, by omega, if_pos rfl⟩

theorem Merger.addAll_spec {fs : List (Nat × List LogLine)}
    (hs : Heap.Ordered HEntry.nextid s.heapsize s.heap) : let s' := fs.foldl Merger.add s
    Heap.Ordered HEntry.nextid s'.heapsize s'.heap ∧
      (∀ e, Heap.Filled s'.heapsize s'.heap e ↔
        Heap.Filled s.heapsize s.heap e ∨ (e.shfilename, e.lines) ∈ fs) ∧
      s'.restoring = s.restoring ∧ s'.status = s.status := by
  induction fs generalizing s with
  | nil => exact ⟨hs, fun e => by simp, rfl, rfl⟩
  | cons f fs ih =>
    obtain ⟨hadd, hfilled, hsame⟩ := Merger.add_spec hs
    obtain ⟨hordered, hall, hrest⟩ := ih hadd
    refine ⟨hordered, fun e => (hall e).trans ?_, hrest.1.trans hsame.1, hrest.2.trans hsame.2⟩
    rw [hfilled, List.mem_cons, or_assoc, eq_comm]

/-- **The heap at the start**: an entry for each file with a line. -/
theorem mergerStart_spec {data : σ} : let s := mergerStart data files
    Heap.Ordered HEntry.nextid s.heapsize s.heap ∧
      (∀ e, Heap.Filled s.heapsize s.heap e ↔ (e.shfilename, e.lines) ∈ files) ∧
      s.restoring = { data := data } ∧ s.status = 0 := by
  obtain ⟨hordered, hfilled, hsame⟩ := Merger.addAll_spec
    (s := ⟨0, fun _ => default, { data := data }, 0⟩) fun i _ hi => absurd hi (Nat.not_lt_zero i)
  refine ⟨hordered, fun e => (hfilled e).trans ?_, hsame⟩
  exact or_iff_right fun ⟨i, hi, _⟩ => Nat.not_lt_zero i hi

theorem merging_start {data : σ} (hrise : ∀ f ∈ files, f.2.Pairwise (·.id < ·.id)) :
    (mergerStart data files).Merging R files := by
  obtain ⟨hordered, hfilled, hrestoring, hstatus⟩ := mergerStart_spec
  refine ⟨?_, fun _ => ⟨⟨hordered, fun e he => hrise _ ((hfilled e).mp he)⟩, fun e _ => ?_, ?_,
    fun f hf l hl _ => ?_⟩, fun hne => absurd hstatus hne⟩
  · rw [hrestoring]
    exact ⟨nofun, .nil⟩
  · rw [hrestoring]
    exact fun h => absurd rfl h
  · rw [hrestoring]
    exact nofun
  obtain ⟨name, lines⟩ := f
  cases lines with
  | nil => cases hl
  | cons first rest => exact ⟨⟨name, first, rest⟩, (hfilled _).mpr hf, hl⟩

/-- While the smallest id is not above the version at the first line, and no file jumps by
MAXIDHOLE, lines are applied at their own version, once and in order, and a hole is an error. -/
theorem restore_in_order (R : Restorable σ) (files : List (Nat × List LogLine))
    (hrise : ∀ f ∈ files, f.2.Pairwise (·.id < ·.id)) (data : σ) (n : Nat)
    (hmeet : ∀ k ≤ n, ((mergerTurn R)^[k] (mergerStart data files)).Meets R) :
    ((mergerTurn R)^[n] (mergerStart data files)).InOrder R files := by
  have hrun : ∀ k ≤ n, ((mergerTurn R)^[k] (mergerStart data files)).Merging R files := by
    intro k hk
    induction k with
    | zero => exact merging_start hrise
    | succ k ih =>
      rw [Function.iterate_succ_apply']
      exact (ih (by omega)).turn (hmeet k (by omega))
  exact (hrun n le_rfl).inOrder (hmeet n le_rfl)

/-- Metadata that is only its version; every line raises it by one. -/
def countLines : Restorable Nat := ⟨id, fun v _ => some (v + 1, 0)⟩

instance (s : Merger σ) : Decidable (s.Meets R) := by
  unfold Merger.Meets
  infer_instance

/-- Two files that overlap. -/
def overlapping : List (Nat × List LogLine) :=
  [(0, [⟨4, []⟩, ⟨5, []⟩]), (1, [⟨5, []⟩, ⟨6, []⟩])]

theorem restore_in_order_overlapping :
    ((mergerTurn countLines)^[4] (mergerStart 5 overlapping)).InOrder countLines overlapping :=
  restore_in_order _ _ (by decide) _ _ (by decide)

/-- With the metadata at version 5, the first line at hand is applied although its id is 7. -/
theorem first_line_out_of_place :
    ¬(mergerTurn countLines (mergerStart 5 [(0, [⟨7, []⟩])])).InOrder countLines
      [(0, [⟨7, []⟩])] := by
  intro h
  exact absurd (h.handed.place ⟨7, 5, true⟩ (by decide)) (by decide)

end MfsMaster
