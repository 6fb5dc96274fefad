/-
  MfsMaster.Lock.WireStore
  **STORING AND LOADING POSIX LOCKS** (`posix_lock_store`, `posix_lock_load`).

  The stream has one record for each range, ordered by inode, holder and range; a record of
  zeros ends it.  The loader puts the ranges of a holder together again, and refuses ranges that
  overlap, are out of order, or touch with the same type.

      replay_ranges, …   — the loader over the ranges of a lock, the locks of an inode, the inodes
      load_store         — a table whose lists are canonical comes back
-/
import Mathlib.Data.List.Nodup
import MfsMaster.Lib.Replay
import MfsMaster.Lock.Wire

namespace MfsMaster.Wire

open Lib (Reader)
open Lib.Reader
open Function (update update_self update_of_ne update_idem)

/-! ## §1. The stream. -/

/-- A record of the stream. -/
structure Record where
  inode : UInt32
  owner : UInt64
  sessionid : UInt32
  pid : UInt32
  start : UInt64
  stop : UInt64
  type : UInt8
  deriving Repr, DecidableEq

def Record.bytes (r : Record) : List UInt8 :=
  put32bit r.inode ++ (put64bit r.owner ++ (put32bit r.sessionid ++ (put32bit r.pid
    ++ (put64bit r.start ++ (put64bit r.stop ++ put8bit r.type)))))

/-- The record of a range. -/
def recordOf (inode : UInt32) (al : ALock) (r : Range) : Record :=
  { inode := inode, owner := al.holder.owner, sessionid := al.holder.sessionid, pid := al.pid
    start := UInt64.ofNat r.start, stop := UInt64.ofNat r.stop, type := r.label }

def lockRecords (inode : UInt32) (al : ALock) : List Record := al.ranges.map (recordOf inode al)

/-- The active locks of an inode. -/
def Table.active (t : Table) (inode : UInt32) : List ALock :=
  match t inode with
  | none => []
  | some il => il.active

def inodeRecords (t : Table) (inode : UInt32) : List Record :=
  (t.active inode).flatMap (lockRecords inode)

/-- The record that ends the stream. -/
def lastRecord : Record :=
  { inode := 0, owner := 0, sessionid := 0, pid := 0, start := 0, stop := 0, type := 0 }

/-- `posix_lock_store`; `order` are the inodes as the loop over the hash table meets them. -/
def posixLockStore (order : List UInt32) (t : Table) : List UInt8 :=
  ((order.flatMap (inodeRecords t)).map Record.bytes).flatten ++ lastRecord.bytes

/-! ## §2. The loader. -/

/-- The variables of `posix_lock_load`: `lastinode` is `none` while `fino` is set, and `last`,
which stands for `lastsessionid` and `lastowner`, while `fses` is. -/
structure LoadState where
  lastinode : Option UInt32
  last : Option Holder
  lasttype : UInt8
  lastend : UInt64
  table : Table

def LoadState.init : LoadState :=
  { lastinode := none, last := none, lasttype := 0, lastend := 0, table := fun _ => none }

/-- Change the active locks of an inode that has a record. -/
def Table.modActive (t : Table) (inode : UInt32) (f : List ALock → List ALock) : Table :=
  update t inode ((t inode).map fun il => { il with active := f il.active })

/-- The range at the end of the last lock of a list. -/
def addToLast (r : Range) : List ALock → List ALock
  | [] => []
  | [al] => [{ al with ranges := al.ranges ++ [r] }]
  | al :: l => al :: addToLast r l

namespace LoadState

/-- The first part of a round: another inode.  `altail` points to the head of its list. -/
def enterInode (st : LoadState) (inode : UInt32) : LoadState :=
  if st.lastinode = some inode then st
  else
    let il := (st.table inode).getD ⟨[], []⟩
    { st with lastinode := some inode, last := none
              table := update st.table inode (some { il with active := [] }) }

/-- The second part: another holder. -/
def enterLock (st : LoadState) (r : Record) : LoadState :=
  if st.last = some ⟨r.sessionid, r.owner⟩ then st
  else
    { st with last := some ⟨r.sessionid, r.owner⟩, lastend := 0, lasttype := posixLockUnlck
              table := st.table.modActive r.inode
                fun l => l ++ [⟨⟨r.sessionid, r.owner⟩, r.pid, []⟩] }

/-- The third part: the range, unless it does not follow the last one. -/
def addRange (ignoreflag : Bool) (st : LoadState) (r : Record) : Option LoadState :=
  if st.lasttype ≠ posixLockUnlck
      ∧ (r.start < st.lastend ∨ (r.type = st.lasttype ∧ r.start = st.lastend)) then
    if ignoreflag then some st else none
  else
    some { st with lastend := r.stop, lasttype := r.type
                   table := st.table.modActive r.inode
                     (addToLast ⟨r.start.toNat, r.stop.toNat, r.type⟩) }

/-- A record that does not end the stream; `none` stands for -1.  `check` is `of_checknode`. -/
def accept (check : UInt32 → UInt32 → Bool) (ignoreflag : Bool) (st : LoadState) (r : Record) :
    Option LoadState :=
  if (st.lastinode ≠ some r.inode ∨ st.last.map Holder.sessionid ≠ some r.sessionid)
      ∧ !check r.sessionid r.inode then
    if ignoreflag then some st else none
  else ((st.enterInode r.inode).enterLock r).addRange ignoreflag r

end LoadState

def getRecord : Reader Record := do
  let inode ← get32bit
  let owner ← get64bit
  let sessionid ← get32bit
  let pid ← get32bit
  let start ← get64bit
  let stop ← get64bit
  let type ← get8bit
  pure { inode, owner, sessionid, pid, start, stop, type }

variable (check : UInt32 → UInt32 → Bool)

/-- What a round does with its record. -/
def afterRecord (ignoreflag : Bool) (st : LoadState)
    (r : Record) : Reader (LoadState ⊕ Table) :=
  if r.inode = 0 ∧ r.owner = 0 ∧ r.sessionid = 0 then pure (.inr st.table)
  else match st.accept check ignoreflag r with
    | none => refused
    | some st' => pure (.inl st')

/-- One round of the loop of `posix_lock_load`. -/
def loadRound (ignoreflag : Bool) (st : LoadState) :
    Reader (LoadState ⊕ Table) :=
  getRecord >>= afterRecord check ignoreflag st

/-- `posix_lock_load` into an empty table; `none` stands for -1. -/
def posixLockLoad (mver : Nat) (ignoreflag : Bool)
    (stream : List UInt8) : Option Table :=
  if mver ≠ 0x10 then none
  else (loopAll (loadRound check ignoreflag) .init stream).map Prod.fst

/-! ## §3. Records come back. -/

theorem reads_getRecord {r : Record} : getRecord.Reads r.bytes r := by
  refine (reads_get32bit _).bind ?_
  refine reads_get64bit.bind ?_
  refine (reads_get32bit _).bind ?_
  refine (reads_get32bit _).bind ?_
  refine reads_get64bit.bind ?_
  refine reads_get64bit.bind ?_
  exact (reads_get8bit _).map _

theorem Record.bytes_ne_nil (r : Record) : r.bytes ≠ [] := by
  intro h
  have hlen := congrArg List.length h
  unfold Record.bytes put32bit at hlen
  rw [List.length_append, length_put] at hlen
  exact absurd hlen (by simp)

variable {r : Record} {st : LoadState} {i : UInt32} {al : ALock} {ignoreflag : Bool} {t : Table}
  {done : List ALock}

/-- A record that is accepted is read, and the loop goes on. -/
theorem reads_loadRound {check : UInt32 → UInt32 → Bool} {st' : LoadState}
    (hr : ¬ (r.inode = 0 ∧ r.owner = 0 ∧ r.sessionid = 0))
    (hacc : st.accept check ignoreflag r = some st') :
    (loadRound check ignoreflag st).Reads r.bytes (.inl st') := by
  refine reads_getRecord.bind_nil ?_
  unfold afterRecord
  rw [if_neg hr, hacc]
  exact Reads.pure

theorem reads_lastRecord {check : UInt32 → UInt32 → Bool} :
    (loadRound check ignoreflag st).Reads lastRecord.bytes (.inr st.table) := by
  refine reads_getRecord.bind_nil ?_
  unfold afterRecord
  rw [if_pos ⟨rfl, rfl, rfl⟩]
  exact Reads.pure

/-! ## §4. The ranges of a holder are put together again. -/

/-- What the store needs of a lock: a canonical list of ranges that fit their fields, and that the
record is not taken for the end. -/
structure ALock.Ok (inode : UInt32) (al : ALock) : Prop where
  ranges : al.ranges ≠ []
  canonical : Lib.CanonicalFrom posixLockUnlck 0 none al.ranges
  fits : ∀ r ∈ al.ranges, r.start < 2 ^ 64 ∧ r.stop < 2 ^ 64
  marked : ¬ (inode = 0 ∧ al.holder.owner = 0 ∧ al.holder.sessionid = 0)

namespace Table

theorem active_update_self {il : InodeLocks} : active (update t i (some il)) i = il.active := by
  unfold active
  rw [update_self]

theorem active_update_of_ne {j : UInt32} (h : j ≠ i) (il : Option InodeLocks) :
    active (update t i il) j = t.active j := by
  unfold active
  rw [update_of_ne h]

theorem modActive_update {l : List ALock} {f : List ALock → List ALock} :
    modActive (update t i (some ⟨l, []⟩)) i f = update t i (some ⟨f l, []⟩) := by
  unfold modActive
  rw [update_idem, update_self]
  rfl

end Table

theorem addToLast_append {r : Range} {l : List ALock} :
    addToLast r (l ++ [al]) = l ++ [{ al with ranges := al.ranges ++ [r] }] := by
  induction l with
  | nil => rfl
  | cons x l ih =>
    cases l with
    | nil => rfl
    | cons y l =>
      show x :: addToLast r (y :: l ++ [al]) = _
      rw [ih]
      rfl

namespace LoadState

variable {check : UInt32 → UInt32 → Bool} {i : UInt32}

variable {active : List ALock}

theorem enterLock_lastinode : (st.enterLock r).lastinode = st.lastinode := by
  unfold enterLock
  split <;> rfl

theorem enterInode_lastinode : (st.enterInode i).lastinode = some i := by
  unfold enterInode
  split
  · next h => exact h
  · rfl

theorem enterLock_last : (st.enterLock r).last = some ⟨r.sessionid, r.owner⟩ := by
  unfold enterLock
  split
  · next h => exact h
  · rfl

/-- A record of an open file is taken in its place. -/
theorem accept_of_check (h : check r.sessionid r.inode = true) (st : LoadState) :
    st.accept check false r = ((st.enterInode r.inode).enterLock r).addRange false r := by
  unfold accept
  rw [h]
  simp

/-- Entering the inode first makes no difference. -/
theorem accept_enterInode (h : check r.sessionid r.inode = true) :
    (st.enterInode r.inode).accept check false r = st.accept check false r := by
  rw [accept_of_check h, accept_of_check h]
  have hidem : (st.enterInode r.inode).enterInode r.inode = st.enterInode r.inode :=
    if_pos st.enterInode_lastinode
  rw [hidem]

/-- Nor does entering the lock first, once the inode is entered. -/
theorem accept_enterLock (h : check r.sessionid r.inode = true) (hi : st.lastinode = some r.inode) :
    (st.enterLock r).accept check false r = st.accept check false r := by
  rw [accept_of_check h, accept_of_check h]
  have hsame : st.enterInode r.inode = st := if_pos hi
  have hsame' : (st.enterLock r).enterInode r.inode = st.enterLock r :=
    if_pos (st.enterLock_lastinode.trans hi)
  have hidem : (st.enterLock r).enterLock r = st.enterLock r := if_pos st.enterLock_last
  rw [hsame, hsame', hidem]

/-- The type of the last range, if there was one. -/
def before (lasttype : UInt8) : Option UInt8 :=
  if lasttype = posixLockUnlck then none else some lasttype

/-- **The ranges of one holder**, one after the other.  Induction on what is left of the list;
`front` is what the loader has of it. -/
theorem replay_ranges (hcheck : check al.holder.sessionid i = true) {others : Table}
    {rest : List Range} :
    ∀ (st : LoadState) (front : List Range), st.lastinode = some i → st.last = some al.holder →
      st.table = update others i (some ⟨done ++ [{ al with ranges := front }], []⟩) →
      Lib.CanonicalFrom posixLockUnlck st.lastend.toNat (before st.lasttype) rest →
      (∀ r ∈ rest, r.start < 2 ^ 64 ∧ r.stop < 2 ^ 64) →
      ∃ st', Lib.replay (accept check false) st (rest.map (recordOf i al)) = some st'
        ∧ st'.lastinode = some i ∧ st'.last = some al.holder
        ∧ st'.table = update others i (some ⟨done ++ [{ al with ranges := front ++ rest }], []⟩) := by
  induction rest with
  | nil =>
    intro st front hi hlast htable _ _
    exact ⟨st, rfl, hi, hlast, by rw [htable, List.append_nil]⟩
  | cons r rest ih =>
    intro st front hi hlast htable hcan hfits
    obtain ⟨hlo, hnew, _, hfree, hrest⟩ := hcan
    obtain ⟨⟨hstart, hstop⟩, hfits⟩ := List.forall_mem_cons.mp hfits
    have hstartNat : (UInt64.ofNat r.start).toNat = r.start := UInt64.toNat_ofNat_of_lt' hstart
    have hstopNat : (UInt64.ofNat r.stop).toNat = r.stop := UInt64.toNat_ofNat_of_lt' hstop
    have hfollows : ¬ (st.lasttype ≠ posixLockUnlck
        ∧ (UInt64.ofNat r.start < st.lastend
          ∨ (r.label = st.lasttype ∧ UInt64.ofNat r.start = st.lastend))) := by
      rintro ⟨hlocked, hlt | ⟨hlabel, heq⟩⟩
      · rw [UInt64.lt_iff_toNat_lt, hstartNat] at hlt
        omega
      refine hnew (by rw [← heq, hstartNat]) ?_
      unfold before
      rw [if_neg hlocked, hlabel]
    let st1 : LoadState :=
      { st with lastend := UInt64.ofNat r.stop, lasttype := r.label
                table := update others i (some ⟨done ++ [{ al with ranges := front ++ [r] }], []⟩) }
    have hacc : st.accept check false (recordOf i al r) = some st1 := by
      have hsame : st.enterInode i = st := if_pos hi
      have hsame' : st.enterLock (recordOf i al r) = st := if_pos hlast
      rw [accept_of_check hcheck]
      show ((st.enterInode i).enterLock (recordOf i al r)).addRange false _ = _
      rw [hsame, hsame']
      have hmod : st.table.modActive i
          (addToLast ⟨(UInt64.ofNat r.start).toNat, (UInt64.ofNat r.stop).toNat, r.label⟩)
          = update others i (some ⟨done ++ [{ al with ranges := front ++ [r] }], []⟩) := by
        rw [htable, Table.modActive_update, addToLast_append, hstartNat, hstopNat]
      refine (if_neg hfollows).trans ?_
      exact congrArg (fun table => some { st with
        lastend := UInt64.ofNat r.stop, lasttype := r.label, table := table }) hmod
    have hnext : Lib.CanonicalFrom posixLockUnlck st1.lastend.toNat (before st1.lasttype) rest := by
      show Lib.CanonicalFrom _ (UInt64.ofNat r.stop).toNat (before r.label) rest
      unfold before
      rw [hstopNat, if_neg hfree]
      exact hrest
    obtain ⟨st', hrun, hi', hlast', htable'⟩ := ih st1 (front ++ [r]) hi hlast rfl hnext hfits
    refine ⟨st', ?_, hi', hlast', ?_⟩
    · rw [List.map_cons, Lib.replay_cons, hacc]
      exact hrun
    · rw [htable', List.append_assoc]
      rfl

/-- The loader is at inode `i` and has the locks `done` of it. -/
structure AtInode (st : LoadState) (i : UInt32) (done : List ALock) (others : Table) : Prop where
  inode : st.lastinode = some i
  table : st.table = update others i (some ⟨done, []⟩)
  last : ∀ k, st.last = some k → k ∈ done.map Lib.RecordLock.holder

variable {others : Table}

/-- **A lock**: its first record begins it, the others go on. -/
theorem replay_lock (hst : st.AtInode i done others) (hal : al.Ok i)
    (hcheck : check al.holder.sessionid i = true) (hkey : al.holder ∉ done.map Lib.RecordLock.holder) :
    ∃ st', Lib.replay (accept check false) st (lockRecords i al) = some st'
      ∧ st'.AtInode i (done ++ [al]) others := by
  obtain ⟨r, rest, hranges⟩ := List.exists_cons_of_ne_nil hal.ranges
  let st1 := st.enterLock (recordOf i al r)
  have hst1 : st1 = { st with last := some al.holder, lastend := 0, lasttype := posixLockUnlck
                              table := update others i
                                (some ⟨done ++ [{ al with ranges := [] }], []⟩) } := by
    have hnew : ¬ st.last = some al.holder := fun h => hkey (hst.last _ h)
    have hmod : st.table.modActive i (fun l => l ++ [{ al with ranges := [] }])
        = update others i (some ⟨done ++ [{ al with ranges := [] }], []⟩) := by
      rw [hst.table, Table.modActive_update]
    refine (if_neg hnew).trans ?_
    exact congrArg (fun table => { st with
      last := some al.holder, lastend := 0, lasttype := posixLockUnlck, table := table }) hmod
  obtain ⟨st', hrun, hi', hlast', htable'⟩ :=
    replay_ranges hcheck st1 [] (by rw [hst1]; exact hst.inode)
      (by rw [hst1]) (by rw [hst1]) (by rw [hst1]; exact hal.canonical) hal.fits
  refine ⟨st', ?_, hi', htable', fun k hk => ?_⟩
  · unfold lockRecords
    rw [hranges, List.map_cons, Lib.replay_cons] at hrun ⊢
    rw [← hrun, show st1.accept check false (recordOf i al r) = _ from
      accept_enterLock hcheck hst.inode]
  · rw [hlast'] at hk
    cases hk
    rw [List.map_append]
    exact List.mem_append_right _ List.mem_cons_self

/-- **An inode** the loader has not met before. -/
theorem replay_inode (hne : active ≠ []) (hnew : st.lastinode ≠ some i)
    (hnone : st.table i = none) (hok : ∀ al ∈ active, al.Ok i)
    (hcheck : ∀ al ∈ active, check al.holder.sessionid i = true)
    (hnodup : (active.map Lib.RecordLock.holder).Nodup) :
    ∃ st', Lib.replay (accept check false) st (active.flatMap (lockRecords i)) = some st'
      ∧ st'.AtInode i active st.table := by
  have henter : (st.enterInode i).AtInode i [] st.table := by
    unfold enterInode
    rw [if_neg hnew, hnone]
    exact ⟨rfl, rfl, fun _ h => nomatch h⟩
  have hlock : ∀ done al rest (st' : LoadState), active = done ++ al :: rest →
      st'.AtInode i done st.table →
      ∃ st'', Lib.replay (accept check false) st' (lockRecords i al) = some st''
        ∧ st''.AtInode i (done ++ [al]) st.table := by
    rintro done al rest st' rfl hst'
    have hmem := List.mem_append_right done (List.mem_cons_self (a := al) (l := rest))
    refine replay_lock hst' (hok al hmem) (hcheck al hmem) fun hk => ?_
    rw [List.map_append, List.map_cons] at hnodup
    exact (List.nodup_append'.mp hnodup).2.2 hk List.mem_cons_self
  obtain ⟨st', hrun, hst'⟩ := Lib.replay_flatMap hlock henter
  refine ⟨st', ?_, hst'⟩
  -- the first record enters the inode
  obtain ⟨al, rest, rfl⟩ := List.exists_cons_of_ne_nil hne
  obtain ⟨r, ranges, hranges⟩ := List.exists_cons_of_ne_nil (hok al List.mem_cons_self).ranges
  have hcal : check (recordOf i al r).sessionid (recordOf i al r).inode = true :=
    hcheck al List.mem_cons_self
  rw [← hrun, List.flatMap_cons]
  unfold lockRecords
  rw [hranges, List.map_cons, List.cons_append, Lib.replay_cons, Lib.replay_cons]
  rw [show (st.enterInode i).accept check false (recordOf i al r) = _ from
    accept_enterInode hcal]

end LoadState

/-! ## §5. A table comes back. -/

/-- What the store needs of the record of an inode, and what keeps it so. -/
structure InodeLocks.Ok (inode : UInt32) (il : InodeLocks) : Prop where
  active : ∀ al ∈ il.active, al.Ok inode
  keys : (il.active.map Lib.RecordLock.holder).Nodup
  waiting : ∀ w ∈ il.waiting,
    w.start < w.stop ∧ ¬ (inode = 0 ∧ w.holder.owner = 0 ∧ w.holder.sessionid = 0)

def Table.Ok (t : Table) : Prop := ∀ inode il, t inode = some il → il.Ok inode

namespace Table

variable {t : Table}

variable {order : List UInt32}

theorem Ok.active (h : t.Ok) :
    (∀ al ∈ t.active i, al.Ok i) ∧ ((t.active i).map Lib.RecordLock.holder).Nodup := by
  unfold Table.active
  cases hi : t i with
  | none => exact ⟨(fun _ h => nomatch h), List.nodup_nil⟩
  | some il => exact ⟨(h i il hi).active, (h i il hi).keys⟩

/-- The loader after the inodes `seen`. -/
structure Loaded (t : Table) (seen : List UInt32) (st : LoadState) : Prop where
  last : ∀ i, st.lastinode = some i → i ∈ seen
  old : ∀ i ∈ seen, st.table.active i = t.active i
  new : ∀ i, i ∉ seen → st.table i = none

variable {check : UInt32 → UInt32 → Bool}

/-- One inode more. -/
theorem Loaded.inode (h : t.Ok) {seen : List UInt32} (hst : t.Loaded seen st)
    (hi : i ∉ seen) (hcheck : ∀ al ∈ t.active i, check al.holder.sessionid i = true) :
    ∃ st', Lib.replay (LoadState.accept check false) st (inodeRecords t i) = some st'
      ∧ t.Loaded (seen ++ [i]) st' := by
  have hother : ∀ j, j ∉ seen ++ [i] → j ≠ i ∧ j ∉ seen := by
    intro j hj
    rw [List.mem_append, List.mem_singleton, not_or] at hj
    exact ⟨hj.2, hj.1⟩
  unfold inodeRecords
  by_cases hne : t.active i = []
  · -- no record, and nothing to be loaded
    rw [hne]
    refine ⟨st, rfl, fun j hj => List.mem_append_left _ (hst.last j hj), fun j hj => ?_,
      fun j hj => hst.new j (hother j hj).2⟩
    rcases List.mem_append.mp hj with hj | hj
    · exact hst.old j hj
    rw [List.mem_singleton.mp hj, hne]
    unfold Table.active
    rw [hst.new i hi]
  · obtain ⟨hok, hkeys⟩ := h.active
    obtain ⟨st', hrun, hat⟩ := LoadState.replay_inode hne (fun hlast => hi (hst.last i hlast))
      (hst.new i hi) hok hcheck hkeys
    refine ⟨st', hrun, fun j hj => ?_, fun j hj => ?_, fun j hj => ?_⟩
    · rw [hat.inode] at hj
      cases hj
      exact List.mem_append_right _ List.mem_cons_self
    · rw [hat.table]
      rcases List.mem_append.mp hj with hj | hj
      · have hji : j ≠ i := fun heq => hi (heq ▸ hj)
        rw [← hst.old j hj, active_update_of_ne hji]
      · rw [List.mem_singleton.mp hj]
        exact active_update_self
    · rw [hat.table, update_of_ne (hother j hj).1]
      exact hst.new j (hother j hj).2

/-- **A table comes back**: what is stored is accepted, and every inode has its active locks. -/
theorem load_store (h : t.Ok) (hnodup : order.Nodup) (hall : ∀ i, i ∈ order ↔ t i ≠ none)
    (hcheck : ∀ i, ∀ al ∈ t.active i, check al.holder.sessionid i = true) :
    ∃ t', posixLockLoad check 0x10 false (posixLockStore order t) = some t'
      ∧ ∀ i, t'.active i = t.active i := by
  have hinit : t.Loaded [] .init :=
    ⟨(fun _ h => nomatch h), (fun _ h => nomatch h), fun _ _ => rfl⟩
  have hinode : ∀ seen i rest (st : LoadState), order = seen ++ i :: rest → t.Loaded seen st →
      ∃ st', Lib.replay (LoadState.accept check false) st (inodeRecords t i) = some st'
        ∧ t.Loaded (seen ++ [i]) st' := by
    rintro seen i rest st rfl hst
    exact hst.inode h (fun hmem => (List.nodup_append'.mp hnodup).2.2 hmem List.mem_cons_self)
      (hcheck i)
  obtain ⟨st, hrun, hst⟩ := Lib.replay_flatMap hinode hinit
  have hmarked : ∀ r ∈ order.flatMap (inodeRecords t),
      ¬ (r.inode = 0 ∧ r.owner = 0 ∧ r.sessionid = 0) := by
    intro r hr
    obtain ⟨i, _, hr⟩ := List.mem_flatMap.mp hr
    obtain ⟨al, hal, hr⟩ := List.mem_flatMap.mp hr
    obtain ⟨x, _, rfl⟩ := List.mem_map.mp hr
    exact (h.active.1 al hal).marked
  have hread : (loopAll (loadRound check false) .init).Reads (posixLockStore order t) st.table :=
    loopAll_accepted (fun st r st' hr hacc => reads_loadRound (hmarked r hr) hacc) hrun
      (fun r _ => r.bytes_ne_nil) reads_lastRecord
  have hload := hread []
  rw [List.append_nil] at hload
  refine ⟨st.table, ?_, fun i => ?_⟩
  · unfold posixLockLoad
    rw [if_neg (by decide), hload]
    rfl
  by_cases hi : i ∈ order
  · exact hst.old i hi
  have hnone : t i = none := not_not.mp fun hne => hi ((hall i).mpr hne)
  unfold Table.active
  rw [hst.new i hi, hnone]

end Table

end MfsMaster.Wire
