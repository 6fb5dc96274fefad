/-
  MfsMaster.Lock.FlockExclusive
  **WHOLE-FILE LOCKS EXCLUDE EACH OTHER AND DO NOT STALL ON A FREE FILE.**

  Nearly every branch of `flock_locks_cmd` is one of six changes (`FInode.Cmd`), and the
  checks only look at the first active lock.  That is enough because of what is kept:

      OneWriter  — the active locks are one writer, or readers only
      NotStalled — who waits, waits for somebody
-/
import MfsMaster.Lock.Flock
import MfsMaster.Lib.Replay

namespace MfsMaster

/-! ## §1. What a request can do. -/

variable {il il' : FInode} {l : FLock} {ltype : LType} {mode : FlockMode} {q : FlockRequest}
  {P : FInode → Prop} {inode sessionid : Nat} {t : FlockTable} {active ls : List FLock}
  {log : FlockLog}

namespace FInode

/-- A change of the queue by a request. -/
inductive Queue (mode : FlockMode) (waiting : List FLock) (q : FlockRequest) : List FLock → Prop
    where
  | same : Queue mode waiting q waiting
  | interrupt (hop : q.op = .interrupt) : Queue mode waiting q (interrupted q waiting)
  | cancel (l : FLock) (hl : (waiting.find? fun l => l.ofRequest q) = some l)
      (hop : q.op = .release ∨ (q.op = .unlock ∧ mode = .correct)) :
      Queue mode waiting q (waiting.erase l)
  | again (l l' : FLock) (hl : (waiting.find? fun l => l.ofRequest q) = some l)
      (hholder : l'.holder = l.holder)
      (htype : l'.ltype = l.ltype ∨ l'.ltype = .writer
        ∨ (q.op = .lockShared ∧ l.ltype = .writer ∧ l'.ltype = .reader)) :
      Queue mode waiting q (waiting.replace l l')

/-- A change of an inode by a request, with what is logged. -/
inductive Cmd (mode : FlockMode) (il : FInode) (q : FlockRequest) : FInode → FlockLog → Prop where
  | queue (waiting : List FLock)
      (hidle : q.op = .interrupt ∨ (il.active.find? fun l => l.holder == q.holder) = none
        ∨ waiting = il.waiting)
      (h : Queue mode il.waiting q waiting) :
      Cmd mode il q { il with waiting := waiting } []
  | unlock (l : FLock) (hl : (il.active.find? fun l => l.holder == q.holder) = some l) :
      Cmd mode il q (il.flockLockUnlock mode l).il (il.flockLockUnlock mode l).log
  | relock (l : FLock) (ltype : LType)
      (hl : (il.active.find? fun l => l.holder == q.holder) = some l) :
      Cmd mode il q ((il.flockLockUnlock mode l).il.flockLockNew mode ltype q).2.il
        ((il.flockLockUnlock mode l).log
          ++ ((il.flockLockUnlock mode l).il.flockLockNew mode ltype q).2.log)
  | downgrade (l : FLock) (hl : (il.active.find? fun l => l.holder == q.holder) = some l)
      (hop : q.op = .tryShared) (htype : l.ltype = .writer) :
      Cmd mode il q
        (flockLockCheckWaiting mode
          { il with active := il.active.replace l { l with ltype := .reader } }).il
        (flockLockCheckWaiting mode
          { il with active := il.active.replace l { l with ltype := .reader } }).log
  | upgrade (l : FLock) (hl : (il.active.find? fun l => l.holder == q.holder) = some l)
      (hop : q.op = .tryExclusive) (htype : l.ltype = .reader) (hone : il.active.length = 1) :
      Cmd mode il q { il with active := il.active.replace l { l with ltype := .writer } } []
  | new (ltype : LType) (hop : q.op ≠ .unlock ∧ q.op ≠ .release ∧ q.op ≠ .interrupt)
      (hactive : (il.active.find? fun l => l.holder == q.holder) = none)
      (hwaiting : (il.waiting.find? fun l => l.ofRequest q) = none) :
      Cmd mode il q (il.flockLockNew mode ltype q).2.il (il.flockLockNew mode ltype q).2.log

/-- Nothing happens. -/
theorem Cmd.nothing : Cmd mode il q il [] :=
  .queue il.waiting (.inr (.inr rfl)) .same

theorem activeCmd_cases (hl : (il.active.find? fun l => l.holder == q.holder) = some l) :
    Cmd mode il q (il.activeCmd mode l q).2.il (il.activeCmd mode l q).2.log := by
  unfold activeCmd
  cases hop : q.op with
  | unlock | release | interrupt => exact .unlock l hl
  | tryShared =>
    cases htype : l.ltype with
    | reader => exact .nothing
    | writer => exact .downgrade l hl hop htype
  | lockShared =>
    cases htype : l.ltype with
    | reader => exact .nothing
    | writer => exact .relock l .reader hl
  | tryExclusive =>
    cases htype : l.ltype with
    | writer => exact .nothing
    | reader =>
      dsimp only
      split
      next hone => exact .upgrade l hl hop htype hone
      · exact .nothing
  | lockExclusive =>
    cases htype : l.ltype with
    | writer => exact .nothing
    | reader => exact .relock l .writer hl
  | other => exact .nothing

theorem rewait_cases (hidle : (il.active.find? fun l => l.holder == q.holder) = none)
    (hl : (il.waiting.find? fun l => l.ofRequest q) = some l)
    (hop : ltype = .reader → q.op = .lockShared) :
    Cmd mode il q (il.rewait l ltype q).2.il (il.rewait l ltype q).2.log := by
  unfold rewait
  split
  · exact .queue _ (.inr (.inl hidle)) (.again l _ hl rfl (.inl rfl))
  next hne =>
  refine .queue _ (.inr (.inl hidle)) (.again l _ hl rfl (.inr ?_))
  cases ltype with
  | writer => exact .inl rfl
  | reader =>
    refine .inr ⟨hop rfl, ?_, rfl⟩
    cases hlt : l.ltype with
    | reader => exact absurd hlt hne
    | writer => rfl

theorem waitingCmd_cases (hidle : (il.active.find? fun l => l.holder == q.holder) = none)
    (hl : (il.waiting.find? fun l => l.ofRequest q) = some l) (hop : q.op ≠ .interrupt) :
    Cmd mode il q (il.waitingCmd mode l q).2.il (il.waitingCmd mode l q).2.log := by
  unfold waitingCmd
  cases hq : q.op with
  | release => exact .queue _ (.inr (.inl hidle)) (.cancel l hl (.inl hq))
  | interrupt => exact absurd hq hop
  | unlock =>
    cases mode with
    | correct => exact .queue _ (.inr (.inl hidle)) (.cancel l hl (.inr ⟨hq, rfl⟩))
    | bsd | linux => exact .nothing
  | tryShared | tryExclusive | other => exact .nothing
  | lockShared => exact rewait_cases hidle hl fun _ => hq
  | lockExclusive => exact rewait_cases hidle hl nofun

theorem newCmd_cases (hactive : (il.active.find? fun l => l.holder == q.holder) = none)
    (hwaiting : (il.waiting.find? fun l => l.ofRequest q) = none) :
    Cmd mode il q (il.newCmd mode q).2.il (il.newCmd mode q).2.log := by
  unfold newCmd
  cases hop : q.op with
  | unlock | release | interrupt => exact .nothing
  | tryShared =>
    dsimp only
    split
    · exact .nothing
    · exact .new .reader (by rw [hop]; decide) hactive hwaiting
  | tryExclusive =>
    dsimp only
    split
    · exact .nothing
    · exact .new .writer (by rw [hop]; decide) hactive hwaiting
  | lockShared => exact .new .reader (by rw [hop]; decide) hactive hwaiting
  | lockExclusive | other => exact .new .writer (by rw [hop]; decide) hactive hwaiting

/-- **What a request can do to an inode.** -/
theorem locksCmd_cases (mode : FlockMode) (il : FInode) (q : FlockRequest) :
    Cmd mode il q (il.locksCmd mode q).2.il (il.locksCmd mode q).2.log := by
  unfold locksCmd
  split
  next hop => exact .queue _ (.inl hop) (.interrupt hop)
  next hop =>
  split
  next l hl => exact activeCmd_cases hl
  next hactive =>
    split
    next l hl => exact waitingCmd_cases hactive hl hop
    next hwaiting => exact newCmd_cases hactive hwaiting

end FInode

/-! ## §2. Calls. -/

/-- A call the leader makes, in the mode of the moment. -/
inductive FlockCall where
  | cmd (mode : FlockMode) (openFiles : OpenFiles) (q : FlockRequest)
  | fileClosed (mode : FlockMode) (sessionid inode : Nat)
  | disconnected (connptr : Nat)

/-- A call, a record of the change log, or a load of the stored metadata. -/
inductive FlockStep where
  | call (c : FlockCall)
  | mrChange (r : FlockRecord)
  | load (openFiles : OpenFiles) (ignoreflag : Bool) (stored : List FlockTable.Stored)

variable {c : FlockCall}

namespace FlockTable

open Function (update update_apply)

variable {i : Nat}

/-- No locks. -/
def empty : FlockTable := fun _ => none

/-- What a call returns about the table. -/
def result (t : FlockTable) : FlockCall → Result
  | .cmd mode openFiles q => (t.flockLocksCmd mode openFiles q).2
  | .fileClosed mode sessionid inode => t.flockFileClosed mode sessionid inode
  | .disconnected connptr => ⟨t.flockDisconnected connptr, [], []⟩

/-- The table after a call. -/
def call (t : FlockTable) (c : FlockCall) : FlockTable := (t.result c).table

/-- The table after a step. -/
def step (t : FlockTable) : FlockStep → FlockTable
  | .call c => t.call c
  | .mrChange r => (t.flockMrChange r).2
  | .load openFiles ignoreflag stored => (flockLoad openFiles ignoreflag stored t).2

/-- The locks of an inode, none when there is no record. -/
def before (t : FlockTable) (inode : Nat) : FInode := (t inode).getD ⟨[], []⟩

/-- What a call does to an inode. -/
inductive Change (il : FInode) : FlockCall → Nat → FInode → Prop where
  | cmd (mode : FlockMode) (openFiles : OpenFiles) (q : FlockRequest) (il' : FInode)
      (log : FlockLog) (h : FInode.Cmd mode il q il' log) :
      Change il (.cmd mode openFiles q) q.inode il'
  | close (mode : FlockMode) (sessionid inode : Nat) :
      Change il (.fileClosed mode sessionid inode) inode (il.fileClosed mode sessionid).il
  | disconnect (connptr inode : Nat) :
      Change il (.disconnected connptr) inode
        { il with waiting := il.waiting.filter fun l => l.connptr != connptr }

theorem update_eq_some {o : Option FInode}
    (h : update t inode o i = some il) : t i = some il ∨ (i = inode ∧ o = some il) := by
  rw [update_apply] at h
  split at h
  next heq => exact .inr ⟨heq, h⟩
  · exact .inl h

theorem eq_of_nonempty (h : il.nonempty = some il') : il' = il := by
  unfold FInode.nonempty at h
  split at h
  · cases h
  · exact (Option.some.inj h).symm

theorem eq_of_kept {il₀ : FInode} (h : kept q il₀ il = some il') : il' = il := by
  unfold kept at h
  split at h
  · exact eq_of_nonempty h
  · exact (Option.some.inj h).symm

/-- **What a call can do**: a record it leaves is the old one or a change of it. -/
theorem call_cases (h : t.call c i = some il') : t i = some il' ∨ Change (t.before i) c i il' := by
  cases c with
  | cmd mode openFiles q =>
    have h : (t.flockLocksCmd mode openFiles q).2.table i = some il' := h
    have hcmd := fun il => Change.cmd mode openFiles q _ _ (FInode.locksCmd_cases mode il q)
    unfold before
    unfold flockLocksCmd at h
    split at h
    · exact .inl h
    cases hil : t q.inode with
    | none =>
      rw [hil] at h
      dsimp only at h
      split at h
      · exact .inl h
      rcases update_eq_some h with hsame | ⟨rfl, hout⟩
      · exact .inl hsame
      cases hout
      rw [hil]
      exact .inr (hcmd _)
    | some il =>
      rw [hil] at h
      rcases update_eq_some h with hsame | ⟨rfl, hout⟩
      · exact .inl hsame
      rw [eq_of_kept hout, hil]
      exact .inr (hcmd il)
  | fileClosed mode sessionid inode =>
    have h : (t.flockFileClosed mode sessionid inode).table i = some il' := h
    unfold flockFileClosed at h
    cases hil : t inode with
    | none =>
      rw [hil] at h
      exact .inl h
    | some il =>
      rw [hil] at h
      rcases update_eq_some h with hsame | ⟨rfl, hout⟩
      · exact .inl hsame
      · rw [eq_of_nonempty hout, before, hil]
        exact .inr (.close mode sessionid i)
  | disconnected connptr =>
    obtain ⟨il, hil, heq⟩ := Option.map_eq_some_iff.mp h
    rw [← heq, before, hil]
    exact .inr (.disconnect connptr i)

/-- A property of the records of all inodes. -/
def Each (P : FInode → Prop) (t : FlockTable) : Prop := ∀ inode il, t inode = some il → P il

theorem Each.before (ht : t.Each P) (hempty : P ⟨[], []⟩) : P (t.before i) := by
  unfold FlockTable.before
  cases hil : t i with
  | none => exact hempty
  | some il => exact ht i il hil

/-- What every change keeps, a call keeps. -/
theorem Each.call (ht : t.Each P) (hempty : P ⟨[], []⟩)
    (hchange : ∀ il inode il', P il → t.before inode = il → Change il c inode il' → P il') :
    (t.call c).Each P := by
  intro i il' hil'
  rcases call_cases hil' with hsame | hch
  · exact ht i il' hsame
  · exact hchange _ i il' (ht.before hempty) rfl hch

end FlockTable

/-! ## §3. One writer or readers only. -/

/-- The active locks of an inode. -/
def OneWriter (active : List FLock) : Prop :=
  (∀ a ∈ active, a.ltype = .reader) ∨ ∃ l, active = [l] ∧ l.ltype = .writer

namespace OneWriter

theorem nil : OneWriter [] := .inl nofun

theorem sublist {l l' : List FLock} (h : OneWriter l) (hsub : l'.Sublist l) : OneWriter l' := by
  rcases h with hall | ⟨w, hw, htype⟩
  · exact .inl fun a ha => hall a (hsub.subset ha)
  rw [hw] at hsub
  rcases List.sublist_singleton.mp hsub with hnil | hone
  · exact hnil ▸ nil
  · exact .inr ⟨w, hone, htype⟩

/-- The first lock tells the type of all. -/
theorem readers (h : OneWriter active)
    (hhead : (active.head?.any fun l => l.ltype == .writer) = false) :
    ∀ a ∈ active, a.ltype = .reader := by
  rcases h with hall | ⟨w, hw, htype⟩
  · exact hall
  · rw [hw, List.head?_cons, Option.any_some, htype] at hhead
    cases hhead

theorem cons_reader (hall : ∀ a ∈ active, a.ltype = .reader)
    (hl : l.ltype = .reader) : OneWriter (l :: active) :=
  .inl (List.forall_mem_cons.mpr ⟨hl, hall⟩)

theorem single : OneWriter [l] := by
  cases htype : l.ltype with
  | reader => exact cons_reader nofun htype
  | writer => exact .inr ⟨l, rfl, htype⟩

/-- A writer is alone. -/
theorem eq_single (h : OneWriter active) (hmem : l ∈ active)
    (hl : l.ltype = .writer) : active = [l] := by
  rcases h with hall | ⟨w, hw, _⟩
  · rw [hall l hmem] at hl
    cases hl
  · rw [hw] at hmem ⊢
    rw [List.mem_singleton.mp hmem]

end OneWriter

theorem letIn_readers {linux : Bool} : ∀ a ∈ (FInode.letIn linux ls).1, a.ltype = .reader := by
  induction ls with
  | nil => exact nofun
  | cons l ls ih =>
    unfold FInode.letIn
    split
    next hl => exact List.forall_mem_cons.mpr ⟨hl, ih⟩
    split
    · exact ih
    · exact nofun

theorem head?_all_reader : (active.head?.all fun a => a.ltype == .reader) = true
      ↔ (active.head?.any fun l => l.ltype == .writer) = false := by
  cases active with
  | nil => exact ⟨fun _ => rfl, fun _ => rfl⟩
  | cons a l =>
    rw [List.head?_cons, Option.all_some, Option.any_some]
    cases a.ltype <;> decide

theorem OneWriter.checkWaiting (h : OneWriter il.active) :
    OneWriter (il.flockLockCheckWaiting mode).il.active := by
  unfold FInode.flockLockCheckWaiting
  split
  · exact h
  next l ls _ =>
  split
  · exact OneWriter.single
  split
  next hread =>
    have hall := h.readers (head?_all_reader.mp hread)
    refine .inl (List.forall_mem_append.mpr ⟨fun a ha => ?_, hall⟩)
    obtain ⟨b, hb, heq⟩ := List.mem_map.mp (List.mem_reverse.mp ha)
    rw [← heq]
    exact letIn_readers b hb
  · exact h

theorem OneWriter.unlock (h : OneWriter il.active) :
    OneWriter (il.flockLockUnlock mode l).il.active := by
  have herase : OneWriter (il.active.erase l) := h.sublist List.erase_sublist
  unfold FInode.flockLockUnlock
  dsimp only
  split
  · exact OneWriter.checkWaiting herase
  · exact herase

/-- Where a new lock may enter at once. -/
theorem OneWriter.free (h : OneWriter il.active) (hfree : il.flockCheck mode ltype = false) :
    il.active = [] ∨ (ltype = .reader ∧ ∀ a ∈ il.active, a.ltype = .reader) := by
  cases ltype with
  | reader =>
    rw [FInode.flockCheck, Bool.or_eq_false_iff] at hfree
    exact .inr ⟨rfl, h.readers hfree.1⟩
  | writer =>
    rw [FInode.flockCheck, Bool.not_eq_false', List.isEmpty_iff] at hfree
    exact .inl hfree

theorem OneWriter.new (h : OneWriter il.active) :
    OneWriter (il.flockLockNew mode ltype q).2.il.active := by
  unfold FInode.flockLockNew
  split
  · exact h
  next hfree =>
  rw [Bool.not_eq_true] at hfree
  rcases h.free hfree with hnil | ⟨hl, hall⟩
  · rw [hnil]
    exact OneWriter.single
  · exact OneWriter.cons_reader hall hl

theorem replace_single (l l' : FLock) : [l].replace l l' = [l'] := by
  simp [List.replace]

/-- A request keeps one writer or readers only. -/
theorem OneWriter.cmd
    (h : OneWriter il.active) (hcmd : FInode.Cmd mode il q il' log) : OneWriter il'.active := by
  cases hcmd with
  | queue waiting hidle hq => exact h
  | unlock l hl => exact h.unlock
  | relock l ltype hl => exact h.unlock.new
  | downgrade l hl hop htype =>
    have hone := h.eq_single (List.mem_of_find?_eq_some hl) htype
    refine OneWriter.checkWaiting ?_
    rw [hone, replace_single]
    exact OneWriter.single
  | upgrade l hl hop htype hone =>
    obtain ⟨a, ha⟩ := List.length_eq_one_iff.mp hone
    have hmem := List.mem_of_find?_eq_some hl
    rw [ha] at hmem
    rw [ha, ← List.mem_singleton.mp hmem, replace_single]
    exact OneWriter.single
  | new ltype hop hactive hwaiting => exact h.new

theorem OneWriter.closeActive (h : OneWriter il.active) :
    OneWriter (FInode.closeActive mode sessionid ls il).il.active := by
  induction ls generalizing il with
  | nil => exact h
  | cons l ls ih =>
    unfold FInode.closeActive
    split
    · exact ih h.unlock
    · exact ih h

theorem OneWriter.change (h : OneWriter il.active)
    (hch : FlockTable.Change il c inode il') : OneWriter il'.active := by
  cases hch with
  | cmd mode openFiles q il' log hcmd => exact h.cmd hcmd
  | close mode sessionid inode => exact OneWriter.closeActive h
  | disconnect connptr inode => exact h

namespace FlockTable

section

variable (ht : t.Each fun il => OneWriter il.active)
include ht

theorem Each.attach {t' : FlockTable} {holder : Holder}
    (h : t.attach inode holder ltype = some t') : t'.Each fun il => OneWriter il.active := by
  have hold : OneWriter (t.before inode).active :=
    ht.before (P := fun il => OneWriter il.active) OneWriter.nil
  unfold FlockTable.attach at h
  dsimp only at h
  split at h
  · cases h
  next hfree =>
  cases h
  intro i il hil
  rcases update_eq_some hil with hsame | ⟨_, hout⟩
  · exact ht i il hsame
  cases hout
  rw [Bool.not_eq_true] at hfree
  show OneWriter (_ :: (t.before inode).active)
  have hfree : ((t.before inode).active.head?.any fun l =>
      l.ltype == .writer || ltype == .writer) = false := hfree
  cases hact : (t.before inode).active with
  | nil => exact OneWriter.single
  | cons a l =>
    rw [hact, List.head?_cons, Option.any_some, Bool.or_eq_false_iff] at hfree
    rw [hact] at hold
    refine OneWriter.cons_reader (hold.readers ?_) ?_
    · rw [List.head?_cons, Option.any_some]
      exact hfree.1
    cases ltype with
    | reader => rfl
    | writer => cases hfree.2

theorem Each.load {openFiles : OpenFiles} {ignoreflag : Bool} {stored : List Stored} :
    (flockLoad openFiles ignoreflag stored t).2.Each fun il => OneWriter il.active := by
  induction stored generalizing t with
  | nil => exact ht
  | cons x xs ih =>
    unfold flockLoad
    split
    · split
      next t' hatt => exact ih (ht.attach hatt)
      split
      · exact ih ht
      · exact ht
    · split
      · exact ih ht
      · exact ht

theorem Each.mrChange
    {r : FlockRecord} : (t.flockMrChange r).2.Each fun il => OneWriter il.active := by
  unfold flockMrChange
  cases r.letter with
  | r | w =>
    dsimp only
    split
    · exact ht
    next t' hatt => exact ht.attach hatt
  | u =>
    dsimp only
    split
    · exact ht
    next il hil =>
    intro i il' hil'
    rcases update_eq_some hil' with hsame | ⟨_, hout⟩
    · exact ht i il' hsame
    · rw [eq_of_nonempty hout]
      exact (ht r.inode il hil).sublist List.filter_sublist

/-- **Every step keeps one writer or readers only.** -/
theorem Each.step {e : FlockStep} : (t.step e).Each fun il => OneWriter il.active := by
  cases e with
  | call c => exact ht.call OneWriter.nil fun il inode il' hil _ hch => hil.change hch
  | mrChange r => exact ht.mrChange
  | load openFiles ignoreflag stored => exact ht.load

end

end FlockTable

/-! ## §4. Nobody waits for a free file. -/

/-- Who waits, waits for an active lock. -/
def NotStalled (il : FInode) : Prop := il.waiting ≠ [] → il.active ≠ []

theorem checkWaiting_active_ne
    (h : il.active ≠ [] ∨ il.waiting ≠ []) : (il.flockLockCheckWaiting mode).il.active ≠ [] := by
  unfold FInode.flockLockCheckWaiting
  split
  next hw => exact h.elim id fun hne => absurd hw hne
  next l ls hw =>
  split
  · exact List.cons_ne_nil _ _
  next hfirst =>
  split
  · by_cases hact : il.active = []
    · -- the first one of the queue is a reader, and it is let in
      have hread : l.ltype = .reader := by
        rw [hact, List.isEmpty_nil, Bool.true_and, beq_iff_eq] at hfirst
        cases hl : l.ltype with
        | reader => rfl
        | writer => exact absurd hl hfirst
      unfold FInode.letIn
      rw [if_pos hread]
      dsimp only
      rw [List.map_cons, List.reverse_cons]
      simp only [List.append_assoc, ne_eq, List.append_eq_nil_iff, List.cons_ne_nil, false_and,
        and_false, not_false_eq_true]
    · exact fun hnil => hact (List.append_eq_nil_iff.mp hnil).2
  next hother =>
    intro hnil
    rw [hnil] at hother
    exact hother rfl

/-- An unlock leaves nobody waiting for a free file. -/
theorem notStalled_unlock : NotStalled (il.flockLockUnlock mode l).il := by
  unfold FInode.flockLockUnlock
  dsimp only
  split
  next hempty =>
    rw [Bool.and_eq_true, Bool.not_eq_true', List.isEmpty_eq_false_iff] at hempty
    exact fun _ => checkWaiting_active_ne (.inr hempty.2)
  next hother =>
  intro hw hact
  dsimp only at hw hact
  rw [hact, List.isEmpty_nil, Bool.true_and, Bool.not_eq_true', Bool.not_eq_false,
    List.isEmpty_iff] at hother
  exact hw hother

theorem NotStalled.new (h : NotStalled il) : NotStalled (il.flockLockNew mode ltype q).2.il := by
  unfold FInode.flockLockNew
  split
  next hcheck =>
    intro _ hact
    have hact : il.active = [] := hact
    cases ltype with
    | reader =>
      rw [FInode.flockCheck, hact, List.head?_nil, Option.any_none, Bool.false_or,
        Bool.and_eq_true, Bool.not_eq_true', List.isEmpty_eq_false_iff] at hcheck
      exact h hcheck.2 hact
    | writer =>
      rw [FInode.flockCheck, hact] at hcheck
      cases hcheck
  · exact fun _ => List.cons_ne_nil _ _

/-- A queue that is not empty was not empty. -/
theorem queue_ne_nil {waiting waiting' : List FLock}
    (h : FInode.Queue mode waiting q waiting') (hne : waiting' ≠ []) : waiting ≠ [] := by
  intro hnil
  subst hnil
  cases h with
  | same | interrupt => exact hne rfl
  | cancel l hl hop => cases hl
  | again l l' hl hholder htype => cases hl

theorem NotStalled.cmd
    (h : NotStalled il) (hcmd : FInode.Cmd mode il q il' log) : NotStalled il' := by
  cases hcmd with
  | queue waiting hidle hq => exact fun hne => h (queue_ne_nil hq hne)
  | unlock l hl => exact notStalled_unlock
  | relock l ltype hl => exact notStalled_unlock.new
  | downgrade l hl hop htype =>
    refine fun _ => checkWaiting_active_ne (.inl ?_)
    intro hnil
    have hlen := congrArg List.length hnil
    rw [List.length_replace] at hlen
    have hmem := List.mem_of_find?_eq_some hl
    rw [List.eq_nil_of_length_eq_zero hlen] at hmem
    cases hmem
  | upgrade l hl hop htype hone =>
    intro _ hnil
    have hlen := congrArg List.length hnil
    rw [List.length_replace, hone] at hlen
    cases hlen
  | new ltype hop hactive hwaiting => exact h.new

theorem NotStalled.closeActive
    (h : NotStalled il) : NotStalled (FInode.closeActive mode sessionid ls il).il := by
  induction ls generalizing il with
  | nil => exact h
  | cons l ls ih =>
    unfold FInode.closeActive
    split
    · exact ih notStalled_unlock
    · exact ih h

/-- Fewer waiting locks. -/
theorem NotStalled.filter (h : NotStalled il) {p : FLock → Bool} :
    NotStalled { il with waiting := il.waiting.filter p } := by
  intro hne
  refine h fun hnil => hne ?_
  rw [hnil]
  rfl

/-- **Every call leaves nobody waiting for a free file.** -/
theorem NotStalled.change (h : NotStalled il)
    (hch : FlockTable.Change il c inode il') : NotStalled il' := by
  cases hch with
  | cmd mode openFiles q il' log hcmd => exact h.cmd hcmd
  | close mode sessionid inode => exact NotStalled.closeActive h.filter
  | disconnect connptr inode => exact h.filter

/-! ## §5. Runs. -/

/-- No active lock, one writer, or only readers. -/
def FlockTable.Exclusive (t : FlockTable) : Prop :=
  ∀ inode il, t inode = some il →
    il.active = [] ∨ (∃ l, il.active = [l] ∧ l.ltype = .writer) ∨ ∀ l ∈ il.active, l.ltype = .reader

/-- A queue that is not empty waits for an active lock. -/
def FlockTable.NeverStalls (t : FlockTable) : Prop :=
  ∀ inode il, t inode = some il → il.waiting ≠ [] → il.active ≠ []

/-- **Exclusion in every run**, on a leader and on a replica, in any mode; and **nobody waits for a
free file** in every run of calls alone. -/
theorem flock_exclusive_never_stalls :
    (∀ es : List FlockStep, (Lib.run FlockTable.step FlockTable.empty es).Exclusive)
      ∧ ∀ cs : List FlockCall, (Lib.run FlockTable.call FlockTable.empty cs).NeverStalls := by
  constructor
  · intro es
    have hrun : (Lib.run FlockTable.step FlockTable.empty es).Each fun il => OneWriter il.active :=
      Lib.run_kept (fun t e ht => ht.step) nofun
    intro inode il hil
    rcases hrun inode il hil with hall | hone
    · exact .inr (.inr hall)
    · exact .inr (.inl hone)
  · intro cs
    have hempty : FlockTable.empty.Each NotStalled := nofun
    exact Lib.run_kept (fun t c (ht : t.Each NotStalled) =>
      ht.call (fun h => absurd rfl h) fun il inode il' hil _ hch => hil.change hch) hempty

end MfsMaster
