/-
  MfsMaster.Lock.FlockWaiting
  **THE FIRST WAITING WHOLE-FILE LOCK.**

  Locks are let in when the file becomes free and when a writer becomes a reader.  They
  are not let in when the first lock of the queue goes away, by an interrupt, a cancel, a
  close or a lost connection, or turns from a writer into a reader: a reader that is now
  first goes on waiting behind readers (`flock_head_after_interrupt`).

  When the first lock of a queue leaves only in front of a writer or of nobody, or while a
  writer is active, the first waiting lock is blocked in every state (`flock_head_blocked`).
-/
import MfsMaster.Lock.FlockExclusive

namespace MfsMaster

open FInode

/-! ## §1. A blocked head. -/

/-- The first waiting lock excludes an active one. -/
def HeadBlocked (il : FInode) : Prop :=
  ∀ l ∈ il.waiting.head?,
    (l.ltype = .writer ∧ il.active ≠ []) ∨ (l.ltype = .reader ∧ ∃ a ∈ il.active, a.ltype = .writer)

variable {il : FInode} {active ls waiting : List FLock} {l : FLock} {mode : FlockMode}
  {sessionid : Nat} {q : FlockRequest}

theorem HeadBlocked.of_waiting_nil (h : il.waiting = []) : HeadBlocked il := by
  intro l hl
  rw [h] at hl
  cases hl

theorem headBlocked_cons : HeadBlocked ⟨active, l :: ls⟩
      ↔ (l.ltype = .writer ∧ active ≠ []) ∨ (l.ltype = .reader ∧ ∃ a ∈ active, a.ltype = .writer) :=
  ⟨fun h => h l rfl, fun h _ hx => Option.some.inj hx ▸ h⟩

/-- Who is blocked waits for somebody. -/
theorem HeadBlocked.active_ne (h : HeadBlocked il)
    (hl : il.waiting.head? = some l) : il.active ≠ [] := by
  rcases h l hl with hw | ⟨_, a, ha, _⟩
  · exact hw.2
  · exact List.ne_nil_of_mem ha

/-- More active locks block the same. -/
theorem HeadBlocked.cons (h : HeadBlocked il) {a : FLock} :
    HeadBlocked { il with active := a :: il.active } := by
  intro l hl
  rcases h l hl with hw | ⟨hr, b, hb, htype⟩
  · exact .inl ⟨hw.1, List.cons_ne_nil _ _⟩
  · exact .inr ⟨hr, b, List.mem_cons_of_mem a hb, htype⟩

/-- More locks at the end of the queue. -/
theorem HeadBlocked.append (h : HeadBlocked il) (hne : il.waiting ≠ []) :
    HeadBlocked { il with waiting := il.waiting ++ ls } := by
  intro l hl
  have hl : (il.waiting ++ ls).head? = some l := hl
  rw [List.head?_append_of_ne_nil _ hne] at hl
  exact h l hl

/-! ## §2. Letting locks in. -/

/-- No reader is in front of those that are left. -/
theorem head_letIn {linux : Bool} : ∀ l ∈ (letIn linux ls).2.head?, l.ltype = .writer := by
  induction ls with
  | nil => exact nofun
  | cons x ls ih =>
    unfold letIn
    split
    · exact ih
    next hx =>
    have hw : x.ltype = .writer := by
      cases htype : x.ltype with
      | reader => exact absurd htype hx
      | writer => rfl
    split <;> exact fun l hl => Option.some.inj hl ▸ hw

/-- **The promotion routine leaves a blocked head** when it is called: on a free file, or on one
with readers. -/
theorem headBlocked_checkWaiting (h : (il.active.head?.all fun a => a.ltype == .reader) = true) :
    HeadBlocked (il.flockLockCheckWaiting mode).il := by
  obtain ⟨active, waiting⟩ := il
  cases waiting with
  | nil => exact HeadBlocked.of_waiting_nil rfl
  | cons x ls =>
    have hne : (flockLockCheckWaiting mode ⟨active, x :: ls⟩).il.active ≠ [] :=
      checkWaiting_active_ne (.inr (List.cons_ne_nil x ls))
    unfold flockLockCheckWaiting at hne ⊢
    dsimp only at h hne ⊢
    intro l hl
    by_cases hfirst : (active.isEmpty && x.ltype == .writer) = true
    · -- the writer that is let in blocks everybody
      rw [if_pos hfirst] at hl hne ⊢
      have hwriter : x.woken.ltype = .writer := beq_iff_eq.mp (Bool.and_eq_true _ _ ▸ hfirst).2
      cases htype : l.ltype with
      | writer => exact .inl ⟨rfl, hne⟩
      | reader => exact .inr ⟨rfl, x.woken, List.mem_cons_self, hwriter⟩
    · rw [if_neg hfirst, if_pos h] at hl hne ⊢
      exact .inl ⟨head_letIn l hl, hne⟩

theorem erase_eq_nil_or_two (hmem : l ∈ ls) : ls.erase l = [] ∨ 2 ≤ ls.length := by
  have hlen := List.length_erase_of_mem hmem
  by_cases hnil : ls.erase l = []
  · exact .inl hnil
  · have hpos : 0 < (ls.erase l).length := List.length_pos_iff.mpr hnil
    exact .inr (by omega)

/-- With two active locks there is no writer. -/
theorem OneWriter.readers_of_two (h : OneWriter active)
    (htwo : 2 ≤ active.length) : ∀ a ∈ active, a.ltype = .reader := by
  rcases h with hall | ⟨w, hw, _⟩
  · exact hall
  · rw [hw, List.length_singleton] at htwo
    omega

theorem HeadBlocked.unlock (h : HeadBlocked il) (hone : OneWriter il.active) :
    HeadBlocked (il.flockLockUnlock mode l).il := by
  unfold flockLockUnlock
  dsimp only
  split
  next hfree =>
    rw [Bool.and_eq_true, List.isEmpty_iff] at hfree
    refine headBlocked_checkWaiting ?_
    rw [hfree.1]
    rfl
  next hother =>
    by_cases hmem : l ∈ il.active
    swap
    · rwa [List.erase_of_not_mem hmem]
    rcases erase_eq_nil_or_two hmem with hnil | htwo
    · -- the last lock goes and nobody waits
      rw [hnil, List.isEmpty_nil, Bool.true_and, Bool.not_eq_true', Bool.not_eq_false,
        List.isEmpty_iff] at hother
      exact HeadBlocked.of_waiting_nil hother
    · -- readers stay, so a writer is waiting for them
      intro x hx
      have hlen := List.length_erase_of_mem hmem
      have hne : il.active.erase l ≠ [] := List.ne_nil_of_length_pos (by omega)
      rcases h x hx with hw | ⟨_, a, ha, htype⟩
      · exact .inl ⟨hw.1, hne⟩
      · rw [hone.readers_of_two htwo a ha] at htype
        cases htype

theorem HeadBlocked.new (h : HeadBlocked il) {ltype : LType}
    {q : FlockRequest} : HeadBlocked (il.flockLockNew mode ltype q).2.il := by
  unfold flockLockNew
  split
  next hcheck =>
    by_cases hw : il.waiting = []
    · -- the new lock is the first one, so it was an active lock that stopped it
      rw [hw]
      refine headBlocked_cons.mpr ?_
      cases ltype with
      | reader =>
        rw [flockCheck, hw, List.isEmpty_nil, Bool.not_true, Bool.and_false,
          Bool.or_false] at hcheck
        cases hact : il.active with
        | nil =>
          rw [hact] at hcheck
          cases hcheck
        | cons a ls =>
          rw [hact, List.head?_cons, Option.any_some, beq_iff_eq] at hcheck
          exact .inr ⟨rfl, a, List.mem_cons_self, hcheck⟩
      | writer =>
        rw [flockCheck, Bool.not_eq_true', List.isEmpty_eq_false_iff] at hcheck
        exact .inl ⟨rfl, hcheck⟩
    · exact h.append hw
  · exact h.cons

/-! ## §3. The queue changes. -/

/-- The lock is waited for by one request only, which is interrupted. -/
def FLock.interrupted (l : FLock) (q : FlockRequest) : Bool :=
  l.ofRequest q && l.instances.all fun i => i.reqid == q.reqid

/-- A lock may come to the front, if it is a writer or a writer is active. -/
def FInode.mayLead (il : FInode) (next : Option FLock) : Bool :=
  (next.all fun l => l.ltype == .writer) || il.active.any fun a => a.ltype == .writer

theorem headBlocked_of_mayLead {l' : FLock} (hok : il.mayLead (some l) = true)
    (hactive : il.active ≠ []) (htype : l'.ltype = l.ltype) :
    HeadBlocked ⟨il.active, l' :: ls⟩ := by
  refine headBlocked_cons.mpr ?_
  unfold mayLead at hok
  rw [Option.all_some, Bool.or_eq_true, beq_iff_eq, List.any_eq_true] at hok
  cases hl : l'.ltype with
  | writer => exact .inl ⟨rfl, hactive⟩
  | reader =>
    rcases hok with hw | ⟨a, ha, haw⟩
    · rw [← htype, hl] at hw
      cases hw
    · exact .inr ⟨rfl, a, ha, beq_iff_eq.mp haw⟩

/-- If the first waiting lock leaves, the first one that stays may come to the front. -/
def FInode.FrontOk (il : FInode) (stays : FLock → Bool) : Prop :=
  ∀ l ∈ il.waiting.head?, stays l = false → il.mayLead (il.waiting.find? stays) = true

/-- Locks leave the queue: the new head has the type of the first lock that stays. -/
theorem HeadBlocked.leave {stays : FLock → Bool} (h : HeadBlocked il) (hok : il.FrontOk stays)
    (hhead : waiting.head?.map FLock.ltype = (il.waiting.find? stays).map FLock.ltype) :
    HeadBlocked { il with waiting := waiting } := by
  cases waiting with
  | nil => exact HeadBlocked.of_waiting_nil rfl
  | cons l ls =>
  obtain ⟨y, hy, htype⟩ := Option.map_eq_some_iff.mp hhead.symm
  cases hw : il.waiting with
  | nil =>
    rw [hw] at hy
    cases hy
  | cons x xs =>
    have hx : il.waiting.head? = some x := by rw [hw]; rfl
    cases hstays : stays x with
    | true =>
      rw [hw, List.find?_cons_of_pos hstays] at hy
      refine headBlocked_cons.mpr ?_
      rw [← htype, ← Option.some.inj hy]
      exact h x hx
    | false => exact headBlocked_of_mayLead (hy ▸ hok x hx hstays) (h.active_ne hx) htype.symm

/-- An interrupted request takes the locks with it that nobody else waits for. -/
theorem head?_interrupted : ((interrupted q ls).head?).map FLock.ltype
      = (ls.find? fun l => !l.interrupted q).map FLock.ltype := by
  unfold interrupted
  rw [List.head?_filterMap]
  induction ls with
  | nil => rfl
  | cons x ls ih =>
    have hempty : (x.withoutReq q.reqid).instances.isEmpty
        = x.instances.all fun i => i.reqid == q.reqid := by
      unfold FLock.withoutReq
      induction x.instances with
      | nil => rfl
      | cons i is ih => by_cases hi : i.reqid = q.reqid <;> simp [hi, ih]
    rw [List.findSome?_cons, List.find?_cons]
    unfold FLock.interrupted
    cases hq : x.ofRequest q with
    | false => rfl
    | true =>
      rw [if_pos rfl, hempty]
      cases x.instances.all fun i => i.reqid == q.reqid with
      | true => exact ih
      | false => rfl

/-- A lock is cancelled. -/
theorem HeadBlocked.cancel {p : FLock → Bool} (h : HeadBlocked il)
    (hl : il.waiting.find? p = some l)
    (hok : ∀ x ∈ il.waiting.head?, p x = true → il.mayLead il.waiting.tail.head? = true) :
    HeadBlocked { il with waiting := il.waiting.erase l } := by
  cases hw : il.waiting with
  | nil => exact HeadBlocked.of_waiting_nil rfl
  | cons x ls =>
    have hx : il.waiting.head? = some x := by rw [hw]; rfl
    rw [hw] at hl
    cases hp : p x with
    | true =>
      rw [List.find?_cons_of_pos hp] at hl
      have hnext := hok x hx hp
      rw [hw, List.tail_cons] at hnext
      rw [← Option.some.inj hl, List.erase_cons_head]
      cases ls with
      | nil => exact HeadBlocked.of_waiting_nil rfl
      | cons y ls => exact headBlocked_of_mayLead hnext (h.active_ne hx) rfl
    | false =>
      have hne : ¬ (x == l) = true := by
        rw [beq_iff_eq]
        rintro rfl
        rw [List.find?_some hl] at hp
        cases hp
      rw [List.erase_cons_tail hne]
      exact headBlocked_cons.mpr (h x hx)

theorem head?_replace {l' x : FLock} (h : (ls.replace l l').head? = some x) :
    ∃ y, ls.head? = some y ∧ (x = y ∨ (y = l ∧ x = l')) := by
  cases ls with
  | nil => cases h
  | cons y ls =>
    refine ⟨y, rfl, ?_⟩
    rw [List.replace_cons] at h
    split at h
    next heq => exact .inr ⟨(eq_of_beq heq).symm, (Option.some.inj h).symm⟩
    · exact .inl (Option.some.inj h).symm

/-- A waiting lock keeps its type, becomes a writer, or is first behind an active writer. -/
theorem HeadBlocked.retype (h : HeadBlocked il) {l' : FLock}
    (htype : l'.ltype = l.ltype ∨ l'.ltype = .writer
      ∨ (il.waiting.head? = some l → il.active.any (fun a => a.ltype == .writer) = true)) :
    HeadBlocked { il with waiting := il.waiting.replace l l' } := by
  intro x hx
  obtain ⟨y, hy, hxy⟩ := head?_replace hx
  rcases hxy with heq | ⟨hyl, hxl⟩
  · exact heq ▸ h y hy
  rcases htype with hsame | hw | hactive
  · rw [hxl, hsame, ← hyl]
    exact h y hy
  · exact .inl ⟨hxl ▸ hw, h.active_ne hy⟩
  · obtain ⟨a, ha, haw⟩ := List.any_eq_true.mp (hactive (hyl ▸ hy))
    cases htype : x.ltype with
    | writer => exact .inl ⟨rfl, h.active_ne hy⟩
    | reader => exact .inr ⟨rfl, a, ha, beq_iff_eq.mp haw⟩

/-! ## §4. Closing. -/

theorem HeadBlocked.closeActive (h : HeadBlocked il) (hone : OneWriter il.active) :
    HeadBlocked (FInode.closeActive mode sessionid ls il).il := by
  induction ls generalizing il with
  | nil => exact h
  | cons l ls ih =>
    unfold FInode.closeActive
    split
    · exact ih (h.unlock hone) hone.unlock
    · exact ih h hone

/-- The last of the active locks lets somebody in when it goes. -/
theorem headBlocked_closeAll (hall : ∀ a ∈ ls, a.holder.sessionid = sessionid)
    (hne : ls = [] → waiting = []) :
    HeadBlocked (closeActive mode sessionid ls ⟨ls, waiting⟩).il := by
  induction ls with
  | nil => exact HeadBlocked.of_waiting_nil (hne rfl)
  | cons l ls ih =>
    obtain ⟨hl, hall⟩ := List.forall_mem_cons.mp hall
    unfold closeActive
    rw [if_pos hl]
    unfold flockLockUnlock
    dsimp only
    rw [List.erase_cons_head]
    split
    next hfree =>
      rw [Bool.and_eq_true, List.isEmpty_iff] at hfree
      rw [hfree.1]
      exact headBlocked_checkWaiting rfl
    next hother =>
      refine ih hall fun hnil => ?_
      simpa [hnil] using hother

theorem HeadBlocked.close (h : HeadBlocked il) (hone : OneWriter il.active)
    (hok : il.FrontOk (fun l => l.holder.sessionid != sessionid)
      ∨ ∀ a ∈ il.active, a.holder.sessionid = sessionid) :
    HeadBlocked (il.fileClosed mode sessionid).il := by
  rcases hok with hok | hall
  · exact HeadBlocked.closeActive (h.leave hok (by rw [List.head?_filter])) hone
  · refine headBlocked_closeAll hall fun hnil => ?_
    -- where nothing is locked, nobody waits
    cases hw : il.waiting with
    | nil => rfl
    | cons x ls => exact absurd hnil (h.active_ne (by rw [hw]; rfl))

/-! ## §5. Calls and runs. -/

namespace FlockTable

/-- What a call may do to the first waiting lock of an inode while no writer is active: it may leave
the queue (by an interrupt of all its requests, a cancel, a close, a lost connection) only in front
of a writer or of nobody, and not become a reader.  A close may also take all active locks of the
inode with it. -/
def NoReaderInFront (t : FlockTable) : FlockCall → Prop
  | .cmd mode _ q =>
    let il := t.before q.inode
    (q.op = .interrupt → il.FrontOk fun l => !l.interrupted q) ∧
      ((il.active.find? fun l => l.holder == q.holder) = none →
        ∀ l ∈ il.waiting.head?, l.ofRequest q = true →
          ((q.op = .release ∨ (q.op = .unlock ∧ mode = .correct)) →
            il.mayLead il.waiting.tail.head? = true) ∧
          (q.op = .lockShared → l.ltype = .writer →
            il.active.any (fun a => a.ltype == .writer) = true))
  | .fileClosed _ sessionid inode =>
    let il := t.before inode
    il.FrontOk (fun l => l.holder.sessionid != sessionid)
      ∨ ∀ a ∈ il.active, a.holder.sessionid = sessionid
  | .disconnected connptr =>
    ∀ inode il, t inode = some il → il.FrontOk fun l => l.connptr != connptr

end FlockTable

/-- The queue of an inode after a request. -/
theorem HeadBlocked.queue {t : FlockTable} {openFiles : OpenFiles} (h : HeadBlocked il)
    (hidle : q.op = .interrupt ∨ (il.active.find? fun l => l.holder == q.holder) = none
      ∨ waiting = il.waiting)
    (hbefore : t.before q.inode = il) (hmeets : t.NoReaderInFront (.cmd mode openFiles q))
    (hq : FInode.Queue mode il.waiting q waiting) : HeadBlocked { il with waiting := waiting } := by
  obtain ⟨hint, hreq⟩ := hmeets
  rw [hbefore] at hint hreq
  cases hq with
  | same => exact h
  | interrupt hop => exact h.leave (hint hop) head?_interrupted
  | cancel l hl hop =>
    rcases hidle with hi | hactive | hsame
    · rw [hi] at hop
      rcases hop with hop | hop
      · cases hop
      · cases hop.1
    · exact h.cancel hl fun x hx hq => (hreq hactive x hx hq).1 hop
    · rw [hsame]
      exact h
  | again l l' hl hholder htype =>
    rcases htype with hsame | hw | ⟨hop, hlw, _⟩
    · exact h.retype (.inl hsame)
    · exact h.retype (.inr (.inl hw))
    rcases hidle with hi | hactive | hsame
    · rw [hi] at hop
      cases hop
    · have hof : l.ofRequest q = true := by simpa using List.find?_some hl
      exact h.retype (.inr (.inr fun hfirst => (hreq hactive l hfirst hof).2 hop hlw))
    · rw [hsame]
      exact h

theorem HeadBlocked.cmd {t : FlockTable} {openFiles : OpenFiles} {il' : FInode} {log : FlockLog}
    (h : HeadBlocked il) (hone : OneWriter il.active) (hbefore : t.before q.inode = il)
    (hmeets : t.NoReaderInFront (.cmd mode openFiles q))
    (hcmd : FInode.Cmd mode il q il' log) : HeadBlocked il' := by
  cases hcmd with
  | queue waiting hidle hq => exact h.queue hidle hbefore hmeets hq
  | unlock l hl => exact h.unlock hone
  | relock l ltype hl => exact (h.unlock hone).new
  | downgrade l hl hop htype =>
    refine headBlocked_checkWaiting ?_
    rw [hone.eq_single (List.mem_of_find?_eq_some hl) htype, replace_single]
    rfl
  | upgrade l hl hop htype hlen =>
    obtain ⟨a, ha⟩ := List.length_eq_one_iff.mp hlen
    have hmem := List.mem_of_find?_eq_some hl
    rw [ha] at hmem
    rw [ha, ← List.mem_singleton.mp hmem, replace_single]
    intro x hx
    cases hxt : x.ltype with
    | writer => exact .inl ⟨rfl, List.cons_ne_nil _ _⟩
    | reader => exact .inr ⟨rfl, _, List.mem_cons_self, rfl⟩
  | new ltype hop hactive hwaiting => exact h.new

/-- **Every call that leaves no reader in front keeps the head blocked.** -/
theorem HeadBlocked.change {t : FlockTable} {il' : FInode} {c : FlockCall} {inode : Nat}
    (h : HeadBlocked il) (hone : OneWriter il.active) (hbefore : t.before inode = il)
    (hmeets : t.NoReaderInFront c) (hch : FlockTable.Change il c inode il') : HeadBlocked il' := by
  cases hch with
  | cmd mode openFiles q il' log hcmd => exact h.cmd hone hbefore hmeets hcmd
  | close mode sessionid inode =>
    dsimp only [FlockTable.NoReaderInFront] at hmeets
    rw [hbefore] at hmeets
    exact h.close hone hmeets
  | disconnect connptr inode =>
    refine h.leave ?_ (by rw [List.head?_filter])
    cases hil : t inode with
    | none =>
      rw [FlockTable.before, hil] at hbefore
      rw [← hbefore]
      intro l hl
      cases hl
    | some x =>
      rw [FlockTable.before, hil] at hbefore
      exact hbefore ▸ hmeets inode x hil

/-- On every inode the first waiting lock excludes an active one. -/
def FlockTable.HeadsBlocked (t : FlockTable) : Prop :=
  ∀ inode il, t inode = some il → ∀ l ∈ il.waiting.head?,
    (l.ltype = .writer ∧ il.active ≠ []) ∨ (l.ltype = .reader ∧ ∃ a ∈ il.active, a.ltype = .writer)

/-- **No grantable head** in every run whose calls leave no reader in front. -/
theorem flock_head_blocked (cs : List FlockCall)
    (hmeets : Lib.StepsMeet FlockTable.call FlockTable.NoReaderInFront FlockTable.empty cs) :
    (Lib.run FlockTable.call FlockTable.empty cs).HeadsBlocked := by
  let Inv := fun il : FInode => OneWriter il.active ∧ HeadBlocked il
  have hempty : Inv ⟨[], []⟩ := ⟨OneWriter.nil, HeadBlocked.of_waiting_nil rfl⟩
  have hrun : ∀ (cs : List FlockCall) (t : FlockTable), t.Each Inv →
      Lib.StepsMeet FlockTable.call FlockTable.NoReaderInFront t cs →
      (Lib.run FlockTable.call t cs).Each Inv :=
    Lib.run_invariant fun t c ht hc =>
      ht.call hempty fun il inode il' hil hbefore hch =>
        ⟨hil.1.change hch, hil.2.change hil.1 hbefore hc hch⟩
  intro inode il hil
  exact (hrun cs FlockTable.empty (fun _ _ h => by cases h) hmeets inode il hil).2

/-- A request of one of three sessions for a file all of them have open. -/
def flockRequest (mode : FlockMode) (sessionid : Nat) (op : FlockOp) : FlockCall :=
  .cmd mode [(1, 5), (2, 5), (3, 5)]
    { connptr := sessionid, holder := ⟨sessionid, 7⟩, msgid := 0, reqid := 0, inode := 5, op := op }

/-- A reader, and a writer that waits for it and is interrupted. -/
theorem flock_head_blocked_interrupt :
    Lib.StepsMeet FlockTable.call FlockTable.NoReaderInFront FlockTable.empty
        [flockRequest .correct 1 .lockShared, flockRequest .correct 2 .lockExclusive,
          flockRequest .correct 2 .interrupt]
      ∧ (Lib.run FlockTable.call FlockTable.empty
        [flockRequest .correct 1 .lockShared, flockRequest .correct 2 .lockExclusive,
          flockRequest .correct 2 .interrupt]).HeadsBlocked := by
  refine ⟨?meets, flock_head_blocked _ ?meets⟩
  refine ⟨⟨nofun, fun _ l hl => by cases hl⟩, ⟨nofun, fun _ l hl => by cases hl⟩,
    ⟨fun _ _ _ _ => rfl, fun _ l hl _ => ⟨?_, nofun⟩⟩, trivial⟩
  rintro (hop | hop)
  · cases hop
  · cases hop.1

/-- **A reader waits for readers.**  The second session waits for a write lock, the third one for a
read lock behind it; when the second one is interrupted nobody lets the third one in. -/
theorem flock_head_after_interrupt : ¬ (Lib.run FlockTable.call FlockTable.empty
        [flockRequest .correct 1 .lockShared, flockRequest .correct 2 .lockExclusive,
          flockRequest .correct 3 .lockShared, flockRequest .correct 2 .interrupt]).HeadsBlocked := by
  intro h
  have hhead := h 5 ⟨[⟨⟨1, 7⟩, 1, .reader, []⟩], [⟨⟨3, 7⟩, 3, .reader, [⟨0, 0⟩]⟩]⟩ (by decide)
    ⟨⟨3, 7⟩, 3, .reader, [⟨0, 0⟩]⟩ rfl
  exact absurd hhead (by decide)

end MfsMaster
