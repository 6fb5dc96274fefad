/-
  MfsMaster.Squeue
  **THE QUEUE BETWEEN THREADS** (`squeue.c`).

  Who gets sleeps on `waitfree` until there is an entry, who puts sleeps on `waitfull` until there
  is room.  A call holds the mutex up to its return or its sleep; a thread that was woken takes
  the mutex again and repeats its test.  A signal wakes any sleeper, and one may wake without it.

      squeue_tended — order, limit and wake-ups in every interleaving
-/
import Mathlib
import MfsMaster.Lib.Replay

namespace MfsMaster

/-- The queue with the threads in it: those asleep, and those woken that wait for the mutex.  Who
puts is the data it brings.  `accepted` and `delivered` are the data of calls that returned 0.
`elements` is the length of `entries`: also without a limit they stay below 2^32. -/
structure Squeue (D : Type) where
  entries : List D
  maxelements : Nat
  closed : Bool
  waitfree : Nat
  wokenfree : Nat
  waitfull : List D
  wokenfull : List D
  accepted : List D
  delivered : List D

/-- What a call returns; `sleeps` when it does not yet. -/
inductive SqueueAnswer (D : Type) where
  | done
  | data (d : D)
  | eio
  | ebusy
  | sleeps

namespace Squeue

variable {D : Type} (q : Squeue D)

/-! ## §1. The calls. -/

def squeueNew (length : Nat) : Squeue D := ⟨[], length, false, 0, 0, [], [], [], []⟩

/-- One thread leaves its sleep on `waitfree`. -/
def wakeFree : Squeue D :=
  { q with waitfree := q.waitfree - 1, wokenfree := q.wokenfree + min 1 q.waitfree }

/-- One thread leaves its sleep on `waitfull`; `i` chooses it. -/
def wakeFull (i : Nat) : Squeue D :=
  match q.waitfull.rotate i with
  | [] => q
  | d :: rest => { q with waitfull := rest, wokenfull := d :: q.wokenfull }

/-- The end of `squeue_put` and `squeue_tryput`. -/
def append (d : D) : Squeue D × SqueueAnswer D :=
  ({ q with entries := q.entries ++ [d], accepted := q.accepted ++ [d] }.wakeFree, .done)

def squeuePut (d : D) : Squeue D × SqueueAnswer D :=
  if q.maxelements = 0 then q.append d
  else if q.maxelements ≤ q.entries.length ∧ q.closed = false then
    ({ q with waitfull := d :: q.waitfull }, .sleeps)
  else if q.closed then (q, .eio)
  else q.append d

def squeueTryput (d : D) : Squeue D × SqueueAnswer D :=
  if q.maxelements ≠ 0 ∧ q.maxelements ≤ q.entries.length then (q, .ebusy) else q.append d

/-- `squeue_get` ends in the same way. -/
def squeueTryget (i : Nat) : Squeue D × SqueueAnswer D :=
  match q.entries with
  | [] => (q, .ebusy)
  | d :: rest =>
    let q := { q with entries := rest, delivered := q.delivered ++ [d] }
    (if q.maxelements = 0 then q else q.wakeFull i, .data d)

def squeueGet (i : Nat) : Squeue D × SqueueAnswer D :=
  if q.entries = [] ∧ q.closed = false then ({ q with waitfree := q.waitfree + 1 }, .sleeps)
  else if q.closed then (q, .eio)
  else q.squeueTryget i

def squeueClose : Squeue D :=
  let q := { q with closed := true, waitfree := 0, wokenfree := q.wokenfree + q.waitfree }
  if q.maxelements = 0 then q
  else { q with waitfull := [], wokenfull := q.waitfull ++ q.wokenfull }

/-- A call, a woken thread that gets the mutex, or a sleeper that wakes by itself. -/
inductive Event (D : Type) where
  | put (d : D)
  | tryput (d : D)
  | get (i : Nat)
  | tryget (i : Nat)
  | close
  | resumePut (i : Nat)
  | resumeGet (i : Nat)
  | spuriousPut (i : Nat)
  | spuriousGet

def step : Event D → Squeue D
  | .put d => (q.squeuePut d).1
  | .tryput d => (q.squeueTryput d).1
  | .get i => (q.squeueGet i).1
  | .tryget i => (q.squeueTryget i).1
  | .close => q.squeueClose
  | .resumePut i =>
    match q.wokenfull.rotate i with
    | [] => q
    | d :: rest => ({ q with wokenfull := rest }.squeuePut d).1
  | .resumeGet i =>
    if q.wokenfree = 0 then q else ({ q with wokenfree := q.wokenfree - 1 }.squeueGet i).1
  | .spuriousPut i => q.wakeFull i
  | .spuriousGet => q.wakeFree

/-! ## §2. What every step keeps. -/

/-- Who sleeps cannot go on, or a woken thread is on its way; `g` that get and `p` that put already
have the mutex. -/
structure Tended (n g p : Nat) (q : Squeue D) : Prop where
  max : q.maxelements = n
  fifo : q.accepted = q.delivered ++ q.entries
  limit : n ≠ 0 → q.entries.length ≤ n
  closed : q.closed → q.waitfree = 0 ∧ q.waitfull = []
  free : 0 < q.waitfree → q.entries.length ≤ q.wokenfree + g
  full : q.waitfull ≠ [] → n ≠ 0 ∧ n ≤ q.entries.length + q.wokenfull.length + p

variable {q} {n g p i : Nat} {d : D}

theorem length_of_rotate {l rest : List D} (h : l.rotate i = d :: rest) :
    l.length = rest.length + 1 := by
  rw [← l.length_rotate i, h, List.length_cons]

theorem Tended.mono (h : Tended n 0 0 q) : Tended n g p q :=
  { h with
    free := fun hf => (h.free hf).trans (by omega)
    full := fun hne => (h.full hne).imp_right (·.trans (by omega)) }

theorem Tended.wakeFull (h : Tended n 0 1 q) (hnil : q.waitfull = [] → Tended n 0 0 q) :
    Tended n 0 0 (q.wakeFull i) := by
  unfold Squeue.wakeFull
  split
  next heq => exact hnil (List.rotate_eq_nil_iff.mp heq)
  next heq =>
    have hne := List.ne_nil_of_length_eq_add_one (length_of_rotate heq)
    -- the place that became free is for the woken one
    exact { h with
      closed := fun hc => absurd (h.closed hc).2 hne
      free := h.free
      full := fun _ => (h.full hne).imp_right (·.trans (by simp [Nat.add_assoc])) }

theorem Tended.append (h : Tended n 0 1 q) (hroom : n ≠ 0 → q.entries.length < n) :
    Tended n 0 0 (q.append d).1 := by
  obtain ⟨rfl, hfifo, hlimit, hclosed, hfree, hfull⟩ := h
  constructor <;> simp_all [Squeue.append, wakeFree] <;> grind

theorem Tended.squeuePut (h : Tended n 0 1 q) : Tended n 0 0 (q.squeuePut d).1 := by
  obtain rfl := h.max
  unfold Squeue.squeuePut
  split_ifs with hm hfull hcl
  · exact h.append (absurd hm)
  · exact { h with
      closed := by simp [hfull.2]
      free := h.free
      full := fun _ => ⟨hm, hfull.1.trans (by simp)⟩ }
  · exact { h with free := h.free, full := fun hne => absurd (h.closed hcl).2 hne }
  · exact h.append fun _ => by simp_all

theorem Tended.squeueTryget (h : Tended n 1 0 q) : Tended n 0 0 (q.squeueTryget i).1 := by
  obtain ⟨rfl, hfifo, hlimit, hclosed, hfree, hfull⟩ := h
  unfold Squeue.squeueTryget
  cases hq : q.entries with
  | nil => constructor <;> simp_all
  | cons d rest =>
    dsimp only
    split_ifs with hm
    · constructor <;> simp_all
    · -- one entry less: one getter less is needed, and one putter more
      refine Tended.wakeFull ?_ fun hnil => ?_
      all_goals constructor <;> simp_all <;> grind

theorem Tended.squeueGet (h : Tended n 1 0 q) : Tended n 0 0 (q.squeueGet i).1 := by
  unfold Squeue.squeueGet
  split_ifs with h0 hcl
  · exact { h with closed := by simp [h0.2], free := by simp [h0.1], full := h.full }
  · exact { h with free := by simp [h.closed hcl], full := h.full }
  · exact h.squeueTryget

theorem Tended.squeueClose (h : Tended n 0 0 q) : Tended n 0 0 q.squeueClose := by
  unfold Squeue.squeueClose
  dsimp only
  split_ifs with hm
  · have hnil : q.waitfull = [] := by_contra fun hne => (h.full hne).1 (h.max ▸ hm)
    exact { h with closed := fun _ => ⟨rfl, hnil⟩, free := by simp, full := by simp [hnil] }
  · exact { h with closed := fun _ => ⟨rfl, rfl⟩, free := by simp, full := by simp }

theorem Tended.step (h : Tended n 0 0 q) (ev : Event D) : Tended n 0 0 (q.step ev) := by
  cases ev with
  | put d => exact h.mono.squeuePut
  | tryput d =>
    have hm := h.max
    rw [Squeue.step, squeueTryput]
    split_ifs
    · exact h
    · exact h.mono.append (by omega)
  | get i => exact h.mono.squeueGet
  | tryget i => exact h.mono.squeueTryget
  | close => exact h.squeueClose
  | resumePut i =>
    rw [Squeue.step]
    split
    · exact h
    next heq =>
      have hlen := length_of_rotate heq
      exact Tended.squeuePut { h with
        free := h.free
        full := fun hne => (h.full hne).imp_right (·.trans (by dsimp only; omega)) }
  | resumeGet i =>
    rw [Squeue.step]
    split_ifs
    · exact h
    · exact Tended.squeueGet
        { h with free := fun hf => (h.free hf).trans (by dsimp only; omega), full := h.full }
  | spuriousPut i => exact h.mono.wakeFull fun _ => h
  | spuriousGet =>
    obtain ⟨rfl, hfifo, hlimit, hclosed, hfree, hfull⟩ := h
    constructor <;> simp_all [Squeue.step, wakeFree]
    all_goals grind

/-- **The queue in every interleaving of its threads.**  What was accepted is delivered once and in
order, within the limit.  While a thread sleeps in `squeue_get`, there is a woken one for every
entry; while a thread sleeps in `squeue_put`, there is a woken one for every free place.  Nobody
sleeps in a closed queue. -/
theorem squeue_tended (n : Nat) (evs : List (Event D)) :
    let q := Lib.run step (squeueNew n) evs
    q.accepted = q.delivered ++ q.entries ∧ (n ≠ 0 → q.entries.length ≤ n) ∧
    (0 < q.waitfree → q.closed = false ∧ q.entries.length ≤ q.wokenfree) ∧
    (q.waitfull ≠ [] → q.closed = false ∧ n - q.entries.length ≤ q.wokenfull.length) := by
  intro q
  have h : Tended n 0 0 q :=
    Lib.run_kept (fun _ ev hq => hq.step ev) (by constructor <;> simp [squeueNew])
  refine ⟨h.fifo, h.limit, fun hf => ⟨?_, h.free hf⟩, fun hne => ⟨?_, ?_⟩⟩
  · exact Bool.eq_false_iff.mpr fun hc => hf.ne' (h.closed hc).1
  · exact Bool.eq_false_iff.mpr fun hc => hne (h.closed hc).2
  · have := (h.full hne).2
    omega

end Squeue
end MfsMaster
