/-
  MfsMaster.Types
  Constants of the protocol the master speaks (`MFSCommunication.h`): the answers
  of the metadata functions, node types, attribute bits, and the identity a client
  request carries.
-/
import Mathlib.Data.List.Basic

namespace MfsMaster

/-! ## §1. Answers. -/

/-- The status codes the modelled functions return. -/
inductive Status where
  | ok
  | eperm
  | enotdir
  | enoent
  | eacces
  | eexist
  | einval
  | enotempty
  | chunklost
  | indextoobig
  | locked
  | nochunkservers
  | nochunk
  | wrongversion
  | csnotpresent
  | active
  | chunkbusy
  | notdone
  | chunkexist
  | nospace
  | delayed
  | cantcreatepath
  | mismatch
  | erofs
  | quota
  | eagain
  | epermNotadmin
  | enametoolong
  | emlink
  | waiting
  | notopened
  | eintr
  | ecanceled
  | badsessionid
  | notfound
  | etimedout
  | erange
  deriving Repr, DecidableEq

/-- What a replica does with an answer: keep the new state, or stop. -/
def Status.toOption {σ : Type*} (r : Status × σ) : Option σ :=
  if r.1 = .ok then some r.2 else none

@[simp] theorem Status.toOption_ok {σ : Type*} (s : σ) : Status.toOption (.ok, s) = some s := rfl

theorem Status.toOption_eq_some {σ : Type*} {r : Status × σ} {s : σ} :
    Status.toOption r = some s ↔ r.1 = .ok ∧ r.2 = s := by
  unfold Status.toOption
  split <;> simp_all

/-- `if (bad) return st;` -/
def refuse (bad : Bool) (st : Status) : Except Status Unit :=
  if bad then .error st else .ok ()

variable {bad : Bool} {st : Status} {l : List Status} {α β : Type} {o : Option α} {a : α}
  {x : Except Status α} {k : α → Except Status β}

theorem refuse_eq_ok {u : Unit} : refuse bad st = .ok u ↔ bad = false := by
  cases bad <;> simp [refuse]

/-- The value, or the error `st` in its place. -/
def require {α : Type} (o : Option α) (st : Status) : Except Status α :=
  match o with
  | some a => .ok a
  | none => .error st

theorem require_eq_ok : require o st = .ok a ↔ o = some a := by
  cases o <;> simp [require]

theorem except_bind_eq_ok {b : β} : (x >>= k) = .ok b ↔ ∃ a, x = .ok a ∧ k a = .ok b := by
  cases x with
  | error e =>
    show Except.error e = _ ↔ _
    simp
  | ok a =>
    show k a = _ ↔ _
    simp

/-- An error is never `MFS_STATUS_OK`. -/
def NeverOk {α : Type} (x : Except Status α) : Prop := x ≠ .error .ok

@[simp] theorem neverOk_refuse (h : st ≠ .ok) : NeverOk (refuse bad st) := by
  unfold NeverOk refuse
  cases bad <;> simp [h]

@[simp] theorem neverOk_require (h : st ≠ .ok) : NeverOk (require o st) := by
  unfold NeverOk require
  cases o <;> simp [h]

@[simp] theorem neverOk_pure : NeverOk (pure a : Except Status α) := by
  intro h
  cases h

@[simp] theorem neverOk_bind : NeverOk (x >>= k) ↔ NeverOk x ∧ ∀ a, x = .ok a → NeverOk (k a) := by
  unfold NeverOk
  cases x with
  | error e =>
    show Except.error e ≠ _ ↔ _
    simp
  | ok a =>
    show k a ≠ _ ↔ _
    simp

@[simp] theorem neverOk_map {g : α → β} : NeverOk (g <$> x) ↔ NeverOk x := by
  cases x <;> simp [NeverOk]

/-- A test whose error would be `MFS_STATUS_OK` found none. -/
theorem NeverOk.exists_ok (h : NeverOk x) (hst : ∀ st, x = .error st → st = .ok) :
    ∃ a, x = .ok a := by
  cases x with
  | error st => exact absurd (congrArg Except.error (hst st rfl)) h
  | ok a => exact ⟨a, rfl⟩

/-- Every error is one of a list. -/
def ErrorsIn {α : Type} (l : List Status) (x : Except Status α) : Prop :=
  ∀ st, x = .error st → st ∈ l

theorem errorsIn_refuse (h : st ∈ l) : ErrorsIn l (refuse bad st) := by
  intro st' hst'
  cases bad with
  | true =>
    cases hst'
    exact h
  | false => cases hst'

theorem errorsIn_require (h : st ∈ l) : ErrorsIn l (require o st) := by
  intro st' hst'
  cases o with
  | none =>
    cases hst'
    exact h
  | some a => cases hst'

theorem errorsIn_pure : ErrorsIn l (pure a : Except Status α) := by
  intro st h
  cases h

theorem errorsIn_bind (hx : ErrorsIn l x) (hk : ∀ a, ErrorsIn l (k a)) : ErrorsIn l (x >>= k) := by
  cases x with
  | error e =>
    intro st h
    cases h
    exact hx e rfl
  | ok a => exact hk a

/-! ## §2. Nodes. -/

/-- `TYPE_*`. -/
inductive NodeType where
  | file
  | directory
  | symlink
  | fifo
  | blockdev
  | chardev
  | socket
  | trash
  | sustained
  deriving Repr, DecidableEq

/-- The types that keep `fdata`: a length and a chunk table. -/
def NodeType.hasData : NodeType → Bool
  | .file | .trash | .sustained => true
  | _ => false

/-- A name or a path: bytes without a terminator. -/
abbrev Name := List UInt8

def eattrNoowner : UInt8 := 0x01
def eattrNoecache : UInt8 := 0x04
def eattrSnapshot : UInt8 := 0x10
def eattrUndeletable : UInt8 := 0x20
def eattrAppendonly : UInt8 := 0x40
def eattrImmutable : UInt8 := 0x80

def winattrReadOnly : UInt8 := 1

/-- Does `x` have one of the bits of `mask`?  (C's `x & mask` as a condition.) -/
def hasBit (x mask : UInt8) : Bool :=
  x &&& mask != 0

/-- None of the bits of a mask, so none of a part of it. -/
theorem hasBit_of_submask {x mask part : UInt8} (hpart : mask &&& part = part)
    (h : hasBit x mask = false) : hasBit x part = false := by
  have hzero : x &&& mask = 0 := by simpa [hasBit] using h
  have hx : x &&& part = 0 := by rw [← hpart, ← UInt8.and_assoc, hzero, UInt8.zero_and]
  simp [hasBit, hx]

/-- `MFS_ROOT_ID`. -/
def rootId : Nat := 1

/-! ## §3. Requests. -/

/-- The session flags the modelled functions read. -/
structure SesFlags where
  readonly : Bool
  ignoregid : Bool
  admin : Bool
  metarestore : Bool
  deriving Repr, DecidableEq

/-- The flags of a replaying master: `SESFLAG_METARESTORE` alone. -/
def SesFlags.replica : SesFlags :=
  { readonly := false, ignoregid := false, admin := false, metarestore := true }

/-- `uid`, `gids` and `gid[]` of a request. -/
structure Cred where
  uid : Nat
  gids : List Nat
  deriving Repr, DecidableEq

/-- `gid[0]`. -/
def Cred.gid (c : Cred) : Nat := c.gids.headD 0

end MfsMaster
