/-
  MfsMaster.Lib.Pack
  **RECORDS IN A STREAM OF BYTES** (general, no file system here).

  Numbers are written with their most significant byte first.  A READER takes what it
  needs from the front of a stream, or refuses.  `Reads r bytes a` says that `r` makes `a`
  of exactly these bytes, whatever follows them; two rules put readers together:

      Reads.bind        — one reader after the other
      loopAll_accepted  — a loop over records, one round for each of them, which may refuse it
-/
import Mathlib.Data.List.Basic
import Mathlib.Algebra.Order.Group.Nat
import Mathlib.Tactic.Ring

namespace MfsMaster.Lib

/-! ## §1. Readers. -/

/-- What is made of the front of a stream, and the rest of it. -/
abbrev Reader (α : Type) := StateT (List UInt8) Option α

variable {bs : List UInt8}

namespace Reader

variable {α β σ : Type}

variable {a : α} {r : Reader α} {f : α → Reader β} {b : β}

/-- The reader refuses. -/
def refused : Reader α := fun _ => none

/-- The next `n` bytes. -/
def bytes (n : Nat) : Reader (List UInt8) := fun s =>
  if n ≤ s.length then some (s.take n, s.drop n) else none

/-- The reader makes `a` of these bytes, whatever follows. -/
def Reads (r : Reader α) (bs : List UInt8) (a : α) : Prop := ∀ rest, r (bs ++ rest) = some (a, rest)

theorem Reads.pure : Reads (Pure.pure a) [] a := fun _ => rfl

/-- **One reader after the other.** -/
theorem Reads.bind {cs : List UInt8}
    (hr : r.Reads bs a) (hf : (f a).Reads cs b) : Reads (r >>= f) (bs ++ cs) b := by
  intro rest
  show (r (bs ++ cs ++ rest)).bind (fun p => f p.1 p.2) = some (b, rest)
  rw [List.append_assoc, hr]
  exact hf rest

/-- What is decided after reading takes no bytes. -/
theorem Reads.bind_nil (hr : r.Reads bs a) (hf : (f a).Reads [] b) : Reads (r >>= f) bs b := by
  have h := hr.bind hf
  rwa [List.append_nil] at h

theorem Reads.map (hr : r.Reads bs a) (f : α → β) :
    Reads (r >>= fun a => Pure.pure (f a)) bs (f a) :=
  hr.bind_nil Reads.pure

theorem reads_bytes {n : Nat} (hn : bs.length = n) : (bytes n).Reads bs bs := by
  intro rest
  subst hn
  unfold bytes
  rw [if_pos (by rw [List.length_append]; omega), List.take_left, List.drop_left]

/-! ## §2. Numbers. -/

/-- `w` bytes of a number, the most significant one first. -/
def put : (w : Nat) → Nat → List UInt8
  | 0, _ => []
  | w + 1, n => UInt8.ofNat (n / 256 ^ w) :: put w n

/-- The number in some bytes, on top of what came before. -/
def value (acc : Nat) : List UInt8 → Nat
  | [] => acc
  | b :: bs => value (acc * 256 + b.toNat) bs

/-- A number of `w` bytes. -/
def number (w : Nat) : Reader Nat := bytes w >>= fun bs => Pure.pure (value 0 bs)

@[simp] theorem length_put (w n : Nat) : (put w n).length = w := by
  induction w with
  | zero => rfl
  | succ w ih =>
    unfold put
    rw [List.length_cons, ih]

theorem value_put (w n acc : Nat) : value acc (put w n) = acc * 256 ^ w + n % 256 ^ w := by
  induction w generalizing acc with
  | zero =>
    show acc = acc * 256 ^ 0 + n % 256 ^ 0
    rw [pow_zero, Nat.mod_one]
    omega
  | succ w ih =>
    have hbyte : (UInt8.ofNat (n / 256 ^ w)).toNat = n / 256 ^ w % 256 := by
      rw [UInt8.toNat_ofNat']
    -- the digit in front and the digits behind it
    have hsplit : n % 256 ^ (w + 1) = 256 ^ w * (n / 256 ^ w % 256) + n % 256 ^ w := by
      rw [pow_succ, Nat.mod_mul, Nat.add_comm]
    show value (acc * 256 + (UInt8.ofNat (n / 256 ^ w)).toNat) (put w n) = _
    rw [ih, hbyte, hsplit]
    ring

/-- **A number that fits comes back.** -/
theorem reads_number {w n : Nat} (hn : n < 256 ^ w) : (number w).Reads (put w n) n := by
  have h := (reads_bytes (length_put w n)).map (value 0)
  rw [value_put, Nat.zero_mul, Nat.zero_add, Nat.mod_eq_of_lt hn] at h
  exact h

/-! ## §3. Machine words. -/

def put8bit (x : UInt8) : List UInt8 := put 1 x.toNat
def put16bit (x : UInt16) : List UInt8 := put 2 x.toNat
def put32bit (x : UInt32) : List UInt8 := put 4 x.toNat
def put64bit (x : UInt64) : List UInt8 := put 8 x.toNat

def get8bit : Reader UInt8 := number 1 >>= fun n => Pure.pure (UInt8.ofNat n)
def get16bit : Reader UInt16 := number 2 >>= fun n => Pure.pure (UInt16.ofNat n)
def get32bit : Reader UInt32 := number 4 >>= fun n => Pure.pure (UInt32.ofNat n)
def get64bit : Reader UInt64 := number 8 >>= fun n => Pure.pure (UInt64.ofNat n)

theorem reads_get8bit (x : UInt8) : get8bit.Reads (put8bit x) x := by
  have h := (reads_number (w := 1) x.toNat_lt).map UInt8.ofNat
  rwa [UInt8.ofNat_toNat] at h

theorem reads_get16bit {x : UInt16} : get16bit.Reads (put16bit x) x := by
  have h := (reads_number (w := 2) x.toNat_lt).map UInt16.ofNat
  rwa [UInt16.ofNat_toNat] at h

theorem reads_get32bit (x : UInt32) : get32bit.Reads (put32bit x) x := by
  have h := (reads_number (w := 4) x.toNat_lt).map UInt32.ofNat
  rwa [UInt32.ofNat_toNat] at h

theorem reads_get64bit {x : UInt64} : get64bit.Reads (put64bit x) x := by
  have h := (reads_number (w := 8) x.toNat_lt).map UInt64.ofNat
  rwa [UInt64.ofNat_toNat] at h

/-! ## §4. Loops. -/

/-- Rounds of a loop; `.inl` goes on, `.inr` ends it. -/
def loop (round : σ → Reader (σ ⊕ β)) : Nat → σ → Reader β
  | 0, _ => refused
  | fuel + 1, s => round s >>= fun
    | .inl s' => loop round fuel s'
    | .inr b => Pure.pure b

/-- The whole stream: a round takes at least one byte, so its length is fuel enough. -/
def loopAll (round : σ → Reader (σ ⊕ β)) (s : σ) : Reader β := fun stream =>
  loop round (stream.length + 1) s stream

section
variable {round : σ → Reader (σ ⊕ β)} {accept : σ → α → Option σ} {bytesOf : α → List UInt8}
  {as : List α} {s s' : σ}
  (hround : ∀ s a s', a ∈ as → accept s a = some s' → (round s).Reads (bytesOf a) (.inl s'))
  (has : as.foldlM accept s = some s')
include hround has

/-- One round for each of the records, if none of them is refused. -/
theorem loop_accepted {fuel : Nat} {rest : List UInt8} :
    loop round (as.length + fuel) s ((as.map bytesOf).flatten ++ rest)
      = loop round fuel s' rest := by
  induction as generalizing s with
  | nil =>
    cases has
    rw [List.length_nil, Nat.zero_add]
    rfl
  | cons a as ih =>
    obtain ⟨s1, h1, h2⟩ := Option.bind_eq_some_iff.mp has
    have hfirst := hround s a s1 List.mem_cons_self h1 ((as.map bytesOf).flatten ++ rest)
    rw [List.map_cons, List.flatten_cons, List.append_assoc, List.length_cons,
      Nat.add_right_comm]
    show (round s (bytesOf a ++ _)).bind _ = _
    rw [show round s (bytesOf a ++ ((as.map bytesOf).flatten ++ rest)) = _ from hfirst]
    exact ih (fun s b s' hb => hround s b s' (List.mem_cons_of_mem a hb)) h2

variable (hbytes : ∀ a ∈ as, bytesOf a ≠ [])
include hbytes

/-- What is left to do after the records. -/
theorem loopAll_after {rest : List UInt8} :
    ∃ fuel, loopAll round s ((as.map bytesOf).flatten ++ rest)
      = loop round (fuel + 1) s' rest := by
  have hlen : as.length ≤ (as.map bytesOf).flatten.length := by
    clear hround has
    induction as with
    | nil => exact Nat.zero_le _
    | cons a as ih =>
      have ha := List.length_pos_of_ne_nil (hbytes a List.mem_cons_self)
      have := ih fun b hb => hbytes b (List.mem_cons_of_mem a hb)
      rw [List.map_cons, List.flatten_cons, List.length_append, List.length_cons]
      omega
  refine ⟨((as.map bytesOf).flatten ++ rest).length - as.length, ?_⟩
  have hfuel : ((as.map bytesOf).flatten ++ rest).length + 1
      = as.length + (((as.map bytesOf).flatten ++ rest).length - as.length + 1) := by
    rw [List.length_append]
    omega
  unfold loopAll
  rw [hfuel, loop_accepted hround has]

/-- **A loop over records that may be refused**: if none of them is, the loop reads them all, and
the round that ends it comes next. -/
theorem loopAll_accepted {final : List UInt8} {b : β} (hfinal : (round s').Reads final (.inr b)) :
    (loopAll round s).Reads ((as.map bytesOf).flatten ++ final) b := by
  intro rest
  obtain ⟨fuel, hafter⟩ := loopAll_after hround has hbytes
  rw [List.append_assoc, hafter]
  show (round s' (final ++ rest)).bind _ = _
  rw [hfinal rest]
  rfl

end

/-- What every round keeps, and what every last round then shows, holds when the loop ends. -/
theorem loopAll_invariant {round : σ → Reader (σ ⊕ β)} {Inv : σ → Prop} {Post : β → Prop}
    (hnext : ∀ s stream s' rest, Inv s → round s stream = some (.inl s', rest) → Inv s')
    (hlast : ∀ s stream b rest, Inv s → round s stream = some (.inr b, rest) → Post b)
    {s : σ} (hs : Inv s) {stream rest : List UInt8} {b : β}
    (h : loopAll round s stream = some (b, rest)) : Post b := by
  have hloop : ∀ (fuel : Nat) (s : σ) (stream : List UInt8), Inv s →
      loop round fuel s stream = some (b, rest) → Post b := by
    intro fuel
    induction fuel with
    | zero =>
      intro s stream _ h
      exact nomatch h
    | succ fuel ih =>
      intro s stream hs h
      obtain ⟨⟨r, left⟩, hr, h⟩ := Option.bind_eq_some_iff.mp h
      cases r with
      | inl s' => exact ih s' left (hnext s stream s' left hs hr) h
      | inr b' =>
        cases h
        exact hlast s stream b rest hs hr
  exact hloop _ s stream hs h

end Reader

end MfsMaster.Lib
