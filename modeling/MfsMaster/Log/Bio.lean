/-
  MfsMaster.Log.Bio
  **THE BUFFERED READER** (`bio.c`), opened for reading a file.

  The position of a reader is spread over the offset of the descriptor and the bytes that wait in
  the buffer.  Small reads go through the buffer, large ones past it, and a skip that leaves the
  buffer is an `lseek`.  `read` returns what is asked for, up to the end of the file.

      reader_faithful      — runs in which a skip that leaves the buffer finds it empty
      skip_loses_position  — a skip from the middle of the buffer goes too far
-/
import Mathlib
import MfsMaster.Lib.Replay

namespace MfsMaster.Bio

/-! ## §1. The reader. -/

/-- `bio`.  `buffered` are the bytes of `buff` from `pos` to `leng`; `fdpos` is the offset of the
descriptor. -/
structure Reader where
  size : Nat
  buffered : List UInt8
  fileposition : Nat
  fdpos : Nat
  error : Bool
  eof : Bool
  deriving Repr, DecidableEq

/-- `bio_file_open`. -/
def bioFileOpen (buffersize : Nat) : Reader :=
  { size := buffersize, buffered := [], fileposition := 0, fdpos := 0, error := false
    eof := false }

section Read

variable (file : List UInt8)

/-- `bio_internal_read`.  The count is an `int32_t`, and a negative one is an error. -/
def bioInternalRead (b : Reader) (leng : Nat) : List UInt8 × Reader :=
  let data := (file.drop b.fdpos).take leng
  let b := { b with fdpos := b.fdpos + data.length }
  if 2 ^ 31 ≤ data.length then ([], { b with error := true })
  else (data, { b with eof := b.eof || data.isEmpty
                       fileposition := b.fileposition + data.length })

/-- `bio_fill`. -/
def bioFill (b : Reader) : Option Reader :=
  if b.error || b.eof then none
  else if b.buffered ≠ [] then some b
  else
    let r := bioInternalRead file b b.size
    some { r.2 with buffered := r.1 }

/-- The loop of a large read, in pieces of `0x40000000` bytes; `turns` turns are enough for that
many bytes. -/
def largeLoop : Nat → Reader → Nat → List UInt8 × Reader
  | 0, b, _ => ([], b)
  | turns + 1, b, len =>
    if 2 ^ 30 < len then
      let r := bioInternalRead file b (2 ^ 30)
      if r.1.length < 2 ^ 30 then r
      else
        let r' := largeLoop turns r.2 (len - 2 ^ 30)
        (r.1 ++ r'.1, r'.2)
    else if len = 0 then ([], b)
    else bioInternalRead file b len

/-- `bio_read`; `none` is -1. -/
def bioRead (b : Reader) (len : Nat) : Option (List UInt8) × Reader :=
  if b.error || b.eof then (none, b)
  else if b.size ≤ len then
    let r := largeLoop file len { b with buffered := [] } (len - b.buffered.length)
    (some (b.buffered ++ r.1), r.2)
  else
    match if b.buffered = [] then bioFill file b else some b with
    | none => (none, b)
    | some b =>
      if b.buffered.length < len then
        match bioFill file { b with buffered := [] } with
        | none => (none, { b with buffered := [] })
        | some b' =>
          -- at the end of the file all that is there is taken
          let n := len - b.buffered.length
          (some (b.buffered ++ b'.buffered.take n), { b' with buffered := b'.buffered.drop n })
      else (some (b.buffered.take len), { b with buffered := b.buffered.drop len })

end Read

/-- `bio_seek` from the current offset, which is an `off_t`. -/
def bioSeek (b : Reader) (offset : Int) : Reader :=
  let p := b.fdpos + offset
  if 0 ≤ p ∧ p < 2 ^ 63 then { b with buffered := [], fdpos := p.toNat, fileposition := p.toNat }
  else { b with buffered := [] }

/-- `bio_skip`; the length becomes an `int64_t`. -/
def bioSkip (b : Reader) (len : UInt64) : Reader :=
  if len.toNat ≤ b.buffered.length then { b with buffered := b.buffered.drop len.toNat }
  else bioSeek b (if len.toNat < 2 ^ 63 then len.toNat else len.toNat - 2 ^ 64)

/-- `bio_file_position`. -/
def bioFilePosition (b : Reader) : Nat := b.fileposition - b.buffered.length

/-! ## §2. Runs. -/

inductive Call where
  | read (len : UInt64)
  | skip (len : UInt64)

/-- The reader, and the sum of the bytes read and skipped. -/
structure State where
  bio : Reader
  logical : Nat

def step (file : List UInt8) (s : State) : Call → State
  | .read len =>
    let r := bioRead file s.bio len.toNat
    ⟨r.2, s.logical + (r.1.getD []).length⟩
  | .skip len => ⟨bioSkip s.bio len, s.logical + len.toNat⟩

/-- **A faithful stream**: the next read returns the bytes at the logical position, -1 only where
there are none, and that position is reported. -/
def Faithful (file : List UInt8) (s : State) : Prop :=
  bioFilePosition s.bio = s.logical
    ∧ ∀ len : UInt64, (bioRead file s.bio len.toNat).1.getD []
      = (file.drop s.logical).take len.toNat

/-- **The condition**: a skip stays within the buffer, or it finds the buffer empty and stays
below the largest offset. -/
def SkipFits (s : State) : Call → Prop
  | .read _ => True
  | .skip len => len.toNat ≤ s.bio.buffered.length
    ∨ s.bio.buffered = [] ∧ s.logical + len.toNat < 2 ^ 63

instance (s : State) : (c : Call) → Decidable (SkipFits s c)
  | .read _ => isTrue trivial
  | .skip _ => inferInstanceAs (Decidable (_ ∨ _ ∧ _))

/-! ## §3. The invariant. -/

/-- What is left of the file at the logical position `l` is what is left in the buffer and behind
the descriptor. -/
structure At (file : List UInt8) (b : Reader) (l : Nat) : Prop where
  rest : file.drop l = b.buffered ++ file.drop b.fileposition
  logical : l + b.buffered.length = b.fileposition
  fd : b.fdpos = b.fileposition
  error : b.error = false
  eof : b.eof = true → file.length ≤ l
  size : b.buffered.length ≤ b.size ∧ b.size < 2 ^ 31

variable {file : List UInt8} {b : Reader} {l n len : Nat}

theorem At.open (h : At file b l) : (b.error || b.eof) = b.eof := by
  rw [h.error, Bool.false_or]

/-- Bytes of the buffer are taken, as many as there are. -/
theorem At.consume (h : At file b l) (n : Nat) :
    At file { b with buffered := b.buffered.drop n } (l + (b.buffered.take n).length) where
  rest := by
    rw [← List.drop_drop, h.rest]
    nth_rewrite 2 [← List.take_append_drop n b.buffered]
    rw [List.append_assoc, List.drop_left]
  logical := by
    rw [Nat.add_assoc, ← List.length_append, List.take_append_drop]
    exact h.logical
  fd := h.fd
  error := h.error
  eof := fun heof => Nat.le_add_right_of_le (h.eof heof)
  size := by
    have := h.size
    show (b.buffered.drop n).length ≤ b.size ∧ b.size < 2 ^ 31
    rw [List.length_drop]
    omega

/-- All bytes of the buffer are taken. -/
theorem At.drained (h : At file b l) :
    At file { b with buffered := [] } (l + b.buffered.length) := by
  have hall := h.consume b.buffered.length
  rwa [List.drop_length, List.take_length] at hall

/-- `read` with nothing in the buffer. -/
theorem At.read (h : At file b l) (hempty : b.buffered = []) (hlen : 0 < len)
    (hsmall : len < 2 ^ 31) :
    let r := bioInternalRead file b len
    r.1 = (file.drop l).take len ∧ r.2.buffered = [] ∧ r.2.size = b.size
      ∧ (r.2.eof = true → file.length ≤ l)
      ∧ At file r.2 (l + ((file.drop l).take len).length) := by
  have hpos : b.fileposition = l := by
    rw [← h.logical, hempty]
    rfl
  have hcount := List.length_take_le len (file.drop l)
  unfold bioInternalRead
  dsimp only
  rw [h.fd, hpos, if_neg (by omega), hempty]
  have heof : (b.eof || ((file.drop l).take len).isEmpty) = true → file.length ≤ l := by
    intro heof
    rcases (Bool.or_eq_true _ _).mp heof with hold | hnone
    · exact h.eof hold
    · rw [List.isEmpty_iff, List.take_eq_nil_iff, List.drop_eq_nil_iff] at hnone
      omega
  exact ⟨rfl, rfl, rfl, heof, rfl, rfl, rfl, h.error,
    fun h => Nat.le_add_right_of_le (heof h), Nat.zero_le _, h.size.2⟩

/-- The buffer is filled, unless the end of the file was met. -/
theorem At.fill (h : At file b l) (hempty : b.buffered = []) (hsize : 0 < b.size) :
    (b.eof = true ∧ bioFill file b = none) ∨ ∃ b', bioFill file b = some b' ∧ At file b' l
      ∧ b'.buffered = (file.drop l).take b.size ∧ b'.size = b.size := by
  obtain ⟨hdata, hempty', hbsize, heof, hat⟩ := h.read hempty hsize h.size.2
  unfold bioFill
  rw [h.open]
  split
  next hend => exact .inl ⟨hend, rfl⟩
  rw [if_neg (not_not.mpr hempty)]
  dsimp only
  rw [hdata]
  have hpos := hat.logical
  rw [hempty', List.length_nil, Nat.add_zero] at hpos
  refine .inr ⟨_, rfl, ⟨?_, hpos, hat.fd, hat.error, heof, ?_, hat.size.2⟩, rfl, hbsize⟩
  · show _ = _ ++ file.drop (Reader.fileposition _)
    rw [← hpos, ← List.drop_drop]
    exact (List.prefix_iff_eq_append.mp (List.take_prefix _ _)).symm
  · rw [hbsize]
    exact List.length_take_le _ _

/-- A large read takes what is left, up to its length. -/
theorem At.large {turns : Nat} (h : At file b l) (hempty : b.buffered = [])
    (hturns : len ≤ turns) :
    (largeLoop file turns b len).1 = (file.drop l).take len
      ∧ At file (largeLoop file turns b len).2 (l + ((file.drop l).take len).length) := by
  induction turns generalizing b l len with
  | zero =>
    rw [Nat.le_zero.mp hturns, List.take_zero]
    exact ⟨rfl, h⟩
  | succ turns ih =>
    unfold largeLoop
    split
    next hbig =>
      obtain ⟨hdata, hempty', _, _, hat⟩ := h.read hempty (Nat.two_pow_pos 30) (by decide)
      dsimp only
      rw [hdata]
      split
      next hshort =>
        -- the end of the file
        have hall : (file.drop l).take (2 ^ 30) = (file.drop l).take len := by
          rw [List.length_take] at hshort
          rw [List.take_of_length_le (by omega), List.take_of_length_le (by omega)]
        rw [← hall]
        exact ⟨hdata, hat⟩
      next hfull =>
        have hpiece : ((file.drop l).take (2 ^ 30)).length = 2 ^ 30 := by
          rw [List.length_take] at hfull ⊢
          omega
        rw [hpiece] at hat
        have hturns' : len - 2 ^ 30 ≤ turns := by omega
        obtain ⟨hmore, hat'⟩ := ih hat hempty' hturns'
        have hsplit : (file.drop l).take len = (file.drop l).take (2 ^ 30)
            ++ (file.drop (l + 2 ^ 30)).take (len - 2 ^ 30) := by
          rw [← List.drop_drop, ← List.take_add, Nat.add_sub_cancel' (Nat.le_of_lt hbig)]
        rw [hsplit, List.length_append, hpiece, ← Nat.add_assoc, hmore]
        exact ⟨rfl, hat'⟩
    next hsmall =>
      split
      next h0 =>
        rw [h0, List.take_zero]
        exact ⟨rfl, h⟩
      next h0 =>
        obtain ⟨hdata, _, _, _, hat⟩ := h.read hempty (Nat.pos_of_ne_zero h0) (by omega)
        exact ⟨hdata, hat⟩

/-- **`bio_read`** returns the bytes at the logical position and moves it by their number. -/
theorem At.bioRead (h : At file b l) (len : Nat) :
    (bioRead file b len).1.getD [] = (file.drop l).take len
      ∧ At file (bioRead file b len).2 (l + ((file.drop l).take len).length) := by
  -- what is taken from the buffer, and then behind it
  have htwo : ∀ {b : Reader}, At file b l → b.buffered.length ≤ len → (file.drop l).take len
      = b.buffered ++ (file.drop (l + b.buffered.length)).take (len - b.buffered.length) := by
    intro b h hle
    rw [h.rest, List.take_append, List.take_of_length_le hle, h.logical]
  unfold Bio.bioRead
  rw [h.open]
  split
  next heof =>
    rw [List.drop_eq_nil_of_le (h.eof heof), List.take_nil]
    exact ⟨rfl, h⟩
  next hend =>
  split
  next hlarge =>
    have hsplit := htwo h (Nat.le_trans h.size.1 hlarge)
    obtain ⟨hdata, hat⟩ := h.drained.large rfl (Nat.sub_le len b.buffered.length)
    rw [hsplit, List.length_append, ← Nat.add_assoc, ← hdata]
    rw [← hdata] at hat
    exact ⟨rfl, hat⟩
  next hsmall =>
    obtain ⟨b₁, hb₁, hat₁, hsize⟩ : ∃ b₁, (if b.buffered = [] then bioFill file b else some b)
        = some b₁ ∧ At file b₁ l ∧ b₁.size = b.size := by
      split
      next hempty =>
        rcases h.fill hempty (by omega) with ⟨heof, _⟩ | ⟨b', hb', hat, _, hs⟩
        · exact absurd heof hend
        · exact ⟨b', hb', hat, hs⟩
      · exact ⟨b, rfl, h, rfl⟩
    rw [hb₁]
    dsimp only
    split
    next hmore =>
      have hsplit := htwo hat₁ (Nat.le_of_lt hmore)
      rcases hat₁.drained.fill rfl (by show 0 < b₁.size; omega) with
        ⟨heof, hnone⟩ | ⟨b₂, hb₂, hat₂, hbuf, _⟩
      · -- the end was met when the buffer was filled
        have hnil : file.drop l = [] := List.drop_eq_nil_of_le (hat₁.eof heof)
        have hempty := hat₁.rest
        rw [hnil, eq_comm, List.append_eq_nil_iff] at hempty
        have hat := hat₁.drained
        rw [hempty.1] at hat
        rw [hnone, hnil, List.take_nil]
        exact ⟨rfl, hat⟩
      · rw [hb₂]
        dsimp only
        have hmin : b₂.buffered.take (len - b₁.buffered.length)
            = (file.drop (l + b₁.buffered.length)).take (len - b₁.buffered.length) := by
          rw [hbuf, List.take_take, Nat.min_eq_left]
          show _ ≤ b₁.size
          omega
        have hat := hat₂.consume (len - b₁.buffered.length)
        rw [hmin] at hat ⊢
        rw [hsplit, List.length_append, ← Nat.add_assoc]
        exact ⟨rfl, hat⟩
    next hless =>
      have hhead : (file.drop l).take len = b₁.buffered.take len := by
        rw [hat₁.rest, List.take_append_of_le_length (Nat.le_of_not_lt hless)]
      rw [hhead]
      exact ⟨rfl, hat₁.consume len⟩

/-- A skip that fits. -/
theorem At.bioSkip {len : UInt64} (h : At file b l) (hfits : SkipFits ⟨b, l⟩ (.skip len)) :
    At file (bioSkip b len) (l + len.toNat) := by
  unfold Bio.bioSkip
  split
  next hle =>
    have hat := h.consume len.toNat
    rwa [List.length_take_of_le hle] at hat
  next hgt =>
    obtain ⟨hempty, hsmall⟩ := hfits.resolve_left hgt
    have hl := h.logical
    rw [show b.buffered = [] from hempty] at hl
    unfold bioSeek
    dsimp only at hsmall ⊢
    rw [if_pos (by omega : len.toNat < 2 ^ 63), h.fd, ← hl]
    rw [if_pos (by simp; omega)]
    refine ⟨?_, ?_, rfl, h.error, fun heof => Nat.le_add_right_of_le (h.eof heof),
      Nat.zero_le _, h.size.2⟩
    · simp; congr 1
    · simp; omega

theorem at_bioFileOpen {size : Nat} (hsize : size < 2 ^ 31) : At file (bioFileOpen size) 0 :=
  ⟨rfl, rfl, rfl, rfl, nofun, Nat.zero_le _, hsize⟩

/-- **The reader is a faithful stream** in every run whose skips fit. -/
theorem reader_faithful (file : List UInt8) (size : Nat) (hsize : size < 2 ^ 31)
    (calls : List Call) (hfits : Lib.StepsMeet (step file) SkipFits ⟨bioFileOpen size, 0⟩ calls) :
    Faithful file (Lib.run (step file) ⟨bioFileOpen size, 0⟩ calls) := by
  have hstep : ∀ s c, At file s.bio s.logical → SkipFits s c →
      At file (step file s c).bio (step file s c).logical := by
    intro s c h hc
    cases c with
    | read len =>
      obtain ⟨hdata, hat⟩ := h.bioRead len.toNat
      rw [← hdata] at hat
      exact hat
    | skip len => exact h.bioSkip hc
  have hat := Lib.run_invariant hstep calls ⟨bioFileOpen size, 0⟩ (at_bioFileOpen hsize) hfits
  refine ⟨?_, fun len => (hat.bioRead len.toNat).1⟩
  rw [bioFilePosition, ← hat.logical, Nat.add_sub_cancel]

/-- A file of 100 different bytes. -/
def hundred : List UInt8 := (List.range 100).map UInt8.ofNat

theorem reader_faithful_empty :
    Faithful hundred (Lib.run (step hundred) ⟨bioFileOpen 10, 0⟩ [.read 10, .skip 20, .read 1]) :=
  reader_faithful hundred 10 (by decide) [.read 10, .skip 20, .read 1] (by decide +kernel)

/-- **One byte is read and 20 are skipped**: the next byte is the one at 30, not at 21. -/
theorem skip_loses_position :
    let s := Lib.run (step hundred) ⟨bioFileOpen 10, 0⟩ [.read 1, .skip 20]
    s.logical = 21 ∧ bioFilePosition s.bio = 30 ∧ (bioRead hundred s.bio 1).1 = some [30]
      ∧ ¬ Faithful hundred s := by
  refine ⟨by decide +kernel, by decide +kernel, by decide +kernel, fun h => ?_⟩
  exact absurd h.1 (by decide +kernel)

end MfsMaster.Bio
