/-
  MfsMaster.Fs.UniqName
  **THE SEARCH FOR A UNIQUE NAME** (`fsnodes_find_uniqname`).

      findUniqname_numbered — when one of the nine numbered names is free, the search
                              ends with the first of them, whatever the random numbers
      findUniqname_random   — when none is, the search takes the name of the first random
                              number, and there are numbers enough for two names
-/
import MfsMaster.Fs.Recover
import Mathlib.Data.Finset.Card
import Mathlib.Data.Finset.Image

namespace MfsMaster

/-! ## §1. Names of random numbers. -/

theorem hexDigit_injective {a b : Nat} (ha : a < 16) (hb : b < 16) (h : hexDigit a = hexDigit b) :
    a = b := by
  have hlt : ∀ n, n < 16 → (if n < 10 then 0x30 + n else 0x37 + n) < 256 := by
    intro n hn
    split <;> omega
  have hnat := congrArg UInt8.toNat h
  unfold hexDigit at hnat
  rw [UInt8.toNat_ofNat_of_lt' (hlt a ha), UInt8.toNat_ofNat_of_lt' (hlt b hb)] at hnat
  split at hnat <;> split at hnat <;> omega

theorem hexTag_injective {a b : UInt32} (h : hexTag a = hexTag b) : a = b := by
  have hdigit : ∀ i, i < 8 → a.toNat / 16 ^ i % 16 = b.toNat / 16 ^ i % 16 := by
    intro i hi
    have hmap := List.map_inj_left.mp h i (List.mem_range.mpr hi)
    exact hexDigit_injective (Nat.mod_lt _ (by decide)) (Nat.mod_lt _ (by decide)) hmap
  -- a number below 2 ^ 32 is the sum of its eight digits
  have h0 := hdigit 0 (by decide)
  have h1 := hdigit 1 (by decide)
  have h2 := hdigit 2 (by decide)
  have h3 := hdigit 3 (by decide)
  have h4 := hdigit 4 (by decide)
  have h5 := hdigit 5 (by decide)
  have h6 := hdigit 6 (by decide)
  have h7 := hdigit 7 (by decide)
  have ha := a.toNat_lt
  have hb := b.toNat_lt
  simp only [Nat.reducePow, Nat.div_one] at h0 h1 h2 h3 h4 h5 h6 h7
  exact UInt32.toNat_inj.mp (by omega)

theorem length_hexTag (r : UInt32) : (hexTag r).length = 8 := by
  unfold hexTag
  rw [List.length_map, List.length_range]

theorem uniqName_hexTag_injective {name : Name} {a b : UInt32}
    (h : uniqName name (hexTag a) = uniqName name (hexTag b)) : a = b := by
  unfold uniqName at h
  simp only [length_hexTag] at h
  have h1 := List.append_cancel_left (List.append_cancel_left h)
  exact hexTag_injective (List.append_inj_left h1 (by rw [length_hexTag, length_hexTag]))

/-- There are more random numbers than names in a list of fewer than 2 ^ 32. -/
theorem exists_hexTag_notMem (name : Name) (l : List Name) (hl : l.length < 2 ^ 32) :
    ∃ r : UInt32, uniqName name (hexTag r) ∉ l := by
  by_contra hall
  push Not at hall
  let f : Nat → Name := fun i => uniqName name (hexTag (UInt32.ofNat i))
  have hinj : Set.InjOn f (Finset.range (2 ^ 32)) := by
    intro i hi j hj hij
    have hi' : i < 2 ^ 32 := Finset.mem_range.mp hi
    have hj' : j < 2 ^ 32 := Finset.mem_range.mp hj
    have heq := congrArg UInt32.toNat (uniqName_hexTag_injective hij)
    rwa [UInt32.toNat_ofNat_of_lt' hi', UInt32.toNat_ofNat_of_lt' hj'] at heq
  have hsub : (Finset.range (2 ^ 32)).image f ⊆ l.toFinset := by
    intro x hx
    obtain ⟨i, _, rfl⟩ := Finset.mem_image.mp hx
    exact List.mem_toFinset.mpr (hall _)
  have hcard := Finset.card_le_card hsub
  rw [Finset.card_image_of_injOn hinj, Finset.card_range] at hcard
  have := List.toFinset_card_le l
  omega

variable {d fuel : Nat} {name : Name} {r : Name × Nat} {rnd : Nat → UInt32} {s : Master}
  {cnt : Nat}

namespace Master

variable {pos : Nat}

/-! ## §2. Numbered names. -/

/-- The `k`-th numbered name. -/
def numberedName (name : Name) (k : Nat) : Name :=
  uniqName name [UInt8.ofNat (0x30 + k)]

/-- One of the nine numbered names is free in the directory. -/
def NumberedFree (s : Master) (d : Nat) (name : Name) : Prop :=
  ∃ k, 0 < k ∧ k < 10 ∧ s.fsnodesNameisused d (numberedName name k) = false

/-- The name found is free. -/
theorem findUniqname_unused (h : s.findUniqname d name rnd fuel cnt pos = some r) :
    s.fsnodesNameisused d r.1 = false := by
  induction fuel generalizing cnt pos with
  | zero => cases h
  | succ fuel ih =>
    unfold findUniqname at h
    dsimp only at h
    generalize (if (cnt + 1) % 256 < 10 then _ else _ : Name × Nat) = c at h
    split at h
    · exact ih h
    next hfree =>
      cases h
      simpa using hfree

/-- More fuel makes no difference. -/
theorem findUniqname_mono (k : Nat) (h : s.findUniqname d name rnd fuel cnt pos = some r) :
    s.findUniqname d name rnd (fuel + k) cnt pos = some r := by
  induction fuel generalizing cnt pos with
  | zero => cases h
  | succ fuel ih =>
    rw [Nat.add_right_comm]
    unfold findUniqname at h ⊢
    dsimp only at h ⊢
    generalize (if (cnt + 1) % 256 < 10 then _ else _ : Name × Nat) = c at h ⊢
    split at h
    next hused => rw [if_pos hused, ih h]
    next hfree => rw [if_neg hfree, h]

/-- The next numbered try. -/
theorem findUniqname_succ (hcnt : cnt < 9) :
    s.findUniqname d name rnd (fuel + 1) cnt pos
      = if s.fsnodesNameisused d (numberedName name (cnt + 1)) then
          s.findUniqname d name rnd fuel (cnt + 1) pos
        else some (numberedName name (cnt + 1), pos) := by
  have hmod : (cnt + 1) % 256 = cnt + 1 := Nat.mod_eq_of_lt (by omega)
  have hlt : cnt + 1 < 10 := by omega
  conv_lhs => unfold findUniqname
  simp only [hmod, hlt, if_true]
  rfl

/-- The numbered names in use are passed over. -/
theorem findUniqname_skip (m : Nat) (hm : cnt + m ≤ 9)
    (hused : ∀ k, cnt < k → k ≤ cnt + m → s.fsnodesNameisused d (numberedName name k) = true) :
    s.findUniqname d name rnd (fuel + m) cnt pos = s.findUniqname d name rnd fuel (cnt + m) pos := by
  induction m generalizing cnt with
  | zero => rfl
  | succ m ih =>
    rw [← Nat.add_assoc, findUniqname_succ (by omega), hused (cnt + 1) (by omega) (by omega),
      if_pos rfl, ih (by omega) fun k hk hk' => hused k (by omega) (by omega),
      Nat.add_right_comm, Nat.add_assoc]

/-- With a free numbered name the search ends with the first of them: for every sequence of
random numbers, once there is fuel for the numbered tries. -/
theorem findUniqname_numbered (s : Master) (d : Nat) (name : Name) (hfree : s.NumberedFree d name) :
    ∃ n, (∀ rnd fuel pos, 9 ≤ fuel → s.findUniqname d name rnd fuel 0 pos = some (n, pos))
      ∧ ∀ rnd fuel pos r, s.findUniqname d name rnd fuel 0 pos = some r → r = (n, pos) := by
  classical
  obtain ⟨hpos, hlt, hk⟩ := Nat.find_spec hfree
  have hmin : ∀ j, 0 < j → j ≤ 0 + (Nat.find hfree - 1) →
      s.fsnodesNameisused d (numberedName name j) = true := by
    intro j hj hlt
    by_contra hno
    exact Nat.find_min hfree (by omega) ⟨hj, by omega, by simpa using hno⟩
  generalize Nat.find hfree = k at hpos hlt hk hmin
  have hfound : ∀ rnd fuel pos, 9 ≤ fuel →
      s.findUniqname d name rnd fuel 0 pos = some (numberedName name k, pos) := by
    intro rnd fuel pos hfuel
    rw [show fuel = fuel - k + 1 + (k - 1) by omega, findUniqname_skip (k - 1) (by omega) hmin,
      findUniqname_succ (by omega), show 0 + (k - 1) + 1 = k by omega, hk]
    rfl
  refine ⟨numberedName name k, hfound, fun rnd fuel pos r hr => ?_⟩
  have hmore := findUniqname_mono 9 hr
  rw [hfound rnd _ pos (by omega)] at hmore
  exact (Option.some.inj hmore).symm

/-! ## §3. Random names. -/

/-- When no numbered name is free and the first random number gives a free one, that is the
name found. -/
theorem findUniqname_random (h : s.findUniqname d name rnd fuel 0 pos = some r)
    (hused : ¬ s.NumberedFree d name) {x : UInt32} (hx : rnd pos = x)
    (hfree : s.fsnodesNameisused d (uniqName name (hexTag x)) = false) :
    r.1 = uniqName name (hexTag x) := by
  have hall : ∀ k, 0 < k → k < 10 → s.fsnodesNameisused d (numberedName name k) = true := by
    intro k hk hk'
    by_contra hne
    exact hused ⟨k, hk, hk', by simpa using hne⟩
  have hmore := findUniqname_mono 10 h
  rw [show fuel + 10 = fuel + 1 + 9 by omega,
    findUniqname_skip 9 (by decide) fun k hk hk' => hall k hk (by omega)] at hmore
  unfold findUniqname at hmore
  simp only [Nat.reduceAdd, Nat.reduceMod, Nat.lt_irrefl, if_false, hx, hfree] at hmore
  cases hmore
  rfl

theorem nameisused_iff (s : Master) (d : Nat) (name : Name) :
    s.fsnodesNameisused d name = true ↔ name ∈ (s.children d).map FsEdge.name := by
  unfold fsnodesNameisused edgeFind children
  rw [List.find?_isSome]
  simp only [Bool.and_eq_true, beq_iff_eq, List.mem_map, List.mem_filter]
  constructor
  · rintro ⟨e, he, hp, hn⟩
    exact ⟨e, ⟨he, hp⟩, hn⟩
  rintro ⟨e, ⟨he, hp⟩, hn⟩
  exact ⟨e, he, hp, hn⟩

/-- In a directory that can take one more entry there is a free random name other than a given
one. -/
theorem exists_other_random (hfit : (s.children d).length + 1 < 2 ^ 32) (name other : Name) :
    ∃ r : UInt32, s.fsnodesNameisused d (uniqName name (hexTag r)) = false
      ∧ uniqName name (hexTag r) ≠ other := by
  obtain ⟨r, hr⟩ := exists_hexTag_notMem name (other :: (s.children d).map FsEdge.name)
    (by simpa using hfit)
  rw [List.mem_cons, not_or] at hr
  refine ⟨r, ?_, hr.1⟩
  have := mt (nameisused_iff s d _).mp hr.2
  simpa using this

end Master

end MfsMaster
