/-
  MfsMaster.Log.Text
  **THE TEXT OF A CHANGELOG RECORD** (`changelog.c`): `ts|NAME(args):results`.

  A field is a number in one of a few formats, a character, bytes written by
  `changelog_escape_name` (up to three characters each), a list of groups, or a part of the
  definition of a storage class.  `changelog` keeps at most `MAXLOGLINESIZE - 1` characters.

      Field.length_text_le   — a bound for every field that does not depend on its number
      Shape.length_text      — the length of a record, exactly
      Shape.length_text_le   — and bounded by the bounds of its fields
-/
import Mathlib.Algebra.Order.BigOperators.Group.List
import Mathlib.Data.Nat.Digits.Lemmas
import Mathlib.Tactic.Ring

namespace MfsMaster.Log

/-! ## §1. Characters. -/

/-- `MAXLOGLINESIZE`. -/
def maxLogLineSize : Nat := 200000

/-- `%u`. -/
def decimal (n : Nat) : List Char := Nat.toDigits 10 n

/-- The number of decimal digits. -/
def digits (n : Nat) : Nat := (decimal n).length

/-- A digit of `"0123456789ABCDEF"`. -/
def hexDigit (n : Nat) : Char := (Nat.digitChar n).toUpper

/-- `%0<width>o` and `%0<width>X`. -/
def padded (base width n : Nat) : List Char :=
  List.replicate (width - (Nat.toDigits base n).length) '0'
    ++ (Nat.toDigits base n).map Char.toUpper

/-- The bytes `changelog_escape_name` writes as `%XX`. -/
def escapes (c : UInt8) : Bool :=
  c < 32 || 127 ≤ c || c == 44 || c == 37 || c == 40 || c == 41

def escapeByte (c : UInt8) : List Char :=
  if escapes c then ['%', hexDigit (c.toNat / 16), hexDigit (c.toNat % 16)]
  else [Char.ofNat c.toNat]

/-- `changelog_escape_name`. -/
def changelogEscapeName (name : List UInt8) : List Char := name.flatMap escapeByte

/-- Texts with a separator between them. -/
def joined (sep : Char) : List (List Char) → List Char
  | [] => []
  | [x] => x
  | x :: y :: l => x ++ sep :: joined sep (y :: l)

/-- `changelog_generate_gids`. -/
def changelogGenerateGids (gid : List UInt32) : List Char :=
  '[' :: joined ',' (gid.map fun g => decimal g.toNat) ++ (if gid.isEmpty then [] else [']'])

/-! ## §2. Fields. -/

/-- What stands between two commas of a record. -/
inductive Field where
  | u8 (x : UInt8)
  | u16 (x : UInt16)
  | u32 (x : UInt32)
  | u64 (x : UInt64)
  /-- `#%u`, a checksum. -/
  | hash (x : UInt64)
  /-- `0%03o`. -/
  | octal (x : UInt16)
  /-- `0x%04X`. -/
  | hex16 (x : UInt16)
  /-- `0x%08X`. -/
  | hex32 (x : UInt32)
  | char (c : Char)
  | name (bytes : List UInt8)
  /-- `(%s)`. -/
  | inParens (bytes : List UInt8)
  | gids (gid : List UInt32)
  /-- `C(%u:%u:%u)`: one of the modes of a storage class. -/
  | mode (letter : Char) (labelscnt : UInt8) (uniqmask : UInt32) (ec : Option UInt8)
      (labelsMode : UInt8)
  /-- `(%u:%u:%u)`: when a storage class archives. -/
  | arch (archMode : UInt8) (archDelay : UInt16) (archMinSize : UInt64)
  /-- The label expressions of a storage class, `-` when there is none. -/
  | exprs (labelexpr : List (List UInt8))

namespace Field

/-- The bytes of an expression up to its end, as two digits each
(`sclass_make_changelog_mode`). -/
def exprText (expr : List UInt8) : List Char :=
  (expr.takeWhile (· != 0)).flatMap fun c => [hexDigit (c.toNat / 16), hexDigit (c.toNat % 16)]

/-- What the format writes for a field. -/
def text : Field → List Char
  | u8 x => decimal x.toNat
  | u16 x => decimal x.toNat
  | u32 x => decimal x.toNat
  | u64 x => decimal x.toNat
  | hash x => '#' :: decimal x.toNat
  | octal x => '0' :: padded 8 3 x.toNat
  | hex16 x => '0' :: 'x' :: padded 16 4 x.toNat
  | hex32 x => '0' :: 'x' :: padded 16 8 x.toNat
  | char c => [c]
  | name bytes => changelogEscapeName bytes
  | inParens bytes => '(' :: changelogEscapeName bytes ++ [')']
  | gids gid => changelogGenerateGids gid
  | mode letter labelscnt uniqmask ec labelsMode =>
    letter :: '(' :: joined ':' ([decimal labelscnt.toNat, decimal uniqmask.toNat]
      ++ ec.toList.map (fun x => decimal x.toNat) ++ [decimal labelsMode.toNat]) ++ [')']
  | arch archMode archDelay archMinSize =>
    '(' :: joined ':' [decimal archMode.toNat, decimal archDelay.toNat, decimal archMinSize.toNat]
      ++ [')']
  | exprs labelexpr => if labelexpr.isEmpty then ['-'] else joined ',' (labelexpr.map exprText)

/-- No field is longer; only bytes, groups and expressions make it depend on the field. -/
def bound : Field → Nat
  | u8 _ => 3
  | u16 _ => 5
  | u32 _ => 10
  | u64 _ => 20
  | hash _ => 21
  | octal _ => 7
  | hex16 _ => 6
  | hex32 _ => 10
  | char _ => 1
  | name bytes => 3 * bytes.length
  | inParens bytes => 3 * bytes.length + 2
  | gids gid => 11 * gid.length + 2
  | mode _ _ _ _ _ => 25
  | arch _ _ _ => 32
  | exprs labelexpr => (labelexpr.map fun e => 2 * e.length + 1).sum + 1

end Field

/-! ## §3. Lengths. -/

variable {k : Nat}

theorem length_toDigits_le {base n : Nat} (hbase : 1 < base) (hk : 0 < k) (h : n < base ^ k) :
    (Nat.toDigits base n).length ≤ k :=
  (Nat.length_toDigits_le_iff hbase hk).mpr h

theorem length_padded_le {base width n : Nat} (hbase : 1 < base) (hk : 0 < k)
    (h : n < base ^ k) (hw : width ≤ k) : (padded base width n).length ≤ k := by
  have hdigits := length_toDigits_le hbase hk h
  unfold padded
  rw [List.length_append, List.length_replicate, List.length_map]
  omega

/-- The characters of a name: one for a byte, two more when it is escaped. -/
theorem length_changelogEscapeName (name : List UInt8) :
    (changelogEscapeName name).length = name.length + 2 * (name.filter escapes).length := by
  unfold changelogEscapeName
  induction name with
  | nil => rfl
  | cons c name ih =>
    rw [List.flatMap_cons, List.length_append, ih]
    unfold escapeByte
    by_cases hc : escapes c = true
    · rw [if_pos hc, List.filter_cons_of_pos hc]
      simp only [List.length_cons, List.length_nil]
      omega
    rw [if_neg hc, List.filter_cons_of_neg hc]
    simp only [List.length_cons, List.length_nil]
    omega

theorem length_changelogEscapeName_le (name : List UInt8) :
    (changelogEscapeName name).length ≤ 3 * name.length := by
  have hfilter := List.length_filter_le escapes name
  rw [length_changelogEscapeName]
  omega

theorem length_joined (sep : Char) (l : List (List Char)) :
    (joined sep l).length = (l.map List.length).sum + (l.length - 1) := by
  induction l with
  | nil => rfl
  | cons x l ih =>
    cases l with
    | nil => simp [joined]
    | cons y l =>
      unfold joined
      rw [List.length_append, List.length_cons, ih]
      simp only [List.map_cons, List.sum_cons, List.length_cons]
      omega

/-- A list of texts of at most `k` characters each. -/
theorem length_joined_le (sep : Char) {l : List (List Char)}
    (h : ∀ x ∈ l, x.length ≤ k) : (joined sep l).length ≤ (k + 1) * l.length := by
  have hsum : (l.map List.length).sum ≤ (l.map List.length).length * k := by
    refine List.sum_le_card_nsmul _ _ fun n hn => ?_
    obtain ⟨x, hx, rfl⟩ := List.mem_map.mp hn
    exact h x hx
  rw [List.length_map] at hsum
  rw [length_joined]
  have hmul : (k + 1) * l.length = l.length * k + l.length := by ring
  omega

theorem length_decimal_u8 (x : UInt8) : (decimal x.toNat).length ≤ 3 :=
  length_toDigits_le (by decide) (by decide) (Nat.lt_trans x.toNat_lt (by decide))

theorem length_decimal_u16 (x : UInt16) : (decimal x.toNat).length ≤ 5 :=
  length_toDigits_le (by decide) (by decide) (Nat.lt_trans x.toNat_lt (by decide))

theorem length_decimal_u32 (x : UInt32) : (decimal x.toNat).length ≤ 10 :=
  length_toDigits_le (by decide) (by decide) (Nat.lt_trans x.toNat_lt (by decide))

theorem length_decimal_u64 (x : UInt64) : (decimal x.toNat).length ≤ 20 :=
  length_toDigits_le (by decide) (by decide) (Nat.lt_trans x.toNat_lt (by decide))

theorem length_changelogGenerateGids_le {gid : List UInt32} :
    (changelogGenerateGids gid).length ≤ 11 * gid.length + 2 := by
  have hjoin : (joined ',' (gid.map fun g => decimal g.toNat)).length ≤ (10 + 1) * gid.length := by
    have h := length_joined_le ',' (l := gid.map fun g => decimal g.toNat) (k := 10) fun x hx => by
      obtain ⟨g, _, rfl⟩ := List.mem_map.mp hx
      exact length_decimal_u32 g
    rwa [List.length_map] at h
  unfold changelogGenerateGids
  rw [List.cons_append, List.length_cons, List.length_append]
  split <;> simp only [List.length_cons, List.length_nil] <;> omega

namespace Field

theorem length_exprText_le (expr : List UInt8) : (exprText expr).length ≤ 2 * expr.length := by
  unfold exprText
  have htake : (expr.takeWhile (· != 0)).length ≤ expr.length :=
    (List.takeWhile_sublist _).length_le
  rw [List.length_flatMap]
  simp only [List.length_cons, List.length_nil, List.map_const', List.sum_replicate_nat]
  omega

theorem length_exprs_le {labelexpr : List (List UInt8)} :
    (exprs labelexpr).text.length ≤ (exprs labelexpr).bound := by
  -- two characters for a byte, and the comma or the end after every expression
  have hsum : ((labelexpr.map exprText).map List.length).sum + labelexpr.length
      ≤ (labelexpr.map fun e => 2 * e.length + 1).sum := by
    induction labelexpr with
    | nil => exact Nat.le_refl 0
    | cons e l ih =>
      have he := length_exprText_le e
      simp only [List.map_cons, List.sum_cons, List.length_cons] at ih ⊢
      omega
  show (if labelexpr.isEmpty then ['-'] else joined ',' (labelexpr.map exprText)).length
    ≤ (labelexpr.map fun e => 2 * e.length + 1).sum + 1
  split
  · simp only [List.length_cons, List.length_nil]
    omega
  · rw [length_joined, List.length_map]
    omega

theorem length_text_le (f : Field) : f.text.length ≤ f.bound := by
  cases f with
  | u8 x => exact length_decimal_u8 x
  | u16 x => exact length_decimal_u16 x
  | u32 x => exact length_decimal_u32 x
  | u64 x => exact length_decimal_u64 x
  | hash x => exact Nat.succ_le_succ (length_decimal_u64 x)
  | octal x =>
    refine Nat.succ_le_succ (length_padded_le (by decide) (by decide) ?_ (by decide))
    exact Nat.lt_trans x.toNat_lt (by decide)
  | hex16 x | hex32 x =>
    refine Nat.succ_le_succ (Nat.succ_le_succ
      (length_padded_le (by decide) (by decide) ?_ (by decide)))
    exact x.toNat_lt
  | char c => exact Nat.le_refl 1
  | name bytes => exact length_changelogEscapeName_le bytes
  | inParens bytes =>
    have h := length_changelogEscapeName_le bytes
    simp only [text, bound, List.cons_append, List.length_cons, List.length_append, List.length_nil]
    omega
  | gids gid => exact length_changelogGenerateGids_le
  | mode letter labelscnt uniqmask ec labelsMode =>
    have h1 := length_decimal_u8 labelscnt
    have h2 := length_decimal_u32 uniqmask
    have h4 := length_decimal_u8 labelsMode
    cases ec with
    | none =>
      simp [text, bound, joined]
      omega
    | some x =>
      have h3 := length_decimal_u8 x
      simp [text, bound, joined]
      omega
  | arch archMode archDelay archMinSize =>
    have h1 := length_decimal_u8 archMode
    have h2 := length_decimal_u16 archDelay
    have h3 := length_decimal_u64 archMinSize
    simp [text, bound, joined]
    omega
  | exprs labelexpr => exact length_exprs_le

end Field

/-! ## §4. Records. -/

/-- `ts|NAME(args):results`; the colon only stands before results. -/
structure Shape where
  ts : UInt32
  name : String
  args : List Field
  results : List Field

namespace Shape

/-- The text given to `changelog`. -/
def text (r : Shape) : List Char :=
  decimal r.ts.toNat ++ '|' :: r.name.toList ++ '(' :: joined ',' (r.args.map Field.text)
    ++ ')' :: (if r.results.isEmpty then [] else ':' :: joined ',' (r.results.map Field.text))

/-- The length of a list of fields with their commas. -/
def fieldsLength (l : List Field) : Nat := (l.map fun f => f.text.length).sum + (l.length - 1)

theorem length_text (r : Shape) :
    r.text.length = digits r.ts.toNat + r.name.length + 3 + fieldsLength r.args
      + (if r.results.isEmpty then 0 else fieldsLength r.results + 1) := by
  unfold text fieldsLength digits
  simp only [List.length_append, List.length_cons, length_joined, List.length_map, List.map_map,
    String.length_toList, Function.comp_def]
  split
  · simp only [List.length_nil]
    omega
  · simp only [List.length_cons, length_joined, List.length_map, List.map_map, Function.comp_def]
    omega

/-- The bound of a list of fields with their commas. -/
def fieldsBound (l : List Field) : Nat := (l.map fun f => f.bound + 1).sum

theorem fieldsLength_le (l : List Field) : fieldsLength l ≤ fieldsBound l := by
  unfold fieldsLength fieldsBound
  induction l with
  | nil => exact Nat.le_refl 0
  | cons f l ih =>
    have hf := f.length_text_le
    simp only [List.map_cons, List.sum_cons, List.length_cons]
    omega

theorem length_text_le (r : Shape) :
    r.text.length ≤ r.name.length + 14 + fieldsBound r.args + fieldsBound r.results := by
  have hts : digits r.ts.toNat ≤ 10 := length_decimal_u32 r.ts
  have hargs := fieldsLength_le r.args
  have hresults := fieldsLength_le r.results
  rw [length_text]
  split <;> omega

end Shape

/-! ## §5. `changelog`. -/

/-- What `changelog` stores and sends for a text: `vsnprintf` leaves the last character of the
buffer for the end. -/
def changelogKeeps (text : List Char) : List Char := text.take (maxLogLineSize - 1)

theorem changelogKeeps_eq_iff (text : List Char) :
    changelogKeeps text = text ↔ text.length < maxLogLineSize := by
  unfold changelogKeeps
  rw [List.take_eq_self_iff]
  show text.length ≤ 199999 ↔ text.length < 200000
  omega

end MfsMaster.Log
