/-
  MfsMaster.Pattern.Glob
  **THE GLOB ENGINE** (`globengine.c`).

  `glob_new` cuts the text of a pattern into atoms and these, at the asterisks, into
  subpatterns; `glob_match` looks for the subpatterns in a name.

  Three things are as the source has them.  A range whose upper end is the byte 255 keeps
  the loop of `parse_range` running for ever: `parseRange` is `none` then.  The tables of
  subpatterns and of their atoms are made for as many elements as a byte can count; with
  more, `atomsListToPatternStructure` is `none`.  And behind each subpattern in the middle
  the search goes on after the length of the FIRST one, so that it can leave the name:
  `byte` gives what is in memory, from the name on.
-/
import Mathlib

namespace MfsMaster

/-! ## §1. Atoms. -/

/-- `atom`; of the bits of a range it is said which bytes are in. -/
inductive Atom where
  | string (str : List UInt8)
  | asterisk
  | qmark
  | range (bits : UInt8 → Bool)

def Atom.isAsterisk : Atom → Bool
  | .asterisk => true
  | _ => false

/-- The length an atom matches. -/
def Atom.leng : Atom → Nat
  | .string str => str.length
  | _ => 1

/-- The bytes of a C string. -/
def cstr (l : List UInt8) : List UInt8 := l.takeWhile (· != 0)

/-- `*`, `?`, `[`, `]`, the backslash, `!` and `-`. -/
def chAsterisk : UInt8 := 42
def chQmark : UInt8 := 63
def chOpen : UInt8 := 91
def chClose : UInt8 := 93
def chBackslash : UInt8 := 92
def chNot : UInt8 := 33
def chDash : UInt8 := 45

/-- The loop of `parse_range` over what is between the brackets. -/
def parseRangeLoop (neg : Bool) (bits : UInt8 → Bool) : List UInt8 → Option (UInt8 → Bool)
  | [] => some bits
  | a :: d :: b :: l =>
    if d = chDash then
      -- the counter is a byte too and never gets past 255
      if b = 255 then none
      else parseRangeLoop neg (fun c => if a ≤ c ∧ c ≤ b then !neg else bits c) l
    else parseRangeLoop neg (fun c => if c = a then !neg else bits c) (d :: b :: l)
  | a :: l => parseRangeLoop neg (fun c => if c = a then !neg else bits c) l

/-- `parse_range`. -/
def parseRange (l : List UInt8) : Option (UInt8 → Bool) :=
  match l with
  | [] => parseRangeLoop false (fun _ => false) []
  | c :: l' =>
    if c = chNot then parseRangeLoop true (fun _ => true) l'
    else parseRangeLoop false (fun _ => false) (c :: l')

/-- `unescape_string`: the text up to the next special character, and the rest. -/
def unescapeString : List UInt8 → List UInt8 × List UInt8
  | [] => ([], [])
  | c :: l =>
    if c = chBackslash then
      match l with
      | [] => ([c], [])
      | d :: l => (d :: (unescapeString l).1, (unescapeString l).2)
    else if c = chOpen ∨ c = chAsterisk ∨ c = chQmark then ([], c :: l)
    else (c :: (unescapeString l).1, (unescapeString l).2)

/-- The loop of `pattern_to_atoms_list`; `last` is `last_asterisk`. -/
def atomsLoop : Nat → ( last : Bool) → List UInt8 → Option (List Atom)
  | _, _, [] => some []
  | 0, _, _ => none
  | fuel + 1, last, c :: l =>
    if c = chAsterisk then
      if last then atomsLoop fuel true l else (atomsLoop fuel true l).map (Atom.asterisk :: ·)
    else if c = chQmark then (atomsLoop fuel false l).map (Atom.qmark :: ·)
    else if c = chOpen ∧ chClose ∈ l then
      (parseRange (l.takeWhile (· != chClose))).bind fun bits =>
        (atomsLoop fuel false (l.dropWhile (· != chClose)).tail).map (Atom.range bits :: ·)
    else
      -- a bracket that is not closed stands for itself
      let r := if c = chOpen then (c :: (unescapeString l).1, (unescapeString l).2)
        else unescapeString (c :: l)
      (atomsLoop fuel false r.2).map (Atom.string r.1 :: ·)

/-- `pattern_to_atoms_list`; every round takes a byte. -/
def patternToAtomsList (globstr : List UInt8) : Option (List Atom) :=
  atomsLoop globstr.length false globstr

/-! ## §2. Patterns. -/

/-- `globpattern`; the two flags tell whether an asterisk stands first and last. -/
structure Glob where
  firstAsterisk : Bool
  lastAsterisk : Bool
  sptab : List (List Atom)

/-- The atoms between asterisks. -/
def subpatterns : List Atom → List (List Atom)
  | [] => [[]]
  | a :: l =>
    if a.isAsterisk then [] :: subpatterns l
    else match subpatterns l with
      | [] => [[a]]
      | s :: r => (a :: s) :: r

/-- `subpattern.leng`, a byte. -/
def spLeng (sp : List Atom) : Nat := (sp.map Atom.leng).sum % 256

/-- `globpattern.minleng`. -/
def Glob.minleng (g : Glob) : Nat := (g.sptab.map spLeng).sum

/-- The atoms of a pattern without the asterisks at its ends, cut at the others. -/
def cutAtoms (l : List Atom) : Glob :=
  let first := l.head?.any Atom.isAsterisk
  let body := if first then l.tail else l
  if body.isEmpty then ⟨first, first, []⟩
  else
    let last := body.getLast?.any Atom.isAsterisk
    ⟨first, last, subpatterns (if last then body.dropLast else body)⟩

/-- `spelements` and `atelements` are bytes. -/
def Glob.Counted (g : Glob) : Prop := g.sptab.length ≤ 255 ∧ ∀ sp ∈ g.sptab, sp.length ≤ 255

instance (g : Glob) : Decidable g.Counted :=
  inferInstanceAs (Decidable (g.sptab.length ≤ 255 ∧ ∀ sp ∈ g.sptab, sp.length ≤ 255))

/-- `atoms_list_to_pattern_structure`; `none` stands for its failed assertion and for an atom that
is copied past the end of its table. -/
def atomsListToPatternStructure (l : List Atom) : Option Glob :=
  if (cutAtoms l).Counted then some (cutAtoms l) else none

/-- `glob_new`; `none` when it does not return. -/
def globNew (gname : List UInt8) : Option Glob :=
  (patternToAtomsList (cstr gname)).bind atomsListToPatternStructure

/-! ## §3. Matching. -/

section
variable (byte : Nat → UInt8)

/-- `subpattern_match_exact` at the place `pos`. -/
def subpatternMatchExact : List Atom → ( pos : Nat) → ( nleng : Nat) → Bool
  | [], _, _ => true
  | .string str :: sp, pos, nleng =>
    decide (str.length ≤ nleng)
      && ((List.range str.length).all fun i => byte (pos + i) == str.getD i 0)
      && subpatternMatchExact sp (pos + str.length) (nleng - str.length)
  | .qmark :: sp, pos, nleng =>
    decide (nleng ≠ 0) && subpatternMatchExact sp (pos + 1) (nleng - 1)
  | .range bits :: sp, pos, nleng =>
    decide (nleng ≠ 0) && bits (byte pos) && subpatternMatchExact sp (pos + 1) (nleng - 1)
  | .asterisk :: _, _, _ => false

/-- `subpattern_closest_match`. -/
def subpatternClosestMatch (sp : List Atom) (pos nleng : Nat) : Option Nat :=
  (List.range (nleng + 1 - spLeng sp)).find? fun i =>
    subpatternMatchExact byte sp (pos + i) (nleng - i)

/-- The loop over the subpatterns in the middle; `leng0` is the length of the first one.  The
length that is left is a byte. -/
def middleMatch (leng0 : Nat) : List (List Atom) → ( pos : Nat) → ( nleng : UInt8) →
    Option (Nat × UInt8)
  | [], pos, nleng => some (pos, nleng)
  | sp :: sps, pos, nleng =>
    (subpatternClosestMatch byte sp pos nleng.toNat).bind fun i =>
      middleMatch leng0 sps (pos + (i + leng0)) (nleng - UInt8.ofNat (i + leng0))

/-- The last subpattern. -/
def finalMatch (lastAsterisk : Bool) (sp : List Atom) (pos nleng : Nat) : Bool :=
  if lastAsterisk then (subpatternClosestMatch byte sp pos nleng).isSome
  else decide (spLeng sp ≤ nleng)
    && subpatternMatchExact byte sp (pos + (nleng - spLeng sp)) (spLeng sp)

/-- A pattern that is one subpattern. -/
def singleMatch (g : Glob) (sp : List Atom) (nleng : Nat) : Bool :=
  if nleng < spLeng sp then false
  else if g.firstAsterisk && g.lastAsterisk then (subpatternClosestMatch byte sp 0 nleng).isSome
  else if g.lastAsterisk then subpatternMatchExact byte sp 0 nleng
  else if g.firstAsterisk then subpatternMatchExact byte sp (nleng - spLeng sp) (spLeng sp)
  else decide (spLeng sp = nleng) && subpatternMatchExact byte sp 0 nleng

/-- Where the first of several subpatterns is found. -/
def firstMatch (g : Glob) (sp : List Atom) (nleng : Nat) : Option Nat :=
  if g.firstAsterisk then subpatternClosestMatch byte sp 0 nleng
  else if subpatternMatchExact byte sp 0 nleng then some 0 else none

/-- `glob_match`, that is `pattern_match`. -/
def globMatch (g : Glob) (nleng : UInt8) : Bool :=
  if nleng.toNat < g.minleng then false
  else match g.sptab with
    | [] => g.lastAsterisk || g.firstAsterisk
    | [sp] => singleMatch byte g sp nleng.toNat
    | sp :: sp' :: sps =>
      match firstMatch byte g sp nleng.toNat with
      | none => false
      | some i =>
        let leng0 := spLeng sp
        match middleMatch byte leng0 (sp' :: sps).dropLast (i + leng0)
            (nleng - UInt8.ofNat (i + leng0)) with
        | none => false
        | some (pos, nleng) =>
          finalMatch byte g.lastAsterisk ((sp' :: sps).getLast (by simp)) pos nleng.toNat

end

end MfsMaster
