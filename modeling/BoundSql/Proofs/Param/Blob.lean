import BoundSql.Param.Bindings
import BoundSql.Proofs.Token.Quoted

/-!
# Blobs bound as text

A blob is bound as a text of hexadecimal digits, two for each byte, and is written with the same
digits in upper case. The reader of a byte takes a plus sign for a leading zero:
`Value.ofJson_blob` says which texts are blobs because of that and what they stand for.
-/

namespace BoundSql

open Text

namespace Text

variable {a b c : Char} {cs : List Char}

theorem toNat_le_of_isHexDigit (h : isHexDigit c) : c.toNat ≤ 'f'.toNat := by
  simp only [isHexDigit, Char.isDigit, Char.le_def, ge_iff_le, UInt32.le_iff_toNat_le,
    Bool.or_eq_true, Bool.and_eq_true, decide_eq_true_eq] at h
  change c.val.toNat ≤ 102
  rcases h with (⟨-, last⟩ | ⟨-, last⟩) | ⟨-, last⟩
  · exact Nat.le_trans last (by decide)
  · exact last
  · exact Nat.le_trans last (by decide)

/-- A digit is written again as itself, in upper case. -/
theorem hexDigit_hexValue (h : isHexDigit c) :
    hexValue c < 16 ∧ hexDigit (hexValue c) = c.toUpper := by
  have each : ∀ n ≤ 'f'.toNat, isHexDigit (Char.ofNat n) →
      hexValue (Char.ofNat n) < 16 ∧
        hexDigit (hexValue (Char.ofNat n)) = (Char.ofNat n).toUpper := by
    decide
  have here := each c.toNat (toNat_le_of_isHexDigit h)
  rw [Char.ofNat_toNat] at here
  exact here h

/-- An even number of hexadecimal digits. -/
def IsHex (cs : List Char) : Prop := cs.length % 2 = 0 ∧ ∀ c ∈ cs, isHexDigit c

/-- A zero in place of a plus sign. -/
def unsigned (c : Char) : Char := if c = '+' then '0' else c

/-- An even number of hexadecimal digits, but that plus signs may stand for zeros where a byte
begins. -/
def IsSignedHex (cs : List Char) : Prop :=
  IsHex (cs.map unsigned) ∧ ∀ i : Nat, cs[i]? = some '+' → i % 2 = 0

theorem unsigned_of_ne (h : c ≠ '+') : unsigned c = c := if_neg h

theorem ne_plus_of_isHexDigit (h : isHexDigit c) : c ≠ '+' := by
  rintro rfl
  cases h

theorem map_unsigned_of_notMem (h : '+' ∉ cs) : cs.map unsigned = cs := by
  have same : cs.map unsigned = cs.map id :=
    List.map_congr_left fun c hc => unsigned_of_ne fun plus => h (plus ▸ hc)
  rw [same, List.map_id]

/-- Without plus signs the digits are all that counts. -/
theorem isSignedHex_of_notMem (h : '+' ∉ cs) : IsSignedHex cs ↔ IsHex cs := by
  rw [IsSignedHex, map_unsigned_of_notMem h]
  exact and_iff_left fun i plus => absurd (List.mem_of_getElem? plus) h

theorem isSignedHex_nil : IsSignedHex [] := ⟨⟨rfl, by simp⟩, by simp⟩

theorem not_isSignedHex_single (c : Char) : ¬ IsSignedHex [c] := by
  rintro ⟨⟨even, -⟩, -⟩
  cases even

/-- The first two characters are one byte. -/
theorem isSignedHex_pair :
    IsSignedHex (a :: b :: cs) ↔ isHexDigit (unsigned a) ∧ isHexDigit b ∧ IsSignedHex cs := by
  constructor
  · rintro ⟨⟨even, digits⟩, plus⟩
    have first : isHexDigit (unsigned a) := digits _ List.mem_cons_self
    have second : isHexDigit (unsigned b) := digits _ (List.mem_cons_of_mem _ List.mem_cons_self)
    have noPlus : b ≠ '+' := fun sign => absurd (plus 1 (congrArg some sign)) (by decide)
    rw [unsigned_of_ne noPlus] at second
    refine ⟨first, second, ⟨?_, fun c hc => ?_⟩, fun i sign => ?_⟩
    · simp only [List.map_cons, List.length_cons] at even
      omega
    · exact digits c (List.mem_cons_of_mem _ (List.mem_cons_of_mem _ hc))
    · have place := plus (i + 2) sign
      omega
  · rintro ⟨first, second, ⟨even, digits⟩, plus⟩
    have noPlus := ne_plus_of_isHexDigit second
    refine ⟨⟨?_, ?_⟩, ?_⟩
    · simp only [List.map_cons, List.length_cons]
      omega
    · simpa [unsigned_of_ne noPlus, first, second] using digits
    · rintro (_ | _ | i) sign
      · rfl
      · exact absurd (Option.some.inj sign) noPlus
      · have place := plus i sign
        omega

end Text

variable {a b : Char}

/-! ## Reading -/

/-- A byte is read from two digits, a plus sign being the digit zero. -/
theorem hexPair?_eq (a b : Char) : hexPair? a b =
    if isHexDigit (unsigned a) ∧ isHexDigit b then
      some (UInt8.ofNat (16 * hexValue (unsigned a) + hexValue b))
    else none := by
  by_cases plus : a = '+'
  · subst plus
    simp [hexPair?, unsigned, hexValue, isHexDigit]
  · rw [hexPair?, unsigned_of_ne plus, if_neg plus]
    split <;> rename_i hb <;> simp [hb]

theorem hexText_cons {x y : Nat} (hx : x < 16) (hy : y < 16) (bytes : List UInt8) :
    hexText (UInt8.ofNat (16 * x + y) :: bytes) = hexDigit x :: hexDigit y :: hexText bytes := by
  have byte : (UInt8.ofNat (16 * x + y)).toNat = 16 * x + y := by
    rw [UInt8.toNat_ofNat']
    omega
  have high : (16 * x + y) / 16 = x := by omega
  have low : (16 * x + y) % 16 = y := by omega
  rw [hexText, List.flatMap_cons, byte, high, low]
  rfl

/-- Digits are read as bytes that are written as the same digits in upper case. -/
theorem exists_readHex? {cs : List Char} (h : IsSignedHex cs) :
    ∃ bytes, readHex? cs = some bytes ∧ hexText bytes = upper (cs.map unsigned) := by
  induction cs using readHex?.induct with
  | case1 => exact ⟨[], rfl, rfl⟩
  | case2 c => exact absurd h (not_isSignedHex_single c)
  | case3 a b cs ih =>
    obtain ⟨ha, hb, hcs⟩ := isSignedHex_pair.1 h
    obtain ⟨bytes, read, written⟩ := ih hcs
    obtain ⟨highLt, high⟩ := hexDigit_hexValue ha
    obtain ⟨lowLt, low⟩ := hexDigit_hexValue hb
    refine ⟨UInt8.ofNat (16 * hexValue (unsigned a) + hexValue b) :: bytes, ?_, ?_⟩
    · rw [readHex?, hexPair?_eq, if_pos ⟨ha, hb⟩, read]
      rfl
    · rw [hexText_cons highLt lowLt, written, high, low, List.map_cons, List.map_cons,
        unsigned_of_ne (ne_plus_of_isHexDigit hb)]
      rfl

theorem readHex?_eq_none {cs : List Char} (h : ¬ IsSignedHex cs) : readHex? cs = none := by
  induction cs using readHex?.induct with
  | case1 => exact absurd isSignedHex_nil h
  | case2 => rfl
  | case3 a b cs ih =>
    rw [readHex?, hexPair?_eq]
    split
    · rename_i digits
      have rest := ih fun hcs => h (isSignedHex_pair.2 ⟨digits.1, digits.2, hcs⟩)
      rw [rest]
      rfl
    · rfl

/-- The JSON value that stands for the bytes that a text spells. -/
def Json.blob (text : String) : Json := .object [("blob", .string text)]

namespace Value

variable {t : String}

theorem ofJson_blob_eq (t : String) : ofJson (.blob t) =
    (readHex? t.toList).elim (.error (.invalidBlob t)) fun bytes => .ok (blob bytes) := by
  have tagged : ofJson (.blob t) = ofTagged "blob" t := rfl
  rw [tagged, ofTagged]
  cases readHex? t.toList <;> rfl

/-- Digits are a blob that is written with the same digits in upper case. -/
theorem exists_ofJson_blob (h : IsSignedHex t.toList) (d : Dialect) (gmt : Bool) :
    ∃ v, ofJson (.blob t) = .ok v ∧
      v.sql d gmt = "X'" ++ String.ofList (upper (t.toList.map unsigned)) ++ "'" := by
  obtain ⟨bytes, read, digits⟩ := exists_readHex? h
  refine ⟨blob bytes, by rw [ofJson_blob_eq, read]; rfl, ?_⟩
  rw [sql, quoteBlob, digits, ← String.toList_inj]
  simp

/-- Any other text is refused, and the error names it. -/
theorem ofJson_blob_eq_error (h : ¬ IsSignedHex t.toList) :
    ofJson (.blob t) = .error (.invalidBlob t) := by
  rw [ofJson_blob_eq, readHex?_eq_none h]
  rfl

/-- A text is a blob just if it is an even number of hexadecimal digits, a plus sign being a zero
where a byte begins. The blob is written with these digits in upper case. -/
theorem ofJson_blob (t : String) (d : Dialect) (gmt : Bool) :
    ((∃ v, ofJson (.blob t) = .ok v) ↔ IsSignedHex t.toList) ∧
    (∀ v, ofJson (.blob t) = .ok v →
      v.sql d gmt = "X'" ++ String.ofList (upper (t.toList.map unsigned)) ++ "'") ∧
    ('+' ∉ t.toList → ((∃ v, ofJson (.blob t) = .ok v) ↔ IsHex t.toList) ∧
      ∀ v, ofJson (.blob t) = .ok v →
        v.sql d gmt = "X'" ++ String.ofList (upper t.toList) ++ "'") := by
  have accepted : (∃ v, ofJson (.blob t) = .ok v) ↔ IsSignedHex t.toList := by
    refine ⟨fun found => ?_, fun h => ?_⟩
    · obtain ⟨v, found⟩ := found
      refine Classical.byContradiction fun h => ?_
      rw [ofJson_blob_eq_error h] at found
      cases found
    · obtain ⟨v, found, -⟩ := exists_ofJson_blob h d gmt
      exact ⟨v, found⟩
  have written : ∀ v, ofJson (.blob t) = .ok v →
      v.sql d gmt = "X'" ++ String.ofList (upper (t.toList.map unsigned)) ++ "'" := by
    intro v found
    obtain ⟨w, same, text⟩ := exists_ofJson_blob (accepted.1 ⟨v, found⟩) d gmt
    rw [found] at same
    cases same
    exact text
  refine ⟨accepted, written, fun noPlus => ?_⟩
  rw [isSignedHex_of_notMem noPlus] at accepted
  rw [map_unsigned_of_notMem noPlus] at written
  exact ⟨accepted, written⟩

/-- `cAfe09` is a blob of three bytes, and `+A` of one. -/
theorem ofJson_blob_cafe :
    (ofJson (.blob "cAfe09") = .ok (blob [0xCA, 0xFE, 0x09]) ∧
      (blob [0xCA, 0xFE, 0x09]).sql .standard false = "X'CAFE09'") ∧
    ofJson (.blob "+A") = .ok (blob [0x0A]) ∧ (blob [0x0A]).sql .standard false = "X'0A'" := by
  have digits : ofJson (.blob "cAfe09") = .ok (blob [0xCA, 0xFE, 0x09]) := rfl
  have signed : ofJson (.blob "+A") = .ok (blob [0x0A]) := rfl
  have noPlus : '+' ∉ "cAfe09".toList := by decide
  exact ⟨⟨digits, ((ofJson_blob "cAfe09" .standard false).2.2 noPlus).2 _ digits⟩, signed,
    (ofJson_blob "+A" .standard false).2.1 _ signed⟩

end Value

end BoundSql
