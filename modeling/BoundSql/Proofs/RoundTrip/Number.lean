import BoundSql.Grammar.Expression
import BoundSql.Proofs.Number.Text

/-!
# Numbers read back

Which kind of token a number is when it is written and read again. An integer stays an integer. A
float is written without an exponent, and without a point if it is an integer: it is read back as a
float only if it has a fraction or does not fit in 64 bits, and one that is out of the range of
doubles is read back as a name.
-/

namespace BoundSql

open Text Token Grammar

namespace Token

/-- The token is a number. -/
def isNumberKind : TokenKind → Bool
  | .integer _ | .float _ => true
  | _ => false

variable {lx : Lexicon} {n : Nat} {c : Char} {cs : List Char}

theorem isNumberKind_toKind (p : Except LexicalError Placeholder) :
    isNumberKind (Placeholder.toKind p) = false := by
  cases p <;> rfl

theorem isNumberKind_scanDelimited (quote : Char) (cs : List Char) :
    isNumberKind (scanDelimited quote cs).1 = false := by
  unfold scanDelimited
  split <;> rfl

theorem isNumberKind_word (cs : List Char) : isNumberKind (word cs) = false := by
  unfold word
  split <;> rfl

theorem isNumberKind_scanHost (n : Nat) (sign : Char) (cs : List Char) :
    isNumberKind (scanHost n sign cs).1 = false := by
  unfold scanHost
  extract_lets name
  split
  · rfl
  · split <;> rfl

theorem isNumberKind_scanPunct (lx : Lexicon) (c : Char) (cs : List Char) :
    isNumberKind (scanPunct lx c cs).1 = false := by
  unfold scanPunct
  split <;> (try split) <;> rfl

/-- Only the scanner of numbers gives numbers. -/
theorem scan_of_isNumberKind (h : isNumberKind (scan lx n c cs).1) :
    scan lx n c cs = scanNumber (c :: cs) := by
  have scanned := scanned_scan lx n c cs
  generalize scan lx n c cs = answer at scanned h
  have other (noNumber : isNumberKind answer.1 = false) {p : Prop} : p := by
    rw [noNumber] at h
    cases h
  cases scanned with
  | number => rfl
  | comment | marked => exact other (isNumberKind_toKind _)
  | delimited => exact other (isNumberKind_scanDelimited _ _)
  | name => exact other (isNumberKind_word _)
  | host => exact other (isNumberKind_scanHost _ _ _)
  | sign => exact other (isNumberKind_scanPunct _ _ _)
  | error | delimiter | string | blob | system => exact other rfl

/-- The integer is what digits are read as. -/
theorem integer_of_scanNumber {n : Int64} (h : (scanNumber cs).1 = .integer n) : 0 ≤ n.toInt := by
  unfold scanNumber number at h
  extract_lets whole afterWhole decimals exponent lexeme at h
  split at h
  · rename_i value read
    cases h
    split at read
    · rename_i plain
      simp only [Bool.and_eq_true, List.isEmpty_iff] at plain
      have spelled : lexeme = whole := by
        simp only [lexeme, plain.1, plain.2, List.append_nil]
      have all : ∀ c ∈ whole, c.isDigit := fun c hc => List.mem_takeWhile_imp hc
      rw [spelled] at read
      by_cases empty : whole = []
      · rw [empty] at read
        cases read
      · rw [readInt64?_digits ⟨empty, all⟩] at read
        split at read
        · rename_i small
          cases read
          have limit : int64Limit = 9223372036854775808 := rfl
          rw [Int64.toInt_ofInt_of_le] <;> omega
        · cases read
    · cases read
  · split at h <;> cases h

/-- The float is the double nearest to a decimal without a sign. -/
theorem float_of_scanNumber {x : Double} (h : (scanNumber cs).1 = .float x) :
    ∃ digits exponent, x = Double.ofDecimal false digits exponent := by
  unfold scanNumber number at h
  dsimp only at h
  split at h
  · cases h
  · split at h
    · rename_i read
      cases h
      obtain ⟨decimal, -, rfl⟩ := Option.map_eq_some_iff.1 read
      exact ⟨_, _, rfl⟩
    · cases h

end Token

namespace Double

theorem ofMagnitude_toNat (m : Nat) : (ofMagnitude false m).bits.toNat = min m infinityBits := by
  have small : min m infinityBits < 2 ^ 64 :=
    (Nat.min_le_right _ _).trans_lt (by decide)
  exact Nat.mod_eq_of_lt small

/-- Without a sign bit nothing is negative, and no magnitude is that of a NaN. -/
theorem ofMagnitude_nonneg (m : Nat) :
    (ofMagnitude false m).isNegative = false ∧ (ofMagnitude false m).isNaN = false := by
  have le : min m infinityBits ≤ 9218868437227405312 := Nat.min_le_right m infinityBits
  have limit : fractionLimit = 4503599627370496 := rfl
  unfold isNegative isNaN exponentField fraction
  rw [ofMagnitude_toNat, limit]
  generalize min m infinityBits = k at le
  have sign : signBit = 9223372036854775808 := rfl
  refine ⟨decide_eq_false (by omega), ?_⟩
  simp only [topExponent, Bool.and_eq_false_iff, beq_eq_false_iff_ne, bne_eq_false_iff_eq]
  omega

theorem ofDecimal_nonneg (digits : Nat) (exponent : Int) :
    (ofDecimal false digits exponent).isNegative = false ∧
      (ofDecimal false digits exponent).isNaN = false := by
  unfold ofDecimal
  extract_lets magnitude
  split
  · exact ofMagnitude_nonneg _
  · split
    · exact ofMagnitude_nonneg _
    · split
      · exact ofMagnitude_nonneg _
      · exact ofMagnitude_nonneg _

/-- The double is an integer of 64 bits, its sign aside. -/
def IsInt64 (d : Double) : Prop := d.IsWhole ∧ d.units < int64Limit * unitDenominator

instance (d : Double) : Decidable d.IsInt64 :=
  inferInstanceAs (Decidable (unitDenominator ∣ d.units ∧ d.units < int64Limit * unitDenominator))

end Double

/-- What digits or a decimal with a point are read as. -/
theorem number_decimal {cs : List Char} (h : IsDecimal cs) :
    (∃ n, cs.all Char.isDigit ∧ digitsValue cs < int64Limit ∧
        number cs (cs.all Char.isDigit) = .integer n) ∨
      ¬ (cs.all Char.isDigit ∧ digitsValue cs < int64Limit) ∧
        ∃ x, number cs (cs.all Char.isDigit) = .float x := by
  obtain ⟨x, read⟩ := h.ofDigits?
  unfold number
  by_cases all : cs.all Char.isDigit
  · have digits : IsDigits cs := by
      refine ⟨fun empty => ?_, List.all_eq_true.1 all⟩
      obtain ⟨c, head, -⟩ := h.head?
      rw [empty] at head
      cases head
    rw [if_pos all, readInt64?_digits digits]
    by_cases small : digitsValue cs < int64Limit
    · rw [if_pos small]
      exact .inl ⟨_, all, small, rfl⟩
    · rw [if_neg small, read]
      exact .inr ⟨fun both => small both.2, x, rfl⟩
  · rw [if_neg all, read]
    exact .inr ⟨fun both => all both.1, x, rfl⟩

/-- The text of a float without a sign is one token. -/
theorem Double.words_toText {d : Dialect} {x : Double} (number : x.isNaN = false)
    (sign : x.isNegative = false) : ∃ kind, d.words x.toText.toList = [⟨kind, x.toText.toList⟩] ∧
      ((∃ y, kind = .float y) ↔ x.isFinite ∧ ¬ x.IsInt64) ∧
      ((∃ n, kind = .integer n) ↔ x.isFinite ∧ x.IsInt64) ∧
      (kind = .identifier "inf" ↔ x.isFinite = false) := by
  by_cases finite : x.isFinite
  · obtain ⟨decimal, all, limit⟩ := toText_of_isFinite finite sign
    have int64 : x.IsInt64 ↔
        x.toText.toList.all Char.isDigit ∧ digitsValue x.toText.toList < int64Limit := by
      rw [IsInt64, all]
      exact and_congr_right fun whole => (limit whole).symm
    refine ⟨_, decimal.spells.words_eq, ?_⟩
    rw [int64]
    rcases number_decimal decimal with ⟨n, digits, small, kind⟩ | ⟨other, y, kind⟩
    · rw [kind]
      simp [finite, digits, small]
    · rw [kind]
      simp only [finite, other]
      simp
  · have infinite : x.isFinite = false := by simpa using finite
    have text : x.toText = "inf" := by simp [toText, number, sign, infinite]
    have name : IsPlainName "inf".toList := by decide
    have kind : word "inf".toList = .identifier "inf" := by decide
    have words := (SpellsName.of_isPlainName (d := d) name).spells.words_eq
    rw [Word.ofName, kind] at words
    rw [text]
    exact ⟨_, words, by simp [infinite], by simp [infinite], by simp [infinite]⟩

namespace Literal

variable {d : Dialect} {text : List Char} {w : Word} {l : Literal}

/-- A text that is one token begins, behind blanks and comments, with what this token is scanned
from. -/
theorem exists_scan (h : d.words text = [w]) : ∃ c cs, w.kind = (scan d.lexicon 0 c cs).1 := by
  rw [Dialect.words] at h
  cases ahead : d.lexicon.ahead text with
  | nil =>
    rw [Lexicon.words_of_ahead_nil ahead] at h
    cases h
  | cons c cs =>
    rw [Lexicon.words_of_ahead_cons ahead] at h
    injection h with h
    exact ⟨c, cs, by rw [← h]⟩

/-- A number is written as one token. An integer is read back as this integer. A float is read back
as a float exactly if it is finite and no integer of 64 bits: such an integer becomes an integer, and
a number out of the range of doubles becomes a name. -/
theorem words_sql_of_number (one : d.words text = [w]) (meant : literal? w.kind = some l) :
    (∀ n, w.kind = .integer n →
      d.words (l.sql d).toList = [⟨.integer n, (l.sql d).toList⟩]) ∧
    ∀ x, w.kind = .float x → ∃ kind,
      d.words (l.sql d).toList = [⟨kind, (l.sql d).toList⟩] ∧
      ((∃ y, kind = .float y) ↔ x.isFinite ∧ ¬ x.IsInt64) ∧
      ((∃ n, kind = .integer n) ↔ x.isFinite ∧ x.IsInt64) ∧
      (kind = .identifier "inf" ↔ x.isFinite = false) := by
  obtain ⟨c, cs, scanned⟩ := exists_scan one
  refine ⟨fun n integer => ?_, fun x float => ?_⟩
  · rw [integer] at meant scanned
    cases meant
    rw [scan_of_isNumberKind (by rw [← scanned]; rfl)] at scanned
    exact (spells_integer (integer_of_scanNumber scanned.symm)).words_eq
  · rw [float] at meant scanned
    cases meant
    rw [scan_of_isNumberKind (by rw [← scanned]; rfl)] at scanned
    obtain ⟨digits, exponent, rfl⟩ := float_of_scanNumber scanned.symm
    obtain ⟨sign, number⟩ := Double.ofDecimal_nonneg digits exponent
    exact Double.words_toText number sign

/-- The point of `2.0` gets lost, and with it the float. -/
theorem words_sql_two :
    Dialect.standard.words "2.0".toList = [⟨.float ⟨0x4000000000000000⟩, "2.0".toList⟩] ∧
      ∃ n, Dialect.standard.words (sql .standard (.float ⟨0x4000000000000000⟩)).toList =
        [⟨.integer n, (sql .standard (.float ⟨0x4000000000000000⟩)).toList⟩] := by
  have two : IsDecimal "2.0".toList :=
    show IsDecimal (['2'] ++ '.' :: ['0']) from .point ⟨by decide, by decide⟩ ⟨by decide, by decide⟩
  have kind : number "2.0".toList false = .float ⟨0x4000000000000000⟩ := by decide +kernel
  have one : Dialect.standard.words "2.0".toList =
      [⟨.float ⟨0x4000000000000000⟩, "2.0".toList⟩] := by
    have all : "2.0".toList.all Char.isDigit = false := by decide
    have words := two.spells (d := .standard).words_eq
    rwa [all, kind] at words
  obtain ⟨kind, words, -, integer, -⟩ := (words_sql_of_number one rfl).2 _ rfl
  obtain ⟨n, rfl⟩ := integer.2 (by decide +kernel)
  exact ⟨one, n, words⟩

end Literal

end BoundSql
