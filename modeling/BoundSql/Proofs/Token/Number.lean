import BoundSql.Proofs.Text.CharClass
import BoundSql.Proofs.Token.Spells
import BoundSql.Tree.Literal
import Mathlib.Data.List.TakeDrop

/-!
# Numbers as words

The decimal text of a number is one word, which is never an error and for an integer that fits in 64
bits has this integer as its meaning.
-/

namespace BoundSql

open Text Token

/-- A row of at least one digit. -/
def IsDigits (cs : List Char) : Prop := cs ≠ [] ∧ ∀ c ∈ cs, c.isDigit

theorem isDigits_toDigits (n : Nat) : IsDigits (Nat.toDigits 10 n) :=
  ⟨Nat.toDigits_ne_nil, fun _ hc => Nat.isDigit_of_mem_toDigits (by decide) (by decide) hc⟩

theorem digitsValue_toDigits (n : Nat) : digitsValue (Nat.toDigits 10 n) = n :=
  Nat.ofDigitChars_ten_toDigits

/-- Digits are taken off a text up to the first other character. -/
theorem takeWhile_digits {cs rest : List Char} (hcs : ∀ c ∈ cs, c.isDigit)
    (hrest : ∀ c, rest.head? = some c → c.isDigit = false) :
    (cs ++ rest).takeWhile Char.isDigit = cs := by
  induction cs with
  | nil =>
    cases rest with
    | nil => rfl
    | cons c rest => simp [hrest c rfl]
  | cons c cs ih =>
    have hc : c.isDigit := hcs c List.mem_cons_self
    simp [hc, ih fun d hd => hcs d (List.mem_cons_of_mem _ hd)]

theorem takeWhile_isDigit {cs : List Char} (h : IsDigits cs) : cs.takeWhile Char.isDigit = cs := by
  have happ : (cs ++ []).takeWhile Char.isDigit = cs := takeWhile_digits h.2 (by simp)
  rwa [List.append_nil] at happ

theorem span_digits {cs rest : List Char} (hcs : ∀ c ∈ cs, c.isDigit)
    (hrest : ∀ c, rest.head? = some c → c.isDigit = false) :
    (cs ++ rest).span Char.isDigit = (cs, rest) := by
  have htake := takeWhile_digits hcs hrest
  have hdrop := List.takeWhile_append_dropWhile (p := Char.isDigit) (l := cs ++ rest)
  rw [htake] at hdrop
  rw [List.span_eq_takeWhile_dropWhile, htake, List.append_cancel_left hdrop]

namespace Decimal

variable {whole decimals e : List Char}

/-- Digits with an exponent behind them, if any. -/
theorem read?_whole (hw : IsDigits whole) (he : ∀ c, e.head? = some c → c.isDigit = false ∧ c ≠ '.') :
    read? (whole ++ e) = (exponent? e).map fun x => ⟨digitsValue whole, x⟩ := by
  have hne : whole.isEmpty = false := by simpa using hw.1
  have hpoint : ∀ rest, e ≠ '.' :: rest := by
    rintro rest rfl
    exact (he '.' rfl).2 rfl
  unfold read?
  rw [span_digits hw.2 fun c hc => (he c hc).1]
  cases e with
  | nil => simp [hne]
  | cons c e =>
    simp [hne]

/-- Digits on both sides of a point, with an exponent behind them, if any. -/
theorem read?_point (hw : IsDigits whole) (hd : IsDigits decimals)
    (he : ∀ c, e.head? = some c → c.isDigit = false) :
    read? (whole ++ '.' :: (decimals ++ e)) =
      (exponent? e).map fun x => ⟨digitsValue (whole ++ decimals), x - decimals.length⟩ := by
  have hne : whole.isEmpty = false := by simpa using hw.1
  unfold read?
  rw [span_digits hw.2 (by simp)]
  simp only [span_digits hd.2 he, hne, Bool.false_and, Bool.false_eq_true, if_false]

end Decimal

/-- The decimal notation of a number without sign and exponent. -/
inductive IsDecimal : List Char → Prop
  | whole {cs : List Char} (h : IsDigits cs) : IsDecimal cs
  | point {cs ds : List Char} (h : IsDigits cs) (h' : IsDigits ds) : IsDecimal (cs ++ '.' :: ds)

theorem IsDecimal.ofDigits? {cs : List Char} (h : IsDecimal cs) :
    ∃ x, Double.ofDigits? cs = some x := by
  unfold Double.ofDigits?
  cases h with
  | whole h =>
    have := Decimal.read?_whole (e := []) h (by simp)
    rw [List.append_nil] at this
    simp [this, Decimal.exponent?]
  | point h h' =>
    have := Decimal.read?_point (e := []) h h' (by simp)
    rw [List.append_nil] at this
    simp [this, Decimal.exponent?]

theorem Token.commentLead_of_isDigit {hash : Bool} {c : Char} {cs : List Char} (hc : c.isDigit) :
    commentLead hash (c :: cs) = .none :=
  commentLead_of_class rfl rfl rfl hc

/-- A digit begins a number. -/
theorem Token.scan_of_isDigit {lx : Lexicon} (hlx : lx.delimiter = []) {n : Nat} {c : Char}
    {cs : List Char} (hc : c.isDigit) : scan lx n c cs = scanNumber (c :: cs) := by
  have hne {k : Char} (hk : k.isDigit = false) : c ≠ k := ne_of_class hc hk
  have hat : lx.atDelimiter (c :: cs) = false := by simp [Lexicon.atDelimiter, hlx]
  unfold scan
  simp only [commentLead_of_isDigit hc, hat, hc, hne (k := '#') rfl, hne (k := '\'') rfl,
    hne (k := '"') rfl, hne (k := '\x60') rfl, hne (k := 'X') rfl, hne (k := 'x') rfl, decide_false,
    Bool.false_and, Bool.false_or, Bool.true_or, Bool.false_eq_true, if_false, if_true]

/-- The whole of a decimal text is scanned as a number. -/
theorem IsDecimal.scanNumber {cs : List Char} (h : IsDecimal cs) :
    scanNumber cs = (number cs (cs.all Char.isDigit), cs.length - 1) := by
  cases h with
  | whole h =>
    have htake : cs.takeWhile Char.isDigit = cs := takeWhile_isDigit h
    have hall : cs.all Char.isDigit = true := List.all_eq_true.2 h.2
    simp [Token.scanNumber, htake, fractionOf, exponentOf, hall]
  | @point cs ds h h' =>
    have htake : (cs ++ '.' :: ds).takeWhile Char.isDigit = cs :=
      takeWhile_digits h.2 (by simp)
    have hfraction : fractionOf ('.' :: ds) = '.' :: ds := by
      have hds : ds.takeWhile Char.isDigit = ds := takeWhile_isDigit h'
      cases ds with
      | nil => exact absurd rfl h'.1
      | cons d ds =>
        have hd : d.isDigit := h'.2 d List.mem_cons_self
        rw [fractionOf, if_pos hd, hds]
    have hall : (cs ++ '.' :: ds).all Char.isDigit = false := by
      simp [List.all_append]
    simp [Token.scanNumber, htake, hfraction, exponentOf, hall]

/-- A decimal text is one word. -/
theorem IsDecimal.spells {d : Dialect} {cs : List Char} (h : IsDecimal cs) :
    Spells d cs [⟨number cs (cs.all Char.isDigit), cs⟩] := by
  have hdigit : ∃ c tail, cs = c :: tail ∧ c.isDigit := by
    cases h with
    | whole h =>
      cases cs with
      | nil => exact absurd rfl h.1
      | cons c cs => exact ⟨c, cs, rfl, h.2 c List.mem_cons_self⟩
    | @point cs ds h h' =>
      cases cs with
      | nil => exact absurd rfl h.1
      | cons c cs => exact ⟨c, cs ++ '.' :: ds, rfl, h.2 c List.mem_cons_self⟩
  obtain ⟨c, tail, rfl, hc⟩ := hdigit
  intro rest hrest
  refine Dialect.words_cons (isBlank_of_isDigit hc) (fun more => ?_) rfl ?_ ?_
  · simp [commentLead_of_isDigit hc]
  · rw [scan_of_isDigit d.lexicon_delimiter hc]
    exact (scanNumber_append (c :: tail) hrest.breaks).trans h.scanNumber
  · intro hbare
    injection hbare with hbare
    exact ne_of_class (k := '?') hc rfl hbare

theorem readInt?_digits {cs : List Char} (h : IsDigits cs) :
    readInt? cs = some (digitsValue cs : Int) := by
  have hall : cs.all Char.isDigit = true := List.all_eq_true.2 h.2
  have hne : cs.isEmpty = false := by simpa using h.1
  have hsign {k : Char} (hk : k.isDigit = false) (rest : List Char) : cs ≠ k :: rest := by
    rintro rfl
    rw [h.2 k List.mem_cons_self] at hk
    cases hk
  unfold readInt?
  split
  rename_i negative ds heq
  split at heq
  · exact absurd rfl (hsign rfl _)
  · exact absurd rfl (hsign rfl _)
  · cases heq
    simp [hall, hne]

/-- One more than the greatest integer of 64 bits. -/
def int64Limit : Nat := 9223372036854775808

theorem fitsSigned_of_lt {m : Nat} (hm : m < int64Limit) : fitsSigned 64 m = true := by
  have hpow : Nat.pow 2 (64 - 1) = int64Limit := by decide
  have hpos : (0 : Int) ≤ int64Limit := Int.natCast_nonneg _
  have hlt : (m : Int) < int64Limit := Int.ofNat_lt.2 hm
  simp only [fitsSigned, hpow, Bool.and_eq_true, decide_eq_true_eq]
  omega

/-- The digits of a number that fits in 64 bits mean this number. -/
theorem readInt64?_toDigits {m : Nat} (hm : m < int64Limit) :
    readInt64? (Nat.toDigits 10 m) = some (Int64.ofInt m) := by
  rw [readInt64?, readInt?_digits (isDigits_toDigits m), digitsValue_toDigits, Option.bind_some]
  exact if_pos (fitsSigned_of_lt hm)

/-- An integer that fits in 64 bits and is not negative is one word that means it. -/
theorem spells_integer {d : Dialect} {n : Int64} (hn : 0 ≤ n.toInt) :
    Spells d (toString n.toInt).toList [⟨.integer n, (toString n.toInt).toList⟩] := by
  obtain ⟨m, hm⟩ := Int.eq_ofNat_of_zero_le hn
  have htext : (toString n.toInt).toList = Nat.toDigits 10 m := by
    rw [hm]
    exact Nat.toList_repr
  have hlt : m < int64Limit := by
    have := n.toInt_lt
    rw [hm] at this
    exact Int.ofNat_lt.1 this
  have hkind : number (Nat.toDigits 10 m) true = .integer n := by
    have hmeans : Int64.ofInt (m : Int) = n := by
      rw [← hm, Int64.ofInt_toInt]
    simp [number, readInt64?_toDigits hlt, hmeans]
  have hall : (Nat.toDigits 10 m).all Char.isDigit = true :=
    List.all_eq_true.2 (isDigits_toDigits m).2
  have := (IsDecimal.whole (isDigits_toDigits m)).spells (d := d)
  rw [hall, hkind] at this
  rw [htext]
  exact this

end BoundSql
