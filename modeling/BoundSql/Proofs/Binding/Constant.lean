import BoundSql.Proofs.RoundTrip.Integer
import BoundSql.Value

/-!
# Constants as words

Whatever the number, every literal and every value is written as text that is lexed as words of its
own.
-/

namespace BoundSql

open Text Token

section Digits

variable {cs : List Char}

theorem IsDigits.append {ds : List Char} (hcs : IsDigits cs) (hds : ∀ c ∈ ds, c.isDigit) :
    IsDigits (cs ++ ds) :=
  ⟨by simp [hcs.1], fun c hc => (List.mem_append.1 hc).elim (hcs.2 c) (hds c)⟩

theorem isDigit_of_mem_replicate {n : Nat} {c : Char} (hc : c ∈ List.replicate n '0') :
    c.isDigit := by
  rw [List.eq_of_mem_replicate hc]
  rfl

/-- A decimal begins with a digit. -/
theorem IsDecimal.head? (h : IsDecimal cs) : ∃ c, cs.head? = some c ∧ c.isDigit := by
  have first {cs : List Char} (h : IsDigits cs) (rest : List Char) :
      ∃ c, (cs ++ rest).head? = some c ∧ c.isDigit := by
    cases cs with
    | nil => exact absurd rfl h.1
    | cons c cs => exact ⟨c, rfl, h.2 c List.mem_cons_self⟩
  cases h with
  | whole h => simpa using first h []
  | point h _ => exact first h _

/-- Digits set out positionally are a decimal. -/
theorem isDecimal_positional (digits : Nat) (exponent : Int) :
    IsDecimal (Double.positional digits exponent).toList := by
  have htext := isDigits_toDigits digits
  unfold Double.positional
  extract_lets text places padded whole decimals
  have hpadded : ∀ c ∈ padded, c.isDigit := by
    intro c hc
    rcases List.mem_append.1 hc with hc | hc
    · exact isDigit_of_mem_replicate hc
    · exact htext.2 c hc
  -- at least one digit stands in front of the point
  have hwhole : IsDigits (padded.take whole) := by
    refine ⟨fun hnil => ?_, fun c hc => hpadded c (List.mem_of_mem_take hc)⟩
    have hlen := congrArg List.length hnil
    simp only [List.length_take, List.length_nil, padded, whole, List.length_append,
      List.length_replicate] at hlen
    omega
  have hdecimals : ∀ c ∈ decimals, c.isDigit := by
    intro c hc
    have hmem := (List.dropWhile_sublist _).mem (List.mem_reverse.1 hc)
    exact hpadded c (List.mem_of_mem_drop (List.mem_reverse.1 hmem))
  split
  · rw [String.toList_ofList]
    exact .whole (htext.append fun c => isDigit_of_mem_replicate)
  · split
    · rw [String.toList_ofList]
      exact .whole hwhole
    · rename_i hne
      rw [String.toList_ofList]
      exact .point hwhole ⟨by simpa using hne, hdecimals⟩

end Digits

variable {d : Dialect}

/-- Words with a minus sign in front that are not signed themselves. -/
theorem Whole.negative {s : String} (h : Whole d s) (hs : s.toList.head? ≠ some '-') :
    Whole d ("-" ++ s) := by
  have hminus := Spells.minus hs h
  have htext : '-' :: s.toList = ("-" ++ s).toList := by rw [String.toList_append]; rfl
  rw [htext] at hminus
  exact hminus.whole

/-- A double is written as words, a sign in front of the others. -/
theorem Double.whole_toText (x : Double) : Whole d x.toText := by
  have decimal {s : String} (h : IsDecimal s.toList) :
      Whole d s ∧ s.toList.head? ≠ some '-' := by
    refine ⟨h.spells.whole, fun hminus => ?_⟩
    obtain ⟨c, hc, hdigit⟩ := h.head?
    rw [hc] at hminus
    cases hminus
    cases hdigit
  have plain {s : String} (h : IsPlainName s.toList) (hs : s.toList.head? ≠ some '-') :
      Whole d s ∧ s.toList.head? ≠ some '-' := ⟨.of_isPlainName h, hs⟩
  unfold toText
  split
  · exact .of_isPlainName (by decide)
  · extract_lets body
    have hbody : Whole d body ∧ body.toList.head? ≠ some '-' := by
      unfold body
      split
      · exact plain (by decide) (by decide)
      · split
        · exact decimal (.whole ⟨by decide, List.all_eq_true.1 (by decide)⟩)
        · exact decimal (isDecimal_positional _ _)
    split
    · exact hbody.1.negative hbody.2
    · exact hbody.1

theorem whole_booleanLiteral (b : Bool) : Whole d (d.booleanLiteral b) := by
  have htrue : Whole d "TRUE" := .of_isPlainName (by decide)
  have hfalse : Whole d "FALSE" := .of_isPlainName (by decide)
  have digit {c : Char} (hc : c.isDigit) : Whole d (String.ofList [c]) := by
    have hdecimal : IsDecimal (String.ofList [c]).toList := by
      rw [String.toList_ofList]
      exact .whole ⟨by simp, by simpa using hc⟩
    exact hdecimal.spells.whole
  unfold Dialect.booleanLiteral
  split
  · cases b
    · exact digit (c := '0') rfl
    · exact digit (c := '1') rfl
  · cases b
    · exact hfalse
    · exact htrue

/-- Every literal is written as words. -/
theorem Literal.whole_sql (l : Literal) : Whole d (l.sql d) := by
  cases l with
  | integer n => exact whole_integer d n
  | float x => exact x.whole_toText
  | string text => exact (spells_string d text).whole
  | blob bytes => exact (spells_blob d bytes).whole
  | boolean b => exact whole_booleanLiteral b
  | null => exact (spells_keyword d .NULL).whole
  | columnDefault => exact (spells_keyword d .DEFAULT).whole

/-- Numbers with commas between them are written as words. -/
theorem spells_numbers (ns : List Nat) :
    ∃ ws, Spells d (String.intercalate ", " (ns.map toString)).toList ws := by
  rw [String.toList_intercalate]
  induction ns with
  | nil => exact ⟨[], .nil⟩
  | cons n ns ih =>
    have hdecimal : IsDecimal (toString n).toList := by
      have htext : (toString n).toList = Nat.toDigits 10 n := Nat.toList_repr
      rw [htext]
      exact .whole (isDigits_toDigits n)
    have hn := hdecimal.spells (d := d)
    cases ns with
    | nil =>
      rw [List.map_singleton, List.map_singleton, List.intercalate_singleton]
      exact ⟨_, hn⟩
    | cons m ns =>
      obtain ⟨ws, hws⟩ := ih
      rw [List.map_cons, List.map_cons, List.map_cons, List.map_cons, List.intercalate_cons_cons,
        List.append_assoc]
      exact ⟨_, hn.append (hws.blank rfl).comma (ends_cons rfl _)⟩

/-- A name with numbers in parentheses behind it. -/
theorem Whole.arguments {name : String} (h : Whole d name) (ns : List Nat) :
    Whole d (name ++ "(" ++ String.intercalate ", " (ns.map toString) ++ ")") := by
  obtain ⟨ws, hws⟩ := spells_numbers (d := d) ns
  have hinside := (hws.append Spells.nil.rightParen (ends_cons rfl _)).leftParen
  have hall := Spells.append h hinside (ends_cons rfl _)
  rw [← List.cons_append, ← List.append_assoc] at hall
  have htext : name.toList ++ '(' :: (String.intercalate ", " (ns.map toString)).toList ++ [')'] =
      (name ++ "(" ++ String.intercalate ", " (ns.map toString) ++ ")").toList := by
    simp
  rw [htext] at hall
  exact hall.whole

namespace DataType

theorem whole_sized {name : String} (h : Whole d name) (precision scale : Option UInt16) :
    Whole d (sized name precision scale) := by
  unfold sized
  split
  · rename_i p s
    have harguments := h.arguments [p.toNat, s.toNat]
    rw [List.map_cons, List.map_singleton, String.intercalate_cons_cons,
      String.intercalate_singleton, ← String.append_assoc, ← String.append_assoc] at harguments
    exact harguments
  · rename_i p
    exact h.arguments [p.toNat]
  · exact h

theorem whole_withLength {name : String} (h : Whole d name) (length : Option UInt32) :
    Whole d (withLength name length) := by
  unfold withLength
  split
  · rename_i n
    exact h.arguments [n.toNat]
  · exact h

/-- A type is written as words if its name is. -/
theorem whole_sql {type : DataType} (h : ∀ name, type = custom name → Whole d name) :
    Whole d type.sql := by
  cases type with
  | custom name => exact h name rfl
  | decimal p s => exact whole_sized (.of_isPlainName (by decide)) p s
  | numeric p s => exact whole_sized (.of_isPlainName (by decide)) p s
  | char n => exact whole_withLength (.of_isPlainName (by decide)) n
  | varchar n => exact whole_withLength (.of_isPlainName (by decide)) n
  | _ => exact .of_isPlainName (by decide)

end DataType

/-! ## Values -/

/-- A string literal escapes no character of the text. -/
def Unescaped (s : String) : Prop := ∀ c ∈ s.toList, c ≠ '\'' ∧ c ≠ '\\'

instance (s : String) : Decidable (Unescaped s) := inferInstanceAs (Decidable (∀ c ∈ _, _))

section Unescaped

variable {s t : String}

theorem Unescaped.append (hs : Unescaped s) (ht : Unescaped t) : Unescaped (s ++ t) := by
  intro c hc
  rw [String.toList_append] at hc
  exact (List.mem_append.1 hc).elim (hs c) (ht c)

theorem unescaped_zeroPadded (width n : Nat) : Unescaped (zeroPadded width n) := by
  have digit {c : Char} (h : c.isDigit) : c ≠ '\'' ∧ c ≠ '\\' := by
    constructor <;> rintro rfl <;> cases h
  intro c hc
  rw [zeroPadded, String.toList_ofList] at hc
  rcases List.mem_append.1 hc with zero | hc
  · exact digit (isDigit_of_mem_replicate zero)
  · exact digit ((isDigits_toDigits n).2 c hc)

theorem Date.unescaped_toText (t : Date) : Unescaped t.toText := by
  have year : Unescaped (yearText t.year) := by
    unfold yearText
    split
    · exact unescaped_zeroPadded _ _
    · refine Unescaped.append ?_ (unescaped_zeroPadded _ _)
      split <;> decide
  have dash : Unescaped "-" := by decide
  exact (((year.append dash).append (unescaped_zeroPadded _ _)).append dash).append
    (unescaped_zeroPadded _ _)

theorem TimeOfDay.unescaped_toText (t : TimeOfDay) : Unescaped t.toText := by
  have colon : Unescaped ":" := by decide
  have point : Unescaped "." := by decide
  have fraction : Unescaped (fractionText t.nano) := by
    unfold fractionText
    split
    · decide
    · split
      · exact point.append (unescaped_zeroPadded _ _)
      · split <;> exact point.append (unescaped_zeroPadded _ _)
  have minutes := ((unescaped_zeroPadded 2 t.hour).append colon).append
    (unescaped_zeroPadded 2 t.minute)
  exact ((minutes.append colon).append (unescaped_zeroPadded 2 t.second)).append fraction

theorem DateTime.unescaped_toText (t : DateTime) : Unescaped t.toText := by
  have blank : Unescaped " " := by decide
  exact (t.date.unescaped_toText.append blank).append t.time.unescaped_toText

theorem ZonedDateTime.unescaped_toText (t : ZonedDateTime) : Unescaped t.toText := by
  have sign : Unescaped (if t.offset < 0 then "-" else "+") := by split <;> decide
  have colon : Unescaped ":" := by decide
  exact t.localTime.unescaped_toText.append
    (((sign.append (unescaped_zeroPadded _ _)).append colon).append (unescaped_zeroPadded _ _))

/-- Between quotes, such a text is a string literal. -/
theorem Unescaped.quotePlain_eq (h : Unescaped s) (d : Dialect) :
    Value.quotePlain s = quoteString d s := by
  have kept : s.toList.flatMap (quoteString.escape d) = s.toList := by
    unfold Unescaped at h
    generalize s.toList = cs at h
    induction cs with
    | nil => rfl
    | cons c cs ih =>
      rw [List.forall_mem_cons] at h
      simp [quoteString.escape, h.1.1, h.1.2, ih h.2]
  rw [← String.toList_inj, Value.quotePlain, quoteString, kept]
  simp

end Unescaped

/-- Every value is written as words. -/
theorem Value.whole_sql (v : Value) (gmt : Bool) : Whole d (v.sql d gmt) := by
  have quoted {s : String} (h : Unescaped s) : Whole d (quotePlain s) := by
    rw [h.quotePlain_eq d]
    exact (spells_string d s).whole
  cases v with
  | null => exact Literal.null.whole_sql
  | columnDefault => exact Literal.columnDefault.whole_sql
  | bool b => exact (Literal.boolean b).whole_sql
  | int n => exact (Literal.integer n).whole_sql
  | float x => exact (Literal.float x).whole_sql
  | text s => exact (Literal.string s).whole_sql
  | blob bytes => exact (Literal.blob bytes).whole_sql
  | date t => exact quoted t.unescaped_toText
  | time t => exact quoted t.unescaped_toText
  | timestamp t => exact quoted t.unescaped_toText
  | zoned t =>
    refine quoted ?_
    split
    · exact t.toUtc.unescaped_toText
    · exact t.unescaped_toText

end BoundSql
