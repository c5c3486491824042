import BoundSql.Proofs.Param.Table
import BoundSql.Proofs.RoundTrip.Integer
import BoundSql.Proofs.Token.Reread

/-!
# Keys and how they are shown

The key of a placeholder is what its display is read as: an offset is shown with its sign, and a
name is never the text of an offset. No two keys of the placeholders of a text are therefore shown
alike.
-/

namespace BoundSql

open Text Token

/-- The key is what its display is read as. -/
def ParamKey.Legible (key : ParamKey) : Prop := read key.display.toList = key

namespace ParamKey

variable {k k' : ParamKey}

/-- Legible keys that are shown alike are the same. -/
theorem Legible.eq_of_display (h : k.Legible) (h' : k'.Legible) (shown : k.display = k'.display) :
    k = k' := by
  rw [← show read k.display.toList = k from h, shown]
  exact h'

theorem read_of_unsigned {text : List Char} (h : isSigned text = false) :
    read text = .named (String.ofList text) := by
  rw [read, h]
  rfl

theorem legible_named {name : List Char} (h : isSigned name = false) :
    (named (String.ofList name)).Legible := by
  rw [Legible, display, String.toList_ofList, read_of_unsigned h]

theorem fitsSigned_toInt (n : Int32) : fitsSigned 32 n.toInt = true := by
  have le := n.le_toInt
  have lt := n.toInt_lt
  have limit : Nat.pow 2 (32 - 1) = 2147483648 := by decide
  simp only [fitsSigned, limit, Bool.and_eq_true, decide_eq_true_eq]
  omega

/-- A sign and the digits of a magnitude are an integer. -/
theorem readInt?_signed (m : Nat) :
    readInt? ('+' :: Nat.toDigits 10 m) = some (m : Int) ∧
      readInt? ('-' :: Nat.toDigits 10 m) = some (-(m : Int)) := by
  have digits := isDigits_toDigits m
  have all : (Nat.toDigits 10 m).all Char.isDigit = true := List.all_eq_true.2 digits.2
  have nonempty : (Nat.toDigits 10 m).isEmpty = false := by simp
  constructor <;> simp [readInt?, all, nonempty, digitsValue_toDigits]

theorem legible_offset (n : Int32) : (offset n).Legible := by
  have reads {text : List Char} (signed : isSigned text) (value : readInt? text = some n.toInt) :
      read text = .offset n := by
    rw [read, if_pos signed, readInt32?, value, Option.bind_some, if_pos (fitsSigned_toInt n),
      Int32.ofInt_toInt]
  rw [Legible, display]
  split
  · rename_i nonneg
    obtain ⟨m, same⟩ := Int.eq_ofNat_of_zero_le nonneg
    have text : ("+" ++ toString n.toInt).toList = '+' :: Nat.toDigits 10 m := by
      rw [String.toList_append, same]
      exact congrArg ('+' :: ·) Nat.toList_repr
    rw [text]
    refine reads rfl ?_
    rw [(readInt?_signed m).1, same]
  · rename_i neg
    rw [toList_toString_of_neg (Int.not_le.1 neg)]
    refine reads rfl ?_
    rw [(readInt?_signed _).2]
    congr 1
    omega

/-- Whatever text a key is read from, its display is read as the same key. -/
theorem legible_read (text : List Char) : (read text).Legible := by
  generalize found : read text = key
  cases key with
  | offset n => exact legible_offset n
  | named name =>
    have same : name = String.ofList text := by
      rw [read] at found
      split at found <;> cases found
      rfl
    rw [Legible, display, same, String.toList_ofList, found, same]

end ParamKey

/-! ## The keys of placeholders -/

/-- The key that a token declares, if it declares one. -/
def TokenKind.key? : TokenKind → Option ParamKey
  | param p => some p.key
  | hostParam name => some (.named name)
  | _ => none

theorem ParamSpec.key?_ofToken? (t : Token) : (ofToken? t).map key = t.kind.key? := by
  cases h : t.kind <;> simp [ofToken?, TokenKind.key?, ofPlaceholder, ofHost, h]

/-- The keys of what tokens declare. -/
theorem ParamSpec.map_key_ofToken? (ts : List Token) :
    (ts.filterMap ofToken?).map key = ts.filterMap fun t => t.kind.key? := by
  rw [List.map_filterMap]
  exact List.filterMap_congr fun t _ => key?_ofToken? t

/-- The key that a token declares, if it declares one, is legible. -/
def TokenKind.Legible (k : TokenKind) : Prop := ∀ key ∈ k.key?, key.Legible

namespace TokenKind

theorem Legible.of_none {k : TokenKind} (h : k.key? = none) : k.Legible := by
  intro key member
  rw [h] at member
  cases member

theorem legible_toKind {answer : Except LexicalError Placeholder}
    (h : ∀ p, answer = .ok p → ∃ text, p.key = .read text) :
    (Placeholder.toKind answer).Legible := by
  intro key member
  cases answer with
  | error e => cases member
  | ok p =>
    obtain ⟨text, read⟩ := h p rfl
    cases member
    rw [read]
    exact ParamKey.legible_read text

theorem legible_ofComment (content : List Char) (attached : Bool) :
    (Placeholder.toKind (Placeholder.ofComment content attached)).Legible := by
  refine legible_toKind fun p made => ?_
  unfold Placeholder.ofComment at made
  cases attributes : Placeholder.readAttributes .empty (trim content) with
  | error e =>
    rw [attributes] at made
    cases made
  | ok a =>
    rw [attributes] at made
    dsimp only [bind, Except.bind] at made
    split at made <;> cases made
    exact ⟨_, rfl⟩

theorem legible_ofBody (body : List Char) :
    (Placeholder.toKind (Placeholder.ofBody body)).Legible := by
  refine legible_toKind fun p made => ?_
  unfold Placeholder.ofBody at made
  dsimp only at made
  -- Where a check fails, nothing is made; where all hold, the key is read from the first section.
  split at made
  · cases made
  · cases modified : Placeholder.modifier (Placeholder.sections body) with
    | error e =>
      rw [modified] at made
      cases made
    | ok nullok =>
      rw [modified, show ∀ f : Bool → Except LexicalError Placeholder,
        (Except.ok nullok >>= f) = f nullok from fun _ => rfl] at made
      split at made
      · cases made
      · split at made
        · cases made
        · split at made
          · split at made
            · cases made
            · cases made
              exact ⟨_, rfl⟩
          · cases made
            exact ⟨_, rfl⟩

theorem legible_word (cs : List Char) : (word cs).Legible := by
  unfold word
  split <;> exact .of_none rfl

theorem legible_scanDelimited (quote : Char) (cs : List Char) :
    (scanDelimited quote cs).1.Legible := by
  unfold scanDelimited
  split <;> exact .of_none rfl

theorem legible_number (cs : List Char) (whole : Bool) : (number cs whole).Legible := by
  unfold number
  split
  · exact .of_none rfl
  · split <;> exact .of_none rfl

theorem isSigned_takeWhile {p : Char → Bool} (plus : p '+' = false) (minus : p '-' = false)
    (cs : List Char) : ParamKey.isSigned (cs.takeWhile p) = false := by
  cases cs with
  | nil => rfl
  | cons c cs =>
    rw [List.takeWhile_cons]
    split
    · rename_i accepted
      have other {sign : Char} (h : p sign = false) : (c == sign) = false := by
        refine beq_eq_false_iff_ne.2 fun same => ?_
        rw [same, h] at accepted
        cases accepted
      simp [ParamKey.isSigned, other plus, other minus]
    · rfl

/-- The name behind the sign of a driver placeholder begins with no plus or minus sign. -/
theorem legible_scanHost (n : Nat) (sign : Char) (cs : List Char) :
    (scanHost n sign cs).1.Legible := by
  have named {name : List Char} (h : ParamKey.isSigned name = false) :
      (hostParam (String.ofList name)).Legible := by
    rintro key ⟨⟩
    exact ParamKey.legible_named h
  unfold scanHost
  extract_lets name
  have unsigned : ParamKey.isSigned name = false := by
    unfold name
    split
    · exact isSigned_takeWhile rfl rfl cs
    · split
      · rfl
      · exact isSigned_takeWhile (by decide) (by decide) cs
  split
  · exact named unsigned
  · split
    · have text : s!"?{n + 1}" = String.ofList ('?' :: Nat.toDigits 10 (n + 1)) := by
        rw [← String.toList_inj, String.toList_ofList, String.toList_append]
        exact congrArg ('?' :: ·) Nat.toList_repr
      rw [text]
      exact named rfl
    · exact .of_none rfl

theorem legible_scanPunct (lx : Lexicon) (c : Char) (cs : List Char) :
    (scanPunct lx c cs).1.Legible := by
  unfold scanPunct
  split <;> (try split) <;> exact .of_none rfl

theorem legible_scan (lx : Lexicon) (n : Nat) (c : Char) (cs : List Char) :
    (scan lx n c cs).1.Legible := by
  have scanned := scanned_scan lx n c cs
  generalize scan lx n c cs = answer at scanned
  cases scanned with
  | comment => exact legible_ofComment _ _
  | marked => exact legible_ofBody _
  | delimited => exact legible_scanDelimited _ _
  | number => exact legible_number _ _
  | name => exact legible_word _
  | host => exact legible_scanHost _ _ _
  | sign => exact legible_scanPunct _ _ _
  | error | delimiter | string | blob | system => exact .of_none rfl

end TokenKind

/-- The keys that the tokens of a text declare are legible. -/
theorem Lexer.legible_tokens {l : Lexer} {spec : ParamSpec}
    (h : spec ∈ l.tokens.filterMap ParamSpec.ofToken?) : spec.key.Legible := by
  obtain ⟨t, member, declares⟩ := List.mem_filterMap.1 h
  have key : t.kind.key? = some spec.key := by rw [← ParamSpec.key?_ofToken?, declares]; rfl
  rcases scanned_of_mem_tokens member with ⟨eof, -⟩ | ⟨n, c, cs, kind, -⟩
  · rw [eof] at key
    cases key
  · exact TokenKind.legible_scan _ _ _ _ _ (kind ▸ key)

/-! ## Names -/

/-- No entry of the list comes twice in the list without its duplicates. -/
theorem nodup_eraseDups {α : Type} [BEq α] [LawfulBEq α] (xs : List α) : xs.eraseDups.Nodup := by
  induction hn : xs.length using Nat.strongRecOn generalizing xs with
  | ind n ih =>
    cases xs with
    | nil => exact List.nodup_nil
    | cons x xs =>
      rw [List.eraseDups_cons]
      have shorter := List.length_filter_le (fun y => !y == x) xs
      refine List.nodup_cons.2 ⟨?_, ih _ ?_ _ rfl⟩
      · simp [List.mem_eraseDups]
      · rw [← hn, List.length_cons]
        omega

/-- Parameters with legible keys are shown under different names. -/
theorem ParamTable.nodup_names {specs : List ParamSpec} (h : ∀ spec ∈ specs, spec.key.Legible) :
    (ofSpecs specs).names.Nodup := by
  have names : (ofSpecs specs).names =
      (specs.map ParamSpec.key).eraseDups.map ParamKey.display := by
    rw [ParamTable.names, specs_ofSpecs, List.map_map]
    rfl
  rw [names]
  refine List.Nodup.map_on (fun k hk k' hk' => ?_) (nodup_eraseDups _)
  have legible {k : ParamKey} (hk : k ∈ (specs.map ParamSpec.key).eraseDups) : k.Legible := by
    obtain ⟨spec, member, rfl⟩ := List.mem_map.1 (List.mem_eraseDups.1 hk)
    exact h spec member
  exact (legible hk).eq_of_display (legible hk')

end BoundSql
