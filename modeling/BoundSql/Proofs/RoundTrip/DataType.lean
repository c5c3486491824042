import BoundSql.Proofs.Grammar.Expression
import BoundSql.Proofs.Grammar.Sources
import BoundSql.Proofs.Token.Lexeme

/-!
# Types read back

The text of a type is a name with numbers in parentheses behind it. It is read back as the type, and
the numbers are those the type was built from, unless a DECIMAL or NUMERIC was given a number of more
than 16 bits: `DataType.ofParts_read`.
-/

namespace BoundSql

open Text Token Parse Grammar

/-- The integer that a word means, if it means one. -/
def Word.integer? (w : Word) : Option Int :=
  match w.kind with
  | .integer n => some n.toInt
  | _ => none

theorem Text.ofList_upper (s : String) : String.ofList (upper s.toList) = s.toUpper := by
  rw [String.toUpper, ← String.toList_inj, String.toList_ofList, String.toList_map]
  rfl

/-- A letter that is a capital in upper case is an ASCII letter. -/
theorem isNameStart_of_isUpper_toUpper {c : Char} (h : c.toUpper.isUpper) : isNameStart c := by
  have range : 65 ≤ c.toNat ∧ c.toNat ≤ 90 ∨ 97 ≤ c.toNat ∧ c.toNat ≤ 122 := by
    unfold Char.toUpper at h
    split at h
    · rename_i lower
      exact .inr ⟨UInt32.le_iff_toNat_le.1 lower.1, UInt32.le_iff_toNat_le.1 lower.2⟩
    · have bounds : (65 : UInt32) ≤ c.val ∧ c.val ≤ 90 := of_decide_eq_true h
      exact .inl bounds
  have letter : (c.isUpper || c.isLower) = true := by
    rw [Bool.or_eq_true]
    exact range.imp decide_eq_true
      fun lower => Bool.and_eq_true_iff.2 ⟨decide_eq_true lower.1, decide_eq_true lower.2⟩
  have ascii : c.toNat < asciiLimit := by
    unfold asciiLimit
    omega
  simp [isNameStart, isAlphabetic_of_isAlpha letter ascii]

namespace DataType

variable {d : Dialect} {v w : Word} {ws : List Word} {name : String}

/-! ## The words of a type -/

theorem toInt_ofInt_argument (n : UInt32) : (Int64.ofInt n.toNat).toInt = n.toNat := by
  have := n.toNat_lt
  exact Int64.toInt_ofInt_of_le (by omega) (by omega)

/-- The word of an argument. -/
def argumentWord (n : UInt32) : Word :=
  ⟨.integer (Int64.ofInt n.toNat), (toString n.toNat).toList⟩

theorem integer?_argumentWord (n : UInt32) : (argumentWord n).integer? = some (n.toNat : Int) :=
  congrArg some (toInt_ofInt_argument n)

theorem integer?_sign (p : Punct) (s : String) : (Word.sign p s).integer? = none := rfl

/-- The words of arguments with commas between them. -/
def argumentWords : List UInt32 → List Word
  | [] => []
  | [n] => [argumentWord n]
  | n :: m :: ns => argumentWord n :: .sign .comma "," :: argumentWords (m :: ns)

/-- The words of arguments in parentheses, if there are any. -/
def listWords : List UInt32 → List Word
  | [] => []
  | n :: ns => .sign .leftParen "(" :: argumentWords (n :: ns) ++ [.sign .rightParen ")"]

theorem spells_argument (n : UInt32) : Spells d (toString n.toNat).toList [argumentWord n] := by
  have natural : (0 : Int) ≤ (Int64.ofInt n.toNat).toInt := by
    rw [toInt_ofInt_argument]
    exact Int.natCast_nonneg _
  have spells := spells_integer (d := d) natural
  rwa [toInt_ofInt_argument] at spells

theorem spells_arguments (n : UInt32) (ns : List UInt32) :
    Spells d (String.intercalate ", " ((n :: ns).map fun n => toString n.toNat)).toList
      (argumentWords (n :: ns)) := by
  induction ns generalizing n with
  | nil =>
    rw [List.map_singleton, String.intercalate_singleton]
    exact spells_argument n
  | cons m ns ih =>
    have comma : ", ".toList = [',', ' '] := rfl
    have others := ((ih m).blank (c := ' ') rfl).comma
    rw [List.map_cons, List.map_cons, String.intercalate_cons_cons, String.toList_append,
      String.toList_append, comma, List.append_assoc]
    exact (spells_argument n).append others (ends_cons rfl _)

/-- A type is written as the words of its name and those of its arguments. -/
theorem spells_withArgs (h : Spells d name.toList ws) (args : List UInt32) :
    Spells d (withArgs name args).toList (ws ++ listWords args) := by
  cases args with
  | nil => simpa [withArgs, listWords] using h
  | cons n ns =>
    have left : "(".toList = ['('] := rfl
    have right : ")".toList = [')'] := rfl
    have inside := (spells_arguments (d := d) n ns).append Spells.nil.rightParen (ends_cons rfl _)
    rw [withArgs, if_neg (by simp), String.toList_append, String.toList_append,
      String.toList_append, left, right, List.append_assoc, List.append_assoc]
    exact h.append inside.leftParen (ends_cons rfl _)

theorem integers_argumentWords (n : UInt32) (ns : List UInt32) :
    (argumentWords (n :: ns)).filterMap Word.integer? =
      (n :: ns).map fun n => (n.toNat : Int) := by
  induction ns generalizing n with
  | nil => rw [argumentWords, List.filterMap_cons_some (integer?_argumentWord n)]; rfl
  | cons m ns ih =>
    rw [argumentWords, List.filterMap_cons_some (integer?_argumentWord n),
      List.filterMap_cons_none (integer?_sign _ _), ih m]
    rfl

/-- The numbers in parentheses are the arguments. -/
theorem integers_listWords (args : List UInt32) :
    (listWords args).filterMap Word.integer? = args.map fun n => (n.toNat : Int) := by
  cases args with
  | nil => rfl
  | cons n ns =>
    rw [listWords, List.cons_append, List.filterMap_cons_none (integer?_sign _ _),
      List.filterMap_append, integers_argumentWords, List.filterMap_cons_none (integer?_sign _ _),
      List.filterMap_nil, List.append_nil]

/-! ## Reading a type -/

theorem takes_argument (n : UInt32) : Takes typeArgument [argumentWord n] n w := by
  have fits : fitsUnsigned 32 (Int64.ofInt n.toNat).toInt = true := by
    have := n.toNat_lt
    rw [toInt_ofInt_argument]
    simp [fitsUnsigned]
    omega
  intro rest
  refine reads_kind.bind ?_
  dsimp only [argumentWord]
  rw [if_pos fits]
  refine (reads_advance (by simp)).bind ?_
  rw [toInt_ofInt_argument, Int.toNat_natCast, UInt32.ofNat_toNat]
  exact reads_pure _

theorem takes_arguments (n : UInt32) (ns : List UInt32) :
    TakesCommas typeArgument w (argumentWords (n :: ns)) (n :: ns) := by
  induction ns generalizing n with
  | nil => exact .one (takes_argument n)
  | cons m ns ih => exact .cons rfl (takes_argument n) (ih m)

/-- The words of the second word of a name. -/
def secondWords : Option String → List Word
  | none => []
  | some s => [⟨.identifier s, s.toList⟩]

theorem reads_firstTypeWord (hv : isNameKind v.kind) (hne : ws ≠ []) :
    Reads firstTypeWord (v :: ws) v.text ws := by
  refine reads_current fun t ht => ?_
  subst ht
  rw [Token.toWord_kind] at hv
  cases kind : t.kind with
  | identifier _ | keyword _ => exact (reads_advance hne).bind (reads_pure _)
  | _ =>
    rw [kind] at hv
    cases hv

/-- A word behind a type that does not belong to it. -/
def EndsType (w : Word) : Prop := (∀ s, w.kind ≠ .identifier s) ∧ w.kind ≠ .punct .leftParen

/-- Without a second word, the name ends in front of any word that is no identifier. -/
theorem reads_secondTypeWord_none (hw : ∀ s, w.kind ≠ .identifier s) :
    Reads secondTypeWord (w :: ws) none (w :: ws) := by
  refine reads_kind.bind ?_
  split
  · exact absurd ‹_› (hw _)
  · exact reads_pure _

theorem reads_secondTypeWord_some {s : String} {lexeme : List Char} (hs : IsSecond s) (hne : ws ≠ []) :
    Reads secondTypeWord (⟨.identifier s, lexeme⟩ :: ws) (some s) ws := by
  have known : (s.toUpper == "PRECISION" || s.toUpper == "VARYING") = true := by simpa [IsSecond] using hs
  refine reads_kind.bind ?_
  dsimp only
  rw [if_pos known]
  exact (reads_advance hne).bind (reads_pure _)

/-- The words of a type are read as the type. -/
theorem takes_dataType {second : Option String} (hv : isNameKind v.kind)
    (hsecond : ∀ s ∈ second, IsSecond s) (args : List UInt32) (hw : EndsType w) :
    Takes dataType (v :: secondWords second ++ listWords args)
      (.ofParts (fullName v.text second) args) w := by
  intro rest
  have behind : Reads (do
      if ← isAt (.punct .leftParen) then
        return .ofParts (fullName v.text second) (← parenthesized (commaSep typeArgument))
      else return .ofParts (fullName v.text second) [])
      (listWords args ++ w :: rest) (DataType.ofParts (fullName v.text second) args) (w :: rest) := by
    cases args with
    | nil =>
      refine (reads_isAt _).bind ?_
      rw [beq_eq_false_iff_ne.2 hw.2]
      exact reads_pure _
    | cons n ns =>
      have inside : Takes (commaSep typeArgument) (argumentWords (n :: ns)) (n :: ns)
          (.sign .rightParen ")") := (takes_arguments n ns).takes (by simp [Word.sign])
      have list := inside.parenthesized (show (Word.sign .leftParen "(").kind = _ from rfl) rfl
      refine (reads_isAt _).bind ?_
      exact (list w rest).bind (reads_pure _)
  have notName : ∀ u us, listWords args ++ w :: rest = u :: us → ∀ s, u.kind ≠ .identifier s := by
    cases args with
    | nil =>
      rintro u us ⟨⟩
      exact hw.1
    | cons n ns =>
      rintro u us ⟨⟩ s
      simp [Word.sign]
  obtain ⟨u, us, hus⟩ : ∃ u us, listWords args ++ w :: rest = u :: us :=
    List.exists_cons_of_ne_nil (by simp)
  cases second with
  | none =>
    have first : Reads firstTypeWord (v :: u :: us) v.text (u :: us) :=
      reads_firstTypeWord hv (by simp)
    rw [hus] at behind
    simp only [secondWords, List.cons_append, List.nil_append, hus]
    exact first.bind ((reads_secondTypeWord_none (notName u us hus)).bind behind)
  | some s =>
    simp only [secondWords, List.cons_append, List.nil_append]
    refine (reads_firstTypeWord hv (by simp)).bind ?_
    exact (reads_secondTypeWord_some (hsecond s rfl) (by simp)).bind behind

/-- The second word of a name is one identifier. -/
theorem spells_isSecond {s : String} (hs : IsSecond s) :
    Spells d s.toList [⟨.identifier s, s.toList⟩] := by
  have capitals : ∀ c ∈ s.toUpper.toList, c.isUpper := by
    rcases hs with hs | hs <;> rw [hs] <;> decide
  have unknown : Keyword.ofWord? s.toList = none := by
    rw [Keyword.ofWord?, ofList_upper]
    rcases hs with hs | hs <;> rw [hs] <;> decide +kernel
  have letters : ∀ c ∈ s.toList, isNameStart c := fun c hc =>
    isNameStart_of_isUpper_toUpper (capitals c.toUpper (by
      rw [String.toUpper, String.toList_map]
      exact List.mem_map_of_mem hc))
  have plain : IsPlainName s.toList := by
    cases hcs : s.toList with
    | nil =>
      rw [String.toList_eq_nil_iff.1 hcs] at hs
      exact absurd hs (by unfold IsSecond; decide +kernel)
    | cons c cs =>
      rw [hcs] at letters
      refine ⟨letters c List.mem_cons_self, fun x hx => ?_⟩
      have start := letters x (List.mem_cons_of_mem _ hx)
      simp only [isNameStart, Bool.or_eq_true] at start
      rcases start with letter | line <;> simp_all [isNameChar, isWordChar, isAlphanumeric]
  have spells := (SpellsName.of_isPlainName (d := d) plain).spells
  rwa [Word.ofName, Token.word, unknown, String.ofList_toList] at spells

/-- The words of the name of a type. -/
theorem spells_fullName {second : Option String} (hv : Spells d v.lexeme [v])
    (hsecond : ∀ s ∈ second, IsSecond s) :
    Spells d (fullName v.text second).toList (v :: secondWords second) := by
  cases second with
  | none => rwa [fullName, Word.text, String.toList_ofList]
  | some s =>
    have blank : " ".toList = [' '] := rfl
    have behind := (spells_isSecond (d := d) (hsecond s rfl)).blank (c := ' ') rfl
    rw [fullName, String.toList_append, String.toList_append, blank, Word.text, String.toList_ofList,
      List.append_assoc]
    exact hv.append behind (ends_cons rfl _)

/-! ## The type that is read back -/

/-- The arguments are few or fit in 16 bits where a precision and scale are kept. -/
def Keeps (name : String) (args : List UInt32) : Prop :=
  name.toUpper = "DECIMAL" ∨ name.toUpper = "NUMERIC" → args.length ≤ 2 →
    ∀ n ∈ args, fitsUnsigned 16 n.toNat

theorem keeps_nil (name : String) : Keeps name [] := fun _ _ _ h => by cases h

theorem keeps_of_ne {args : List UInt32} (decimal : name.toUpper ≠ "DECIMAL")
    (numeric : name.toUpper ≠ "NUMERIC") : Keeps name args :=
  fun narrow => (narrow.elim decimal numeric).elim

/-- The type is written as a title without delimiters and some numbers. These are the arguments if
those are kept, and the title then means the type. -/
def IsTitled (name : String) (args : List UInt32) (t : DataType) : Prop :=
  ∃ title kept, t.sql = withArgs title kept ∧ IsPlainName title.toList ∧
    (kept = args ↔ Keeps name args) ∧ (Keeps name args → ofParts title args = t)

variable {args : List UInt32} {t : DataType}

theorem ofParts_of_known? {title : String} (upper : title.toUpper = title)
    (known : known? title args = some t) : ofParts title args = t := by
  rw [ofParts, upper, known]
  rfl

/-- A type that keeps any arguments. -/
theorem IsTitled.of_keeps {title : String} (keeps : Keeps name args)
    (sql : t.sql = withArgs title args) (plain : IsPlainName title.toList)
    (upper : title.toUpper = title) (known : known? title args = some t) : IsTitled name args t :=
  ⟨title, args, sql, plain, iff_of_true rfl keeps, fun _ => ofParts_of_known? upper known⟩

theorem withLength_eq (title : String) (n : UInt32) :
    withLength title (some n) = withArgs title [n] := by
  rw [withArgs, if_neg (by simp), List.map_singleton, String.intercalate_singleton]
  rfl

/-- A number is narrowed to itself or not at all. -/
theorem narrow_cases (n : UInt32) :
    fitsUnsigned 16 n.toNat ∧ (∃ m, narrow n = some m ∧ m.toNat = n.toNat) ∨
      ¬ fitsUnsigned 16 n.toNat ∧ narrow n = none := by
  unfold narrow
  split
  · rename_i fits
    refine .inl ⟨fits, _, rfl, ?_⟩
    have small : (n.toNat : Int) < 65536 := by simpa [fitsUnsigned] using fits
    exact Nat.mod_eq_of_lt (by omega)
  · exact .inr ⟨‹_›, rfl⟩

theorem exists_sized (title : String) (n : UInt32) : ∃ kept,
    sized title (narrow n) none = withArgs title kept ∧ (kept = [n] ↔ fitsUnsigned 16 n.toNat) := by
  rcases narrow_cases n with ⟨fits, m, narrowed, same⟩ | ⟨wide, narrowed⟩
  · refine ⟨[n], ?_, iff_of_true rfl fits⟩
    rw [narrowed, ← withLength_eq, sized, same]
    rfl
  · exact ⟨[], by rw [narrowed]; rfl, iff_of_false (by simp) wide⟩

theorem exists_sized_scale (title : String) (n m : UInt32) : ∃ kept,
    sized title (narrow n) (narrow m) = withArgs title kept ∧
      (kept = [n, m] ↔ fitsUnsigned 16 n.toNat ∧ fitsUnsigned 16 m.toNat) := by
  rcases narrow_cases n with ⟨fits, p, narrowed, same⟩ | ⟨wide, narrowed⟩
  · rcases narrow_cases m with ⟨fits', s, narrowed', same'⟩ | ⟨wide, narrowed'⟩
    · refine ⟨[n, m], ?_, iff_of_true rfl ⟨fits, fits'⟩⟩
      rw [narrowed, narrowed', sized, same, same', withArgs, if_neg (by simp)]
      simp [String.append_assoc]
      rfl
    · refine ⟨[n], ?_, iff_of_false (by simp) fun h => wide h.2⟩
      rw [narrowed, narrowed', ← withLength_eq, sized, same]
      rfl
  · exact ⟨[], by rw [narrowed]; rfl, iff_of_false (by simp) fun h => wide h.1⟩

theorem keeps_iff (narrows : name.toUpper = "DECIMAL" ∨ name.toUpper = "NUMERIC")
    (few : args.length ≤ 2) : Keeps name args ↔ ∀ n ∈ args, fitsUnsigned 16 n.toNat :=
  ⟨fun keeps => keeps narrows few, fun all _ _ => all⟩

section Narrowing

variable {title : String} {n m : UInt32}
  (narrows : name.toUpper = "DECIMAL" ∨ name.toUpper = "NUMERIC")
  (plain : IsPlainName title.toList) (upper : title.toUpper = title)

include narrows plain upper

theorem isTitled_precision (sql : t.sql = sized title (narrow n) none)
    (known : known? title [n] = some t) : IsTitled name [n] t := by
  obtain ⟨kept, text, fits⟩ := exists_sized title n
  refine ⟨title, kept, sql.trans text, plain, ?_, fun _ => ofParts_of_known? upper known⟩
  rw [fits, keeps_iff narrows (by simp), List.forall_mem_singleton]

theorem isTitled_scale (sql : t.sql = sized title (narrow n) (narrow m))
    (known : known? title [n, m] = some t) : IsTitled name [n, m] t := by
  obtain ⟨kept, text, fits⟩ := exists_sized_scale title n m
  refine ⟨title, kept, sql.trans text, plain, ?_, fun _ => ofParts_of_known? upper known⟩
  rw [fits, keeps_iff narrows (by simp), List.forall_mem_cons, List.forall_mem_singleton]

end Narrowing

/-- A type that has no arguments. -/
theorem isTitled_of_plain? (h : plain? name.toUpper = some t) : IsTitled name [] t := by
  have keeps := keeps_nil name
  unfold plain? at h
  split at h <;> cases h
  all_goals exact .of_keeps keeps rfl (by decide +kernel) (by decide +kernel) rfl

/-- A type whose name and arguments are known. -/
theorem isTitled_of_known? (h : known? name.toUpper args = some t) : IsTitled name args t := by
  have plain : IsPlainName "DECIMAL".toList ∧ IsPlainName "NUMERIC".toList ∧
      IsPlainName "CHAR".toList ∧ IsPlainName "VARCHAR".toList := by decide +kernel
  have upper : "DECIMAL".toUpper = "DECIMAL" ∧ "NUMERIC".toUpper = "NUMERIC" ∧
      "CHAR".toUpper = "CHAR" ∧ "VARCHAR".toUpper = "VARCHAR" := by decide +kernel
  have any {s : String} (same : name.toUpper = s) (other : s ≠ "DECIMAL" ∧ s ≠ "NUMERIC")
      (args : List UInt32) : Keeps name args :=
    keeps_of_ne (by rw [same]; exact other.1) (by rw [same]; exact other.2)
  unfold known? at h
  split at h
  case h_13 => exact isTitled_of_plain? h
  all_goals cases h
  case h_1 => exact .of_keeps (keeps_nil _) rfl plain.1 upper.1 rfl
  case h_2 same => exact isTitled_precision (.inl same) plain.1 upper.1 rfl rfl
  case h_3 same => exact isTitled_scale (.inl same) plain.1 upper.1 rfl rfl
  case h_4 => exact .of_keeps (keeps_nil _) rfl plain.2.1 upper.2.1 rfl
  case h_5 same => exact isTitled_precision (.inr same) plain.2.1 upper.2.1 rfl rfl
  case h_6 same => exact isTitled_scale (.inr same) plain.2.1 upper.2.1 rfl rfl
  case h_7 => exact .of_keeps (keeps_nil _) rfl plain.2.2.1 upper.2.2.1 rfl
  case h_8 same =>
    exact .of_keeps (any same (by decide) _) (withLength_eq _ _) plain.2.2.1 upper.2.2.1 rfl
  case h_9 | h_10 => exact .of_keeps (keeps_nil _) rfl plain.2.2.2 upper.2.2.2 rfl
  case h_11 same | h_12 same =>
    exact .of_keeps (any same (by decide) _) (withLength_eq _ _) plain.2.2.2 upper.2.2.2 rfl

/-- A type that is not known keeps its name and all its arguments. -/
theorem keeps_of_unknown (h : known? name.toUpper args = none) : Keeps name args := by
  rintro narrows few
  match args, few with
  | [], _ | [_], _ | [_, _], _ => rcases narrows with same | same <;> rw [same] at h <;> cases h

/-- How a type is written: by its own name or by a title without delimiters, which means the same,
and with the arguments that it keeps. -/
theorem exists_sql_ofParts (name : String) (args : List UInt32) : ∃ title kept,
    (ofParts name args).sql = withArgs title kept ∧ (title = name ∨ IsPlainName title.toList) ∧
      (kept = args ↔ Keeps name args) ∧
        (Keeps name args → ofParts title args = ofParts name args) := by
  cases known : known? name.toUpper args with
  | none =>
    refine ⟨name, args, ?_, .inl rfl, iff_of_true rfl (keeps_of_unknown known), fun _ => rfl⟩
    rw [ofParts, known]
    rfl
  | some t =>
    obtain ⟨title, kept, sql, plain, keeps, same⟩ := isTitled_of_known? known
    have built : ofParts name args = t := by
      rw [ofParts, known]
      rfl
    rw [built]
    exact ⟨title, kept, sql, .inr plain, keeps, same⟩

/-- The text is read to its end, as this type. -/
def IsReadFrom (d : Dialect) (text : List Char) (t : DataType) : Prop :=
  ∃ c : Cursor, dataType.run (Cursor.ofTokens (Lexer.ofText d.lexicon text).tokens) = .ok (t, c) ∧
    c.current.kind = .eof ∧ c.following = []

theorem IsReadFrom.of_takes {text : List Char} (spells : Spells d text ws)
    (h : Takes dataType ws t Word.eof) : t.IsReadFrom d text := by
  have start := Cursor.words_ofText d text
  rw [spells.words_eq] at start
  obtain ⟨c, read, stop⟩ := h [] _ start
  injection stop with current following
  exact ⟨c, read, congrArg Word.kind current, List.map_eq_nil_iff.1 following⟩

theorem integer?_of_isNameKind (hv : isNameKind v.kind) : v.integer? = none := by
  unfold Word.integer?
  split
  · rename_i n kind
    rw [kind] at hv
    cases hv
  · rfl

/-- A title consists of the words of some name of a type. -/
theorem exists_titleWords {title : String} (plain : IsPlainName title.toList) :
    ∃ v : Word, isNameKind v.kind ∧ v.text = title ∧ Spells d v.lexeme [v] := by
  refine ⟨.ofName title.toList, ?_, String.ofList_toList, (SpellsName.of_isPlainName plain).spells⟩
  dsimp only [Word.ofName, Token.word]
  split <;> rfl

theorem integers_map_injective {args kept : List UInt32} :
    kept.map (fun n => (n.toNat : Int)) = args.map (fun n => (n.toNat : Int)) ↔ kept = args := by
  refine List.map_inj_right fun n m same => ?_
  exact UInt32.toNat_inj.1 (Int.ofNat_inj.1 same)

/-- A type is built from a name that was read in some text, perhaps with a second word, and from
numbers. If these are kept, then the text of the type is read as the type in the dialect of the
name. The numbers in the text are these just if they are kept. -/
theorem ofParts_read {l : Lexer} {t : Token} (ht : t ∈ l.tokens) (hname : isNameKind t.kind)
    {second : Option String} (hsecond : ∀ s ∈ second, IsSecond s) (args : List UInt32) :
    let d := l.lexicon.dialect
    let name := fullName t.text second
    let type := ofParts name args
    (Keeps name args → type.IsReadFrom d type.sql.toList) ∧
      ((d.words type.sql.toList).filterMap Word.integer? = args.map (fun n => (n.toNat : Int)) ↔
        Keeps name args) := by
  intro d name type
  obtain ⟨title, kept, sql, title_eq, keeps, same⟩ := exists_sql_ofParts name args
  obtain ⟨v, s, hv, hs, full, spelled⟩ : ∃ (v : Word) (s : Option String), isNameKind v.kind ∧
      (∀ x ∈ s, IsSecond x) ∧ fullName v.text s = title ∧ Spells d v.lexeme [v] := by
    rcases title_eq with rfl | plain
    · have lawful := Lexer.lawful_of_mem_tokens rfl ht
      exact ⟨t.toWord, second, hname, hsecond, rfl, lawful.spells hname⟩
    · obtain ⟨v, hv, text, spelled⟩ := exists_titleWords (d := d) plain
      exact ⟨v, none, hv, by simp, text, spelled⟩
  have spells : Spells d type.sql.toList (v :: secondWords s ++ listWords kept) := by
    rw [sql, ← full]
    exact spells_withArgs (spells_fullName spelled hs) kept
  refine ⟨fun h => .of_takes spells ?_, ?_⟩
  · have taken := takes_dataType (w := .eof) hv hs kept ⟨by simp [Word.eof], by simp [Word.eof]⟩
    rw [keeps.2 h] at taken ⊢
    rwa [full, same h] at taken
  · have names : (v :: secondWords s).filterMap Word.integer? = [] := by
      rw [List.filterMap_cons_none (integer?_of_isNameKind hv)]
      cases s <;> rfl
    rw [spells.words_eq, List.filterMap_append, names, integers_listWords, List.nil_append,
      integers_map_injective]
    exact keeps

/-- `numeric` with 10 and 2 is written as `NUMERIC(10, 2)`, and read back with both numbers. -/
theorem ofParts_read_numeric :
    (numeric (some 10) (some 2)).IsReadFrom .standard "NUMERIC(10, 2)".toList ∧
      (Dialect.standard.words "NUMERIC(10, 2)".toList).filterMap Word.integer? = [10, 2] := by
  have first : (Lexer.ofText Dialect.standard.lexicon "numeric".toList).next.1.kind =
      .keyword .NUMERIC := by decide +kernel
  have text : (Lexer.ofText Dialect.standard.lexicon "numeric".toList).next.1.text = "numeric" := by
    decide +kernel
  have member : (Lexer.ofText Dialect.standard.lexicon "numeric".toList).next.1 ∈
      (Lexer.ofText Dialect.standard.lexicon "numeric".toList).tokens := by
    rw [Lexer.tokens]
    dsimp only
    split <;> exact List.mem_cons_self
  have keeps : Keeps "numeric" [10, 2] := fun _ _ => by
    simp [fitsUnsigned]
  have type : ofParts "numeric" [10, 2] = numeric (some 10) (some 2) := by decide +kernel
  have sql : (numeric (some 10) (some 2)).sql = "NUMERIC(10, 2)" := by decide +kernel
  have alone : ∀ s ∈ (none : Option String), IsSecond s := by simp
  obtain ⟨read, numbers⟩ := ofParts_read member (by rw [first]; rfl) alone [10, 2]
  rw [text, fullName, type, sql] at read numbers
  exact ⟨read keeps, numbers.2 keeps⟩

end DataType

end BoundSql
