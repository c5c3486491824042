import BoundSql.Proofs.Token.Name
import BoundSql.Tree.Statement

/-!
# Fixed texts as words

Keywords, operators and the other texts that do not depend on a statement, and the words they are.
-/

namespace BoundSql

open Text Token

/-- The text spells some words. -/
def Whole (d : Dialect) (s : String) : Prop := Spells d s.toList (d.words s.toList)

theorem Spells.whole {d : Dialect} {s : String} {ws : List Word} (h : Spells d s.toList ws) :
    Whole d s := by
  rw [Whole, h.words_eq]
  exact h

/-- A name without delimiters spells one word. -/
theorem Whole.of_isPlainName {d : Dialect} {s : String} (h : IsPlainName s.toList) : Whole d s :=
  (SpellsName.of_isPlainName h).spells.whole

/-- A token that makes up a whole text. -/
theorem spells_token {d : Dialect} {c : Char} {cs : List Char} {kind : TokenKind}
    (hblank : isBlank c = false)
    (hlead : ∀ more, commentLead d.hashComments (c :: cs) ≠ .comment more)
    (hscan : scan d.lexicon 0 c cs = (kind, cs.length)) (hsound : ∀ e, kind ≠ .error e)
    (hbare : c :: cs ≠ ['?']) : Spells d (c :: cs) [⟨kind, c :: cs⟩] := by
  intro rest hrest
  have hs : ∀ e, (scan d.lexicon 0 c cs).1 ≠ .error e := by
    rw [hscan]
    exact hsound
  have hopen : commentLead d.hashComments (c :: cs) ≠ .unterminated := by
    intro h
    simp [scan, h] at hs
  rw [List.cons_append]
  refine Dialect.words_cons hblank (fun more => ?_) rfl ?_ hbare
  · rw [commentLead_append hrest.breaks hopen hlead]
    exact hlead more
  · exact (scan_append rfl hrest hlead hs).1.trans hscan

theorem spells_sign {d : Dialect} (c : Char) (cs : List Char) {p : Punct}
    (hscan : scan d.lexicon 0 c cs = (.punct p, cs.length))
    (hlead : commentLead d.hashComments (c :: cs) = .none) (hblank : isBlank c = false)
    (hbare : c ≠ '?') : Spells d (c :: cs) [⟨.punct p, c :: cs⟩] :=
  spells_token hblank (by simp [hlead]) hscan (by simp) (by simp [hbare])

namespace Word

/-- A keyword in its upper case spelling. -/
def key (k : Keyword) : Word := ⟨.keyword k, k.spelling.toList⟩

/-- A sign. -/
def sign (p : Punct) (text : String) : Word := ⟨.punct p, text.toList⟩

end Word

theorem Keyword.ofWord?_spelling_all :
    (Keyword.all.all fun k => Keyword.ofWord? k.spelling.toList == some k) = true := by
  decide +kernel

theorem Keyword.mem_all (k : Keyword) : k ∈ Keyword.all := by
  cases k <;> decide

/-- The spelling of a keyword is read as this keyword. -/
theorem Keyword.word_spelling (k : Keyword) : word k.spelling.toList = .keyword k := by
  have h := List.all_eq_true.1 Keyword.ofWord?_spelling_all k k.mem_all
  rw [beq_iff_eq] at h
  rw [word, h]

theorem Keyword.isPlainName_spelling (k : Keyword) : IsPlainName k.spelling.toList := by
  have h : (Keyword.all.all fun k => decide (IsPlainName k.spelling.toList)) = true := by decide +kernel
  exact of_decide_eq_true (List.all_eq_true.1 h k k.mem_all)

/-- A keyword is one word. -/
theorem spells_keyword (d : Dialect) (k : Keyword) : Spells d k.spelling.toList [.key k] := by
  have h := (SpellsName.of_isPlainName (d := d) k.isPlainName_spelling).spells
  rwa [Word.ofName, k.word_spelling] at h

/-- Keywords with blanks between them. -/
theorem spells_keywords (d : Dialect) {cs : List Char} {ws : List Word} (k : Keyword)
    (h : Spells d cs ws) : Spells d (k.spelling.toList ++ ' ' :: cs) (.key k :: ws) :=
  (spells_keyword d k).append (h.blank rfl) (ends_cons rfl _)

namespace Operator

/-- The words of an operator. -/
def words : Operator → List Word
  | and => [.key .AND]
  | or => [.key .OR]
  | not => [.key .NOT]
  | eq => [.sign .eq "="]
  | diff => [.sign .notEq "!="]
  | lt => [.sign .lt "<"]
  | leq => [.sign .ltEq "<="]
  | gt => [.sign .gt ">"]
  | geq => [.sign .gtEq ">="]
  | is => [.key .IS]
  | isNull => [.key .IS, .key .NULL]
  | isNotNull => [.key .IS, .key .NOT, .key .NULL]
  | isIn => [.key .IN]
  | notIn => [.key .NOT, .key .IN]
  | like => [.key .LIKE]
  | notLike => [.key .NOT, .key .LIKE]
  | ilike => [.key .ILIKE]
  | notIlike => [.key .NOT, .key .ILIKE]
  | similar => [.key .SIMILAR, .key .TO]
  | between => [.key .BETWEEN]
  | regexp => [.sign .regexp "~"]
  | regexpCi => [.sign .regexpCi "~*"]
  | notRegexp => [.sign .notRegexp "!~"]
  | notRegexpCi => [.sign .notRegexpCi "!~*"]
  | concat => [.sign .concat "||"]
  | plus => [.sign .plus "+"]
  | minus => [.sign .minus "-"]
  | star => [.sign .star "*"]
  | div => [.sign .slash "/"]
  | rem => [.sign .percent "%"]
  | bitAnd => [.sign .bitAnd "&"]
  | bitOr => [.sign .bitOr "|"]
  | bitNot => [.sign .bitNot "~"]
  | leftShift => [.sign .leftShift "<<"]
  | rightShift => [.sign .rightShift ">>"]

/-- The dialect reads the operator as it is written: a tilde either matches or negates bits. -/
def ReadIn (op : Operator) (d : Dialect) : Prop :=
  (op.isRegexp → d.regexpOperators) ∧ (op = bitNot → d.regexpOperators = false)

/-- An operator that is written with no tilde is read in every dialect. -/
theorem ReadIn.of_plain {op : Operator} (noMatch : op.isRegexp = false) (noTilde : op ≠ bitNot)
    (d : Dialect) : op.ReadIn d :=
  ⟨fun isMatch => absurd isMatch (by simp [noMatch]), fun tilde => absurd tilde noTilde⟩

end Operator

theorem spells_operator {d : Dialect} {op : Operator} (h : op.ReadIn d) :
    Spells d op.sql.toList op.words := by
  cases op
  case and => exact spells_keyword d .AND
  case or => exact spells_keyword d .OR
  case not => exact spells_keyword d .NOT
  case is => exact spells_keyword d .IS
  case isIn => exact spells_keyword d .IN
  case like => exact spells_keyword d .LIKE
  case ilike => exact spells_keyword d .ILIKE
  case between => exact spells_keyword d .BETWEEN
  case isNull => exact spells_keywords d .IS (spells_keyword d .NULL)
  case isNotNull => exact spells_keywords d .IS (spells_keywords d .NOT (spells_keyword d .NULL))
  case notIn => exact spells_keywords d .NOT (spells_keyword d .IN)
  case notLike => exact spells_keywords d .NOT (spells_keyword d .LIKE)
  case notIlike => exact spells_keywords d .NOT (spells_keyword d .ILIKE)
  case similar => exact spells_keywords d .SIMILAR (spells_keyword d .TO)
  case eq => exact spells_sign '=' [] rfl rfl rfl (by decide)
  case diff => exact spells_sign '!' ['='] rfl rfl rfl (by decide)
  case lt => exact spells_sign '<' [] rfl rfl rfl (by decide)
  case leq => exact spells_sign '<' ['='] rfl rfl rfl (by decide)
  case gt => exact spells_sign '>' [] rfl rfl rfl (by decide)
  case geq => exact spells_sign '>' ['='] rfl rfl rfl (by decide)
  case concat => exact spells_sign '|' ['|'] rfl rfl rfl (by decide)
  case plus => exact spells_sign '+' [] rfl rfl rfl (by decide)
  case minus => exact spells_sign '-' [] rfl rfl rfl (by decide)
  case star => exact spells_sign '*' [] rfl rfl rfl (by decide)
  case div => exact spells_sign '/' [] rfl rfl rfl (by decide)
  case rem => exact spells_sign '%' [] rfl rfl rfl (by decide)
  case bitAnd => exact spells_sign '&' [] rfl rfl rfl (by decide)
  case bitOr => exact spells_sign '|' [] rfl rfl rfl (by decide)
  case leftShift => exact spells_sign '<' ['<'] rfl rfl rfl (by decide)
  case rightShift => exact spells_sign '>' ['>'] rfl rfl rfl (by decide)
  case bitNot =>
    have hd := h.2 rfl
    cases d with
    | postgresql => cases hd
    | _ => exact spells_sign '~' [] rfl rfl rfl (by decide)
  case regexp =>
    have hd := h.1 rfl
    cases d with
    | postgresql => exact spells_sign '~' [] rfl rfl rfl (by decide)
    | _ => cases hd
  case regexpCi =>
    have hd := h.1 rfl
    cases d with
    | postgresql => exact spells_sign '~' ['*'] rfl rfl rfl (by decide)
    | _ => cases hd
  case notRegexp =>
    have hd := h.1 rfl
    cases d with
    | postgresql => exact spells_sign '!' ['~'] rfl rfl rfl (by decide)
    | _ => cases hd
  case notRegexpCi =>
    have hd := h.1 rfl
    cases d with
    | postgresql => exact spells_sign '!' ['~', '*'] rfl rfl rfl (by decide)
    | _ => cases hd

end BoundSql
