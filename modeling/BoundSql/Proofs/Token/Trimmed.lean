import BoundSql.Proofs.Text.Trimmed
import BoundSql.Proofs.Token.Lexeme

/-!
# Tokens end with no blank

Whatever a scanner reads without an error ends with a character that is no blank: a closing quote or
mark, or a character of a class that has no blanks: `Lexer.trimmed_lexeme`.
-/

namespace BoundSql.Token

open Text

variable {c : Char} {cs : List Char}

/-- A character of a class without breaks is none. -/
theorem BreakFree.isBreak {p : Char → Bool} (hp : BreakFree p) (hc : p c) : isBreak c = false := by
  rw [Bool.eq_false_iff]
  intro stop
  rw [hp c stop] at hc
  cases hc

theorem notLast_takeWhile {p : Char → Bool} (hp : BreakFree p) (cs : List Char) :
    NotLast isBreak (cs.takeWhile p) :=
  notLast_of_forall fun c hc => hp.isBreak (List.all_eq_true.1 List.all_takeWhile c hc)

theorem take_length_takeWhile (p : Char → Bool) (cs : List Char) :
    cs.take (cs.takeWhile p).length = cs.takeWhile p :=
  (List.prefix_iff_eq_take.1 (List.takeWhile_prefix p)).symm

/-- A quoted text ends with its quote. -/
theorem getLast?_quotedBody {quote : Char} {escapes : Bool} {text : List Char} {n : Nat}
    (h : quotedBody quote escapes cs = some (text, n)) : (cs.take n).getLast? = some quote := by
  fun_induction quotedBody quote escapes cs generalizing text n with
  | case1 => cases h
  | case2 =>
    cases h
    rfl
  | case3 ds ih =>
    obtain ⟨⟨text, k⟩, hbody, h⟩ := Option.map_eq_some_iff.1 h
    cases h
    simp [List.getLast?_cons, ih hbody]
  | case4 =>
    cases h
    rfl
  | case5 => cases h
  | case6 c _ _ d ds ih =>
    obtain ⟨⟨text, k⟩, hbody, h⟩ := Option.map_eq_some_iff.1 h
    cases h
    simp [List.getLast?_cons, ih hbody]
  | case7 c ds _ _ ih =>
    obtain ⟨⟨text, k⟩, hbody, h⟩ := Option.map_eq_some_iff.1 h
    cases h
    simp [List.getLast?_cons, ih hbody]

/-- The answer of a scanner behind one character, if it is no error, ends with no break. -/
def Solid (cs : List Char) (answer : TokenKind × Nat) : Prop :=
  (∀ e, answer.1 ≠ .error e) → NotLast isBreak (cs.take answer.2)

theorem Solid.ite {p : Prop} [Decidable p] {a b : TokenKind × Nat} (h : p → Solid cs a)
    (h' : ¬ p → Solid cs b) : Solid cs (if p then a else b) := by
  by_cases hp : p
  · simpa only [if_pos hp] using h hp
  · simpa only [if_neg hp] using h' hp

theorem notLast_ite {p : Prop} [Decidable p] {a b : TokenKind × Nat}
    (ha : NotLast isBreak (cs.take a.2)) (hb : NotLast isBreak (cs.take b.2)) :
    NotLast isBreak (cs.take (if p then a else b).2) := by
  split <;> assumption

theorem solid_scanString (d : Dialect) {quote : Char} (hq : isBreak quote = false)
    (cs : List Char) : Solid cs (scanString d quote cs) := by
  intro sound
  unfold scanString at sound ⊢
  split
  · rename_i text n body
    exact notLast_of_getLast? hq (getLast?_quotedBody body)
  · rename_i body
    rw [body] at sound
    exact absurd rfl (sound _)

theorem solid_scanDelimited {quote : Char} (hq : isBreak quote = false) (cs : List Char) :
    Solid cs (scanDelimited quote cs) := by
  intro sound
  unfold scanDelimited at sound ⊢
  split
  · rename_i text n body
    exact notLast_of_getLast? hq (getLast?_quotedBody body)
  · rename_i body
    rw [body] at sound
    exact absurd rfl (sound _)

theorem solid_scanBlob (cs : List Char) : Solid cs (scanBlob cs) := by
  intro sound
  cases cs with
  | nil => exact absurd rfl (sound _)
  | cons c cs =>
    unfold scanBlob at sound ⊢
    simp only [List.tail_cons] at sound ⊢
    generalize hp : (fun c => isHexDigit c || isBlank c) = p at sound ⊢
    cases hdrop : cs.drop (cs.takeWhile p).length with
    | nil => simp [hdrop] at sound
    | cons d ds =>
      by_cases hd : d = '\''
      · subst hd
        have spelled : cs = cs.takeWhile p ++ '\'' :: ds := by
          rw [← hdrop, ← take_length_takeWhile, List.length_take_of_le, List.take_append_drop]
          exact length_takeWhile_le p cs
        have last : ((c :: cs).take ((cs.takeWhile p).length + 2)).getLast? = some '\'' := by
          generalize cs.takeWhile p = body at spelled ⊢
          rw [spelled, List.take_succ_cons, List.take_length_add_append]
          simp [List.getLast?_cons]
        have closed : NotLast isBreak ((c :: cs).take ((cs.takeWhile p).length + 2)) :=
          notLast_of_getLast? (by decide) last
        exact notLast_ite closed closed
      · simp [hdrop, hd] at sound

theorem notLast_fractionOf (cs : List Char) : NotLast isBreak (fractionOf cs) := by
  unfold fractionOf
  split
  · split
    · exact (notLast_takeWhile breakFree_isDigit _).cons (by decide)
    · exact notLast_nil
  · exact notLast_nil

theorem notLast_exponentOf (cs : List Char) : NotLast isBreak (exponentOf cs) := by
  unfold exponentOf
  split
  · rename_i e d ds
    have digits := notLast_takeWhile breakFree_isDigit
    split
    · exact notLast_nil
    · rename_i he
      have hblank : isBreak e = false := by
        simp only [Bool.and_eq_true, bne_iff_ne, not_and, Decidable.not_not] at he
        by_cases h : e = 'e'
        · rw [h]
          decide
        · rw [he h]
          decide
      split
      · rename_i hd
        have dblank : isBreak d = false := by
          simp only [Bool.or_eq_true, beq_iff_eq] at hd
          rcases hd with rfl | rfl <;> decide
        exact ((digits ds).cons dblank).cons hblank
      · split
        · exact (digits (d :: ds)).cons hblank
        · exact notLast_nil
  · exact notLast_nil

theorem prefix_fractionOf (cs : List Char) : fractionOf cs <+: cs := by
  unfold fractionOf
  split
  · split
    · exact (List.prefix_cons_inj _).2 (List.takeWhile_prefix _)
    · exact List.nil_prefix
  · exact List.nil_prefix

theorem exponentOf_prefix (cs : List Char) : exponentOf cs <+: cs := by
  unfold exponentOf
  split
  · rename_i e d ds
    have digits (cs : List Char) : cs.takeWhile Char.isDigit <+: cs := List.takeWhile_prefix _
    split
    · exact List.nil_prefix
    · split
      · exact (List.prefix_cons_inj _).2 ((List.prefix_cons_inj _).2 (digits ds))
      · split
        · exact (List.prefix_cons_inj _).2 (digits (d :: ds))
        · exact List.nil_prefix
  · exact List.nil_prefix

/-- A text that opens with two parts in a row opens with them together. -/
theorem prefix_append {a b cs : List Char} (ha : a <+: cs) (hb : b <+: cs.drop a.length) :
    a ++ b <+: cs := by
  obtain ⟨rest, rfl⟩ := ha
  rw [List.drop_left] at hb
  exact (List.prefix_append_right_inj a).2 hb

/-- What a beginning of a text does not end with, it does not end with behind its first
character. -/
theorem notLast_take_of_prefix {lexeme : List Char} (h : lexeme <+: c :: cs)
    (last : NotLast isBreak lexeme) : NotLast isBreak (cs.take (lexeme.length - 1)) := by
  cases lexeme with
  | nil => exact notLast_nil
  | cons d ds =>
    obtain ⟨rfl, hds⟩ := List.cons_prefix_cons.1 h
    have rest : cs.take ds.length = ds := (List.prefix_iff_eq_take.1 hds).symm
    rw [List.length_cons, Nat.add_sub_cancel, rest]
    intro x hx
    exact last x (by simp [List.getLast?_cons, hx])

theorem solid_scanNumber (c : Char) (cs : List Char) : Solid cs (scanNumber (c :: cs)) := by
  intro _
  refine notLast_take_of_prefix (prefix_append (prefix_append (List.takeWhile_prefix _)
    (prefix_fractionOf _)) ?_) (NotLast.append (NotLast.append
      (notLast_takeWhile breakFree_isDigit _) (notLast_fractionOf _)) (notLast_exponentOf _))
  rw [List.length_append, ← List.drop_drop]
  exact exponentOf_prefix _

/-- What is found stands where it is found. -/
theorem opens_of_find? {part : List Char} {n : Nat} (h : find? part cs = some n) :
    opens part (cs.drop n) := by
  induction cs generalizing n with
  | nil =>
    unfold find? at h
    split at h
    · rename_i empty
      rw [List.isEmpty_iff.1 empty]
      rfl
    · cases h
  | cons c cs ih =>
    unfold find? at h
    split at h
    · cases h
      assumption
    · obtain ⟨m, hm, rfl⟩ := Option.map_eq_some_iff.1 h
      exact ih hm

theorem solid_scanDollar? {answer : TokenKind × Nat} (h : scanDollar? cs = some answer) :
    Solid cs answer := by
  intro sound
  obtain ⟨name, body, -, spelled, -, ⟨n, found, rfl⟩ | rfl⟩ := scanDollar?_eq_some h
  · obtain ⟨behind, hbehind⟩ := opens_iff.1 (opens_of_find? found)
    have tag : body.take (n + ('$' :: name ++ ['$']).length) =
        body.take n ++ ('$' :: name ++ ['$']) := by
      rw [List.take_add, hbehind, List.take_left]
    have size : n + 2 * name.length + 3 =
        name.length + (n + ('$' :: name ++ ['$']).length + 1) := by
      simp only [List.length_append, List.length_cons, List.length_nil]
      omega
    refine notLast_of_getLast? (k := '$') (by decide) ?_
    have lexeme : name ++ '$' :: (body.take n ++ ('$' :: name ++ ['$'])) =
        (name ++ '$' :: (body.take n ++ '$' :: name)) ++ ['$'] := by simp
    rw [size, spelled, List.take_length_add_append, List.take_succ_cons, tag, lexeme]
    exact List.getLast?_concat
  · exact absurd rfl (sound _)

theorem solid_scanName (lx : Lexicon) (c : Char) (cs : List Char) :
    Solid cs (scanName lx c cs) :=
  fun _ => notLast_of_forall fun _ hx => breakFree_isNameChar.isBreak (isNameChar_of_mem_take hx)

theorem solid_scanSystem (cs : List Char) (h : cs.head? = some '@') : Solid cs (scanSystem cs) := by
  intro _
  obtain ⟨tail, rfl⟩ := List.head?_eq_some_iff.1 h
  have name := notLast_takeWhile (breakFree_isWordChar.or (k := '.') (by decide)) tail
  rw [scanSystem, List.tail_cons, List.take_succ_cons, take_length_takeWhile]
  exact name.cons (by decide)

theorem solid_scanHost (n : Nat) (sign : Char) (cs : List Char) :
    Solid cs (scanHost n sign cs) := by
  intro _
  unfold scanHost
  extract_lets name
  have trimmed : NotLast isBreak (cs.take name.length) := by
    simp only [name]
    split
    · rw [take_length_takeWhile]
      exact notLast_takeWhile breakFree_isDigit cs
    · split
      · exact notLast_nil
      · rw [take_length_takeWhile]
        exact notLast_takeWhile breakFree_isWordChar cs
  split
  · exact trimmed
  · split <;> exact notLast_nil

/-- An operator ends with no blank. -/
theorem trimmed_scanPunct (lx : Lexicon) (c : Char) (cs : List Char) :
    Trimmed (cs.take (scanPunct lx c cs).2) := by
  unfold scanPunct
  have one {k : Char} (hk : isBlank k = false) (tail : List Char) :
      Trimmed ((k :: tail).take 1) := notLast_concat hk []
  split
  all_goals first
    | exact notLast_nil
    | exact one (by decide) _
    | (split <;> first
        | exact notLast_nil
        | exact one (by decide) _
        | exact notLast_of_getLast? (k := '*') (by decide) rfl)

theorem notLast_bodyOf (cs : List Char) : NotLast isBreak (Placeholder.bodyOf cs) := by
  unfold Placeholder.bodyOf
  split
  · split
    · rename_i hsign
      refine (notLast_takeWhile breakFree_isBodyChar _).cons ?_
      simp only [Bool.or_eq_true, beq_iff_eq] at hsign
      rcases hsign with rfl | rfl <;> decide
    · exact notLast_takeWhile breakFree_isBodyChar _
  · exact notLast_nil

theorem prefix_bodyOf (cs : List Char) : Placeholder.bodyOf cs <+: cs := by
  unfold Placeholder.bodyOf
  split
  · split
    · exact (List.prefix_cons_inj _).2 (List.takeWhile_prefix _)
    · exact List.takeWhile_prefix _
  · exact List.nil_prefix

theorem solid_placeholder (cs : List Char) : Solid cs (Placeholder.scan cs) := by
  intro sound
  unfold Placeholder.scan at sound ⊢
  dsimp only at sound ⊢
  generalize (cs.takeWhile fun c => c == ' ' || c == '\t').length = blanks at sound ⊢
  split
  · rename_i inner opening
    cases body : commentBody 0 inner with
    | none => simp [opening, body] at sound
    | some found =>
      obtain ⟨content, n⟩ := found
      have last : (cs.take (blanks + 2 + n)).getLast? = some '/' := by
        rw [Nat.add_assoc, List.take_add, opening]
        simp [Nat.add_comm 2 n, List.getLast?_cons, getLast?_commentBody body]
      exact notLast_of_getLast? (by decide) last
  · have spelled : cs.take (Placeholder.bodyOf cs).length = Placeholder.bodyOf cs :=
      (List.prefix_iff_eq_take.1 (prefix_bodyOf cs)).symm
    change NotLast isBreak (cs.take (Placeholder.bodyOf cs).length)
    rw [spelled]
    exact notLast_bodyOf cs

theorem solid_scanPlain (lx : Lexicon) (n : Nat) (c : Char) (cs : List Char) :
    Solid cs (scanPlain lx n c cs) ∨ scanPlain lx n c cs = scanPunct lx c cs := by
  unfold scanPlain
  split
  · exact .inl (solid_scanName lx c cs)
  · split
    · rename_i hsystem
      simp only [Bool.and_eq_true, decide_eq_true_eq, beq_iff_eq] at hsystem
      exact .inl (solid_scanSystem cs hsystem.2)
    · split
      · exact .inl (solid_scanHost n c cs)
      · exact .inr rfl

theorem solid_commentLead {hash : Bool} {content : List Char} {more : Nat}
    (h : commentLead hash (c :: cs) = .placeholder content more) : NotLast isBreak (cs.take more) := by
  generalize ht : c :: cs = text at h
  fun_cases commentLead hash text
  case case3 inner content' n body placeholder =>
    cases ht
    simp only [commentLead, body, placeholder, if_true, CommentLead.placeholder.injEq] at h
    obtain ⟨-, rfl⟩ := h
    refine notLast_of_getLast? (k := '/') (by decide) ?_
    simp [List.getLast?_cons, getLast?_commentBody body]
  case case6 line single =>
    cases ht
    rw [commentLead, if_neg single] at h
    cases h
  all_goals simp_all [commentLead]

/-- What is read behind no comment ends with no break, unless it is an operator. -/
theorem solid_scan {lx : Lexicon} (hlx : lx.delimiter = []) (n : Nat)
    (hgap : ∀ more, commentLead lx.dialect.hashComments (c :: cs) ≠ .comment more) :
    Solid cs (scan lx n c cs) ∨ scan lx n c cs = scanPunct lx c cs := by
  have hat (cs : List Char) : lx.atDelimiter cs = false := by simp [Lexicon.atDelimiter, hlx]
  unfold scan
  cases hlead : commentLead lx.dialect.hashComments (c :: cs) with
  | unterminated => exact .inl fun sound => absurd rfl (sound _)
  | comment more => exact absurd hlead (hgap more)
  | placeholder content more => exact .inl fun _ => solid_commentLead hlead
  | none =>
    simp only [hat, Bool.false_eq_true, if_false]
    split
    · rename_i hmark
      simp only [Bool.and_eq_true, decide_eq_true_eq, beq_iff_eq] at hmark
      obtain ⟨tail, rfl⟩ := List.head?_eq_some_iff.1 hmark.2
      refine .inl fun sound => ?_
      have body := solid_placeholder tail sound
      exact body.cons (by decide)
    split
    · exact .inl (solid_scanString _ (by decide) cs)
    split
    · refine .inl (Solid.ite (fun _ => solid_scanString _ (by decide) cs) fun _ => ?_)
      exact solid_scanDelimited (by decide) cs
    split
    · exact .inl (solid_scanDelimited (by decide) cs)
    split
    · exact .inl (solid_scanBlob cs)
    split
    · exact .inl (solid_scanNumber c cs)
    split
    · rename_i answer dollar
      split at dollar
      · exact .inl (solid_scanDollar? dollar)
      · cases dollar
    · exact solid_scanPlain lx n c cs

/-- What is read behind no comment ends with no blank. -/
theorem trimmed_scan {lx : Lexicon} (hlx : lx.delimiter = []) {n : Nat}
    (hgap : ∀ more, commentLead lx.dialect.hashComments (c :: cs) ≠ .comment more)
    (sound : ∀ e, (scan lx n c cs).1 ≠ .error e) : Trimmed (cs.take (scan lx n c cs).2) := by
  rcases solid_scan hlx n hgap with solid | punct
  · exact (solid sound).mono fun c blank => isBreak_of_isStop (isStop_of_isBlank blank)
  · rw [punct]
    exact trimmed_scanPunct lx c cs

end BoundSql.Token

namespace BoundSql

open Text Token

namespace Lexer

variable {l : Lexer} {c : Char} {cs : List Char} {t : Token}

theorem trimmed_next (hlx : l.lexicon.delimiter = []) (sound : ∀ e, l.next.1.kind ≠ .error e) :
    Trimmed l.next.1.lexeme := by
  cases ahead : l.ahead with
  | nil =>
    rw [next, ahead]
    exact notLast_nil
  | cons c cs =>
    rw [next_of_ahead_cons ahead] at sound ⊢
    exact (trimmed_scan hlx (Lexicon.commentLead_ahead ahead) sound).cons (isBlank_of_ahead ahead)

/-- The characters of a token that is no error end with no blank. -/
theorem trimmed_lexeme (hlx : l.lexicon.delimiter = []) (ht : t ∈ l.tokens)
    (sound : ∀ e, t.kind ≠ .error e) : Trimmed t.lexeme := by
  induction hn : l.rest.length using Nat.strongRecOn generalizing l with
  | ind n ih =>
    by_cases kind : l.next.1.kind = .eof
    · rw [tokens_of_eof kind, List.mem_singleton] at ht
      rw [ht] at sound ⊢
      exact trimmed_next hlx sound
    · rw [tokens_of_ne_eof kind] at ht
      rcases List.mem_cons.1 ht with rfl | member
      · exact trimmed_next hlx sound
      · exact ih _ (hn ▸ length_rest_next_lt kind) (by rw [lexicon_next, hlx]) member rfl

/-- A row of tokens without the end of the input ends with no blank. -/
theorem trimmed_sources {ts : List Token} (hlx : l.lexicon.delimiter = [])
    (member : ∀ t ∈ ts, t ∈ l.tokens) (sound : ∀ t ∈ ts, t.kind ≠ .eof ∧ ∀ e, t.kind ≠ .error e) :
    Trimmed (ts.flatMap source) := by
  induction ts with
  | nil => exact notLast_nil
  | cons t ts ih =>
    obtain ⟨kind, noError⟩ := sound t List.mem_cons_self
    have first := member t List.mem_cons_self
    have filled : t.lexeme ≠ [] := by
      rcases scanned_of_mem_tokens first with ⟨eof, -⟩ | ⟨n, c, cs, -, lexeme⟩
      · exact absurd eof kind
      · rw [lexeme]
        exact List.cons_ne_nil _ _
    exact ((trimmed_lexeme hlx first noError).append_of_ne_nil filled t.gap).append
      (ih (fun u hu => member u (List.mem_cons_of_mem t hu))
        fun u hu => sound u (List.mem_cons_of_mem t hu))

/-- Blanks at the end of a text belong to the gap in front of the end of the input. -/
theorem tokens_trimEnd {ts : List Token} {last : Token} (hlx : l.lexicon.delimiter = [])
    (h : l.tokens = ts ++ [last]) (sound : ∀ t ∈ ts, ∀ e, t.kind ≠ .error e) :
    trimEnd l.rest = ts.flatMap source ++ trimEnd last.gap ∧ ∃ pos,
      (l.onto (trimEnd l.rest)).tokens =
        ts ++ [{ kind := .eof, gap := trimEnd last.gap, lexeme := [], pos }] := by
  obtain ⟨front, final, hfront, eof, empty, inner⟩ := l.tiles.ends
  obtain ⟨rfl, hlast⟩ := List.append_inj' (h.symm.trans hfront) rfl
  obtain rfl : last = final := List.singleton_inj.1 hlast
  have solid (t : Token) (ht : t ∈ ts) : t.kind ≠ .eof ∧ ∀ e, t.kind ≠ .error e :=
    ⟨(inner t ht).1, sound t ht⟩
  have member (t : Token) (ht : t ∈ ts) : t ∈ l.tokens := by
    rw [h]
    exact List.mem_append_left _ ht
  have text : l.rest = ts.flatMap source ++ last.gap := by
    rw [← l.flatMap_source_tokens, h]
    simp [source, empty]
  have cut : trimEnd l.rest = ts.flatMap source ++ trimEnd last.gap := by
    rw [text, trimEnd_append (trimmed_sources hlx member solid)]
  obtain ⟨b, blank, gap⟩ := exists_blanks last.gap
  have front := tokens_onto_front hlx h solid (ends_of_terminator hlx h (.inl eof)).breaks gap blank
  rw [cut]
  exact ⟨rfl, _, front⟩

end Lexer

end BoundSql
