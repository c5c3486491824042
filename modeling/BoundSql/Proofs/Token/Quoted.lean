import BoundSql.Proofs.Token.Spells
import BoundSql.Render.Name
import BoundSql.Tree.Literal

/-!
# Quoted text as words

A text that is written between quotes, the quotes inside it doubled, is one word that means the
text. So is a blob. `Lexer.tokens_literal` says so of their tokens and of whatever follows.
-/

namespace BoundSql

open Text Token

namespace Token

/-- How a character of a text may stand between quotes. -/
inductive Escaped (quote : Char) (escapes : Bool) (c : Char) : List Char → Prop
  | quote (h : c = quote) : Escaped quote escapes c [quote, quote]
  | plain (h : c ≠ quote) (h' : ¬ (escapes && decide (c = '\\')) = true) :
    Escaped quote escapes c [c]
  | backslash (h : c = '\\') (h' : c ≠ quote) (h'' : escapes = true) :
    Escaped quote escapes c ['\\', '\\']

/-- Escaped characters are read as those that they stand for, and what follows as if by itself. -/
theorem quotedBody_escaped {quote : Char} {escapes : Bool} {escape : Char → List Char}
    (hescape : ∀ c, Escaped quote escapes c (escape c)) (text cs : List Char) :
    quotedBody quote escapes (text.flatMap escape ++ cs) =
      (quotedBody quote escapes cs).map fun found =>
        (text ++ found.1, (text.flatMap escape).length + found.2) := by
  induction text with
  | nil => simp
  | cons c text ih =>
    have hc := hescape c
    rw [List.flatMap_cons, List.append_assoc]
    generalize escape c = written at hc
    cases hc with
    | quote h =>
      subst h
      simp [quotedBody, ih, Function.comp_def, Nat.add_right_comm, -List.length_flatMap]
    | plain h h' =>
      rw [List.cons_append, List.nil_append, quotedBody_plain h h', ih]
      simp [Function.comp_def, Nat.add_right_comm, -List.length_flatMap]
    | backslash h h' h'' =>
      subst h h''
      simp [quotedBody, h', ih, unescape, Function.comp_def, Nat.add_right_comm,
        -List.length_flatMap]

/-- A quote that is not doubled is the closing one. -/
theorem quotedBody_closed {quote : Char} {escapes : Bool} {rest : List Char}
    (hrest : rest.head? ≠ some quote) :
    quotedBody quote escapes (quote :: rest) = some ([], 1) := by
  cases rest with
  | nil => simp [quotedBody]
  | cons c rest =>
    have hc : c ≠ quote := by simpa using hrest
    simp [quotedBody, hc]

/-- A doubled quote is meant, and the text goes on behind it. -/
theorem quotedBody_doubled (quote : Char) (escapes : Bool) (rest : List Char) :
    quotedBody quote escapes (quote :: quote :: rest) =
      (quotedBody quote escapes rest).map fun found => (quote :: found.1, found.2 + 2) := by
  simp [quotedBody]

/-- A text with its quotes doubled is read back up to the closing quote. -/
theorem quotedBody_flatMap {quote : Char} {escapes : Bool} {escape : Char → List Char}
    (hescape : ∀ c, Escaped quote escapes c (escape c)) (text : List Char) {rest : List Char}
    (hrest : rest.head? ≠ some quote) :
    quotedBody quote escapes (text.flatMap escape ++ quote :: rest) =
      some (text, (text.flatMap escape).length + 1) := by
  rw [quotedBody_escaped hescape, quotedBody_closed hrest, Option.map_some, List.append_nil]

theorem head?_ne_of_ends {cs : List Char} (h : Ends cs) {k : Char} (hk : isStop k = false) :
    cs.head? ≠ some k := by
  intro hhead
  rw [h k hhead] at hk
  cases hk

end Token

theorem escaped_quoteString (d : Dialect) (c : Char) :
    Escaped '\'' d.backslashEscapes c (quoteString.escape d c) := by
  unfold quoteString.escape
  split
  · exact .quote ‹_›
  · rename_i hc
    split
    · rename_i hb
      simp only [Bool.and_eq_true, decide_eq_true_eq] at hb
      exact .backslash hb.1 hc hb.2
    · rename_i hb
      exact .plain hc (by rwa [Bool.and_comm])

/-- A string literal is its text between quotes, each character escaped. -/
theorem toList_quoteString (d : Dialect) (text : String) : (quoteString d text).toList =
    '\'' :: (text.toList.flatMap (quoteString.escape d) ++ ['\'']) := by
  rw [quoteString, String.toList_ofList]
  rfl

theorem scan_quote (d : Dialect) (n : Nat) (cs : List Char) :
    scan d.lexicon n '\'' cs = scanString d '\'' cs := rfl

/-- A string literal is a token that means its text, unless another quote follows. -/
theorem scan_quoteString (d : Dialect) (n : Nat) (text : String) {rest : List Char}
    (hrest : rest.head? ≠ some '\'') : ∃ body, (quoteString d text).toList = '\'' :: body ∧
      scan d.lexicon n '\'' (body ++ rest) = (.string text, body.length) := by
  have hbody := quotedBody_flatMap (escaped_quoteString d) text.toList hrest
  refine ⟨_, toList_quoteString d text, ?_⟩
  rw [scan_quote, scanString, List.append_assoc, List.singleton_append, hbody]
  simp

/-- In front of another quote the closing quote of a literal is a quote of the text. -/
theorem scan_quoteString_doubled (d : Dialect) (n : Nat) (text : String) (more : List Char) :
    ∃ body, (quoteString d text).toList = '\'' :: body ∧
      (scan d.lexicon n '\'' (body ++ '\'' :: more)).1 ≠ .string text := by
  refine ⟨_, toList_quoteString d text, ?_⟩
  rw [scan_quote, scanString, List.append_assoc, List.singleton_append,
    quotedBody_escaped (escaped_quoteString d), quotedBody_doubled]
  cases quotedBody '\'' d.backslashEscapes more with
  | none => simp
  | some found =>
    intro same
    have longer := congrArg List.length (congrArg String.toList (TokenKind.string.inj same))
    simp at longer

/-- A string literal is one word that means its text. -/
theorem spells_string (d : Dialect) (text : String) :
    Spells d (quoteString d text).toList [⟨.string text, (quoteString d text).toList⟩] := by
  intro rest hrest
  obtain ⟨body, spelled, scanned⟩ :=
    scan_quoteString d 0 text (head?_ne_of_ends hrest (k := '\'') rfl)
  rw [spelled]
  exact Dialect.words_cons rfl (fun more => by simp [commentLead]) rfl scanned (by simp)

theorem escaped_delimited (quote c : Char) :
    Escaped quote false c (if c = quote then [quote, quote] else [c]) := by
  split
  · exact .quote ‹_›
  · exact .plain ‹_› (by simp)

theorem isHexDigit_hexDigit {n : Nat} (h : n < 16) :
    isHexDigit (hexDigit n) = true ∧ hexValue (hexDigit n) = n := by
  revert n
  decide

/-- Pairs of digits stand for the bytes they were made of. -/
theorem hexBytes_hexText (bytes : List UInt8) : hexBytes (hexText bytes) = bytes := by
  induction bytes with
  | nil => rfl
  | cons b bytes ih =>
    have hlt := b.toNat_lt
    have hhigh := (isHexDigit_hexDigit (n := b.toNat / 16) (by omega)).2
    have hlow := (isHexDigit_hexDigit (n := b.toNat % 16) (by omega)).2
    rw [hexText, List.flatMap_cons, List.cons_append, List.cons_append, hexBytes, hhigh, hlow,
      List.nil_append, Nat.div_add_mod, UInt8.ofNat_toNat]
    exact congrArg (b :: ·) ih

theorem isHexDigit_of_mem_hexText {bytes : List UInt8} {c : Char} (h : c ∈ hexText bytes) :
    isHexDigit c := by
  obtain ⟨b, -, hc⟩ := List.mem_flatMap.1 h
  have hlt := b.toNat_lt
  simp only [List.mem_cons, List.not_mem_nil, or_false] at hc
  rcases hc with rfl | rfl
  · exact (isHexDigit_hexDigit (by omega)).1
  · exact (isHexDigit_hexDigit (by omega)).1

theorem length_hexText (bytes : List UInt8) : (hexText bytes).length = 2 * bytes.length := by
  induction bytes with
  | nil => rfl
  | cons b bytes ih =>
    rw [hexText, List.flatMap_cons, List.length_append, ← hexText, ih]
    simp
    omega

/-- A blob literal is a token that means its bytes, whatever follows. -/
theorem scan_quoteBlob (d : Dialect) (n : Nat) (bytes : List UInt8) (rest : List Char) :
    ∃ body, (quoteBlob bytes).toList = 'X' :: body ∧
      scan d.lexicon n 'X' (body ++ rest) = (.blob bytes, body.length) := by
  have hrun : (hexText bytes ++ '\'' :: rest).takeWhile (fun c => isHexDigit c || isBlank c) =
      hexText bytes := by
    rw [List.takeWhile_append_of_pos]
    · simp [show (isHexDigit '\'' || isBlank '\'') = false by decide]
    · intro c hc
      simp [isHexDigit_of_mem_hexText hc]
  have hdigits : (hexText bytes).filter isHexDigit = hexText bytes :=
    List.filter_eq_self.2 fun c hc => isHexDigit_of_mem_hexText hc
  have hdrop : (hexText bytes ++ '\'' :: rest).drop (2 * bytes.length) = '\'' :: rest := by
    rw [← length_hexText, List.drop_left]
  have hscan (cs : List Char) : scan d.lexicon n 'X' ('\'' :: cs) = scanBlob ('\'' :: cs) := rfl
  refine ⟨'\'' :: (hexText bytes ++ ['\'']), by rw [quoteBlob, String.toList_ofList]; rfl, ?_⟩
  rw [List.cons_append, List.append_assoc, List.singleton_append, hscan]
  simp only [scanBlob, List.tail_cons, hrun, hdigits, hdrop, length_hexText, Nat.mul_mod_right,
    if_true, hexBytes_hexText, List.length_cons, List.length_append, List.length_nil]

/-- A blob literal is one word that means its bytes. -/
theorem spells_blob (d : Dialect) (bytes : List UInt8) :
    Spells d (quoteBlob bytes).toList [⟨.blob bytes, (quoteBlob bytes).toList⟩] := by
  intro rest _
  obtain ⟨body, spelled, scanned⟩ := scan_quoteBlob d 0 bytes rest
  rw [spelled]
  exact Dialect.words_cons rfl (fun more => by simp [commentLead]) rfl scanned (by simp)

/-- A literal is one token that means what was written and spans just the literal: a text unless a
quote follows, and bytes whatever follows. What follows is read as it is by itself. -/
theorem Lexer.tokens_literal (d : Dialect) (rest : List Char) (pos : Position) :
    (∀ text : String,
      (ofText d.lexicon ((quoteString d text).toList ++ rest) pos).tokens =
          ⟨.string text, [], (quoteString d text).toList, pos⟩ ::
            (ofText d.lexicon rest (pos.after (quoteString d text).toList)).tokens ↔
        rest.head? ≠ some '\'') ∧
    ∀ bytes : List UInt8,
      (ofText d.lexicon ((quoteBlob bytes).toList ++ rest) pos).tokens =
        ⟨.blob bytes, [], (quoteBlob bytes).toList, pos⟩ ::
          (ofText d.lexicon rest (pos.after (quoteBlob bytes).toList)).tokens := by
  refine ⟨fun text => ⟨fun whole => ?_, fun apart => ?_⟩, fun bytes => ?_⟩
  · intro quote
    obtain ⟨more, rfl⟩ := List.head?_eq_some_iff.1 quote
    obtain ⟨body, spelled, other⟩ := scan_quoteString_doubled d 0 text more
    have ahead : d.lexicon.ahead ('\'' :: (body ++ '\'' :: more)) =
        '\'' :: (body ++ '\'' :: more) :=
      Lexicon.ahead_cons rfl fun _ => by simp [commentLead]
    rw [spelled, List.cons_append, tokens_of_ne_eof (kind_next_ne_eof ahead),
      next_of_ahead_cons ahead] at whole
    exact other (congrArg Token.kind (List.cons.inj whole).1)
  · obtain ⟨body, spelled, scanned⟩ := scan_quoteString d 0 text apart
    rw [spelled]
    refine tokens_of_scan (l := ofText d.lexicon _ pos) rfl rfl (fun _ => ?_) scanned
    simp [commentLead]
  · obtain ⟨body, spelled, scanned⟩ := scan_quoteBlob d 0 bytes rest
    rw [spelled]
    refine tokens_of_scan (l := ofText d.lexicon _ pos) rfl rfl (fun _ => ?_) scanned
    simp [commentLead]

end BoundSql
