import BoundSql.Proofs.Binding.Constant
import BoundSql.Proofs.Grammar.Marking
import BoundSql.Proofs.Render.Gives
import BoundSql.Proofs.Render.Name
import BoundSql.Proofs.Render.Visits

/-!
# Phrases that tell what their tree tells

`Tells m d c p` means that the words of `p`, whatever stands behind them, are worth at least `c`. There
is a rule for each way in which phrases are put together. A `Writing` means so of the leaves of trees.
-/

namespace BoundSql

open Phrase Render RenderContext Token Grammar

variable {N : Type}

/-- A word of this kind takes nothing away from what stands behind it. -/
def Keeps [LE N] (m : List Word → N) (k : TokenKind) : Prop :=
  ∀ w ws, w.kind = k → m ws ≤ m (w :: ws)

/-- The text is a name without delimiters and no keyword that matters next to others. -/
def Text.isQuiet (text : String) : Bool :=
  decide (IsPlainName text.toList) &&
    match Keyword.ofWord? text.toList with
    | some k => decide k.IsOrdinary
    | none => true

/-- A quiet text is a name without delimiters. -/
theorem Text.isPlainName_of_isQuiet {s : String} (h : Text.isQuiet s = true) :
    IsPlainName s.toList :=
  of_decide_eq_true (Bool.and_eq_true _ _ ▸ h).1

/-- The keyword of a kind of join. -/
def JoinKind.keyword : JoinKind → Keyword
  | cross => .CROSS
  | natural => .NATURAL
  | inner => .INNER
  | left => .LEFT
  | right => .RIGHT
  | full => .FULL

theorem JoinKind.name_eq (k : JoinKind) : k.name = k.keyword.spelling := by
  cases k <;> rfl

namespace Phrase

/-- Whatever stands behind it, the phrase is worth at least `c`. -/
def Tells [Add N] [LE N] (m : List Word → N) (d : Dialect) (c : WithTop N) (p : Phrase) : Prop :=
  ∀ n : N, c = ↑n → ∀ ws, n + m ws ≤ m (wordsIn d p ++ ws)

namespace Tells

variable [AddMonoid N] [Preorder N] {m : List Word → N} {d : Dialect} {c c' : WithTop N}
  {p q : Phrase}

theorem nil : Tells m d 0 [] := by
  intro n hn ws
  obtain rfl : 0 = n := WithTop.coe_eq_coe.1 hn
  exact (zero_add _).le

theorem blank (h : Tells m d c p) : Tells m d c (.blank :: p) := h

theorem clause (h : Tells m d c p) : Tells m d c (.clause :: p) := h

/-- A text that takes nothing away. -/
theorem quiet {s : String} (h : ∀ ws, m ws ≤ m (d.words s.toList ++ ws)) :
    Tells m d 0 [.text s] := by
  intro n hn ws
  obtain rfl : 0 = n := WithTop.coe_eq_coe.1 hn
  rw [zero_add, wordsIn_text]
  exact h ws

section

variable [AddLeftMono N]

theorem append (hp : Tells m d c p) (hq : Tells m d c' q) : Tells m d (c + c') (p ++ q) := by
  intro n hn ws
  obtain ⟨a, b, rfl, rfl, rfl⟩ := WithTop.add_eq_coe.1 hn
  rw [add_assoc, wordsIn_append, List.append_assoc]
  exact (add_le_add_right (hq b rfl ws) a).trans (hp a rfl _)

theorem behind (hp : Tells m d 0 p) (hq : Tells m d c q) : Tells m d c (p ++ q) := by
  have both := hp.append hq
  rwa [zero_add] at both

theorem before (hp : Tells m d c p) (hq : Tells m d 0 q) : Tells m d c (p ++ q) := by
  have both := hp.append hq
  rwa [add_zero] at both

/-- Phrases with a phrase between them that takes nothing away. -/
theorem sepBy {α : Type} {glue : Phrase} (hglue : Tells m d 0 glue) {f : α → WithTop N}
    {xs : List α} {ps : List Phrase} (h : List.Forall₂ (fun x p => Tells m d (f x) p) xs ps) :
    Tells m d (xs.map f).sum (sepBy glue ps) := by
  induction h with
  | nil => exact nil
  | @cons x p xs ps hp hps ih =>
    rw [List.map_cons, List.sum_cons]
    cases hps with
    | nil =>
      rw [List.map_nil, List.sum_nil, add_zero]
      exact hp
    | cons _ _ => exact (hp.before hglue).append ih

theorem words {ws : List String} (h : ∀ w ∈ ws, Tells m d 0 [.text w]) :
    Tells m d 0 (Phrase.words ws) := by
  have both : List.Forall₂ (fun w p => Tells m d ((fun _ : String => (0 : WithTop N)) w) p) ws
      (ws.map fun w => [.text w]) := by
    rw [List.forall₂_map_right_iff, List.forall₂_same]
    exact h
  have all := sepBy (nil (m := m) (d := d)).blank both
  rw [List.map_const', List.sum_replicate, nsmul_zero] at all
  exact all

/-- A kind of join, where no keyword takes anything away. -/
theorem words_join (h : ∀ k : Keyword, Tells m d 0 [.text k.spelling]) (k : JoinKind) :
    Tells m d 0 (Phrase.words [k.name, "JOIN"]) := by
  refine words fun w hw => ?_
  rcases List.mem_cons.1 hw with rfl | hw
  · rw [k.name_eq]
    exact h _
  · rw [List.mem_singleton.1 hw]
    exact h .JOIN

theorem clause_words {ws : List String} (h : ∀ w ∈ ws, Tells m d 0 [.text w])
    (hp : Tells m d c p) : Tells m d c (Phrase.clause ws p) :=
  ((words h).behind hp.blank).clause

end

end Tells

end Phrase

/-- What words are worth, and the leaves that they are written for. -/
structure Writing (N : Type) [AddMonoid N] [LE N] (r : RenderContext) extends Weights N where
  marks : List Word → N
  keep_keyword : ∀ k : Keyword, k.IsOrdinary → Keeps marks (.keyword k)
  keep_punct : ∀ p : Punct, p ≠ .dot → p ≠ .doubleColon → Keeps marks (.punct p)
  keep_literal : ∀ k l, literal? k = some l → Keeps marks k
  /-- A name without delimiters. -/
  keep_name : ∀ cs, IsPlainName cs → Keyword.ofWord? cs = none →
    ∀ ws, marks ws ≤ marks (.ofName cs :: ws)
  tells_name : ∀ s, Tells marks r.dialect (name s) [r.name s]
  tells_names : ∀ parts, Tells marks r.dialect (toWeights.names parts) (r.dotted parts)
  tells_wildcard : ∀ t : String, Tells marks r.dialect (wildcard t)
    (r.dotted ((Text.splitAt '.' t.toList).map String.ofList) ++ [.text ".", .text "*"])
  tells_label : ∀ s, Tells marks r.dialect (name s) [.text "AS", .blank, r.name s]
  tells_assigned : ∀ s, Tells marks r.dialect (assigned s) [r.name s]
  tells_collation : ∀ s, Tells marks r.dialect (collation s) [.text s]
  tells_param : ∀ p used text, r.paramText p used = .ok text →
    Tells marks r.dialect (param p) [.text text]
  tells_join : ∀ k : JoinKind, Tells marks r.dialect (join k) (Phrase.words [k.name, "JOIN"])
  /-- The name of a function stands in front of a parenthesis. -/
  function_le : ∀ s (n : N), function s = ↑n → ∀ ws, n + marks (.sign .leftParen "(" :: ws) ≤
    marks (r.dialect.words s.toList ++ .sign .leftParen "(" :: ws)
  exists_le : ∀ (s : String) (n : N), Text.sameWord s.toList "EXISTS".toList → function s = ↑n → n ≤ 0
  /-- A type stands between AS and a parenthesis. -/
  type_le : ∀ t (n : N), type t = ↑n → ∀ ws, n + marks (.sign .rightParen ")" :: ws) ≤
    marks (.key .AS :: (r.dialect.words t.sql.toList ++ .sign .rightParen ")" :: ws))

namespace Writing

variable [AddMonoid N] [Preorder N] {r : RenderContext} (v : Writing N r)

theorem tells_quiet {s : String} (h : Text.isQuiet s = true) :
    Tells v.marks r.dialect 0 [.text s] := by
  obtain ⟨plain, keyword⟩ := Bool.and_eq_true _ _ ▸ h
  have plain := of_decide_eq_true plain
  refine .quiet fun ws => ?_
  rw [(SpellsName.of_isPlainName plain).spells.words_eq]
  cases found : Keyword.ofWord? s.toList with
  | none => exact v.keep_name _ plain found ws
  | some k =>
    rw [found] at keyword
    exact v.keep_keyword k (of_decide_eq_true keyword) _ ws (by simp [Word.ofName, word, found])

/-- A sign that is no point. -/
theorem tells_sign {s : String} {p : Punct} (h : r.dialect.words s.toList = [.sign p s])
    (dot : p ≠ .dot) (colons : p ≠ .doubleColon) : Tells v.marks r.dialect 0 [.text s] :=
  .quiet fun ws => by
    rw [h]
    exact v.keep_punct p dot colons _ ws rfl

theorem tells_leftParen : Tells v.marks r.dialect 0 [.text "("] :=
  v.tells_sign Tidy.words_leftParen (by decide) (by decide)

theorem tells_rightParen : Tells v.marks r.dialect 0 [.text ")"] :=
  v.tells_sign Tidy.words_rightParen (by decide) (by decide)

theorem tells_comma : Tells v.marks r.dialect 0 [.text ","] :=
  v.tells_sign Tidy.words_comma (by decide) (by decide)

theorem tells_minus : Tells v.marks r.dialect 0 [.text "-"] :=
  v.tells_sign Tidy.words_minus (by decide) (by decide)

variable [AddLeftMono N] {c : WithTop N} {p : Phrase}

theorem tells_parens (hp : Tells v.marks r.dialect c p) :
    Tells v.marks r.dialect c (parens p) :=
  v.tells_leftParen.behind (hp.before v.tells_rightParen)

theorem tells_commas {α : Type} {f : α → WithTop N} {xs : List α} {ps : List Phrase}
    (h : List.Forall₂ (fun x p => Tells v.marks r.dialect (f x) p) xs ps) :
    Tells v.marks r.dialect (xs.map f).sum (commas ps) :=
  .sepBy (v.tells_comma.behind Tells.nil.blank) h

/-! ## Literals and operators -/

omit [AddLeftMono N] in
theorem tells_decimal {s : String} (h : IsDecimal s.toList) :
    Tells v.marks r.dialect 0 [.text s] := by
  refine .quiet fun ws => ?_
  rw [h.spells.words_eq]
  have literal : ∃ l, literal? (number s.toList (s.toList.all Char.isDigit)) = some l := by
    obtain ⟨x, hx⟩ := h.ofDigits?
    unfold number
    rw [hx]
    split
    · exact ⟨_, rfl⟩
    · exact ⟨_, rfl⟩
  obtain ⟨l, hl⟩ := literal
  exact v.keep_literal _ l hl _ ws rfl

/-- A minus sign in front of a text that does not begin with one. -/
theorem tells_negative {s : String} (h : Tells v.marks r.dialect 0 [.text s])
    (whole : Whole r.dialect s) (hs : s.toList.head? ≠ some '-') :
    Tells v.marks r.dialect 0 [.text ("-" ++ s)] := by
  have words : wordsIn r.dialect [.text ("-" ++ s)] = wordsIn r.dialect [.text "-", .text s] := by
    have split := (Spells.minus hs whole).words_eq
    simp only [wordsIn_cons, wordsIn_nil, Mark.words, List.append_nil, Tidy.words_minus,
      String.toList_append]
    exact split
  have both := v.tells_minus.behind h
  intro n hn ws
  rw [words]
  exact both n hn ws

end Writing

/-- The text of a double is a name or a decimal, or one of them with a sign. -/
theorem Double.toText_cases (x : Double) : x.toText = "NaN" ∨
    ∃ body, (body = "inf" ∨ IsDecimal body.toList) ∧ (x.toText = body ∨ x.toText = "-" ++ body) := by
  unfold toText
  split
  · exact .inl rfl
  · extract_lets body
    refine .inr ⟨body, ?_, ?_⟩
    · unfold body
      split
      · exact .inl rfl
      · split
        · exact .inr (.whole ⟨by decide, List.all_eq_true.1 (by decide)⟩)
        · exact .inr (isDecimal_positional _ _)
    · split
      · exact .inr rfl
      · exact .inl rfl

/-- A decimal does not begin with a sign. -/
theorem IsDecimal.head?_ne_minus {cs : List Char} (h : IsDecimal cs) : cs.head? ≠ some '-' := by
  obtain ⟨c, hc, hdigit⟩ := h.head?
  rw [hc]
  rintro ⟨⟩
  cases hdigit

namespace Writing

variable [AddMonoid N] [Preorder N] [AddLeftMono N] {r : RenderContext} (v : Writing N r)

theorem tells_toText (x : Double) : Tells v.marks r.dialect 0 [.text x.toText] := by
  rcases x.toText_cases with h | ⟨body, hbody, h⟩
  · rw [h]
    exact v.tells_quiet (by decide)
  · have unsigned : Tells v.marks r.dialect 0 [.text body] ∧ Whole r.dialect body ∧
        body.toList.head? ≠ some '-' := by
      rcases hbody with rfl | decimal
      · exact ⟨v.tells_quiet (by decide), .of_isPlainName (by decide), by decide⟩
      · exact ⟨v.tells_decimal decimal, decimal.spells.whole, decimal.head?_ne_minus⟩
    obtain ⟨told, whole, sign⟩ := unsigned
    rcases h with h | h
    · rw [h]
      exact told
    · rw [h]
      exact v.tells_negative told whole sign

theorem tells_integer (n : Int64) : Tells v.marks r.dialect 0 [.text (toString n.toInt)] := by
  have natural (m : Nat) : IsDecimal (toString (m : Int)).toList := by
    have htext : (toString (m : Int)).toList = Nat.toDigits 10 m := Nat.toList_repr
    rw [htext]
    exact .whole (isDigits_toDigits m)
  cases n.toInt with
  | ofNat m => exact v.tells_decimal (natural m)
  | negSucc m =>
    have htext : toString (Int.negSucc m) = "-" ++ toString ((m + 1 : Nat) : Int) := rfl
    have decimal := natural (m + 1)
    rw [htext]
    exact v.tells_negative (v.tells_decimal decimal) decimal.spells.whole decimal.head?_ne_minus

/-- Whatever a literal is, it takes nothing away. -/
theorem tells_literal (l : Literal) : Tells v.marks r.dialect 0 [.text (l.sql r.dialect)] := by
  have word {s : String} {k : TokenKind} (spells : Spells r.dialect s.toList [⟨k, s.toList⟩])
      (hk : ∃ l, literal? k = some l) : Tells v.marks r.dialect 0 [.text s] := .quiet fun ws => by
    obtain ⟨l, hl⟩ := hk
    rw [spells.words_eq]
    exact v.keep_literal _ l hl _ ws rfl
  cases l with
  | integer n => exact v.tells_integer n
  | float x => exact v.tells_toText x
  | string text => exact word (spells_string _ text) ⟨_, rfl⟩
  | blob bytes => exact word (spells_blob _ bytes) ⟨_, rfl⟩
  | null => exact v.tells_quiet (s := "NULL") (by decide)
  | columnDefault => exact v.tells_quiet (s := "DEFAULT") (by decide)
  | boolean b =>
    have digit {c : Char} (hc : c.isDigit) :
        Tells v.marks r.dialect 0 [.text (String.ofList [c])] := by
      refine v.tells_decimal ?_
      rw [String.toList_ofList]
      exact .whole ⟨by simp, by simpa using hc⟩
    rw [Literal.sql, Dialect.booleanLiteral]
    split
    · cases b
      · exact digit (c := '0') rfl
      · exact digit (c := '1') rfl
    · cases b
      · exact v.tells_quiet (by decide)
      · exact v.tells_quiet (by decide)

omit [AddLeftMono N] in
/-- An operator that the dialect has takes nothing away. -/
theorem tells_operator {op : Operator} (h : op.ReadIn r.dialect) :
    Tells v.marks r.dialect 0 [op.mark] := by
  have key {k : Keyword} (hk : k.IsOrdinary) (ws : List Word) :
      v.marks ws ≤ v.marks (.key k :: ws) := v.keep_keyword k hk _ ws rfl
  have kept (ws : List Word) : v.marks ws ≤ v.marks (op.words ++ ws) := by
    cases op
    case isNull => exact (key (k := .NULL) (by decide) ws).trans (key (by decide) _)
    case notIn => exact (key (k := .IN) (by decide) ws).trans (key (by decide) _)
    case notLike => exact (key (k := .LIKE) (by decide) ws).trans (key (by decide) _)
    case notIlike => exact (key (k := .ILIKE) (by decide) ws).trans (key (by decide) _)
    case similar => exact (key (k := .TO) (by decide) ws).trans (key (by decide) _)
    case isNotNull =>
      exact (key (k := .NULL) (by decide) ws).trans
        ((key (k := .NOT) (by decide) _).trans (key (by decide) _))
    all_goals first
      | exact key (by decide) ws
      | exact v.keep_punct _ (by decide) (by decide) _ ws rfl
  refine .quiet fun ws => ?_
  rw [(spells_operator h).words_eq]
  exact kept ws

end Writing

end BoundSql
