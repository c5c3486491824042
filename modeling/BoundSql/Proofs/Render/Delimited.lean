import BoundSql.Proofs.Render.Rendered
import BoundSql.Proofs.Tree.Order

/-!
# Delimited names stay delimited

A name between delimiters is written between the delimiters of the dialect, with the same characters
inside. `Parsed.delimitedNames_render` says so of all such names of a statement at once, in order. A
function, a collation, a type, and a name with qualifiers in front of `.*` or behind SET are kept as
one text, whose delimiters are left as they are or taken for part of the name: nothing is said about
statements with delimiters in such a text. Nor is anything said about the name behind BEGIN, which
only some dialects write.
-/

namespace BoundSql

open Phrase Token

/-! ## Delimiters -/

namespace Dialect

theorem undoubled_flatMap (quote : Char) (cs : List Char) :
    undoubled quote (cs.flatMap fun c => if c = quote then [quote, quote] else [c]) = cs := by
  induction cs with
  | nil => rfl
  | cons c cs ih =>
    rw [List.flatMap_cons]
    by_cases h : c = quote
    · subst h
      simp [undoubled, ih]
    · rw [if_neg h, List.singleton_append]
      cases rest : cs.flatMap fun c => if c = quote then [quote, quote] else [c] with
      | nil =>
        rw [rest] at ih
        rw [undoubled.eq_def, ← ih]
        rfl
      | cons d ds =>
        rw [rest] at ih
        simp [undoubled, h, ih]

/-- Inside the delimiters stands the name. -/
theorem bareName?_delimited {quote : Char} (h : quote = '"' ∨ quote = '\x60') (cs : List Char) :
    bareName? (delimited quote cs) = some cs := by
  have inside : stripped? quote (delimited quote cs) = some cs := by
    have tail : (delimited quote cs).tail.dropLast =
        cs.flatMap fun c => if c = quote then [quote, quote] else [c] := by
      simp [delimited]
    have closed : between quote (delimited quote cs) = true := by
      simp [between, delimited, List.getLast?_cons]
    rw [stripped?, if_pos closed, tail, undoubled_flatMap]
  rcases h with rfl | rfl
  · rw [bareName?, inside]
    rfl
  · have other : stripped? '"' (delimited '\x60' cs) = none := by
      simp [stripped?, between, delimited]
    rw [bareName?, inside, other]
    rfl

end Dialect

/-- Whether one of the delimiters of names stands in the text. -/
def Text.hasQuote (s : String) : Bool := s.toList.any fun c => c = '"' || c = '\x60'

theorem Text.hasQuote_append (s t : String) :
    Text.hasQuote (s ++ t) = (Text.hasQuote s || Text.hasQuote t) := by
  simp [hasQuote]

/-- In upper case, delimiters stay what they are. -/
theorem Text.hasQuote_of_toUpper {s : String} (h : Text.hasQuote s.toUpper = false) :
    Text.hasQuote s = false := by
  refine List.any_eq_false.2 fun c hc quote => ?_
  have upper : c.toUpper ∈ s.toUpper.toList := by
    rw [String.toUpper, String.toList_map]
    exact List.mem_map_of_mem hc
  have free := List.any_eq_false.1 h _ upper
  simp only [Bool.or_eq_true, decide_eq_true_eq] at quote
  rcases quote with rfl | rfl <;> exact free rfl

theorem Text.bareName?_eq_none {s : String} (h : Text.hasQuote s = false) :
    Dialect.bareName? s.toList = none := by
  have other {quote : Char} (hq : quote = '"' ∨ quote = '\x60') :
      Dialect.stripped? quote s.toList = none := by
    unfold Dialect.stripped? Dialect.between
    rw [if_neg]
    simp only [Bool.and_eq_true, not_and]
    rintro ⟨-, first⟩
    have inside := List.mem_of_head? (beq_iff_eq.1 first)
    have free := List.any_eq_false.1 h quote inside
    rcases hq with rfl | rfl <;> simp at free
  rw [Dialect.bareName?, other (.inl rfl), other (.inr rfl)]
  rfl

theorem Text.mem_intercalate {c : Char} {s sep : String} {parts : List String} (hs : s ∈ parts)
    (hc : c ∈ s.toList) : c ∈ (String.intercalate sep parts).toList := by
  rw [String.toList_intercalate]
  induction parts with
  | nil => cases hs
  | cons part parts ih =>
    cases parts with
    | nil =>
      rw [List.mem_singleton] at hs
      subst hs
      simpa using hc
    | cons next parts =>
      rw [List.map_cons, List.map_cons, List.intercalate_cons_cons, List.mem_append]
      rcases List.mem_cons.1 hs with rfl | hs
      · exact .inl (List.mem_append_left _ hc)
      · exact .inr (ih hs)

/-! ## Words -/

/-- The name inside the delimiters of a word that is an identifier. -/
def Word.delimitedName? (w : Word) : Option (List Char) :=
  if w.kind = .identifier w.text then Dialect.bareName? w.lexeme else none

/-- The names of the delimited identifiers among words, in order. -/
def Word.delimitedNames (ws : List Word) : Kept (List Char) := ws.filterMap delimitedName?

namespace Word

theorem delimitedName?_eq_none {w : Word} (h : ∀ s, w.kind ≠ .identifier s) :
    w.delimitedName? = none := if_neg (h _)

theorem delimitedNames_cons_of_none {w : Word} (h : w.delimitedName? = none) (ws : List Word) :
    delimitedNames (w :: ws) = delimitedNames ws := List.filterMap_cons_none h

theorem delimitedNames_cons (w : Word) (ws : List Word) : delimitedNames (w :: ws) =
    Kept.ofOption w.delimitedName? + delimitedNames ws := by
  cases h : w.delimitedName? with
  | none => exact delimitedNames_cons_of_none h ws
  | some name => exact List.filterMap_cons_some h

theorem delimitedNames_append (ws vs : List Word) :
    delimitedNames (ws ++ vs) = delimitedNames ws + delimitedNames vs := List.filterMap_append

/-- A word that is called so is worth the name inside its delimiters, if there are any. -/
theorem Calls.delimitedName? {behindPoint : Bool} {w : Word} {s : String} (h : w.Calls behindPoint s) :
    w.delimitedName? = none ∨ w.delimitedName? = Dialect.bareName? s.toList := by
  cases h with
  | identifier kind =>
    unfold Word.delimitedName?
    split
    · rename_i same
      rw [kind] at same
      cases same
      exact .inr (by rw [Word.text, String.toList_ofList])
    · exact .inl rfl
  | keyword kind _ => exact .inl (delimitedName?_eq_none (by simp [kind]))

end Word

/-- A name that is written between delimiters is a single word, which is an identifier. -/
theorem RenderContext.words_delimited {r : RenderContext} {s : String} {name : List Char}
    (h : r.dialect.writeName r.quoting s =
      String.ofList (Dialect.delimited r.dialect.identifierQuote name)) :
    ∃ w, wordsIn r.dialect [r.name s] = [w] ∧ w.kind = .identifier w.text ∧
      ∃ quote, (quote = '"' ∨ quote = '\x60') ∧ w.lexeme = Dialect.delimited quote name := by
  have hquote : r.dialect.identifierQuote = '"' ∨ r.dialect.identifierQuote = '\x60' :=
    r.dialect.identifierQuote_cases.imp And.left And.left
  refine ⟨.ofName (Dialect.delimited r.dialect.identifierQuote name), ?_, ?_, _, hquote, rfl⟩
  · rw [wordsIn_name, h, String.toList_ofList]
    exact (spellsName_delimited r.dialect.identifierQuote_cases name).spells.words_eq
  · rcases hquote with h | h <;> rw [h]
    · exact word_quote _
    · exact word_backtick _

/-! ## Names in trees -/

namespace Delimiters

/-- The name inside the delimiters of a part of a name. -/
def part (s : String) : Kept (List Char) := .ofOption (Dialect.bareName? s.toList)

/-- Delimiters somewhere in a text that is written as it is. -/
noncomputable def verbatim (s : String) : WithTop (Kept (List Char)) :=
  if Text.hasQuote s then ⊤ else 0

/-- Delimiters in a text that can be several parts of a name with points between them. -/
noncomputable def qualified (s : String) : WithTop (Kept (List Char)) :=
  if '.' ∈ s.toList ∧ Text.hasQuote s then ⊤ else ↑(part s)

/-- Delimiters in the name of a type. -/
noncomputable def type : DataType → WithTop (Kept (List Char))
  | .custom name => verbatim name
  | _ => 0

/-- The names inside the delimiters in a tree. -/
noncomputable def weights : Weights (Kept (List Char)) where
  name s := ↑(part s)
  function := verbatim
  wildcard := qualified
  assigned := qualified
  collation := verbatim
  type := type
  param _ := 0
  join _ := 0

theorem part_eq_zero {s : String} (h : Text.hasQuote s = false) : part s = 0 := by
  rw [part, Text.bareName?_eq_none h, Kept.ofOption_none]

theorem zero_le (x : WithTop (Kept (List Char))) : 0 ≤ x := by
  cases x with
  | top => exact le_top
  | coe x => exact WithTop.coe_le_coe.2 (Kept.zero_le x)

theorem verbatim_le {s : String} {x : WithTop (Kept (List Char))}
    (h : Text.hasQuote s = false → x ≤ 0) : x ≤ verbatim s := by
  unfold verbatim
  split
  · exact le_top
  · rename_i free
    exact h (by simpa using free)

theorem eq_zero_of_verbatim {s : String} {n : Kept (List Char)} (h : verbatim s = ↑n) : n = 0 := by
  unfold verbatim at h
  split at h
  · cases h
  · exact (WithTop.coe_eq_coe.1 h).symm

/-- The parts of a name without delimiters are worth nothing. -/
theorem sum_part {parts : List String}
    (h : Text.hasQuote (String.intercalate "." parts) = false) :
    (parts.map fun s => (↑(part s) : WithTop (Kept (List Char)))).sum = 0 := by
  have free (s) (hs : s ∈ parts) : Text.hasQuote s = false := by
    refine List.any_eq_false.2 fun c hc => ?_
    exact List.any_eq_false.1 h c (Text.mem_intercalate hs hc)
  rw [List.map_congr_left fun s hs => by rw [part_eq_zero (free s hs)]]
  simp

theorem sum_part_le_verbatim (parts : List String) :
    (parts.map fun s => (↑(part s) : WithTop (Kept (List Char)))).sum ≤
      verbatim (String.intercalate "." parts) :=
  verbatim_le fun free => (sum_part free).le

theorem sum_part_le_qualified (parts : List String) :
    (parts.map fun s => (↑(part s) : WithTop (Kept (List Char)))).sum ≤
      qualified (String.intercalate "." parts) := by
  unfold qualified
  split
  · exact le_top
  · rename_i single
    by_cases free : Text.hasQuote (String.intercalate "." parts) = false
    · rw [sum_part free]
      exact zero_le _
    · have point : '.' ∉ (String.intercalate "." parts).toList :=
        fun point => single ⟨point, by simpa using free⟩
      match parts, point with
      | [], _ => exact zero_le _
      | [name], _ => simp
      | _ :: _ :: _, point => simp [String.toList_intercalate] at point

/-- A word that is called by a text without delimiters is worth nothing. -/
theorem delimitedName?_of_free {w : Word} {s : String} (h : w.kind = .string s ∨ w.Calls false s)
    (free : Text.hasQuote s = false) : w.delimitedName? = none := by
  rcases h with kind | calls
  · exact Word.delimitedName?_eq_none (by simp [kind])
  · rcases calls.delimitedName? with none | same
    · exact none
    · rw [same, Text.bareName?_eq_none free]

/-- The word of a part of a name is worth no more than the part. -/
theorem cons_le_part {behindPoint : Bool} {w : Word} {s : String} (h : w.Calls behindPoint s)
    (ws : List Word) : (↑(Word.delimitedNames (w :: ws)) : WithTop (Kept (List Char))) ≤
      ↑(part s) + ↑(Word.delimitedNames ws) := by
  rw [← WithTop.coe_add, WithTop.coe_le_coe, Word.delimitedNames_cons]
  refine add_le_add_left ?_ _
  rcases h.delimitedName? with none | same
  · rw [none]
    exact Kept.zero_le _
  · rw [same, part]

/-- The name of a type that the parser knows holds no delimiter. -/
theorem hasQuote_of_known? {name : String} {args : List UInt32} {t : DataType}
    (h : DataType.known? name args = some t) : Text.hasQuote name = false := by
  unfold DataType.known? at h
  split at h <;> try decide +kernel
  · unfold DataType.plain? at h
    split at h <;> first | decide +kernel | cases h
  · cases h

theorem type_le (w : Word) (more : String) (args : List UInt32) (ws : List Word) :
    (↑(Word.delimitedNames (w :: ws)) : WithTop (Kept (List Char))) ≤
      type (.ofParts (w.text ++ more) args) + ↑(Word.delimitedNames ws) := by
  by_cases free : Text.hasQuote (w.text ++ more) = false
  · have plain : w.delimitedName? = none := by
      rw [Text.hasQuote_append, Bool.or_eq_false_iff] at free
      have bare := Text.bareName?_eq_none free.1
      rw [Word.text, String.toList_ofList] at bare
      rw [Word.delimitedName?, bare, ite_self]
    rw [Word.delimitedNames_cons_of_none plain]
    exact le_add_of_nonneg_left (zero_le _)
  · have custom : type (.ofParts (w.text ++ more) args) = ⊤ := by
      have unknown : DataType.known? (w.text ++ more).toUpper args = none := by
        rw [Option.eq_none_iff_forall_ne_some]
        exact fun t known => free (Text.hasQuote_of_toUpper (hasQuote_of_known? known))
      have named : Text.hasQuote (DataType.withArgs (w.text ++ more) args) = true := by
        have name : Text.hasQuote (w.text ++ more) = true := by simpa using free
        unfold DataType.withArgs
        split
        · exact name
        · rw [Text.hasQuote_append, Text.hasQuote_append, Text.hasQuote_append, name]
          rfl
      rw [DataType.ofParts, unknown, Option.getD_none, type, verbatim, if_pos named]
    rw [custom, WithTop.top_add]
    exact le_top

/-- A word that is no identifier is worth nothing. -/
theorem idle {k : TokenKind} (h : ∀ s, k ≠ .identifier s) : Idle Word.delimitedNames k := by
  rintro w ws rfl
  exact (Word.delimitedNames_cons_of_none (Word.delimitedName?_eq_none h) ws).le

theorem idle_add {w : Word} (h : ∀ s, w.kind ≠ .identifier s) (x : WithTop (Kept (List Char)))
    (ws : List Word) :
    (↑(Word.delimitedNames (w :: ws)) : WithTop (Kept (List Char))) ≤ x + ↑(Word.delimitedNames ws) :=
  (WithTop.coe_le_coe.2 (idle h w ws rfl)).trans (le_add_of_nonneg_left (zero_le _))

theorem partwise : PartwiseNames Word.delimitedNames fun s => ↑(part s) where
  name_le w ws s calls := cons_le_part calls ws
  member_le dot w ws s point calls :=
    (WithTop.coe_le_coe.2 (idle (by simp [point]) dot _ rfl)).trans (cons_le_part calls ws)
  star_le dot w ws point star :=
    (idle (by simp [point]) dot _ rfl).trans (idle (by simp [star]) w ws rfl)

end Delimiters

open Delimiters in
/-- The delimited names of a text are in its tree. -/
noncomputable def Delimiters.marking : Marking (Kept (List Char)) where
  toWeights := weights
  marks := Word.delimitedNames
  marks_nil := le_rfl
  idle_eof := idle (by simp)
  idle_keyword k _ := idle (by simp)
  idle_punct p _ _ := idle (by simp)
  idle_literal k l literal := idle fun s h => by
    subst h
    cases literal
  param_le w ws p l kind := idle_add (by simp [kind]) 0 ws
  hostParam_le w ws s kind := idle_add (by simp [kind]) 0 ws
  name_le w ws s calls := cons_le_part calls ws
  names_le us ws parts dotted := partwise.names_le dotted ws
  wildcard_le us dot w ws parts dotted point star :=
    (partwise.wildcard_le dotted point star ws).trans (add_le_add_left (sum_part_le_qualified parts) _)
  function_le us ws parts dotted :=
    (partwise.names_le dotted ws).trans (add_le_add_left (sum_part_le_verbatim parts) _)
  assigned_le us ws parts dotted :=
    (partwise.names_le dotted ws).trans (add_le_add_left (sum_part_le_qualified parts) _)
  label_le as w ws s kind called := by
    refine (WithTop.coe_le_coe.2 (idle (by simp [kind]) as _ rfl)).trans ?_
    rcases called with string | calls
    · exact idle_add (by simp [string]) _ ws
    · exact cons_le_part calls ws
  type_le front w ws more args hfront _ := by
    refine (WithTop.coe_le_coe.2 (idle ?_ front _ rfl)).trans (type_le w more args ws)
    rcases hfront with h | h <;> simp [h]
  idle_secondWord s second w ws kind := by
    have free : Text.hasQuote s = false := Text.hasQuote_of_toUpper (by
      rcases second with h | h <;> rw [h] <;> decide +kernel)
    exact (Word.delimitedNames_cons_of_none
      (delimitedName?_of_free (.inr (.identifier kind)) free) ws).le
  zero_le_literalType _ _ _ := zero_le _
  call_le w v ws kind _ := idle (by rcases kind with h | h <;> simp [h]) w _ rfl
  zero_le_function _ := zero_le _
  collation_le w ws s called := by
    by_cases free : Text.hasQuote s = false
    · rw [Word.delimitedNames_cons_of_none (delimitedName?_of_free called free)]
      exact le_add_of_nonneg_left (zero_le _)
    · change _ ≤ verbatim s + _
      rw [verbatim, if_pos (by simpa using free), WithTop.top_add]
      exact le_top
  zero_le_cross := le_rfl
  zero_le_inner := le_rfl
  outer_le w v ws k j kind _ _ := idle_add (by simp [kind]) 0 _
  natural_le w v ws kind _ := idle_add (by simp [kind]) 0 _
  naturalKind_le w v ws kind behind := by
    refine (WithTop.coe_le_coe.2 (idle (by simp [kind]) w _ rfl)).trans (idle_add ?_ 0 ws)
    rcases behind with h | ⟨k, j, h, -⟩ <;> simp [h]

/-! ## Names in written texts -/

namespace Delimiters

variable {d : Dialect}

/-- Words in front of others take nothing away. -/
theorem le_append (vs ws : List Word) :
    Word.delimitedNames ws ≤ Word.delimitedNames (vs ++ ws) := by
  rw [Word.delimitedNames_append]
  exact le_add_of_nonneg_left (Kept.zero_le _)

theorem keeps (k : TokenKind) : Keeps Word.delimitedNames k := fun w ws _ => le_append [w] ws

theorem tells_zero (p : Phrase) : Tells Word.delimitedNames d 0 p := by
  intro n hn ws
  obtain rfl : 0 = n := WithTop.coe_eq_coe.1 hn
  rw [zero_add]
  exact le_append _ _

theorem tells_verbatim (s : String) (p : Phrase) : Tells Word.delimitedNames d (verbatim s) p := by
  intro n hn
  obtain rfl := eq_zero_of_verbatim hn
  exact tells_zero p 0 rfl

/-- A name inside delimiters is written inside delimiters. -/
theorem tells_name (r : RenderContext) (s : String) :
    Tells Word.delimitedNames r.dialect ↑(part s) [r.name s] := by
  cases bare : Dialect.bareName? s.toList with
  | none =>
    rw [part, bare, Kept.ofOption_none]
    exact tells_zero _
  | some name =>
    obtain ⟨w, words, kind, quote, hquote, lexeme⟩ := @RenderContext.words_delimited r s name (by
      rw [Dialect.writeName, bare])
    have identifier : w.delimitedName? = some name := by
      rw [Word.delimitedName?, if_pos kind, lexeme, Dialect.bareName?_delimited hquote]
    intro n hn ws
    obtain rfl : part s = n := WithTop.coe_eq_coe.1 hn
    rw [words, List.singleton_append, Word.delimitedNames_cons, identifier, part, bare]

/-- A name that is written as one part tells no more than its delimiters do. -/
theorem tells_qualified {s : String} {p : Phrase}
    (h : '.' ∉ s.toList → Tells Word.delimitedNames d ↑(part s) p) :
    Tells Word.delimitedNames d (qualified s) p := by
  intro n hn
  unfold qualified at hn
  split at hn
  · cases hn
  · rename_i single
    by_cases point : '.' ∈ s.toList
    · rw [part_eq_zero (by simpa [point] using single)] at hn
      exact tells_zero p n hn
    · exact h point n hn

theorem splitAt_of_notMem {cs : List Char} (h : '.' ∉ cs) : Text.splitAt '.' cs = [cs] := by
  induction cs with
  | nil => rfl
  | cons c cs ih =>
    rw [List.mem_cons, not_or] at h
    rw [Text.splitAt, if_neg (Ne.symm h.1), ih h.2]

end Delimiters

open Delimiters in
/-- The delimited names of a tree are in its text. -/
noncomputable def Delimiters.writing (r : RenderContext) : Writing (Kept (List Char)) r where
  toWeights := weights
  marks := Word.delimitedNames
  keep_keyword k _ := keeps _
  keep_punct p _ _ := keeps _
  keep_literal k _ _ := keeps _
  keep_name cs _ _ ws := le_append [_] ws
  tells_name s := tells_name r s
  tells_names parts := by
    refine .sepBy (tells_zero _) ?_
    rw [List.forall₂_map_right_iff, List.forall₂_same]
    exact fun s _ => tells_name r s
  tells_wildcard t := by
    refine tells_qualified fun single => ?_
    rw [splitAt_of_notMem single, List.map_singleton, String.ofList_toList]
    exact (tells_name r t).before (tells_zero _)
  tells_label s := (tells_zero [.text "AS"]).behind (tells_name r s).blank
  tells_assigned s := tells_qualified fun _ => tells_name r s
  tells_collation s := tells_verbatim s _
  tells_param _ _ _ _ := tells_zero _
  tells_join _ := tells_zero _
  function_le s n known ws := by
    obtain rfl := eq_zero_of_verbatim known
    rw [zero_add]
    exact le_append _ _
  exists_le s n _ known := (eq_zero_of_verbatim known).le
  type_le t n known ws := by
    have none : n = 0 := by
      cases t with
      | custom name => exact eq_zero_of_verbatim known
      | _ => exact (WithTop.coe_eq_coe.1 known).symm
    rw [none, zero_add, ← List.cons_append]
    exact le_append _ _

/-- No delimiters stand in the name of a function, a collation or a type, in a name with points in
front of `.*` or behind SET, or in the name behind BEGIN, and none stand both in the LIMIT and in the
OFFSET of a query. -/
def Body.DelimitersApart (b : Body) : Prop := b.worth Delimiters.weights ≠ ⊤

namespace Statement

variable {s : ParseSettings} {delimiter text : List Char} {st : Statement}

/-- In whatever dialect a statement is read and for whatever dialect it is rendered, its delimited
names are delimited in the text that is written, in the same order and with the same characters
inside the delimiters. -/
theorem Parsed.delimitedNames_render (h : st.Parsed s delimiter text) {values : Bindings}
    {settings : RenderSettings} {d : Dialect}
    (notNull : ∀ p ∈ st.body.params, p.holdsNull st.params values = false)
    (lexable : st.body.Lexable (st.context values settings d)) (apart : st.body.DelimitersApart)
    {sql : String} (written : st.render values settings d = .ok sql) :
    ((s.dialect.allWords st.sql).filterMap Word.delimitedName?).Sublist
      ((d.allWords sql).filterMap Word.delimitedName?) := by
  obtain ⟨n, known⟩ := WithTop.ne_top_iff_exists.1 apart
  obtain ⟨source, output⟩ := h.marks_le_render Delimiters.marking (Delimiters.writing _) rfl notNull
    lexable known.symm written
  exact source.trans ((le_add_of_nonneg_right (Kept.zero_le _)).trans output)

/-- `SELECT "a""b" FROM "t"`. -/
def ofDelimited : Statement where
  sql := "SELECT \"a\"\"b\" FROM \"t\""
  body := .select { Select.ofColumns [⟨.name ⟨["\"a\"\"b\""]⟩, none⟩] with
    source := some ⟨[⟨.table ⟨["\"t\""]⟩, none⟩], []⟩ }
  params := .empty

theorem parsed_ofDelimited : ofDelimited.Parsed {} [] ofDelimited.sql.toList := by
  let ts : List Token :=
    [.onLine (.keyword .SELECT) "" "SELECT" 0, .onLine (.identifier "\"a\"\"b\"") " " "\"a\"\"b\"" 7,
      .onLine (.keyword .FROM) " " "FROM" 14, .onLine (.identifier "\"t\"") " " "\"t\"" 19]
  let p : Piece := .onLine ts 22
  have found : ((Script.ofText [] ofDelimited.sql.toList).settle .standard).piece {} = .ok p := by
    decide +kernel
  have inner : p.innerTokens .standard = ts ++ [p.terminator] := by decide +kernel
  exact parsed_of_piece found nofun inner rfl rfl rfl rfl rfl rfl

theorem Parsed.delimitedNames_render_mysql :
    ofDelimited.Parsed {} [] ofDelimited.sql.toList ∧
      (∀ p ∈ ofDelimited.body.params, p.holdsNull ofDelimited.params .empty = false) ∧
      ofDelimited.body.Lexable (ofDelimited.context .empty {} .mysql) ∧
      ofDelimited.body.DelimitersApart ∧
      ofDelimited.render .empty {} .mysql = .ok "SELECT `a\"b` FROM `t`" ∧
      ((Dialect.standard.allWords ofDelimited.sql).filterMap Word.delimitedName?).Sublist
        ((Dialect.mysql.allWords "SELECT `a\"b` FROM `t`").filterMap Word.delimitedName?) := by
  have params : ofDelimited.body.params = [] := by rfl
  have notNull : ∀ p ∈ ofDelimited.body.params, p.holdsNull ofDelimited.params .empty = false := by
    simp [params]
  have lexable : ofDelimited.body.Lexable (ofDelimited.context .empty {} .mysql) := by
    refine ⟨nofun, fun q hq => ?_⟩
    rw [List.mem_singleton.1 hq]
    refine .intro nofun (fun x hx => ?_) nofun
    rw [List.mem_singleton.1 hx]
    exact .intro trivial nofun nofun
  have apart : ofDelimited.body.DelimitersApart := by
    simp [Body.DelimitersApart, ofDelimited, Select.ofColumns, Body.worth, Select.worth,
      Column.worthAll, Expr.worth, Expr.worthOption, Expr.worthAll, OrderItem.worthAll,
      FromClause.worthOption, Target.worths, Join.worths, Worth.source, Worth.joined, Worth.either,
      Delimiters.weights]
  have written : ofDelimited.render .empty {} .mysql = .ok "SELECT `a\"b` FROM `t`" := by
    decide +kernel
  exact ⟨parsed_ofDelimited, notNull, lexable, apart, written,
    parsed_ofDelimited.delimitedNames_render notNull lexable apart written⟩

end Statement

end BoundSql
