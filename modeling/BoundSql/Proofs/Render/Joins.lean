import BoundSql.Proofs.Render.Rendered
import BoundSql.Proofs.Tree.Order

/-!
# Joins are kept

Reading the words of a statement and those of its rendering from left to right gives the same natural
and outer joins: `Parsed.joins_render`. For a natural join nothing else is kept: whether it is an
inner or an outer one is not in the tree.
-/

namespace BoundSql

open Phrase Token

/-! ## Joins among words -/

namespace Word

/-- The word behind this one is a name or a type, whatever it is. -/
def leadsName (w : Word) : Bool :=
  w.kind = .punct .dot || w.kind = .punct .doubleColon || w.kind = .keyword .AS

/-- The kind of outer join that the word means in front of JOIN. -/
def outer? (w : Word) : Option JoinKind :=
  match w.kind with
  | .keyword k => JoinKind.ofOuter? k
  | _ => none

/-- In front of this word, LEFT, RIGHT and FULL belong to a join. -/
def continuesJoin (w : Word) : Bool := w.kind = .keyword .OUTER || w.kind = .keyword .JOIN

/-- The natural and the outer joins among words, in order. The kind of a natural join is left out. -/
def joins : List Word → List JoinKind
  | [] | [_] => []
  | w :: v :: ws =>
    if w.leadsName then joins ws
    else if w.kind = .keyword .NATURAL then
      if v.outer?.isSome then .natural :: joins ws else .natural :: joins (v :: ws)
    else if v.continuesJoin then w.outer?.toList ++ joins (v :: ws)
    else joins (v :: ws)

/-- The word has nothing to do with joins and leads no name. -/
structure IsCalm (w : Word) : Prop where
  leads : w.leadsName = false
  natural : w.kind ≠ .keyword .NATURAL
  outer : w.outer? = none

variable {w v : Word}

theorem IsCalm.joins_cons (h : w.IsCalm) (ws : List Word) : joins (w :: ws) = joins ws := by
  cases ws with
  | nil => rfl
  | cons v ws => simp [joins, h.leads, h.natural, h.outer]

theorem joins_leads (h : w.leadsName = true) (v : Word) (ws : List Word) :
    joins (w :: v :: ws) = joins ws := by
  simp [joins, h]

theorem outer?_eq_some {j : JoinKind} (h : w.outer? = some j) :
    w.kind = .keyword .LEFT ∨ w.kind = .keyword .RIGHT ∨ w.kind = .keyword .FULL := by
  unfold outer? JoinKind.ofOuter? at h
  split at h
  · rename_i kind
    rw [kind]
    split at h
    · exact .inl rfl
    · exact .inr (.inl rfl)
    · exact .inr (.inr rfl)
    · cases h
  · cases h

theorem joins_outer {j : JoinKind} (hw : w.outer? = some j) (hv : v.continuesJoin = true)
    (ws : List Word) : joins (w :: v :: ws) = j :: joins (v :: ws) := by
  have plain : w.leadsName = false ∧ w.kind ≠ .keyword .NATURAL := by
    rcases outer?_eq_some hw with kind | kind | kind <;> simp [leadsName, kind]
  simp [joins, plain, hw, hv]

theorem joins_natural (hw : w.kind = .keyword .NATURAL) (hv : v.outer? = none) (ws : List Word) :
    joins (w :: v :: ws) = .natural :: joins (v :: ws) := by
  simp [joins, leadsName, hw, hv]

theorem joins_naturalOuter (hw : w.kind = .keyword .NATURAL) (hv : v.outer?.isSome)
    (ws : List Word) : joins (w :: v :: ws) = .natural :: joins ws := by
  simp [joins, leadsName, hw, hv]

theorem isCalm_keyword {k : Keyword} (kind : w.kind = .keyword k) (h : k.IsOrdinary) : w.IsCalm := by
  obtain ⟨as, left, right, full, natural⟩ := h
  refine ⟨by simp [leadsName, kind, as], by simp [kind, natural], ?_⟩
  refine Option.eq_none_iff_forall_ne_some.2 fun j outer => ?_
  rcases outer?_eq_some outer with h | h | h <;> simp_all

theorem isCalm_punct {p : Punct} (kind : w.kind = .punct p) (dot : p ≠ .dot)
    (colons : p ≠ .doubleColon) : w.IsCalm :=
  ⟨by simp [leadsName, kind, dot, colons], by simp [kind], by simp [outer?, kind]⟩

theorem isCalm_other (keyword : ∀ k, w.kind ≠ .keyword k) (punct : ∀ p, w.kind ≠ .punct p) :
    w.IsCalm := by
  refine ⟨by simp [leadsName, keyword, punct], keyword _, ?_⟩
  unfold outer?
  split
  · rename_i k kind
    exact absurd kind (keyword k)
  · rfl

theorem isCalm_literal {l : Literal} (h : Grammar.literal? w.kind = some l) : w.IsCalm := by
  cases kind : w.kind with
  | keyword k =>
    rw [kind] at h
    refine isCalm_keyword kind ⟨?_, ?_, ?_, ?_, ?_⟩ <;> rintro rfl <;> cases h
  | punct p =>
    rw [kind] at h
    cases h
  | _ => exact isCalm_other (by simp [kind]) (by simp [kind])

theorem isCalm_of_calls {s : String} (h : w.Calls false s) : w.IsCalm := by
  cases h with
  | identifier kind => exact isCalm_other (by simp [kind]) (by simp [kind])
  | @keyword k kind free =>
    refine isCalm_keyword kind ?_
    have notReserved : k.isReserved = false := by simpa using free
    refine ⟨?_, ?_, ?_, ?_, ?_⟩ <;> rintro rfl <;> cases notReserved

end Word

/-! ## Joins in trees -/

/-- The name is written as one word that can be a name. -/
def RenderContext.WritesOneName (r : RenderContext) (name : String) : Prop :=
  ∃ w s, SpellsName r.dialect (r.dialect.writeName r.quoting name).toList [w] ∧ w.Calls false s

theorem RenderContext.writesOneName {r : RenderContext} {name : String}
    (written : r.dialect.writeName r.quoting name = name) (plain : IsPlainName name.toList)
    (free : Keyword.ofWord? name.toList = none) : r.WritesOneName name := by
  refine ⟨.ofName name.toList, name, ?_, .identifier ?_⟩
  · rw [written]
    exact .of_isPlainName plain
  · rw [Word.ofName, word, free, String.ofList_toList]

namespace Joins

open Word Worth

/-- These words in front of others have nothing to do with joins. -/
def Calm (us : List Word) : Prop := ∀ ws, joins (us ++ ws) = joins ws

/-- What is left of a kind of join. -/
def kept : JoinKind → Exact JoinKind
  | .cross | .inner => 0
  | outer => .ofList [outer]

/-- The joins of a tree. Of a text that is written as it is, it is not known whether it speaks of
joins, unless its words do not. -/
noncomputable def weights (r : RenderContext) : Weights (Exact JoinKind) where
  name s := nothing (r.WritesOneName s)
  function s := nothing (∀ ws, joins (r.dialect.words s.toList ++ .sign .leftParen "(" :: ws) = joins ws)
  wildcard t := nothing (∀ c ∈ Text.splitAt '.' t.toList, r.WritesOneName (String.ofList c))
  assigned s := nothing (r.WritesOneName s)
  collation s := nothing (Calm (r.dialect.words s.toList))
  type t := nothing (Calm (.key .AS :: r.dialect.words t.sql.toList ++ [.sign .rightParen ")"]))
  param p := nothing (∀ used text, r.paramText p used = .ok text → Calm (r.dialect.words text.toList))
  join k := ↑(kept k)

theorem le_add {x : WithTop (Exact JoinKind)} (hx : 0 ≤ x) {us ws : List Word}
    (h : joins us = joins ws) :
    (↑(Exact.ofList (joins us)) : WithTop (Exact JoinKind)) ≤ x + ↑(Exact.ofList (joins ws)) := by
  rw [h]
  exact le_add_of_nonneg_left hx

theorem sum_zero (parts : List String) :
    (parts.map fun _ => (0 : WithTop (Exact JoinKind))).sum = 0 := by
  simp

theorem le_kept {j : JoinKind} (hj : j ≠ .cross ∧ j ≠ .inner) {us ws : List Word}
    (h : joins us = j :: joins ws) :
    (↑(Exact.ofList (joins us)) : WithTop (Exact JoinKind)) ≤
      ↑(kept j) + ↑(Exact.ofList (joins ws)) := by
  have outer : kept j = Exact.ofList [j] := by
    cases j <;> first | rfl | simp at hj
  rw [h, outer, ← WithTop.coe_add, ← Exact.ofList_append]
  rfl

theorem partwise :
    PartwiseNames (fun ws => Exact.ofList (joins ws)) fun _ => (0 : WithTop (Exact JoinKind)) where
  name_le w ws s calls := le_add le_rfl ((isCalm_of_calls calls).joins_cons ws)
  member_le dot w ws s point _ := le_add le_rfl (joins_leads (by simp [leadsName, point]) w ws)
  star_le dot w ws point _ := joins_leads (by simp [leadsName, point]) w ws

/-- Names are not joins. -/
theorem dotted_le {us : List Word} {parts : List String} (dotted : Dotted us parts)
    {x : WithTop (Exact JoinKind)} (hx : 0 ≤ x) (ws : List Word) :
    (↑(Exact.ofList (joins (us ++ ws))) : WithTop (Exact JoinKind)) ≤
      x + ↑(Exact.ofList (joins ws)) :=
  (partwise.names_le dotted ws).trans (add_le_add_left ((sum_zero parts).le.trans hx) _)

end Joins

open Joins Word Worth in
/-- The joins of a text are in its tree. -/
noncomputable def Joins.marking (r : RenderContext) : Marking (Exact JoinKind) where
  toWeights := weights r
  marks ws := .ofList (joins ws)
  marks_nil := rfl
  idle_eof w ws kind := (isCalm_other (by simp [kind]) (by simp [kind])).joins_cons ws
  idle_keyword k hk w ws kind := (isCalm_keyword kind hk).joins_cons ws
  idle_punct p dot colons w ws kind := (isCalm_punct kind dot colons).joins_cons ws
  idle_literal k l literal w ws kind := (isCalm_literal (kind ▸ literal)).joins_cons ws
  param_le w ws p l kind :=
    le_add (zero_le_nothing _) ((isCalm_other (by simp [kind]) (by simp [kind])).joins_cons ws)
  hostParam_le w ws s kind :=
    le_add (zero_le_nothing _) ((isCalm_other (by simp [kind]) (by simp [kind])).joins_cons ws)
  name_le w ws s calls := le_add (zero_le_nothing _) ((isCalm_of_calls calls).joins_cons ws)
  names_le us ws parts dotted := dotted_le dotted (List.sum_nonneg (by simp [zero_le_nothing])) ws
  wildcard_le us dot w ws parts dotted point star := by
    refine (partwise.wildcard_le dotted point star ws).trans (add_le_add_left ?_ _)
    exact (sum_zero parts).le.trans (zero_le_nothing _)
  function_le us ws parts dotted := dotted_le dotted (zero_le_nothing _) ws
  assigned_le us ws parts dotted := dotted_le dotted (zero_le_nothing _) ws
  label_le as w ws s kind _ :=
    le_add (zero_le_nothing _) (joins_leads (by simp [leadsName, kind]) w ws)
  type_le front w ws more args hfront _ := le_add (zero_le_nothing _)
    (joins_leads (by rcases hfront with h | h <;> simp [leadsName, h]) w ws)
  idle_secondWord s _ w ws kind := (isCalm_other (by simp [kind]) (by simp [kind])).joins_cons ws
  zero_le_literalType _ _ _ := zero_le_nothing _
  call_le w v ws kind open_ := by
    have calm : v.continuesJoin = false := by simp [continuesJoin, open_]
    have same : joins (w :: v :: ws) = joins (v :: ws) := by
      rcases kind with h | h <;> simp [joins, leadsName, h, calm]
    exact same
  zero_le_function _ := zero_le_nothing _
  collation_le w ws s kind := by
    refine le_add (zero_le_nothing _) (IsCalm.joins_cons ?_ ws)
    rcases kind with string | calls
    · exact isCalm_other (by simp [string]) (by simp [string])
    · exact isCalm_of_calls calls
  zero_le_cross := le_rfl
  zero_le_inner := le_rfl
  outer_le w v ws k j kind outer behind := by
    have continues : v.continuesJoin = true := by rcases behind with h | h <;> simp [continuesJoin, h]
    have here : w.outer? = some j := by simpa [outer?, kind] using outer
    refine le_kept ?_ (joins_outer here continues ws)
    constructor <;> rintro rfl <;> cases k <;> cases outer
  natural_le w v ws kind behind := by
    have calm : v.outer? = none := by rcases behind with h | h <;> simp [outer?, h, JoinKind.ofOuter?]
    exact le_kept (by simp) (joins_natural kind calm ws)
  naturalKind_le w v ws kind behind := by
    refine le_kept (by simp) ?_
    rcases behind with inner | ⟨k, j, outer, hj⟩
    · have calm : v.IsCalm := isCalm_keyword inner (by decide)
      rw [joins_natural kind calm.outer, calm.joins_cons]
    · exact joins_naturalOuter kind (by simp [outer?, outer, hj]) ws

/-! ## Joins in written texts -/

namespace Joins

open Word Worth

variable {r : RenderContext} {p : Phrase}

/-- The joins of words. -/
def marks (ws : List Word) : Exact JoinKind := .ofList (joins ws)

theorem tells_nothing {P : Prop} (h : P → Calm (wordsIn r.dialect p)) :
    Tells marks r.dialect (nothing P) p := by
  intro n hn ws
  obtain ⟨known, rfl⟩ := of_nothing hn
  rw [zero_add]
  exact congrArg Exact.ofList (h known ws).symm

theorem words_name {s : String} (h : r.WritesOneName s) :
    ∃ w, wordsIn r.dialect [r.name s] = [w] ∧ w.IsCalm := by
  obtain ⟨w, x, spells, calls⟩ := h
  refine ⟨w, ?_, isCalm_of_calls calls⟩
  rw [RenderContext.wordsIn_name, spells.spells.words_eq]

theorem calm_nil : Calm [] := fun _ => rfl

theorem calm_cons {w : Word} (hw : w.IsCalm) {us : List Word} (hus : Calm us) : Calm (w :: us) :=
  fun ws => (hw.joins_cons (us ++ ws)).trans (hus ws)

theorem calm_leads {w : Word} (hw : w.leadsName = true) (v : Word) {us : List Word} (hus : Calm us) :
    Calm (w :: v :: us) := fun ws => (joins_leads hw v (us ++ ws)).trans (hus ws)

/-- Of names with points between them, only the first stands by itself. -/
theorem words_dotted {s : String} {parts : List String} (h : ∀ x ∈ s :: parts, r.WritesOneName x) :
    ∃ w us, wordsIn r.dialect (r.dotted (s :: parts)) = w :: us ∧ w.IsCalm ∧ Calm us := by
  induction parts generalizing s with
  | nil =>
    obtain ⟨w, words, calm⟩ := words_name (h s List.mem_cons_self)
    exact ⟨w, [], words, calm, calm_nil⟩
  | cons t parts ih =>
    obtain ⟨here, below⟩ := List.forall_mem_cons.1 h
    obtain ⟨w, words, calm⟩ := words_name here
    obtain ⟨v, us, rest, -, behind⟩ := ih below
    refine ⟨w, .sign .dot "." :: v :: us, ?_, calm, calm_leads rfl v behind⟩
    have split : r.dotted (s :: t :: parts) = [r.name s] ++ [.text "."] ++ r.dotted (t :: parts) := rfl
    rw [split, wordsIn_append, wordsIn_append, words, rest, wordsIn_cons, Mark.words, words_dot]
    rfl

theorem calm_dotted {parts : List String} (h : ∀ x ∈ parts, r.WritesOneName x) :
    Calm (wordsIn r.dialect (r.dotted parts)) := by
  cases parts with
  | nil => exact calm_nil
  | cons s parts =>
    obtain ⟨w, us, words, calm, behind⟩ := words_dotted h
    rw [words]
    exact calm_cons calm behind

/-- The words of a kind of join. -/
theorem words_join (k : JoinKind) : wordsIn r.dialect (Phrase.words [k.name, "JOIN"]) =
    [.key k.keyword, .key .JOIN] := by
  have name : r.dialect.words k.name.toList = [.key k.keyword] := by
    rw [k.name_eq]
    exact (spells_keyword _ _).words_eq
  have join : r.dialect.words "JOIN".toList = [.key .JOIN] := (spells_keyword _ .JOIN).words_eq
  change r.dialect.words k.name.toList ++ ([] ++ (r.dialect.words "JOIN".toList ++ [])) = _
  rw [name, join]
  rfl

end Joins

open Joins Word Worth in
/-- The joins of a tree are in its text. -/
noncomputable def Joins.writing (r : RenderContext) : Writing (Exact JoinKind) r where
  toWeights := weights r
  marks := marks
  keep_keyword k hk w ws kind := congrArg Exact.ofList ((isCalm_keyword kind hk).joins_cons ws).symm
  keep_punct p dot colons w ws kind :=
    congrArg Exact.ofList ((isCalm_punct kind dot colons).joins_cons ws).symm
  keep_literal k l literal w ws kind :=
    congrArg Exact.ofList ((isCalm_literal (kind ▸ literal)).joins_cons ws).symm
  keep_name cs plain notKeyword ws := by
    have calm : (Word.ofName cs).IsCalm := by
      refine isCalm_other ?_ ?_ <;> simp [Word.ofName, word, notKeyword]
    exact congrArg Exact.ofList (calm.joins_cons ws).symm
  tells_name s := tells_nothing fun named => calm_dotted (List.forall_mem_singleton.2 named)
  tells_names parts n hn := by
    obtain ⟨named, rfl⟩ := of_sum_nothing hn
    exact tells_nothing (fun _ => calm_dotted named) 0 (nothing_eq_zero trivial)
  tells_wildcard t := by
    refine tells_nothing fun named ws => ?_
    have names : ∀ x ∈ (Text.splitAt '.' t.toList).map String.ofList, r.WritesOneName x :=
      List.forall_mem_map.2 named
    rw [wordsIn_append, List.append_assoc, calm_dotted names]
    rw [wordsIn_star]
    exact joins_leads rfl _ ws
  tells_label s := by
    refine tells_nothing fun named => ?_
    obtain ⟨w, words, -⟩ := words_name named
    have as : r.dialect.words "AS".toList = [.key .AS] := (spells_keyword _ .AS).words_eq
    have both : wordsIn r.dialect [.text "AS", .blank, r.name s] = [.key .AS, w] := by
      change r.dialect.words "AS".toList ++ ([] ++ wordsIn r.dialect [r.name s]) = _
      rw [as, words]
      rfl
    rw [both]
    exact calm_leads rfl w calm_nil
  tells_assigned s := tells_nothing fun named => by
    obtain ⟨w, words, calm⟩ := words_name named
    rw [words]
    exact calm_cons calm calm_nil
  tells_collation s := tells_nothing fun calm => by
    rw [wordsIn_text]
    exact calm
  tells_param p used text written := tells_nothing fun calm => by
    rw [wordsIn_text]
    exact calm used text written
  tells_join k n hn ws := by
    obtain rfl := WithTop.coe_eq_coe.1 hn
    rw [words_join]
    have join : joins (.key .JOIN :: ws) = joins ws :=
      (isCalm_keyword (w := .key .JOIN) rfl (by decide)).joins_cons ws
    have calm {k : Keyword} (hk : k.IsOrdinary) : joins (.key k :: .key .JOIN :: ws) = joins ws :=
      ((isCalm_keyword (w := .key k) rfl hk).joins_cons _).trans join
    have outer {k : Keyword} {j : JoinKind} (hk : JoinKind.ofOuter? k = some j) :
        joins (.key k :: .key .JOIN :: ws) = j :: joins ws :=
      (joins_outer (w := .key k) hk rfl ws).trans (congrArg _ join)
    cases k with
    | cross => exact congrArg Exact.ofList (calm (by decide)).symm
    | inner => exact congrArg Exact.ofList (calm (by decide)).symm
    | natural =>
      exact congrArg Exact.ofList ((joins_natural rfl rfl ws).trans (congrArg _ join)).symm
    | left => exact congrArg Exact.ofList (outer rfl).symm
    | right => exact congrArg Exact.ofList (outer rfl).symm
    | full => exact congrArg Exact.ofList (outer rfl).symm
  function_le s n known ws := by
    obtain ⟨calm, rfl⟩ := of_nothing known
    rw [zero_add]
    have paren : (Word.sign .leftParen "(").IsCalm := isCalm_punct rfl (by decide) (by decide)
    exact congrArg Exact.ofList ((paren.joins_cons ws).trans (calm ws).symm)
  exists_le s n _ known := (of_nothing known).2.le
  type_le t n known ws := by
    obtain ⟨calm, rfl⟩ := of_nothing known
    rw [zero_add]
    have paren : (Word.sign .rightParen ")").IsCalm := isCalm_punct rfl (by decide) (by decide)
    refine congrArg Exact.ofList ((paren.joins_cons ws).trans ((calm ws).symm.trans ?_))
    simp

/-- Every name in the statement is written as one word that can be a name; no text that is written as
it is, of a function, a collation, a type or a parameter, speaks of joins; and no joins stand both in
the LIMIT and in the OFFSET of a query. -/
def Body.JoinsApart (r : RenderContext) (b : Body) : Prop := b.worth (Joins.weights r) ≠ ⊤

namespace Statement

variable {s : ParseSettings} {delimiter text : List Char} {st : Statement}

/-- For whatever dialect a statement is rendered, if it can be, its text has the natural and the
outer joins of the statement, in the same order. -/
theorem Parsed.joins_render (h : st.Parsed s delimiter text) {values : Bindings}
    {settings : RenderSettings} {d : Dialect}
    (notNull : ∀ p ∈ st.body.params, p.holdsNull st.params values = false)
    (lexable : st.body.Lexable (st.context values settings d))
    (apart : st.body.JoinsApart (st.context values settings d))
    {sql : String} (written : st.render values settings d = .ok sql) :
    Word.joins (s.dialect.allWords st.sql) = Word.joins (d.allWords sql) := by
  obtain ⟨n, known⟩ := WithTop.ne_top_iff_exists.1 apart
  obtain ⟨source, output⟩ := h.marks_le_render (Joins.marking _) (Joins.writing _) rfl notNull lexable
    known.symm written
  exact source.trans ((add_zero n).symm.trans output)

/-- `SELECT * FROM a NATURAL JOIN b LEFT OUTER JOIN c USING (x)`. -/
def ofJoins : Statement where
  sql := "SELECT * FROM a NATURAL JOIN b LEFT OUTER JOIN c USING (x)"
  body := .select { Select.ofColumns [⟨.wildcard none, none⟩] with
    source := some ⟨[⟨.table ⟨["a"]⟩, none⟩, ⟨.table ⟨["b"]⟩, none⟩, ⟨.table ⟨["c"]⟩, none⟩],
      [⟨.natural, 1, .none⟩, ⟨.left, 2, .columns ["x"]⟩]⟩ }
  params := .empty

theorem parsed_ofJoins : ofJoins.Parsed {} [] ofJoins.sql.toList := by
  let ts : List Token :=
    [.onLine (.keyword .SELECT) "" "SELECT" 0, .onLine (.punct .star) " " "*" 7,
      .onLine (.keyword .FROM) " " "FROM" 9, .onLine (.identifier "a") " " "a" 14,
      .onLine (.keyword .NATURAL) " " "NATURAL" 16, .onLine (.keyword .JOIN) " " "JOIN" 24,
      .onLine (.identifier "b") " " "b" 29, .onLine (.keyword .LEFT) " " "LEFT" 31,
      .onLine (.keyword .OUTER) " " "OUTER" 36, .onLine (.keyword .JOIN) " " "JOIN" 42,
      .onLine (.identifier "c") " " "c" 47, .onLine (.keyword .USING) " " "USING" 49,
      .onLine (.punct .leftParen) " " "(" 55, .onLine (.identifier "x") "" "x" 56,
      .onLine (.punct .rightParen) "" ")" 57]
  let p : Piece := .onLine ts 58
  have found : ((Script.ofText [] ofJoins.sql.toList).settle .standard).piece {} = .ok p := by
    decide +kernel
  have inner : p.innerTokens .standard = ts ++ [p.terminator] := by decide +kernel
  exact parsed_of_piece found nofun inner rfl rfl rfl rfl rfl rfl

theorem Parsed.joins_render_left :
    ofJoins.Parsed {} [] ofJoins.sql.toList ∧
      (∀ p ∈ ofJoins.body.params, p.holdsNull ofJoins.params .empty = false) ∧
      ofJoins.body.Lexable (ofJoins.context .empty {} .standard) ∧
      ofJoins.body.JoinsApart (ofJoins.context .empty {} .standard) ∧
      ofJoins.render .empty {} .standard =
        .ok "SELECT * FROM a NATURAL JOIN b LEFT JOIN c USING (x)" ∧
      Word.joins (Dialect.standard.allWords ofJoins.sql) = Word.joins
        (Dialect.standard.allWords "SELECT * FROM a NATURAL JOIN b LEFT JOIN c USING (x)") := by
  have params : ofJoins.body.params = [] := by rfl
  have notNull : ∀ p ∈ ofJoins.body.params, p.holdsNull ofJoins.params .empty = false := by
    simp [params]
  have lexable : ofJoins.body.Lexable (ofJoins.context .empty {} .standard) := by
    refine ⟨nofun, fun q hq => ?_⟩
    rw [List.mem_singleton.1 hq]
    refine .intro nofun (fun x hx => ?_) nofun
    rw [List.mem_singleton.1 hx]
    exact .intro trivial nofun nofun
  have named (name : String) (h : name ∈ ["a", "b", "c", "x"]) :
      (ofJoins.context .empty {} .standard).WritesOneName name := by
    have free : ∀ x ∈ ["a", "b", "c", "x"],
        Dialect.standard.writeName ⟨false, false⟩ x = x ∧ IsPlainName x.toList ∧
          Keyword.ofWord? x.toList = none := by decide +kernel
    exact RenderContext.writesOneName (free name h).1 (free name h).2.1 (free name h).2.2
  have apart : ofJoins.body.JoinsApart (ofJoins.context .empty {} .standard) := by
    have zero (name : String) (h : name ∈ ["a", "b", "c", "x"]) :
        (Joins.weights (ofJoins.context .empty {} .standard)).name name = 0 :=
      Worth.nothing_eq_zero (named name h)
    unfold Body.JoinsApart
    generalize ofJoins.context .empty {} .standard = r at zero ⊢
    have kept (k : JoinKind) : (Joins.weights r).join k = ↑(Joins.kept k) := rfl
    have names (parts : List String) : (Joins.weights r).names parts =
        (parts.map (Joins.weights r).name).sum := rfl
    simp [ofJoins, Select.ofColumns, Body.worth, Select.worth, Column.worthAll, Expr.worth,
      Expr.worthOption, Expr.worthAll, OrderItem.worthAll, FromClause.worthOption, Target.worths,
      Join.worths, Worth.source, Worth.joined, Worth.either, Weights.columns, names, kept,
      zero]
  have written : ofJoins.render .empty {} .standard =
      .ok "SELECT * FROM a NATURAL JOIN b LEFT JOIN c USING (x)" := by
    decide +kernel
  exact ⟨parsed_ofJoins, notNull, lexable, apart, written,
    parsed_ofJoins.joins_render notNull lexable apart written⟩

end Statement

end BoundSql
