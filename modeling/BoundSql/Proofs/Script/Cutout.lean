import BoundSql.Proofs.Grammar.Yields
import BoundSql.Proofs.Script.Placeholders
import BoundSql.Proofs.Script.Stored

/-!
# Texts cut around placeholders

A statement that is kept as text is cut around its placeholders, and nothing of it is lost: with
what was cut out back in its places, the fragments spell the text of the statement. `Cut` says so of
fragments, and `Statement.Parsed.exists_cuts` of every statement that is kept as text.
-/

namespace BoundSql

open Text Token

/-- The token stands for a parameter. -/
def Token.isPlaceholder (t : Token) : Bool := t.kind.key?.isSome

/-- What is cut out of a text for a parameter: its placeholder, with the constant in front of it if
that is its default. -/
structure Cutout where
  default : Option Token
  placeholder : Token

namespace Cutout

/-- The tokens that are cut out. -/
def tokens (c : Cutout) : List Token := c.default.toList ++ [c.placeholder]

/-- The text that is cut out. What stands in front of its first token is not. -/
def source (c : Cutout) : List Char :=
  match c.default with
  | none => c.placeholder.lexeme
  | some constant => constant.lexeme ++ c.placeholder.source

/-- The first token that is cut out. -/
def first (c : Cutout) : Token := c.default.getD c.placeholder

theorem tokens_eq (c : Cutout) : ∃ more, c.tokens = c.first :: more := by
  obtain ⟨default, placeholder⟩ := c
  cases default with
  | none => exact ⟨[], rfl⟩
  | some constant => exact ⟨[placeholder], rfl⟩

theorem flatMap_source_tokens (c : Cutout) :
    c.tokens.flatMap Token.source = c.first.gap ++ c.source := by
  obtain ⟨default, placeholder⟩ := c
  cases default <;> simp [tokens, first, source, Token.source]

/-- A cutout ends with its placeholder. -/
theorem notLast_source {p : Char → Bool} (c : Cutout) (filled : c.placeholder.lexeme ≠ [])
    (last : NotLast p c.placeholder.lexeme) : NotLast p c.source := by
  unfold source
  split
  · exact last
  · exact (last.append_of_ne_nil filled _).append_of_ne_nil (by simp [filled]) _

/-- The parameter is what the tokens say: it has the key of the placeholder, and the constant as its
default. -/
structure StandsFor (c : Cutout) (p : ParamRef) : Prop where
  key : c.placeholder.kind.key? = some p.key
  default : c.default.map (Fragment.literal? ·.kind) = p.default.map some
  unmarked : p.nullBound = false

end Cutout

namespace Fragment

/-- The fragments, with the cutouts in the places of the parameters, spell the text. -/
inductive Cut : List Fragment → List Cutout → List Char → Prop
  | nil : Cut [] [] []
  | text {parts cuts rest} (t : String) (behind : Cut parts cuts rest) :
    Cut (.text t :: parts) cuts (t.toList ++ rest)
  | param {parts cuts rest} {c : Cutout} {p : ParamRef} (here : c.StandsFor p)
    (behind : Cut parts cuts rest) : Cut (.param p :: parts) (c :: cuts) (c.source ++ rest)

/-- No text is empty, and no two texts stand side by side. -/
structure Separated (parts : List Fragment) : Prop where
  nonempty : ∀ t, .text t ∈ parts → t ≠ ""
  apart : parts.IsChain fun a b => a.ref?.isSome ∨ b.ref?.isSome

variable {parts : List Fragment} {cuts : List Cutout} {rest : List Char}

theorem Cut.ofText (h : Cut parts cuts rest) (cs : List Char) :
    Cut (ofText cs ++ parts) cuts (cs ++ rest) := by
  unfold Fragment.ofText
  split
  · rename_i empty
    rw [List.isEmpty_iff.1 empty]
    exact h
  · have spelled := h.text (String.ofList cs)
    rwa [String.toList_ofList] at spelled

theorem Cut.append {more : List Fragment} {moreCuts : List Cutout} {behind : List Char}
    (h : Cut parts cuts rest) (h' : Cut more moreCuts behind) :
    Cut (parts ++ more) (cuts ++ moreCuts) (rest ++ behind) := by
  induction h with
  | nil => exact h'
  | text t _ ih =>
    rw [List.append_assoc]
    exact ih.text t
  | param here _ ih =>
    rw [List.append_assoc]
    exact ih.param here

/-- Fragments behind others spell the text behind that of the others. -/
theorem Cut.exists_append {more : List Fragment} (h : Cut (parts ++ more) cuts rest) :
    ∃ firstCuts moreCuts first behind, cuts = firstCuts ++ moreCuts ∧ rest = first ++ behind ∧
      Cut parts firstCuts first ∧ Cut more moreCuts behind := by
  induction parts generalizing cuts rest with
  | nil => exact ⟨[], cuts, [], rest, rfl, rfl, .nil, h⟩
  | cons part parts ih =>
    cases h with
    | text t behind =>
      obtain ⟨firstCuts, moreCuts, first, more, rfl, rfl, cutFirst, cutMore⟩ := ih behind
      exact ⟨firstCuts, moreCuts, t.toList ++ first, more, rfl, by simp, cutFirst.text t, cutMore⟩
    | @param _ _ _ c p here behind =>
      obtain ⟨firstCuts, moreCuts, first, more, rfl, rfl, cutFirst, cutMore⟩ := ih behind
      exact ⟨c :: firstCuts, moreCuts, c.source ++ first, more, rfl, by simp, cutFirst.param here,
        cutMore⟩

/-- What ends with a cutout ends with its placeholder. -/
theorem Cut.notLast {parts : List Fragment} {cuts : List Cutout} {rest : List Char}
    {class_ : Char → Bool} (h : Cut parts cuts rest) (noText : ∀ u, parts.getLast? ≠ some (.text u))
    (solid : ∀ c ∈ cuts, c.placeholder.lexeme ≠ [] ∧ NotLast class_ c.placeholder.lexeme) :
    NotLast class_ rest := by
  rcases List.eq_nil_or_concat parts with rfl | ⟨front, part, rfl⟩
  · cases h
    exact notLast_nil
  rw [List.concat_eq_append] at h noText
  obtain ⟨frontCuts, lastCuts, first, last, rfl, rfl, -, cut⟩ := h.exists_append
  cases cut with
  | text u => exact absurd List.getLast?_concat (noText u)
  | @param _ _ _ c _ _ nothing =>
    cases nothing
    obtain ⟨filled, sign⟩ := solid c (by simp)
    have nonempty : c.source ++ [] ≠ [] := by
      unfold Cutout.source
      split <;> simp [filled, Token.source]
    refine NotLast.append_of_ne_nil ?_ nonempty first
    rw [List.append_nil]
    exact c.notLast_source filled sign

theorem param_notMem_ofText (p : ParamRef) (cs : List Char) : .param p ∉ ofText cs := by
  unfold ofText
  split <;> simp

theorem separated_nil : Separated [] := ⟨fun _ => nofun, .nil⟩

theorem separated_ofText (cs : List Char) : Separated (ofText cs) := by
  unfold ofText
  split
  · exact separated_nil
  · rename_i filled
    refine ⟨fun t member => ?_, .singleton _⟩
    rw [List.mem_singleton] at member
    cases member
    simpa using filled

/-- A parameter keeps the texts on its two sides apart. -/
theorem Separated.param (h : Separated parts) (cs : List Char) (p : ParamRef) :
    Separated (ofText cs ++ .param p :: parts) := by
  have front := separated_ofText cs
  refine ⟨fun t member => ?_, List.isChain_append.2 ⟨front.apart, ?_, ?_⟩⟩
  · rcases List.mem_append.1 member with here | member
    · exact front.nonempty t here
    · rcases List.mem_cons.1 member with same | behind
      · cases same
      · exact h.nonempty t behind
  · exact List.isChain_cons.2 ⟨fun _ _ => .inl rfl, h.apart⟩
  · intro a _ b first
    cases first
    exact .inr rfl

/-- A token stands for a parameter if it declares a key, which is the key of the parameter. -/
theorem key?_of_param? {before : Option Literal} {kind : TokenKind} {p : ParamRef}
    (h : param? before kind = some p) : kind.key? = some p.key := by
  cases kind <;> cases h <;> rfl

theorem key?_of_no_param? {before : Option Literal} {kind : TokenKind}
    (h : param? before kind = none) : kind.key? = none := by
  cases kind <;> first | rfl | cases h

/-- The default of a parameter is the constant in front of it. -/
theorem default_of_param? {before : Option Literal} {kind : TokenKind} {p : ParamRef}
    (h : param? before kind = some p) :
    (p.default = none ∨ p.default = before) ∧ p.nullBound = false := by
  cases kind with
  | param q =>
    cases h
    refine ⟨?_, rfl⟩
    cases q.attached
    · exact .inl rfl
    · exact .inr rfl
  | hostParam name =>
    cases h
    exact ⟨.inl rfl, rfl⟩
  | _ => cases h

/-- The constant that is held behind a token. -/
def held? (before : Option Token) : Option (Literal × List Char) :=
  before.bind fun t => (literal? t.kind).map (·, t.lexeme)

/-- The text of the constant that is held. -/
def heldText (before : Option Token) : List Char := ((held? before).map (·.2)).getD []

/-- A token is the end of a fragment, or it is copied or held. -/
theorem ofTokens_cons {copied : List Char} {before : Option Token} {t : Token} {ts : List Token}
    (h : ofTokens copied (held? before) (t :: ts) = .ok parts) :
    (∃ p behind, param? ((held? before).map (·.1)) t.kind = some p ∧
      ofTokens [] none ts = .ok behind ∧
      parts = ofText (if p.default.isSome then copied else copied ++ heldText before ++ t.gap) ++
        .param p :: behind) ∨
      param? ((held? before).map (·.1)) t.kind = none ∧ ∃ copied',
        copied' ++ heldText (some t) = copied ++ heldText before ++ t.source ∧
        ofTokens copied' (held? (some t)) ts = .ok parts := by
  have behindCut {x : Except SqlError (List Fragment)} {front : List Fragment} {p : ParamRef}
      (h : x.map (front ++ .param p :: ·) = .ok parts) :
      ∃ behind, x = .ok behind ∧ parts = front ++ .param p :: behind := by
    cases x with
    | error e => cases h
    | ok behind =>
      cases h
      exact ⟨behind, rfl, rfl⟩
  unfold heldText
  generalize held? before = held at h ⊢
  unfold ofTokens at h
  split at h
  · cases h
  · split at h
    · rename_i p l lexeme param
      obtain ⟨behind, rest, parts⟩ := behindCut h
      exact .inl ⟨p, behind, param, rest, parts⟩
    · rename_i p param
      obtain ⟨behind, rest, parts⟩ := behindCut h
      have bare : p.default = none := by
        rcases (default_of_param? param).1 with default | default <;> exact default
      refine .inl ⟨p, behind, param, rest, ?_⟩
      rw [parts, bare, Option.map_none, Option.getD_none, List.append_nil]
      rfl
    · rename_i param
      refine .inr ⟨param, ?_⟩
      rw [held?, Option.bind_some]
      dsimp only at h
      split at h
      all_goals
        rename_i literal
        rw [literal]
        refine ⟨_, ?_, h⟩
        simp [Token.source]

/-- Texts are cut off only around parameters. -/
theorem separated_ofTokens {copied : List Char} {before : Option Token} {ts : List Token}
    (h : ofTokens copied (held? before) ts = .ok parts) : Separated parts := by
  induction ts generalizing copied before parts with
  | nil =>
    cases h
    exact separated_ofText _
  | cons t ts ih =>
    rcases ofTokens_cons h with ⟨p, behind, -, rest, rfl⟩ | ⟨-, copied', -, rest⟩
    · have first : ofTokens [] (held? none) ts = .ok behind := rest
      have apart : Separated behind := ih first
      exact apart.param _ p
    · exact ih rest

/-- A parameter with a default stands behind the constant that is its default. -/
theorem exists_default {before : Option Token} {kind : TokenKind} {p : ParamRef} {l : Literal}
    (h : param? ((held? before).map (·.1)) kind = some p) (default : p.default = some l) :
    ∃ constant, before = some constant ∧ literal? constant.kind = some l ∧
      heldText before = constant.lexeme := by
  have last : (held? before).map (·.1) = some l := by
    rcases (default_of_param? h).1 with none | same
    · rw [default] at none
      cases none
    · rw [← same, default]
  cases before with
  | none => cases last
  | some constant =>
    rw [held?, Option.bind_some, Option.map_map] at last
    obtain ⟨l', literal, same⟩ := Option.map_eq_some_iff.1 last
    cases same
    refine ⟨constant, rfl, literal, ?_⟩
    rw [heldText, held?, Option.bind_some, literal]
    rfl

/-- The placeholder `t` is cut out, with the constant in front of it if that is the default. -/
theorem exists_cutout {before : Option Token} {t : Token} {p : ParamRef} (copied : List Char)
    (param : param? ((held? before).map (·.1)) t.kind = some p) :
    ∃ default, Cutout.StandsFor ⟨default, t⟩ p ∧
      Cutout.tokens ⟨default, t⟩ <:+ before.toList ++ [t] ∧
      (if p.default.isSome then copied else copied ++ heldText before ++ t.gap) ++
        Cutout.source ⟨default, t⟩ = copied ++ heldText before ++ t.source := by
  have key := key?_of_param? param
  have unmarked := (default_of_param? param).2
  cases default : p.default with
  | none =>
    refine ⟨none, ⟨key, by rw [default]; rfl, unmarked⟩, List.suffix_append before.toList [t], ?_⟩
    simp [Cutout.source, source]
  | some l =>
    obtain ⟨constant, rfl, literal, text⟩ := exists_default param default
    refine ⟨some constant, ⟨key, ?_, unmarked⟩, List.suffix_rfl, ?_⟩
    · rw [default, Option.map_some, Option.map_some, literal]
    · rw [text]
      simp [Cutout.source]

/-- The text of the tokens is cut around those that declare a key. The token `before` is the one in
front of them, and has been copied unless it is a constant. -/
theorem exists_cuts {copied : List Char} {before : Option Token} {ts : List Token}
    (solid : ∀ t ∈ ts, t.isPlaceholder → t.lexeme ≠ [] ∧ Trimmed t.lexeme)
    (h : ofTokens copied (held? before) ts = .ok parts) :
    ∃ cuts, Cut parts cuts (trimEnd (copied ++ heldText before ++ ts.flatMap source)) ∧
      cuts.map Cutout.placeholder = ts.filter Token.isPlaceholder ∧
      ∀ c ∈ cuts, c.tokens <:+: before.toList ++ ts := by
  induction ts generalizing copied before parts with
  | nil =>
    cases h
    have spelled := Cut.nil.ofText (trimEnd (copied ++ heldText before))
    simp only [List.append_nil] at spelled
    refine ⟨[], ?_, rfl, List.forall_mem_nil _⟩
    rwa [List.flatMap_nil, List.append_nil]
  | cons t ts ih =>
    have solid' (u : Token) (hu : u ∈ ts) := solid u (List.mem_cons_of_mem t hu)
    rcases ofTokens_cons h with ⟨p, behind, param, rest, rfl⟩ | ⟨noParam, copied', text, rest⟩
    · have key : t.isPlaceholder := by rw [isPlaceholder, key?_of_param? param]; rfl
      obtain ⟨filled, trimmed⟩ := solid t List.mem_cons_self key
      -- Only what stands behind the placeholder is trimmed.
      have kept : trimEnd (copied ++ heldText before ++ (t :: ts).flatMap source) =
          copied ++ heldText before ++ t.source ++ trimEnd (ts.flatMap source) := by
        rw [List.flatMap_cons, ← List.append_assoc, trimEnd_append]
        exact (trimmed.append_of_ne_nil filled t.gap).append_of_ne_nil (by simp [filled]) _
      have first : ofTokens [] (held? none) ts = .ok behind := rest
      obtain ⟨cuts, cut, placeholders, inside⟩ := ih solid' first
      obtain ⟨default, here, last, text⟩ := exists_cutout copied param
      have spelled := (cut.param here).ofText
        (if p.default.isSome then copied else copied ++ heldText before ++ t.gap)
      rw [← List.append_assoc, text] at spelled
      refine ⟨⟨default, t⟩ :: cuts, kept ▸ spelled, ?_, List.forall_mem_cons.2 ⟨?_, fun c hc => ?_⟩⟩
      · rw [List.map_cons, placeholders, List.filter_cons_of_pos key]
      · exact last.isInfix.trans ⟨[], ts, by simp⟩
      · exact (inside c hc).trans ⟨before.toList ++ [t], [], by simp⟩
    · obtain ⟨cuts, cut, placeholders, inside⟩ := ih solid' rest
      refine ⟨cuts, ?_, ?_, fun c hc => (inside c hc).trans ?_⟩
      · rwa [text, List.append_assoc] at cut
      · rw [placeholders, List.filter_cons_of_neg (by simp [isPlaceholder, key?_of_no_param? noParam])]
      · exact (List.suffix_append before.toList (t :: ts)).isInfix

/-- A parameter behind a text and a parameter is this one, or stands behind it. -/
theorem eq_or_exists_of_param {cs : List Char} {q p : ParamRef} {more front behind : List Fragment}
    (h : ofText cs ++ .param q :: more = front ++ .param p :: behind) :
    (front = ofText cs ∧ q = p) ∨
      ∃ next, front = ofText cs ++ .param q :: next ∧ more = next ++ .param p :: behind := by
  rcases List.append_eq_append_iff.1 h with ⟨between, whole, split⟩ | ⟨between, whole, split⟩
  · cases between with
    | nil =>
      cases split
      exact .inl ⟨whole.trans (List.append_nil _), rfl⟩
    | cons part between =>
      cases split
      exact .inr ⟨between, whole, rfl⟩
  · cases between with
    | nil =>
      cases split
      exact .inl ⟨(whole.trans (List.append_nil _)).symm, rfl⟩
    | cons part between =>
      cases split
      exact absurd (by simp [whole]) (param_notMem_ofText p cs)

/-- A parameter stands where its cutout stands among the tokens. The token `before` is the one in
front of them, and has been copied unless it is a constant. -/
theorem exists_cut_at {copied : List Char} {before : Option Token} {ts : List Token}
    {front behind : List Fragment} {p : ParamRef}
    (h : ofTokens copied (held? before) ts = .ok (front ++ .param p :: behind)) :
    ∃ c us after cuts text, Cutout.StandsFor c p ∧ before.toList ++ ts = us ++ c.tokens ++ after ∧
      Cut front cuts text ∧ (∀ e ∈ cuts, e.placeholder ∈ ts ∧ e.placeholder.isPlaceholder) ∧
      text ++ c.source ++ after.flatMap source = copied ++ heldText before ++ ts.flatMap source := by
  induction ts generalizing copied before front with
  | nil =>
    have whole : ofText (trimEnd (copied ++ heldText before)) = front ++ .param p :: behind :=
      Except.ok.inj h
    exact absurd (by simp [whole]) (param_notMem_ofText p (trimEnd (copied ++ heldText before)))
  | cons t ts ih =>
    rcases ofTokens_cons h with ⟨q, rest, param, cut, parts⟩ | ⟨noParam, copied', text, cut⟩
    · obtain ⟨default, here, ⟨us, last⟩, spelled⟩ := exists_cutout copied param
      generalize (if q.default.isSome then copied else copied ++ heldText before ++ t.gap) = between
        at parts spelled
      have first : before.toList ++ t :: ts = us ++ Cutout.tokens ⟨default, t⟩ ++ ts := by simp [last]
      rcases eq_or_exists_of_param parts.symm with ⟨rfl, rfl⟩ | ⟨next, rfl, rfl⟩
      · have cutText := Cut.nil.ofText between
        rw [List.append_nil, List.append_nil] at cutText
        refine ⟨_, us, ts, [], between, here, first, cutText, List.forall_mem_nil _, ?_⟩
        rw [spelled, List.flatMap_cons, List.append_assoc (copied ++ heldText before)]
      · -- The parameter stands behind the one that `t` stands for.
        have placeholder : t.isPlaceholder := by rw [isPlaceholder, key?_of_param? param]; rfl
        have later : ofTokens [] (held? none) ts = .ok (next ++ .param p :: behind) := cut
        obtain ⟨c, vs, after, cuts, text, standsFor, tokens, cutFront, members, rest⟩ := ih later
        replace tokens : ts = vs ++ c.tokens ++ after := tokens
        have nothing : [] ++ heldText none = [] := rfl
        rw [nothing, List.nil_append] at rest
        refine ⟨c, us ++ Cutout.tokens ⟨default, t⟩ ++ vs, after, _, _, standsFor, ?_,
          (cutFront.param here).ofText between, List.forall_mem_cons.2 ⟨⟨List.mem_cons_self,
            placeholder⟩, fun e he => (members e he).imp_left (List.mem_cons_of_mem t)⟩, ?_⟩
        · rw [first]
          simp only [tokens, List.append_assoc]
        · rw [List.flatMap_cons, ← List.append_assoc (copied ++ heldText before), ← spelled, ← rest]
          simp only [List.append_assoc]
    · obtain ⟨c, us, after, cuts, X, here, tokens, cutFront, members, spelled⟩ := ih cut
      refine ⟨c, before.toList ++ us, after, cuts, X, here, ?_, cutFront,
        fun e he => (members e he).imp_left (List.mem_cons_of_mem t), ?_⟩
      · simp only [List.append_assoc] at tokens ⊢
        rw [← tokens]
        rfl
      · rw [spelled, text, List.flatMap_cons, List.append_assoc (copied ++ heldText before)]

/-- What nothing is cut out of is one fragment, or none if it is empty. -/
theorem Cut.eq_ofText (h : Cut parts [] rest) (separated : Separated parts) :
    parts = Fragment.ofText rest := by
  cases h with
  | nil => rfl
  | text t behind =>
    cases behind with
    | nil =>
      have filled : t.toList ≠ [] := by simpa using separated.nonempty t List.mem_cons_self
      rw [List.append_nil, Fragment.ofText, if_neg (by simpa using filled), String.ofList_toList]
    | text t' =>
      rcases (List.isChain_cons_cons.1 separated.apart).1 with first | second
      · cases first
      · cases second

end Fragment

/-! ## Statements -/

namespace Grammar

open Parse

/-- The grammar takes every statement apart. -/
theorem yields_decomposed (r : Nested) : Yields (fun b => ∀ parts, b ≠ .verbatim parts) (body r) := by
  refine yields_after fun k => ?_
  split
  · refine yields_mapped fun q => ?_
    cases q <;> exact nofun
  · refine yields_mapped fun q => ?_
    cases q <;> exact nofun
  all_goals first
    | exact yields_mapped fun _ => nofun
    | exact yields_after fun _ => yields_mapped fun _ => nofun
    | exact yields_fail _

end Grammar

/-- A statement that is kept as text is cut out of the tokens. -/
theorem Piece.ofTokens_of_verbatim {s : ParseSettings} {p : Piece} {parts : List Fragment}
    (h : p.body s = .ok (.verbatim parts)) :
    Fragment.ofTokens [] none (p.innerTokens s.dialect) = .ok parts := by
  rcases body_cases h with ⟨parts', same, kept⟩ | read
  · cases same
    exact kept
  · exact absurd rfl (Body.of_ofTokens (Grammar.yields_decomposed _) read parts)

namespace Statement

variable {s : ParseSettings} {delimiter text : List Char} {st : Statement} {parts : List Fragment}

/-- The fragments of a statement are cut out of the text that it keeps. -/
theorem Parsed.ofTokens_of_verbatim (h : st.Parsed s delimiter text) (kept : st.body = .verbatim parts) :
    Fragment.ofTokens [] none (st.tokens s.dialect) = .ok parts := by
  obtain ⟨p, ts, ⟨kind, gap, lexeme, place⟩, pos, read, inner, eof, empty, trimmed⟩ :=
    h.exists_tokens
  cases eof
  cases empty
  have cut := Piece.ofTokens_of_verbatim (kept ▸ (Piece.read_eq_ok_iff.1 read).1)
  obtain ⟨blanks, blank, spelled⟩ := exists_blanks gap
  rw [inner, spelled, Fragment.ofTokens_endAt blank place pos, ← trimmed,
    Fragment.ofTokens_shift] at cut
  cases own : Fragment.ofTokens [] none (st.tokens s.dialect) with
  | error e =>
    rw [own] at cut
    cases cut
  | ok parts' =>
    rw [own] at cut
    exact cut

/-- The text of a statement does not end with a blank. -/
theorem Parsed.trimmed_sql (h : st.Parsed s delimiter text) : Trimmed st.sql.toList := by
  obtain ⟨-, p, -, -, read, -⟩ := h.exists_piece
  rw [(Piece.read_eq_ok_iff.1 read).2.2.2.1, String.toList_ofList]
  exact trimmed_trimEnd p.text

/-- The placeholders of a statement do not end with a blank. -/
theorem Parsed.solid_placeholder (h : st.Parsed s delimiter text) {t : Token}
    (member : t ∈ st.tokens s.dialect) (placeholder : t.isPlaceholder) :
    t.lexeme ≠ [] ∧ Trimmed t.lexeme := by
  refine ⟨?_, Lexer.trimmed_lexeme rfl member (h.holds.1.ne_error member)⟩
  rcases Lexer.scanned_of_mem_tokens member with ⟨eof, -⟩ | ⟨n, c, cs, -, lexeme⟩
  · rw [Token.isPlaceholder, eof] at placeholder
    cases placeholder
  · rw [lexeme]
    exact List.cons_ne_nil _ _

/-- A statement that is kept as text loses nothing of it: its fragments, with what is cut out for
the parameters, spell it. What is cut out stands in it, and in order. The texts between the
parameters are not empty. -/
theorem Parsed.exists_cuts (h : st.Parsed s delimiter text) (kept : st.body = .verbatim parts) :
    Fragment.Separated parts ∧ ∃ cuts, Fragment.Cut parts cuts st.sql.toList ∧
      cuts.map Cutout.placeholder = (st.tokens s.dialect).filter Token.isPlaceholder ∧
      ∀ c ∈ cuts, c.tokens <:+: st.tokens s.dialect := by
  have own := h.ofTokens_of_verbatim kept
  have first : Fragment.ofTokens [] (Fragment.held? none) (st.tokens s.dialect) = .ok parts := own
  obtain ⟨cuts, cut, placeholders, inside⟩ := Fragment.exists_cuts (fun t => h.solid_placeholder) first
  have whole : trimEnd ((st.tokens s.dialect).flatMap source) = st.sql.toList := by
    rw [tokens, Lexer.flatMap_source_tokens]
    exact trimEnd_of_trimmed h.trimmed_sql
  replace cut : Fragment.Cut parts cuts st.sql.toList := whole ▸ cut
  exact ⟨Fragment.separated_ofTokens first, cuts, cut, placeholders, inside⟩

/-- A parameter of a statement that is kept as text stands where its placeholder stood among the
tokens, with the constant in front of it if that is its default. -/
theorem Parsed.exists_cut_at (h : st.Parsed s delimiter text)
    (kept : st.body = .verbatim (front ++ .param p :: behind)) :
    ∃ c ts after cuts, Cutout.StandsFor c p ∧ st.tokens s.dialect = ts ++ c.tokens ++ after ∧
      Fragment.Cut front cuts (ts.flatMap source ++ c.first.gap) ∧
      ∀ e ∈ cuts, e.placeholder ∈ st.tokens s.dialect ∧ e.placeholder.isPlaceholder := by
  have own : Fragment.ofTokens [] (Fragment.held? none) (st.tokens s.dialect) =
      .ok (front ++ .param p :: behind) := h.ofTokens_of_verbatim kept
  obtain ⟨c, ts, after, cuts, spelled, standsFor, tokens, cut, members, text⟩ :=
    Fragment.exists_cut_at own
  replace tokens : st.tokens s.dialect = ts ++ c.tokens ++ after := tokens
  refine ⟨c, ts, after, cuts, standsFor, tokens, ?_, members⟩
  have nothing : [] ++ Fragment.heldText none = [] := rfl
  rw [nothing, List.nil_append, tokens, List.flatMap_append, List.flatMap_append,
    c.flatMap_source_tokens, ← List.append_assoc (ts.flatMap source)] at text
  rwa [← List.append_cancel_right (List.append_cancel_right text)]

end Statement

end BoundSql
