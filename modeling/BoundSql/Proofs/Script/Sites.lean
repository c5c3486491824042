import BoundSql.Proofs.Script.Cutout
import BoundSql.Value

/-!
# The places of parameters among tokens

The tokens of a statement that is kept as text fall into sites: a token that is kept, or what is cut
out for a parameter. `Statement.sites` are these sites, and `Statement.sites_spec` says what
they are: together they are the tokens of the statement, in the place of each parameter stands its
placeholder, with the constant in front of it if that is its default, and every other token is kept.
-/

namespace BoundSql

open Text Token

/-- A token that is kept, or the place of a parameter. -/
inductive Site
  | kept (t : Token)
  | param (c : Cutout) (p : ParamRef)

namespace Site

/-- The tokens in the site. -/
def tokens : Site → List Token
  | kept t => [t]
  | param c _ => c.tokens

/-- What stands between the site and the one in front of it. -/
def gap : Site → List Char
  | kept t => t.gap
  | param c _ => c.first.gap

/-- The parameter whose place the site is. -/
def ref? : Site → Option ParamRef
  | kept _ => none
  | param _ p => some p

/-- The sites of the tokens, `before` being the token in front of them that is not in a site yet. -/
def ofTokens (before : Option Token) : List Token → List Site
  | [] => before.toList.map kept
  | t :: ts =>
    match Fragment.param? ((Fragment.held? before).map (·.1)) t.kind with
    | some p =>
      if p.default.isSome then param ⟨before, t⟩ p :: ofTokens none ts
      else before.toList.map kept ++ param ⟨none, t⟩ p :: ofTokens none ts
    | none => before.toList.map kept ++ ofTokens (some t) ts

/-- A site keeps what is no placeholder and puts what stands for a parameter in its place. -/
def Fits : Site → Prop
  | kept t => t.isPlaceholder = false
  | param c p => c.StandsFor p

/-- The text of the site, its parameter being written as its value. -/
def written (d : Dialect) (value : ParamRef → Value) : Site → List Char
  | kept t => t.lexeme
  | param _ p => ((value p).sql d false).toList

/-- The text of sites, with what stands between them. -/
def text (d : Dialect) (value : ParamRef → Value) (sites : List Site) : List Char :=
  sites.flatMap fun site => site.gap ++ site.written d value

variable {d : Dialect} {value : ParamRef → Value} {before : Option Token} {ts : List Token}

/-- The tokens fall into the sites. -/
theorem flatMap_tokens_ofTokens (before : Option Token) (ts : List Token) :
    (ofTokens before ts).flatMap tokens = before.toList ++ ts := by
  have keptTokens (ts : List Token) : (ts.map kept).flatMap tokens = ts := by
    induction ts with
    | nil => rfl
    | cons t ts ih => exact congrArg (t :: ·) ih
  induction ts generalizing before with
  | nil => rw [ofTokens, keptTokens, List.append_nil]
  | cons t ts ih =>
    unfold ofTokens
    split
    · split
      · simp [ih, tokens, Cutout.tokens]
      · simp [ih, tokens, Cutout.tokens, keptTokens]
    · simp [ih, keptTokens]

theorem fits_kept (plain : ∀ t, before = some t → t.isPlaceholder = false) :
    ∀ site ∈ before.toList.map kept, site.Fits := by
  intro site member
  obtain ⟨t, here, rfl⟩ := List.mem_map.1 member
  exact plain t (Option.mem_toList.1 here)

/-- Placeholders are put in their places, with the constants that are their defaults, and other
tokens are kept. -/
theorem fits_ofTokens (plain : ∀ t, before = some t → t.isPlaceholder = false) :
    ∀ site ∈ ofTokens before ts, site.Fits := by
  induction ts generalizing before with
  | nil => exact fits_kept plain
  | cons t ts ih =>
    have behind := @ih none (fun _ => nofun)
    unfold ofTokens
    split
    · rename_i p param
      have key := Fragment.key?_of_param? param
      have unmarked := (Fragment.default_of_param? param).2
      split
      · rename_i default
        obtain ⟨l, default⟩ := Option.isSome_iff_exists.1 default
        obtain ⟨constant, rfl, literal, -⟩ := Fragment.exists_default param default
        refine List.forall_mem_cons.2 ⟨⟨key, ?_, unmarked⟩, behind⟩
        rw [default, Option.map_some, Option.map_some, literal]
      · rename_i bare
        have default : p.default = none := by simpa using bare
        have here : Fits (.param ⟨none, t⟩ p) := ⟨key, by rw [default]; rfl, unmarked⟩
        exact List.forall_mem_append.2 ⟨fits_kept plain, List.forall_mem_cons.2 ⟨here, behind⟩⟩
    · rename_i noParam
      refine List.forall_mem_append.2 ⟨fits_kept plain, ih ?_⟩
      intro u here
      cases here
      simp [Token.isPlaceholder, Fragment.key?_of_no_param? noParam]

theorem filterMap_ref?_kept (ts : List Token) : (ts.map kept).filterMap ref? = [] := by
  induction ts with
  | nil => rfl
  | cons t ts ih => exact ih

theorem text_kept (ts : List Token) : text d value (ts.map kept) = ts.flatMap source := by
  rw [text, List.flatMap_map]
  rfl

theorem text_append (sites more : List Site) :
    text d value (sites ++ more) = text d value sites ++ text d value more :=
  List.flatMap_append

theorem text_cons (site : Site) (sites : List Site) :
    text d value (site :: sites) = site.gap ++ site.written d value ++ text d value sites :=
  List.flatMap_cons

end Site

namespace Fragment

/-- The text of the fragment, its parameter being written as its value. -/
def written (d : Dialect) (value : ParamRef → Value) : Fragment → List Char
  | .text t => t.toList
  | .param p => ((value p).sql d false).toList

variable {d : Dialect} {value : ParamRef → Value} {copied front : List Char} {before : Option Token}
  {ts : List Token} {parts : List Fragment}

theorem flatMap_written_ofText (cs : List Char) : (ofText cs).flatMap (written d value) = cs := by
  unfold ofText
  split
  · rename_i empty
    exact (List.isEmpty_iff.1 empty).symm
  · simp [written]

/-- Fragments are written as the sites that they were cut into. -/
theorem written_ofTokens (d : Dialect) (value : ParamRef → Value)
    (h : ofTokens copied (held? before) ts = .ok parts)
    (spelled : copied ++ heldText before = front ++ before.toList.flatMap source)
    (trimmed : Trimmed (copied ++ heldText before ++ ts.flatMap source)) :
    parts.flatMap (written d value) = front ++ Site.text d value (Site.ofTokens before ts) ∧
      parts.filterMap ref? = (Site.ofTokens before ts).filterMap Site.ref? := by
  induction ts generalizing copied front before parts with
  | nil =>
    cases h
    rw [List.flatMap_nil, List.append_nil] at trimmed
    have whole : copied ++ ((held? before).map (·.2)).getD [] = copied ++ heldText before := rfl
    rw [whole, trimEnd_of_trimmed trimmed, spelled, flatMap_written_ofText, filterMap_ref?_ofText,
      Site.ofTokens, Site.text_kept, Site.filterMap_ref?_kept]
    exact ⟨rfl, rfl⟩
  | cons t ts ih =>
    rw [List.flatMap_cons, ← List.append_assoc] at trimmed
    rcases ofTokens_cons h with ⟨p, behind, param, rest, rfl⟩ | ⟨noParam, copied', text, rest⟩
    · have first : ofTokens [] (held? none) ts = .ok behind := rest
      have apart : [] ++ heldText none = [] ++ (none : Option Token).toList.flatMap source := rfl
      obtain ⟨written, refs⟩ := ih first apart trimmed.right
      simp only [List.flatMap_append, List.flatMap_cons, List.filterMap_append, List.filterMap_cons,
        flatMap_written_ofText, filterMap_ref?_ofText, written, refs, Site.ofTokens, param]
      cases default : p.default with
      | none =>
        rw [Option.isSome_none, if_neg Bool.false_ne_true, if_neg Bool.false_ne_true,
          Site.text_append, Site.text_cons, Site.text_kept, List.filterMap_append,
          Site.filterMap_ref?_kept, spelled]
        refine ⟨?_, rfl⟩
        simp [Site.gap, Site.written, Fragment.written, Cutout.first]
      | some l =>
        obtain ⟨constant, rfl, -, text⟩ := exists_default param default
        -- The constant is not copied, only what stands in front of it.
        have front : copied = front ++ constant.gap := by
          rw [text, Option.toList_some, List.flatMap_singleton, source, ← List.append_assoc] at spelled
          exact List.append_cancel_right spelled
        rw [Option.isSome_some, if_pos rfl, if_pos rfl, Site.text_cons, front]
        refine ⟨?_, rfl⟩
        simp [Site.gap, Site.written, Fragment.written, Cutout.first]
    · rw [Site.ofTokens, noParam]
      have spelled' : copied' ++ heldText (some t) =
          front ++ before.toList.flatMap source ++ (some t).toList.flatMap source := by
        rw [text, spelled]
        simp
      obtain ⟨written, refs⟩ := ih rest spelled' (text ▸ trimmed)
      rw [written, refs, Site.text_append, Site.text_kept, List.filterMap_append,
        Site.filterMap_ref?_kept]
      simp

end Fragment

namespace Statement

/-- The sites of a statement that is kept as text. -/
def sites (d : Dialect) (st : Statement) : List Site := Site.ofTokens none (st.tokens d)

variable {s : ParseSettings} {delimiter text : List Char} {st : Statement} {parts : List Fragment}

/-- The sites of a statement are its tokens. In the place of each parameter stands its placeholder,
with the constant in front of it if that is its default, and every other token is kept. -/
theorem sites_spec (d : Dialect) (st : Statement) : (st.sites d).flatMap Site.tokens = st.tokens d ∧
    ∀ site ∈ st.sites d, site.Fits :=
  ⟨Site.flatMap_tokens_ofTokens none _, Site.fits_ofTokens nofun⟩

/-- The sites have the parameters of the statement, and its fragments are written as they are. -/
theorem Parsed.written_sites (h : st.Parsed s delimiter text) (kept : st.body = .verbatim parts)
    (value : ParamRef → Value) :
    parts.flatMap (Fragment.written s.dialect value) =
        Site.text s.dialect value (st.sites s.dialect) ∧
      (st.sites s.dialect).filterMap Site.ref? = st.body.params := by
  have own : Fragment.ofTokens [] (Fragment.held? none) (st.tokens s.dialect) = .ok parts :=
    h.ofTokens_of_verbatim kept
  have whole : (st.tokens s.dialect).flatMap source = st.sql.toList :=
    Lexer.flatMap_source_tokens _
  have first : [] ++ Fragment.heldText none = [] ++ (none : Option Token).toList.flatMap source := rfl
  obtain ⟨written, refs⟩ := Fragment.written_ofTokens s.dialect value own first
    (whole ▸ h.trimmed_sql)
  refine ⟨written, ?_⟩
  rw [kept]
  exact refs.symm

end Statement

end BoundSql
