import BoundSql.Proofs.Param.Key
import BoundSql.Proofs.Token.Placeholder
import BoundSql.Render.Param

/-!
# Notations of parameters

A parameter can be written as `##name::type::NULL`, as a comment with attributes, or as `:name`. If
its entry can be spelled in the notation, the text is one token that declares the entry again:
`RenderContext.spells_paramText`.
-/

namespace BoundSql

open Text Token

namespace ParamSpec

open Placeholder

variable {s : ParamSpec} {d : Dialect}

/-! ## The short notation -/

/-- The short notation can spell the entry: name and type consist of its characters and do not run
into its marks, and no name looks like an offset. -/
structure ShortReadable (s : ParamSpec) : Prop where
  nonempty : s.name.toList ≠ []
  body : Placeholder.bodyOf s.name.toList = s.name.toList
  single : Placeholder.IsSection s.name.toList
  unsigned : ∀ n, s.key = .named n → ParamKey.isSigned n.toList = false
  type : ∀ t ∈ s.typeName, t.toList ≠ [] ∧ (∀ c ∈ t.toList, Placeholder.isBodyChar c) ∧
    Placeholder.IsSection t.toList

/-- What stands behind the name in the short notation. -/
def shortTail (s : ParamSpec) : List Char :=
  (match s.typeName with
    | some t => ':' :: ':' :: t.toList
    | none => if s.nullok then [':', ':'] else []) ++
  if s.nullok then "::NULL".toList else []

theorem ShortReadable.legible (h : s.ShortReadable) : s.key.Legible := by
  cases key : s.key with
  | offset n => exact ParamKey.legible_offset n
  | named n =>
    have legible := ParamKey.legible_named (h.unsigned n key)
    rwa [String.ofList_toList] at legible

/-- The pieces of the short notation. -/
theorem ShortReadable.sections (h : s.ShortReadable) : ∃ more nullok,
    Placeholder.sections (s.name.toList ++ s.shortTail) = s.name.toList :: more ∧ more.length ≤ 2 ∧
      Placeholder.modifier (s.name.toList :: more) = .ok nullok ∧ nullok = s.nullok ∧
      ((s.name.toList :: more)[1]?.bind Placeholder.nonempty?).map String.ofList = s.typeName := by
  have null : Placeholder.sections "NULL".toList = ["NULL".toList] := by decide
  unfold shortTail
  cases type : s.typeName with
  | none =>
    cases nullok : s.nullok with
    | false => exact ⟨[], false, by simpa using h.single.1, by simp, rfl, rfl, rfl⟩
    | true =>
      have split := Placeholder.sections_append h.single (':' :: ':' :: "NULL".toList)
      rw [Placeholder.sections, null] at split
      exact ⟨[[], "NULL".toList], true, split, by simp, Placeholder.modifier_null _ _, rfl, rfl⟩
  | some t =>
    obtain ⟨nonempty, -, single⟩ := h.type t type
    have kept : (Placeholder.nonempty? t.toList).map String.ofList = some t := by
      simp [Placeholder.nonempty?, nonempty]
    cases nullok : s.nullok with
    | false =>
      have split := Placeholder.sections_append h.single t.toList
      rw [single.1] at split
      exact ⟨[t.toList], false, by simpa using split, by simp, rfl, rfl, kept⟩
    | true =>
      have split := Placeholder.sections_append h.single (t.toList ++ ':' :: ':' :: "NULL".toList)
      rw [Placeholder.sections_append single, null] at split
      exact ⟨[t.toList, "NULL".toList], true, split, by simp, Placeholder.modifier_null _ _, rfl, kept⟩

theorem ShortReadable.bodyOf (h : s.ShortReadable) :
    Placeholder.bodyOf (s.name.toList ++ s.shortTail) = s.name.toList ++ s.shortTail := by
  have marks : ∀ c ∈ "::NULL".toList, Placeholder.isBodyChar c := by decide
  refine Placeholder.bodyOf_append h.nonempty h.body ?_
  unfold shortTail
  refine List.forall_mem_append.2 ⟨?_, ?_⟩
  · split
    · rename_i t type
      have colon : Placeholder.isBodyChar ':' := by decide
      exact List.forall_mem_cons.2 ⟨colon, List.forall_mem_cons.2 ⟨colon, (h.type t type).2.1⟩⟩
    · split <;> decide
  · split
    · exact marks
    · nofun

/-- The short notation is one token. -/
theorem ShortReadable.spells (h : s.ShortReadable) :
    Spells d ('#' :: '#' :: (s.name.toList ++ s.shortTail))
      [⟨.param { key := s.key, typeName := s.typeName, descr := none, nullok := s.nullok,
                 attached := false }, '#' :: '#' :: (s.name.toList ++ s.shortTail)⟩] := by
  obtain ⟨more, nullok, split, few, modified, rfl, type⟩ := h.sections
  refine Placeholder.spells_body (by simp [h.nonempty]) h.bodyOf ?_
  have read : ParamKey.read s.name.toList = s.key := h.legible
  rw [Placeholder.ofBody_of_sections split few h.nonempty modified, type, read]
  intro n named
  rw [read] at named
  have shown : s.name = n := by
    rw [name, named]
    rfl
  rw [shown]
  exact h.unsigned n named

/-! ## The notation as a comment -/

/-- The attributes of the entry. -/
def attributes (s : ParamSpec) : List Attribute :=
  ⟨"name".toList, Dialect.delimited '"' s.name.toList, s.name.toList⟩ ::
    ((s.typeName.map fun t => ⟨"type".toList, t.toList, t.toList⟩).toList ++
      ((s.descr.map fun t => ⟨"descr".toList, Dialect.delimited '"' t.toList, t.toList⟩).toList ++
        if s.nullok then [⟨"nullok".toList, "true".toList, "true".toList⟩] else []))

/-- A comment can spell the entry: its type has no blanks and does not begin with a quote, and no
mark of a comment ends it early. -/
structure LongReadable (s : ParamSpec) : Prop where
  legible : s.key.Legible
  nonempty : s.name.toList ≠ []
  type : ∀ t ∈ s.typeName, t.toList ≠ [] ∧ (∀ c ∈ t.toList, isBlank c = false) ∧
    t.toList.head? ≠ some '"'
  content : IsContent (Attribute.textOf s.attributes ++ [' '])

theorem LongReadable.reads (h : s.LongReadable) : ∀ a ∈ s.attributes, a.Reads := by
  have key : ∀ k ∈ ["name", "type", "descr", "nullok"], k.toList ≠ [] ∧
      ∀ c ∈ k.toList, c ≠ ':' ∧ isBlank c = false := by decide
  simp only [List.forall_mem_cons] at key
  obtain ⟨name, type, descr, nullok, -⟩ := key
  unfold attributes
  refine List.forall_mem_cons.2 ⟨.quoted name.1 name.2 _, ?_⟩
  refine List.forall_mem_append.2 ⟨fun a ha => ?_, List.forall_mem_append.2 ⟨fun a ha => ?_, ?_⟩⟩
  · obtain ⟨t, ht, rfl⟩ := Option.map_eq_some_iff.1 (Option.mem_toList.1 ha)
    obtain ⟨nonempty, solid, unquoted⟩ := h.type t ht
    exact .bare type.1 type.2 nonempty solid unquoted
  · obtain ⟨t, -, rfl⟩ := Option.map_eq_some_iff.1 (Option.mem_toList.1 ha)
    exact .quoted descr.1 descr.2 _
  · split
    · exact List.forall_mem_singleton.2
        (.bare nullok.1 nullok.2 (by decide) (by decide) (by decide))
    · nofun

/-- What the attributes say together. -/
theorem foldl_put_attributes (s : ParamSpec) :
    s.attributes.foldl (fun found a => found.put a.key a.value) Attributes.empty =
      ⟨some s.name.toList, s.typeName.map String.toList, s.descr.map String.toList, s.nullok⟩ := by
  have name (a : Attributes) (v : List Char) : a.put "name".toList v = { a with name := some v } := by
    rw [Attributes.put, String.ofList_toList]
    rfl
  have type (a : Attributes) (v : List Char) :
      a.put "type".toList v = { a with typeName := some v } := by
    rw [Attributes.put, String.ofList_toList]
    rfl
  have descr (a : Attributes) (v : List Char) :
      a.put "descr".toList v = { a with descr := some v } := by
    rw [Attributes.put, String.ofList_toList]
    rfl
  have nullok (a : Attributes) : a.put "nullok".toList "true".toList = { a with nullok := true } := by
    have same : sameWord "true".toList "true".toList = true := by decide
    rw [Attributes.put, String.ofList_toList, same]
    rfl
  unfold attributes
  rw [List.foldl_cons, name]
  cases s.typeName <;> cases s.descr <;> cases s.nullok <;>
    simp only [Option.map_none, Option.map_some, Option.toList, List.nil_append, List.cons_append,
      List.foldl_cons, List.foldl_nil, if_true, Bool.false_eq_true, if_false, type, descr, nullok] <;>
    rfl

/-- The notation as a comment is one token. -/
theorem LongReadable.spells (h : s.LongReadable) :
    Spells d ('#' :: '#' :: ' ' :: '/' :: '*' ::
        ((Attribute.textOf s.attributes ++ [' ']) ++ ['*', '/']))
      [⟨.param { key := s.key, typeName := s.typeName, descr := s.descr, nullok := s.nullok,
                 attached := false }, '#' :: '#' :: ' ' :: '/' :: '*' ::
        ((Attribute.textOf s.attributes ++ [' ']) ++ ['*', '/'])⟩] := by
  refine spells_comment h.content ?_
  have read : ParamKey.read s.name.toList = s.key := h.legible
  have named : nonempty? s.name.toList = some s.name.toList := by
    simp [nonempty?, h.nonempty]
  have type : ((s.typeName.map String.toList).bind nonempty?).map String.ofList = s.typeName := by
    cases hs : s.typeName with
    | none => rfl
    | some t => simp [nonempty?, (h.type t hs).1]
  have descr : (s.descr.map String.toList).map String.ofList = s.descr := by
    cases s.descr <;> simp
  unfold ofComment
  rw [Attribute.trim_textOf h.reads, Attribute.readAttributes_textOf h.reads,
    foldl_put_attributes]
  dsimp only [bind, Except.bind]
  rw [Option.bind_some, named]
  dsimp only
  rw [read, type, descr]

/-! ## The notation with a colon -/

/-- A colon and the name can stand for the parameter. -/
structure ColonReadable (s : ParamSpec) : Prop where
  start : startsName s.name.toList
  chars : ∀ c ∈ s.name.toList, isWordChar c

/-- A colon and a name are one token. -/
theorem ColonReadable.spells (h : s.ColonReadable) :
    Spells d (':' :: s.name.toList) [⟨.hostParam s.name, ':' :: s.name.toList⟩] := by
  obtain ⟨c, cs, name⟩ : ∃ c cs, s.name.toList = c :: cs := by
    refine List.exists_cons_of_ne_nil fun empty => ?_
    have start := h.start
    rw [empty] at start
    cases start
  have run : s.name.toList.takeWhile isWordChar = s.name.toList :=
    List.takeWhile_eq_self_iff.2 h.chars
  have digit : ((s.name.toList.head?.map Char.isDigit).getD false) = false := by
    have start := h.start
    rw [name, startsName_cons] at start
    simpa [name] using isDigit_of_isNameStart start
  have nonempty : s.name.toList.isEmpty = false := by simp [name]
  have scanned : scanHost 0 ':' s.name.toList = (.hostParam s.name, s.name.toList.length) := by
    unfold scanHost
    simp only [digit, run, nonempty, Char.reduceEq, Bool.false_eq_true, if_false, Bool.not_false,
      if_true, String.ofList_toList]
  refine spells_token (by decide) (by simp [commentLead]) ?_ (by simp) (by simp)
  have hscan : Token.scan d.lexicon 0 ':' s.name.toList = scanHost 0 ':' s.name.toList := by
    have plain : Token.scan d.lexicon 0 ':' s.name.toList = scanPlain d.lexicon 0 ':' s.name.toList := by
      simp [Token.scan, commentLead]
    have noName : startsName [':'] = false := by decide
    rw [plain, scanPlain, noName, h.start]
    simp
  rw [hscan, scanned]

/-! ## All notations -/

/-- The entry can be spelled in the notation. -/
def Readable (s : ParamSpec) : ParamStyle → Prop
  | .short => s.ShortReadable
  | .long => s.LongReadable
  | .colon => s.ColonReadable
  | .inline | .dollar | .qmark | .uqmark => False

/-- What the notation says of the entry. The short one has no description, the one with a colon only
the name. -/
def noted (s : ParamSpec) : ParamStyle → ParamSpec
  | .short => { s with descr := none }
  | .colon => .ofHost s.name
  | .long | .inline | .dollar | .qmark | .uqmark => s

end ParamSpec

/-- What a token of this kind declares. -/
def TokenKind.declared? : TokenKind → Option ParamSpec
  | .param p => some (.ofPlaceholder p)
  | .hostParam name => some (.ofHost name)
  | _ => none

theorem ParamTable.key_of_get? {t : ParamTable} {key : ParamKey} {s : ParamSpec}
    (h : t.get? key = some s) : s.key = key := by
  have found := List.find?_some h
  exact eq_of_beq found

namespace RenderContext

variable {r : RenderContext} {key : ParamKey} {s : ParamSpec}

theorem nullok_of_entry (entry : r.params.get? key = some s) : r.nullok key = s.nullok := by
  rw [nullok, entry]
  rfl

theorem toList_shortText (entry : r.params.get? key = some s) :
    (r.shortText key).toList = '#' :: '#' :: (s.name.toList ++ s.shortTail) := by
  rw [shortText, nullok_of_entry entry, entry, ← ParamTable.key_of_get? entry, ParamSpec.shortTail]
  cases type : s.typeName <;> cases s.nullok <;> simp [type, ParamSpec.name]

theorem toList_longText (entry : r.params.get? key = some s) :
    (r.longText key).toList = '#' :: '#' :: ' ' :: '/' :: '*' ::
      ((Placeholder.Attribute.textOf s.attributes ++ [' ']) ++ ['*', '/']) := by
  rw [longText, nullok_of_entry entry, entry, ← ParamTable.key_of_get? entry,
    ParamSpec.attributes]
  cases type : s.typeName <;> cases descr : s.descr <;> cases s.nullok <;>
    simp [type, descr, ParamSpec.name, Placeholder.Attribute.textOf, quoteAttribute]

/-- If the entry of a parameter can be spelled in the notation that is used, the parameter is written
as one token that says of it what the notation can say. -/
theorem spells_paramText {p : ParamRef} {used : List String} {text : String}
    (entry : r.params.get? p.key = some s) (bound : p.nullBound = false)
    (readable : s.Readable r.settings.style) (written : r.paramText p used = .ok text) :
    ∃ w, Spells r.dialect text.toList [w] ∧ w.kind.declared? = some (s.noted r.settings.style) := by
  unfold paramText at written
  rw [bound, if_neg (by simp)] at written
  cases style : r.settings.style with
  | short =>
    rw [style] at readable written
    cases written
    rw [toList_shortText entry]
    exact ⟨_, ParamSpec.ShortReadable.spells readable, rfl⟩
  | long =>
    rw [style] at readable written
    cases written
    rw [toList_longText entry]
    exact ⟨_, ParamSpec.LongReadable.spells readable, rfl⟩
  | colon =>
    rw [style] at readable written
    cases written
    have shown : (":" ++ p.key.display).toList = ':' :: s.name.toList := by
      rw [← ParamTable.key_of_get? entry]
      simp [ParamSpec.name]
    rw [shown]
    exact ⟨_, ParamSpec.ColonReadable.spells readable, rfl⟩
  | inline | dollar | qmark | uqmark =>
    rw [style] at readable
    exact readable.elim

end RenderContext

end BoundSql
