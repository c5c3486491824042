import BoundSql.Proofs.Binding.Anonymous
import BoundSql.Render.Renderer

/-!
# Numbered placeholders

A renderer whose placeholders are numbered writes every parameter as the place of its name among the
different names that the run reports, although the number is taken while the list is being made:
`Renderer.render_numbered`. What the list has become in the end begins with what it was at the time,
and so do the different names in it.
-/

namespace BoundSql

open Phrase Render

/-! ## The different names of a list -/

section DistinctNames

variable {name : String} {names more : List String}

/-- One more name stands behind the others, unless it is one of them. -/
theorem distinctNames_concat (name : String) (names : List String) :
    distinctNames (names ++ [name]) =
      distinctNames names ++ if name ∈ names then [] else [name] := by
  induction names with
  | nil => simp [distinctNames]
  | cons first names ih =>
    rw [List.cons_append, distinctNames, ih, distinctNames, List.filter_append, List.cons_append]
    by_cases same : name = first
    · simp [same]
    · split <;> simp_all

theorem mem_distinctNames : name ∈ distinctNames names ↔ name ∈ names := by
  induction names with
  | nil => rfl
  | cons first names ih =>
    rw [distinctNames, List.mem_cons, List.mem_filter, ih, List.mem_cons]
    by_cases same : name = first <;> simp [same]

theorem nodup_distinctNames (names : List String) : (distinctNames names).Nodup := by
  induction names with
  | nil => exact List.nodup_nil
  | cons first names ih =>
    rw [distinctNames, List.nodup_cons]
    exact ⟨by simp, ih.filter _⟩

/-- What is first in a list is first among its different names. -/
theorem distinctNames_prefix (h : names <+: more) : distinctNames names <+: distinctNames more := by
  obtain ⟨behind, rfl⟩ := h
  induction behind generalizing names with
  | nil => rw [List.append_nil]
  | cons name behind ih =>
    have longer := @ih (names ++ [name])
    rw [List.append_assoc, List.singleton_append, distinctNames_concat] at longer
    exact (List.prefix_append ..).trans longer

/-- A name is numbered by its place among the different ones, a new one by the next place. -/
theorem ordinalOf_eq (name : String) (names : List String) :
    ordinalOf name names = (distinctNames names).idxOf name + 1 := by
  rw [List.idxOf, List.findIdx_eq_getD_findIdx?, ordinalOf]
  cases (distinctNames names).findIdx? (· == name) <;> rfl

/-- The number that a name takes is the number that it keeps. -/
theorem ordinalOf_of_prefix (h : names ++ [name] <+: more) :
    ordinalOf name names = ordinalOf name more := by
  have own : (distinctNames names).idxOf name = (distinctNames (names ++ [name])).idxOf name := by
    rw [distinctNames_concat]
    split
    · rw [List.append_nil]
    · rename_i new
      rw [List.idxOf_append_of_notMem (mem_distinctNames.not.2 new),
        List.idxOf_of_notMem (mem_distinctNames.not.2 new), List.idxOf_cons_self, Nat.add_zero]
  have member : name ∈ distinctNames (names ++ [name]) := mem_distinctNames.2 (by simp)
  obtain ⟨behind, whole⟩ := distinctNames_prefix h
  rw [ordinalOf_eq, ordinalOf_eq, own, ← whole, List.idxOf_append_of_mem member]

/-- A name of the list has the number of its place among the different ones, and nothing else has
it. -/
theorem ordinalOf_eq_iff (member : name ∈ names) (k : Nat) :
    ordinalOf name names = k + 1 ↔ (distinctNames names)[k]? = some name := by
  have found := mem_distinctNames.2 member
  rw [ordinalOf_eq, Nat.add_right_cancel_iff]
  constructor
  · rintro rfl
    exact List.getElem?_idxOf found
  · intro here
    obtain ⟨bound, rfl⟩ := List.getElem?_eq_some_iff.1 here
    exact (nodup_distinctNames names).idxOf_getElem k bound

end DistinctNames

/-! ## Numbered placeholders and names -/

/-- The sign in front of the numbers, in the notations with numbered placeholders. -/
def ParamStyle.sigil? : ParamStyle → Option String
  | .dollar => some "$"
  | .qmark => some "?"
  | _ => none

theorem ParamStyle.sigil?_eq_some {style : ParamStyle} {sigil : String}
    (h : style.sigil? = some sigil) :
    style = .dollar ∧ sigil = "$" ∨ style = .qmark ∧ sigil = "?" := by
  cases style <;> cases h
  · exact .inl ⟨rfl, rfl⟩
  · exact .inr ⟨rfl, rfl⟩

/-- The placeholder of a parameter shows the number that its name takes. -/
theorem RenderContext.paramText_numbered {r : RenderContext} {sigil : String}
    (style : r.settings.style.sigil? = some sigil) {p : ParamRef} (unmarked : p.nullBound = false)
    (used : List String) :
    r.paramText p used = .ok (sigil ++ toString (ordinalOf p.key.display used)) := by
  rw [paramText, unmarked]
  rcases ParamStyle.sigil?_eq_some style with ⟨same, rfl⟩ | ⟨same, rfl⟩ <;> rw [same] <;> rfl

namespace TwoWays

/-- A numbered placeholder for every one of the parameters that is not marked as NULL, or `:name`. -/
def numbered (r : RenderContext) (ps : List ParamRef) {sigil : String}
    (style : r.settings.style.sigil? = some sigil) : TwoWays where
  context := r
  firstStyle := r.settings.style
  secondStyle := .colon
  firstValues := r.values
  secondValues := r.values
  Hole e s₁ s₂ := e.param ∈ ps ∧
    if !e.param.nullBound then
      s₁ = sigil ++ toString (ordinalOf e.name e.before) ∧ s₂ = ":" ++ e.name
    else s₁ = s₂
  opens := by
    rintro e s₁ s₂ p₁ p₂ ⟨-, here⟩ opens
    split at here
    · obtain ⟨rfl, rfl⟩ := here
      rcases ParamStyle.sigil?_eq_some style with ⟨-, rfl⟩ | ⟨-, rfl⟩ <;> simp [opensWithMinus]
    · subst here
      unfold opensWithMinus
      cases s₁.toList with
      | nil => exact opens
      | cons => rfl
  InOrder := False

variable {r : RenderContext} {ps : List ParamRef} {sigil : String}
  {style : r.settings.style.sigil? = some sigil}

theorem paramAlike_numbered {p : ParamRef} (member : p ∈ ps) :
    (numbered r ps style).ParamAlike p := by
  have alike {used : List String} {s₁ s₂ : String} (here : if !p.nullBound then
      s₁ = sigil ++ toString (ordinalOf p.key.display used) ∧ s₂ = ":" ++ p.key.display
      else s₁ = s₂) : (numbered r ps style).Alike [⟨p, used⟩] [.text s₁] [.text s₂] :=
    ⟨_, .hole ⟨member, here⟩ .nil, .refl _, fun _ => rfl⟩
  refine parallel_param fun used => .inr ?_
  cases marked : p.nullBound with
  | true =>
    refine ⟨"NULL", "NULL", ?_, ?_, alike (by rw [marked]; rfl)⟩
    · rw [RenderContext.paramText, marked]
      rfl
    · rw [RenderContext.paramText, marked]
      rfl
  | false =>
    refine ⟨sigil ++ toString (ordinalOf p.key.display used), ":" ++ p.key.display, ?_, ?_,
      alike (by rw [marked]; exact ⟨rfl, rfl⟩)⟩
    · exact RenderContext.paramText_numbered (r := (numbered r ps style).first) style marked used
    · rw [RenderContext.paramText, marked]
      rfl

end TwoWays

/-- With numbered placeholders a statement is written as with `:name`, each place in the text being
filled in with the number that its name has in the end. -/
theorem RenderContext.body_numbered {r : RenderContext} {b : Body} {sigil : String}
    (style : r.settings.style.sigil? = some sigil) {p₁ : Phrase} {used : List String}
    (given : Gives (r.body b) [] p₁ used) :
    ∃ (p₂ : Phrase) (ps : List ParamRef) (t : Template),
      Gives (RenderContext.body { r with settings := { r.settings with style := .colon } } b) []
        p₂ used ∧
      (∀ p ∈ ps, p ∈ b.params) ∧
      used = ps.map (·.key.display) ∧
      t.names.Perm ((ps.filter (!·.nullBound)).map (·.key.display)) ∧
      String.ofList (p₁.write r.settings.pretty) =
        t.fill (fun name => sigil ++ toString (ordinalOf name used)) ∧
      String.ofList (p₂.write r.settings.pretty) = t.fill (":" ++ ·) := by
  let ways : TwoWays := .numbered r b.params style
  have alike : Parallel ways.Alike (ways.first.body b) (ways.second.body b) :=
    TwoWays.parallel_body (fun p hp => TwoWays.paramAlike_numbered hp)
      (Body.everyQuery_of_forall (fun _ => False.elim) b)
  obtain ⟨p₂, ps, rfl, given₂, es, holes, perm, -⟩ := alike.of_gives given
  have texts (e : Entry) (member : e ∈ es) (s₁ s₂ : String) (here : ways.Hole e s₁ s₂) :
      if !e.param.nullBound then
        s₁ = sigil ++ toString (ordinalOf e.name ([] ++ ps.map (·.key.display))) ∧
          s₂ = ":" ++ e.name
      else s₁ = s₂ := by
    rw [← ordinalOf_of_prefix (Entry.before_prefix (perm.mem_iff.1 member))]
    exact here.2
  obtain ⟨t, names, first, second⟩ := holes.exists_template
    (f := fun name => sigil ++ toString (ordinalOf name ([] ++ ps.map (·.key.display))))
    (g := (":" ++ ·)) (fun e => !e.param.nullBound) texts r.settings.pretty
  refine ⟨p₂, ps, t, given₂, fun p member => ?_, List.nil_append _, ?_, first, second⟩
  · have entered : p ∈ (Entry.ofParams [] ps).map Entry.param := by
      rwa [Entry.map_param_ofParams]
    obtain ⟨e, entry, rfl⟩ := List.mem_map.1 entered
    obtain ⟨_, _, inBody, -⟩ := holes.exists_texts e (perm.mem_iff.2 entry)
    exact inBody
  · have shown : (((Entry.ofParams [] ps).map Entry.param).filter (!·.nullBound)).map
        (·.key.display) =
        ((Entry.ofParams [] ps).filter fun e => !e.param.nullBound).map Entry.name := by
      rw [List.filter_map, List.map_map]
      rfl
    rw [Entry.map_param_ofParams] at shown
    rw [names, shown]
    exact (perm.filter _).map _

/-! ## Renderers -/

namespace Renderer

/-- A run gives the text of the statement, whatever was recorded before. -/
theorem render_eq (w : Renderer) :
    w.render = (w.statement.write w.values w.settings w.dialect).map id
      fun used => { w with used } := by
  have outcome : w.run.run.run w.used = (start (w.context.body w.statement.body)).map
      (Except.map fun p => String.ofList (p.write w.settings.pretty)) id := by
    rw [run, run_bind]
    change (w.context.body w.statement.body >>= _ : Render String).run.run [] = _
    rw [run_bind, start]
    generalize (w.context.body w.statement.body).run.run [] = out
    obtain ⟨answer, used⟩ := out
    cases answer <;> rfl
  rw [render, outcome]
  rfl

/-- The same renderer with another notation for parameters. -/
def inStyle (w : Renderer) (style : ParamStyle) : Renderer :=
  { w with settings := { w.settings with style } }

/-- Where placeholders are numbered, every parameter that is not marked as NULL is written as the
place of its name among the different ones that are reported, counted from one. The text with `:name`
says which placeholder stands for which parameter, and another run gives the same. -/
theorem render_numbered (w : Renderer) {sigil text : String} {done : Renderer}
    (style : w.settings.style.sigil? = some sigil) (given : w.render = (.ok text, done)) :
    done.render = (.ok text, done) ∧
      ∃ (ps : List ParamRef) (number : String → Nat) (t : Template),
        (∀ p ∈ ps, p ∈ w.statement.body.params) ∧
        done.used = ps.map (·.key.display) ∧
        (∀ name ∈ done.used, ∀ k,
          number name = k + 1 ↔ (distinctNames done.used)[k]? = some name) ∧
        t.names.Perm ((ps.filter (!·.nullBound)).map (·.key.display)) ∧
        text = t.fill (fun name => sigil ++ toString (number name)) ∧
        (w.inStyle .colon).render = (.ok (t.fill (":" ++ ·)), done.inStyle .colon) := by
  have write (v : Renderer) : v.render = (start (v.context.body v.statement.body)).map
      (Except.map fun p => String.ofList (p.write v.settings.pretty))
      fun used => { v with used } := v.render_eq
  have again : (start (w.context.body w.statement.body)).map
      (Except.map fun p => String.ofList (p.write w.settings.pretty))
      (fun used => { w with used }) = (.ok text, done) := (write w).symm.trans given
  cases outcome : start (w.context.body w.statement.body) with
  | mk answer used =>
    rw [outcome] at again
    obtain ⟨texts, rfl⟩ := Prod.mk.inj again
    cases answer with
    | error e => exact nomatch texts
    | ok p₁ =>
      obtain rfl := Except.ok.inj texts
      refine ⟨?_, ?_⟩
      · rw [write]
        exact congrArg _ outcome
      · obtain ⟨p₂, ps, t, given₂, members, names, places, first, second⟩ :=
          RenderContext.body_numbered style outcome
        refine ⟨ps, (ordinalOf · used), t, members, names, fun name member k =>
          ordinalOf_eq_iff member k, places, first, ?_⟩
        rw [write, ← second]
        exact congrArg _ given₂

/-- `SELECT :b, :a, :c, :b, :a`, the first `:a` marked as NULL. -/
def ofRepeated : Renderer where
  statement :=
    { sql := "SELECT :b, :a, :c, :b, :a"
      body := .select (Select.ofColumns [⟨.param (.ofKey (.named "b")), none⟩,
        ⟨.param { ParamRef.ofKey (.named "a") with nullBound := true }, none⟩,
        ⟨.param (.ofKey (.named "c")), none⟩, ⟨.param (.ofKey (.named "b")), none⟩,
        ⟨.param (.ofKey (.named "a")), none⟩])
      params := ⟨[], []⟩ }
  values := .empty
  settings := { style := .dollar }
  dialect := .postgresql

/-- A parameter that is marked as NULL takes a number without showing it, and is shown with it where
it stands unmarked. -/
theorem render_numbered_repeated :
    ofRepeated.settings.style.sigil? = some "$" ∧
      ofRepeated.render = (.ok "SELECT $1, NULL, $3, $1, $2",
        { ofRepeated with used := ["b", "a", "c", "b", "a"] }) ∧
      ∃ (number : String → Nat) (t : Template),
        (∀ name ∈ ["b", "a", "c", "b", "a"], ∀ k,
          number name = k + 1 ↔ ["b", "a", "c"][k]? = some name) ∧
        "SELECT $1, NULL, $3, $1, $2" = t.fill fun name => "$" ++ toString (number name) := by
  have written : ofRepeated.statement.write .empty { style := .dollar } .postgresql =
      (.ok "SELECT $1, NULL, $3, $1, $2", ["b", "a", "c", "b", "a"]) := by decide +kernel
  have given : ofRepeated.render = (.ok "SELECT $1, NULL, $3, $1, $2",
      { ofRepeated with used := ["b", "a", "c", "b", "a"] }) :=
    ofRepeated.render_eq.trans (congrArg _ written)
  obtain ⟨-, ps, number, t, -, -, numbers, -, text, -⟩ := ofRepeated.render_numbered rfl given
  exact ⟨rfl, given, number, t, numbers, text⟩

end Renderer

end BoundSql
