import BoundSql.Proofs.Grammar.Formed
import BoundSql.Proofs.Render.Usable
import BoundSql.Proofs.Render.Verbatim

/-!
# What tests for NULL change

When comparisons with NULL become tests, nothing goes but parameters that are bound to NULL and may
be, and none of these is compared any more with what is no parameter:
`Statement.Parsed.leaves_testForNulls`.
-/

namespace BoundSql

variable {isNull : ParamRef → Bool}

/-! ## Comparisons -/

namespace Expr

/-- If the expression is a comparison, it has two sides, and a parameter that is NULL stands on one
only beside a parameter on the other. -/
def ComparesApart (isNull : ParamRef → Bool) (e : Expr) : Prop :=
  ∀ op operands, e = operation op operands → op = .eq ∨ op = .diff →
    ∃ a b, operands = [a, b] ∧ (a.isNullParam isNull → b.param?.isSome) ∧
      (b.isNullParam isNull → a.param?.isSome)

theorem ComparesApart.mono {isNull' : ParamRef → Bool} {e : Expr} (h : e.ComparesApart isNull)
    (fewer : ∀ p, isNull' p → isNull p) : e.ComparesApart isNull' := by
  have null {x : Expr} (hx : x.isNullParam isNull') : x.isNullParam isNull := by
    cases x with
    | param p => exact fewer p hx
    | _ => cases hx
  intro op operands same comparison
  obtain ⟨a, b, sides, left, right⟩ := h op operands same comparison
  exact ⟨a, b, sides, fun ha => left (null ha), fun hb => right (null hb)⟩

theorem comparedWithNull?_eq_none {a b : Expr} (h : comparedWithNull? isNull a b = none) :
    (a.isNullParam isNull → b.param?.isSome) ∧ (b.isNullParam isNull → a.param?.isSome) := by
  unfold comparedWithNull? at h
  split at h
  · cases h
  · rename_i right
    split at h
    · cases h
    · rename_i left
      simp only [Bool.and_eq_true, not_and, Option.isNone_iff_eq_none] at left right
      exact ⟨fun null => Option.isSome_iff_ne_none.2 (left null),
        fun null => Option.isSome_iff_ne_none.2 (right null)⟩

/-- A comparison that the test for NULL leaves alone has no NULL to test for. -/
theorem comparesApart_of_testForNull {e : Expr} (formed : e.FormedHere)
    (fixed : testForNull isNull e = e) : e.ComparesApart isNull := by
  rintro op operands rfl comparison
  have two : operands.length = 2 := by
    rcases comparison with rfl | rfl <;>
      simpa [FormedHere, Operator.acceptsOperands, Operator.arity] using formed
  obtain ⟨a, b, rfl⟩ := List.length_eq_two.1 two
  have nothing : comparedWithNull? isNull a b = none := by
    cases compared : comparedWithNull? isNull a b with
    | none => rfl
    | some x =>
      rcases comparison with rfl | rfl <;> simp [testForNull, compared] at fixed
  exact ⟨a, b, rfl, comparedWithNull?_eq_none nothing⟩

/-- A test for NULL has as many operands as it takes. -/
theorem formedHere_testForNull {e : Expr} (h : e.FormedHere) :
    (testForNull isNull e).FormedHere := by
  rcases testForNull_cases isNull e with same | ⟨op, a, b, x, -, -, test | test⟩
  · rwa [same]
  · rw [test]
    rfl
  · rw [test]
    rfl

theorem formedHere_mapBelow {f : Expr → Expr} {e : Expr} (h : e.FormedHere) :
    (e.mapBelow f).FormedHere := by
  cases e with
  | operation op operands =>
    change op.acceptsOperands (operands.map _).length = true
    rwa [List.length_map]
  | cases base arms otherwise =>
    have arms' : arms ≠ [] := h
    exact mt List.map_eq_nil_iff.1 arms'
  | _ => exact h

end Expr

/-! ## What tests keep -/

/-- What is said of expressions and queries holds of what the tests for NULL make of them. -/
structure KeptByTests (isNull : ParamRef → Bool) (P : Expr → Prop) (Q : Query → Prop) : Prop where
  tested : ∀ e, P e → P (Expr.testForNull isNull e)
  below : ∀ e, P e → P (e.mapBelow (Expr.testForNull isNull))
  marked : ∀ p, P (.param p) → P (.param { p with nullBound := true })
  query : ∀ q, Q q → Q (q.mapped (Expr.testForNull isNull))

theorem keptByTests_formedHere : KeptByTests isNull Expr.FormedHere fun _ => True where
  tested _ := Expr.formedHere_testForNull
  below _ := Expr.formedHere_mapBelow
  marked _ h := h
  query _ h := h

namespace KeptByTests

variable {P : Expr → Prop} {Q : Query → Prop} {b : Body}

theorem everywhere_markNull (kept : KeptByTests isNull P Q) {e : Expr} (h : e.Everywhere P Q) :
    (e.markNull isNull).Everywhere P Q := by
  cases e with
  | param p =>
    rw [Expr.markNull]
    split
    · exact .leaf (kept.marked p h.here) rfl rfl
    · exact h
  | _ => exact h

/-- What holds everywhere in a statement holds everywhere in the tested statement. -/
theorem everywhere_testForNulls (kept : KeptByTests isNull P Q)
    (parts : ∀ e ∈ b.parts, e.Everywhere P Q) (queries : ∀ q ∈ b.queries, q.Everywhere P Q) :
    (∀ e ∈ (b.testForNulls isNull).parts, e.Everywhere P Q) ∧
      ∀ q ∈ (b.testForNulls isNull).queries, q.Everywhere P Q := by
  obtain ⟨mappedExpr, mappedQuery⟩ := everywhere_mapped
    (fun e he => ⟨kept.tested e he.here, fun x hx => he.parts x (Expr.parts_testForNull hx),
      fun q hq => he.queries q (Expr.queries_testForNull hq)⟩) kept.below kept.query
  have marked : ∀ e ∈ (b.markNulls isNull).parts, e.Everywhere P Q := by
    cases b with
    | update u =>
      intro e he
      rw [Body.markNulls, Body.parts, List.map_map] at he
      rcases List.mem_append.1 he with value | condition
      · obtain ⟨a, ha, rfl⟩ := List.mem_map.1 value
        exact kept.everywhere_markNull
          (parts a.value (List.mem_append_left _ (List.mem_map.2 ⟨a, ha, rfl⟩)))
      · exact parts e (List.mem_append_right _ condition)
    | verbatim => exact List.forall_mem_nil _
    | _ => exact parts
  have same : (b.markNulls isNull).queries = b.queries := by cases b <;> rfl
  constructor
  · rw [Body.testForNulls, Body.parts_map]
    exact List.forall_mem_map.2 fun e he => mappedExpr e (marked e he)
  · rw [Body.testForNulls, Body.queries_map, same]
    exact List.forall_mem_map.2 fun q hq => mappedQuery q (queries q hq)

end KeptByTests

namespace Body

variable {b : Body}

/-- In the expressions of a tested statement nothing is left to test. -/
theorem testForNull_exprs : ∀ e ∈ (b.testForNulls isNull).exprs, e.testForNull isNull = e := by
  have fixed := everywhere_mapped_fixed (f := Expr.testForNull isNull) Expr.testForNull_testForNull
    (fun _ _ => Expr.parts_testForNull) fun _ _ => Expr.queries_testForNull
  have exprs := everywhere_exprs (b := b.testForNulls isNull)
    (P := fun x => x.testForNull isNull = x) (Q := fun _ => True) (by
      rw [testForNulls, parts_map]
      exact List.forall_mem_map.2 fun e _ => fixed.1 e) (by
      rw [testForNulls, queries_map]
      exact List.forall_mem_map.2 fun q _ => fixed.2 q)
  exact fun e he => (exprs e he).here

/-- The operators of a tested statement have as many operands as they take. -/
theorem everywhere_formedHere (h : b.Formed) :
    (∀ e ∈ (b.testForNulls isNull).parts, e.Everywhere Expr.FormedHere fun _ => True) ∧
      ∀ q ∈ (b.testForNulls isNull).queries, q.Everywhere Expr.FormedHere fun _ => True :=
  keptByTests_formedHere.everywhere_testForNulls
    (fun e he => (h.parts e he).mono (fun _ hx => hx) fun _ _ => trivial)
    fun q hq => (h.queries q hq).mono (fun _ hx => hx) fun _ _ => trivial

theorem formedHere_exprs (h : b.Formed) : ∀ e ∈ (b.testForNulls isNull).exprs, e.FormedHere :=
  fun e he => (everywhere_exprs (everywhere_formedHere h).1 (everywhere_formedHere h).2 e he).here

end Body

/-! ## Statements -/

namespace Statement

variable {s : ParseSettings} {delimiter text : List Char} {st : Statement} {values : Bindings}

/-- Whether the table says that the parameter may be NULL, and NULL is bound to it. -/
def bindsNull (st : Statement) (values : Bindings) (p : ParamRef) : Bool :=
  st.params.specs.any fun spec => spec.key = p.key && spec.nullok && values.isNull spec.name

/-- A statement that is read is formed. -/
theorem Parsed.formed (h : st.Parsed s delimiter text) : st.body.Formed := by
  obtain ⟨p, read, -⟩ := h.exists_words
  rcases Piece.ofTokens_of_body (Piece.read_eq_ok_iff.1 read).1 with ⟨parts, verbatim⟩ | taken
  · rw [verbatim]
    exact ⟨List.forall_mem_nil _, List.forall_mem_nil _, nofun⟩
  · exact Body.formed_ofTokens taken

/-- A parameter that is bound to NULL and may be is written as NULL. -/
theorem Parsed.holdsNull_of_bindsNull (h : st.Parsed s delimiter text) {p : ParamRef}
    (null : st.bindsNull values p) : p.holdsNull st.params values := by
  obtain ⟨spec, member, bound⟩ := List.any_eq_true.1 null
  simp only [Bool.and_eq_true, decide_eq_true_eq] at bound
  obtain ⟨⟨key, nullok⟩, isNull⟩ := bound
  have found : st.params.get? p.key = some spec := key ▸ (h.get?_specs member).1
  have named : values.isNull p.key.display := by
    rw [← key]
    exact isNull
  rw [ParamRef.holdsNull, found, named, Bool.and_true]
  exact Bool.or_eq_true_iff.2 (.inr nullok)

/-- A parameter of the text is written as NULL just if it is bound to NULL and may be. -/
theorem Parsed.holdsNull_eq (h : st.Parsed s delimiter text) {p : ParamRef}
    (member : p ∈ st.body.params) : p.holdsNull st.params values = st.bindsNull values p := by
  rw [Bool.eq_iff_iff]
  refine ⟨fun null => ?_, h.holdsNull_of_bindsNull⟩
  obtain ⟨spec, inside, key, found⟩ := h.get?_params member
  rw [ParamRef.holdsNull, h.holds.1.nullBound member, found, Bool.false_or] at null
  obtain ⟨nullok, isNull⟩ := Bool.and_eq_true_iff.1 null
  have named : values.isNull spec.name := by rwa [ParamSpec.name, key]
  exact List.any_eq_true.2 ⟨spec, inside, by simp [key, nullok, named]⟩

/-- When comparisons with NULL become tests, the text and the table of a statement stay. Of its
parameters only those that are bound to NULL and may be go, or are marked; all others stay, in their
order, with their defaults and without a mark. No parameter that is NULL is left in a comparison
with what is no parameter. Where no parameter is NULL nothing changes. -/
theorem Parsed.leaves_testForNulls (h : st.Parsed s delimiter text) (values : Bindings) :
    (st.testForNulls values).sql = st.sql ∧ (st.testForNulls values).params = st.params ∧
      Leaves (st.bindsNull values) st.body.params (st.testForNulls values).body.params ∧
      (st.testForNulls values).body.params.filter (!st.bindsNull values ·) =
        st.body.params.filter (!st.bindsNull values ·) ∧
      (∀ p ∈ (st.testForNulls values).body.params, st.bindsNull values p = false →
        p.nullBound = false) ∧
      (∀ e ∈ (st.testForNulls values).body.exprs, e.ComparesApart (st.bindsNull values)) ∧
      ((∀ spec ∈ st.params.specs, spec.nullok → values.isNull spec.name = false) →
        st.testForNulls values = st) := by
  have leaves : Leaves (st.bindsNull values) st.body.params (st.testForNulls values).body.params :=
    (Body.leaves_params st.body).congr fun p member => h.holdsNull_eq member
  have kept := leaves.filter_eq fun _ => rfl
  refine ⟨rfl, rfl, leaves, kept, fun p member notNull => ?_, fun e he => ?_, fun none => ?_⟩
  · have survives : p ∈ (st.testForNulls values).body.params.filter (!st.bindsNull values ·) :=
      List.mem_filter.2 ⟨member, by rw [notNull]; rfl⟩
    rw [kept] at survives
    exact h.holds.1.nullBound (List.mem_of_mem_filter survives)
  · exact (Expr.comparesApart_of_testForNull (Body.formedHere_exprs h.formed e he)
      (Body.testForNull_exprs e he)).mono fun p => h.holdsNull_of_bindsNull
  · refine h.testForNulls_eq_self fun p member => ?_
    rw [h.holdsNull_eq member, bindsNull, List.any_eq_false]
    intro spec inside bound
    simp only [Bool.and_eq_true, decide_eq_true_eq] at bound
    rw [none spec inside bound.1.2] at bound
    cases bound.2

/-- `UPDATE t SET a = ##p::int::null WHERE b = ##p AND c <> :q`. -/
def ofAssignment : Statement where
  sql := "UPDATE t SET a = ##p::int::null WHERE b = ##p AND c <> :q"
  body := .update
    { table := ⟨["t"]⟩
      onConflict := none
      assignments := [⟨"a", .param (.ofKey (.named "p"))⟩]
      condition := some (.operation .and
        [.operation .eq [.name ⟨["b"]⟩, .param (.ofKey (.named "p"))],
          .operation .diff [.name ⟨["c"]⟩, .param (.ofKey (.named "q"))]]) }
  params := ⟨[⟨.named "p", none, some "int", true⟩, ⟨.named "q", none, none, false⟩], []⟩

theorem parsed_ofAssignment : ofAssignment.Parsed {} [] ofAssignment.sql.toList := by
  let ts : List Token :=
    [.onLine (.keyword .UPDATE) "" "UPDATE" 0, .onLine (.identifier "t") " " "t" 7,
      .onLine (.keyword .SET) " " "SET" 9, .onLine (.identifier "a") " " "a" 13,
      .onLine (.punct .eq) " " "=" 15,
      .onLine (.param ⟨.named "p", some "int", none, true, false⟩) " " "##p::int::null" 17,
      .onLine (.keyword .WHERE) " " "WHERE" 32, .onLine (.identifier "b") " " "b" 38,
      .onLine (.punct .eq) " " "=" 40,
      .onLine (.param ⟨.named "p", none, none, false, false⟩) " " "##p" 42,
      .onLine (.keyword .AND) " " "AND" 46, .onLine (.identifier "c") " " "c" 50,
      .onLine (.punct .notEq) " " "<>" 52, .onLine (.hostParam "q") " " ":q" 55]
  let p : Piece := .onLine ts 57
  have found : ((Script.ofText [] ofAssignment.sql.toList).settle .standard).piece {} = .ok p := by
    decide +kernel
  have inner : p.innerTokens .standard = ts ++ [p.terminator] := by decide +kernel
  exact parsed_of_piece found nofun inner rfl rfl rfl rfl rfl rfl

/-- With NULL bound to `p`, the new value is marked, the parameter behind `b =` goes, and `q` stays. -/
theorem Parsed.leaves_testForNulls_assignment :
    ofAssignment.Parsed {} [] ofAssignment.sql.toList ∧
      (ofAssignment.testForNulls ⟨[("p", .null)]⟩).body.params =
        [⟨.named "p", none, true⟩, .ofKey (.named "q")] ∧
      Leaves (ofAssignment.bindsNull ⟨[("p", .null)]⟩) ofAssignment.body.params
        [⟨.named "p", none, true⟩, .ofKey (.named "q")] ∧
      ofAssignment.testForNulls ⟨[("q", .null)]⟩ = ofAssignment := by
  have left : (ofAssignment.testForNulls ⟨[("p", .null)]⟩).body.params =
      [⟨.named "p", none, true⟩, .ofKey (.named "q")] := by rfl
  obtain ⟨-, -, leaves, -⟩ := parsed_ofAssignment.leaves_testForNulls ⟨[("p", .null)]⟩
  obtain ⟨-, -, -, -, -, -, same⟩ := parsed_ofAssignment.leaves_testForNulls ⟨[("q", .null)]⟩
  exact ⟨parsed_ofAssignment, left, left ▸ leaves, same (by decide +kernel)⟩

end Statement

end BoundSql
