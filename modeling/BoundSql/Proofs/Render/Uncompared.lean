import BoundSql.Proofs.Render.Tests

/-!
# Parameters that are compared with nothing

Whether a parameter is NULL matters for the tests for NULL only where it is compared with what is no
parameter, or stands right behind a comparison in kept text. For all others the tests are the same:
`mapped_testForNull_congr` for trees, `Fragment.foldl_pushTested_congr` for kept text.
-/

namespace BoundSql

open Text

/-! ## Trees -/

section Trees

variable {isNull isNull' isMore : ParamRef → Bool}

namespace Expr

/-- Parameters may be NULL or not, if none of them is compared with what is no parameter. -/
theorem comparedWithNull?_congr {a b : Expr} (fewer : ∀ p, isNull p → isNull' p)
    (more : ∀ p, isNull' p → isNull p ∨ isMore p) (left : a.isNullParam isMore → b.param?.isSome)
    (right : b.isNullParam isMore → a.param?.isSome) :
    comparedWithNull? isNull' a b = comparedWithNull? isNull a b := by
  have same {x y : Expr} (apart : x.isNullParam isMore → y.param?.isSome) :
      (x.isNullParam isNull' && y.param?.isNone) = (x.isNullParam isNull && y.param?.isNone) := by
    cases x with
    | param p =>
      rw [Bool.eq_iff_iff, Bool.and_eq_true_iff, Bool.and_eq_true_iff]
      refine ⟨fun ⟨null, alone⟩ => ⟨?_, alone⟩, fun ⟨null, alone⟩ => ⟨fewer p null, alone⟩⟩
      rcases more p null with null | extra
      · exact null
      · rw [Option.isNone_iff_eq_none.1 alone] at apart
        exact nomatch apart extra
    | _ => rfl
  unfold comparedWithNull?
  rw [same left, same right]

theorem testForNull_congr {e : Expr} (fewer : ∀ p, isNull p → isNull' p)
    (more : ∀ p, isNull' p → isNull p ∨ isMore p) (apart : e.ComparesApart isMore) :
    testForNull isNull' e = testForNull isNull e := by
  have compared (op : Operator) (a b : Expr) (same : e = operation op [a, b])
      (comparison : op = .eq ∨ op = .diff) :
      comparedWithNull? isNull' a b = comparedWithNull? isNull a b := by
    obtain ⟨a', b', sides, left, right⟩ := apart op _ same comparison
    cases sides
    exact comparedWithNull?_congr fewer more left right
  unfold testForNull
  split
  · rw [compared _ _ _ rfl (.inl rfl)]
  · rw [compared _ _ _ rfl (.inr rfl)]
  · rfl

/-- Tests below a comparison do not change what is compared. -/
theorem ComparesApart.mapBelow {e : Expr} (h : e.ComparesApart isMore) :
    (e.mapBelow (testForNull isNull)).ComparesApart isMore := by
  have param (x : Expr) : (mapped (testForNull isNull) x).param? = x.param? :=
    param?_mapped_testForNull x
  have null {x : Expr} (hx : (mapped (testForNull isNull) x).isNullParam isMore) :
      x.isNullParam isMore := by
    rwa [isNullParam, param] at hx
  intro op operands same comparison
  cases e with
  | operation op' operands' =>
    cases same
    obtain ⟨a, b, rfl, left, right⟩ := h op operands' rfl comparison
    refine ⟨_, _, rfl, fun ha => ?_, fun hb => ?_⟩
    · rw [param]
      exact left (null ha)
    · rw [param]
      exact right (null hb)
  | _ => cases same

end Expr

/-- The tests in a tree are the same, if the parameters that may be NULL or not are compared with no
others. -/
theorem mapped_testForNull_congr (fewer : ∀ p, isNull p → isNull' p)
    (more : ∀ p, isNull' p → isNull p ∨ isMore p) :
    (∀ e : Expr, e.Everywhere (Expr.ComparesApart isMore) (fun _ => True) →
        e.mapped (Expr.testForNull isNull') = e.mapped (Expr.testForNull isNull)) ∧
      ∀ q : Query, q.Everywhere (Expr.ComparesApart isMore) (fun _ => True) →
        q.mapped (Expr.testForNull isNull') = q.mapped (Expr.testForNull isNull) := by
  refine tree_induction (fun e hes hqs h => ?_) fun q hes hqs h => ?_
  · have below : e.mapBelow (Expr.testForNull isNull') = e.mapBelow (Expr.testForNull isNull) := by
      cases e with
      | subquery q =>
        exact congrArg Expr.subquery (hqs q (by simp [Expr.queries])
          (h.queries q (by simp [Expr.queries])))
      | _ => exact Expr.mapParts_congr fun x hx => hes x hx (h.parts x hx)
    rw [Expr.mapped_eq_mapBelow, Expr.mapped_eq_mapBelow, below]
    exact Expr.testForNull_congr fewer more h.here.mapBelow
  · exact Query.mapped_congr (fun x hx => hes x hx (h.parts x hx))
      fun q' hq' => hqs q' hq' (h.queries q' hq')

end Trees

/-! ## Kept text -/

namespace Fragment

/-- A test for NULL ends with the word NULL. -/
theorem getLast?_testForNull? {t u : String} (h : testForNull? t = some u) :
    u.toList.getLast? = some 'L' := by
  obtain ⟨⟨kept, test⟩, split, rfl⟩ := Option.map_eq_some_iff.1 h
  have last : test.toList.getLast? = some 'L' := by
    unfold splitComparison? at split
    split at split <;> cases split <;> decide
  simp [List.getLast?_append, last]

/-- A comparison that a text ends with is found behind the word NULL too. -/
theorem splitComparison?_append {u : List Char} (last : u.getLast? = some 'L') (t : List Char) :
    splitComparison? (u ++ t) = (splitComparison? t).map fun (kept, test) => (u ++ kept, test) := by
  obtain ⟨front, rfl⟩ : ∃ front, u = front ++ ['L'] := by
    rcases List.eq_nil_or_concat u with rfl | ⟨front, c, rfl⟩
    · cases last
    · rw [List.concat_eq_append, List.getLast?_concat] at last
      cases last
      exact ⟨front, List.concat_eq_append⟩
  unfold splitComparison?
  rw [trimEnd_append (notLast_concat (by decide) front), List.reverse_append, List.reverse_append,
    List.reverse_singleton, List.singleton_append]
  -- A comparison is told from at most two characters, and no comparison begins with the letter.
  match (trimEnd t).reverse with
  | [] => simp
  | [c] => by_cases sign : c = '=' <;> simp [sign]
  | c :: d :: rest =>
    rw [List.cons_append, List.cons_append]
    by_cases sign : c = '='
    · by_cases lead : d = '!' ∨ d = '<' ∨ d = '>' ∨ d = ':'
      · rcases lead with rfl | rfl | rfl | rfl <;> simp [sign]
      · simp_all
    · by_cases pair : c = '>' ∧ d = '<'
      · simp [pair]
      · simp_all

/-- A text behind the word NULL becomes the same test. -/
theorem testForNull?_append {u : String} (last : u.toList.getLast? = some 'L') (t : String) :
    testForNull? (u ++ t) = (testForNull? t).map (u ++ ·) := by
  have solid : (u.toList.getLast?.map isBlank).getD false = false := by rw [last]; rfl
  rw [testForNull?, testForNull?, String.toList_append, splitComparison?_append last, Option.map_map,
    Option.map_map]
  refine congrArg (Option.map · _) (funext fun (kept, test) => ?_)
  cases kept with
  | nil => simp [solid]
  | cons c kept => simp [List.getLast?_cons, String.append_assoc]

/-- If the fragments end with a text, it is this one, or this one behind the word NULL. -/
def EndsAs (t : String) (parts : List Fragment) : Prop :=
  ∀ front last, parts = front ++ [.text last] →
    last = t ∨ ∃ u : String, u.toList.getLast? = some 'L' ∧ last = u ++ t

variable {parts more : List Fragment} {t : String} {isNull isNull' isMore : ParamRef → Bool}

theorem endsAs_param (parts : List Fragment) (p : ParamRef) : EndsAs "" (parts ++ [.param p]) := by
  intro front last same
  cases List.append_inj_right' same rfl

theorem EndsAs.pushText (h : EndsAs "" parts) (filled : t ≠ "") :
    EndsAs t (Fragment.pushText parts t) := by
  have ht : t.isEmpty = false := by simpa using filled
  rcases List.eq_nil_or_concat parts with rfl | ⟨front, last, rfl⟩
  · rw [pushText_nil ht]
    intro front last same
    have alone : [] ++ [Fragment.text t] = front ++ [.text last] := same
    obtain ⟨-, same⟩ := List.append_inj' alone rfl
    cases same
    exact .inl rfl
  · rw [List.concat_eq_append] at h ⊢
    cases last with
    | text last =>
      rw [pushText_concat_text ht]
      intro front' last' same
      obtain ⟨-, same⟩ := List.append_inj' same rfl
      cases same
      rcases h front last rfl with rfl | ⟨u, ends, rfl⟩
      · exact .inl (by simp)
      · exact .inr ⟨u, ends, by simp⟩
    | param p =>
      rw [pushText_concat_param ht]
      intro front' last' same
      obtain ⟨-, same⟩ := List.append_inj' same rfl
      cases same
      exact .inl rfl

theorem EndsAs.ofTest {parts' : List Fragment} (h : endWithTest? parts = some parts') :
    EndsAs "" parts' := by
  rcases List.eq_nil_or_concat parts with rfl | ⟨front, last, rfl⟩
  · cases h
  · rw [List.concat_eq_append] at h
    cases last with
    | text last =>
      rw [endWithTest?_concat_text] at h
      obtain ⟨u, test, rfl⟩ := Option.map_eq_some_iff.1 h
      intro front' last' same
      obtain ⟨-, same⟩ := List.append_inj' same rfl
      cases same
      exact .inr ⟨u, getLast?_testForNull? test, by simp⟩
    | param p =>
      rw [endWithTest?_concat_param] at h
      cases h

/-- A comparison in a text behind a parameter or a test becomes what it does in the text alone. -/
theorem EndsAs.endWithTest?_pushText (h : EndsAs "" parts) (filled : t ≠ "") :
    endWithTest? (Fragment.pushText parts t) = (testForNull? t).map (Fragment.pushText parts) := by
  have ht : t.isEmpty = false := by simpa using filled
  have tested {u : String} (test : testForNull? t = some u) : u.isEmpty = false := by
    rw [Bool.eq_false_iff]
    intro empty
    have last := getLast?_testForNull? test
    rw [String.isEmpty_iff.1 empty] at last
    cases last
  have alone (apart : Fragment.pushText parts t = parts ++ [.text t]) :
      endWithTest? (Fragment.pushText parts t) = (testForNull? t).map (Fragment.pushText parts) := by
    rw [apart, endWithTest?_concat_text]
    exact Option.map_congr fun u test => (pushText_eq_append (tested test) apart).symm
  rcases List.eq_nil_or_concat parts with rfl | ⟨front, last, rfl⟩
  · exact alone (pushText_nil ht)
  · rw [List.concat_eq_append] at h alone ⊢
    cases last with
    | text last =>
      have behind : testForNull? (last ++ t) = (testForNull? t).map (last ++ ·) := by
        rcases h front last rfl with rfl | ⟨u, ends, rfl⟩
        · simp
        · rw [String.append_empty]
          exact testForNull?_append ends t
      rw [pushText_concat_text ht, endWithTest?_concat_text, behind, Option.map_map]
      exact Option.map_congr fun u test => (pushText_concat_text (tested test) front last).symm
    | param p => exact alone (pushText_concat_param ht front p)

/-- Behind a text that ends with no comparison, a parameter that is NULL makes no test. -/
theorem EndsAs.endWithTest?_eq_none (h : EndsAs t parts) (none : testForNull? t = none) :
    endWithTest? parts = .none := by
  rcases List.eq_nil_or_concat parts with rfl | ⟨front, last, rfl⟩
  · rfl
  · rw [List.concat_eq_append] at h ⊢
    cases last with
    | text last =>
      rw [endWithTest?_concat_text]
      rcases h front last rfl with rfl | ⟨u, ends, rfl⟩
      · rw [none]
        rfl
      · rw [testForNull?_append ends, none]
        rfl
    | param p => exact endWithTest?_concat_param front p

/-- A parameter or a test stands at the end. -/
theorem endsAs_pushTested (isNull : ParamRef → Bool) (parts : List Fragment) (p : ParamRef) :
    EndsAs "" (pushTested isNull parts (.param p)) := by
  rw [pushTested]
  split
  · rename_i tested
    exact .ofTest (Option.ite_none_right_eq_some.1 tested).2
  · exact endsAs_param parts p

/-- A parameter that may be NULL or not, and stands behind no comparison, makes no test. -/
theorem EndsAs.pushTested_congr (h : EndsAs t parts) {p : ParamRef} (fewer : isNull p → isNull' p)
    (more : isNull' p → isNull p ∨ testForNull? t = none) :
    pushTested isNull' parts (.param p) = pushTested isNull parts (.param p) := by
  rw [pushTested, pushTested]
  cases null : isNull p with
  | true => rw [fewer null]
  | false =>
    cases null' : isNull' p with
    | false => rfl
    | true =>
      have none := (more null').resolve_left (by simp [null])
      rw [h.endWithTest?_eq_none none]
      rfl

theorem Separated.tail {part : Fragment} (h : Separated (part :: more)) : Separated more :=
  ⟨fun t member => h.nonempty t (List.mem_cons_of_mem part member), (List.isChain_cons.1 h.apart).2⟩

/-- The tests in kept text are the same, if the parameters that may be NULL or not stand behind no
comparison. The text `t` is the one in front of the fragments that are left. -/
theorem foldl_pushTested_congr_of_endsAs (fewer : ∀ p, isNull p → isNull' p)
    (extra : ∀ p, isNull' p → isNull p ∨ isMore p) (ends : EndsAs t parts)
    (separated : Separated more) (apart : t = "" ∨ ∀ u, more.head? ≠ some (.text u))
    (behind : ∀ u p, [.text u, .param p] <:+: .text t :: more → isMore p → testForNull? u = none) :
    more.foldl (pushTested isNull') parts = more.foldl (pushTested isNull) parts := by
  induction more generalizing parts t with
  | nil => rfl
  | cons part more ih =>
    rw [List.foldl_cons, List.foldl_cons]
    cases part with
    | text u =>
      have nothing : t = "" := apart.resolve_right fun other => other u rfl
      subst nothing
      have next : ∀ v, more.head? ≠ some (.text v) := by
        intro v head
        have sides := (List.isChain_cons.1 separated.apart).1 (.text v) head
        simp [ref?] at sides
      refine ih (ends.pushText (separated.nonempty u List.mem_cons_self)) separated.tail (.inr next)
        fun v p inside => behind v p (inside.trans (List.suffix_cons _ _).isInfix)
    | param p =>
      have here := behind t p ⟨[], more, rfl⟩
      rw [ends.pushTested_congr (fewer p) fun null => (extra p null).imp_right here]
      refine ih (endsAs_pushTested isNull parts p) separated.tail (.inl rfl) fun v q inside => ?_
      rcases List.infix_cons_iff.1 inside with first | inside
      · cases (List.cons_prefix_cons.1 first).1
        exact fun _ => by decide
      · have more' := (List.suffix_append [.text t, .param p] more).isInfix
        exact behind v q (inside.trans more')

/-- The tests in kept text are the same, if the parameters that may be NULL or not stand right
behind no comparison. -/
theorem foldl_pushTested_congr (fewer : ∀ p, isNull p → isNull' p)
    (extra : ∀ p, isNull' p → isNull p ∨ isMore p) (separated : Separated parts)
    (behind : ∀ u p, [.text u, .param p] <:+: parts → isMore p → testForNull? u = none) :
    parts.foldl (pushTested isNull') [] = parts.foldl (pushTested isNull) [] := by
  refine foldl_pushTested_congr_of_endsAs (t := "") fewer extra ?_ separated (.inl rfl)
    fun u p inside => ?_
  · intro front last same
    cases front <;> cases same
  · rcases List.infix_cons_iff.1 inside with first | inside
    · cases (List.cons_prefix_cons.1 first).1
      exact fun _ => by decide
    · exact behind u p inside

end Fragment

/-! ## Statements -/

theorem Render.mapM_congr {α β : Type} {f g : α → Render β} {xs : List α}
    (h : ∀ x ∈ xs, f x = g x) : xs.mapM f = xs.mapM g := by
  induction xs with
  | nil => rfl
  | cons x xs ih =>
    obtain ⟨first, rest⟩ := List.forall_mem_cons.1 h
    rw [List.mapM_cons, List.mapM_cons, first, ih rest]

section Statements

variable {isNull isNull' isMore : ParamRef → Bool} {r : RenderContext}

/-- New values that are marked or not are written as the same, if marked parameters are. -/
theorem RenderContext.assignment_congr (fewer : ∀ p, isNull p → isNull' p)
    (extra : ∀ p, isNull' p → isNull p ∨ isMore p) {a : Assignment}
    (apart : a.value.Everywhere (Expr.ComparesApart isMore) fun _ => True)
    (written : ∀ p ∈ a.value.param?, isMore p → r.param { p with nullBound := true } = r.param p) :
    r.assignment { a with value := (a.value.markNull isNull').mapped (Expr.testForNull isNull') } =
      r.assignment { a with value := (a.value.markNull isNull).mapped (Expr.testForNull isNull) } := by
  suffices value : ((a.value.markNull isNull').mapped (Expr.testForNull isNull')).render r =
      ((a.value.markNull isNull).mapped (Expr.testForNull isNull)).render r by
    rw [assignment, assignment, value]
  have same := (mapped_testForNull_congr fewer extra).1 a.value apart
  cases value : a.value with
  | param p =>
    rw [value] at written
    cases null : isNull p with
    | true => rw [Expr.markNull, Expr.markNull, null, fewer p null]; rfl
    | false =>
      cases null' : isNull' p with
      | false => rw [Expr.markNull, Expr.markNull, null, null']; rfl
      | true =>
        rw [Expr.markNull, Expr.markNull, null, null']
        exact written p rfl ((extra p null').resolve_left (by simp [null]))
  | _ =>
    rw [value] at same
    exact congrArg (Expr.render r) same

/-- A statement in which parameters that may be NULL or not are compared with nothing is written as
the same after the tests. -/
theorem RenderContext.body_testForNulls_congr {b : Body} (fewer : ∀ p, isNull p → isNull' p)
    (extra : ∀ p, isNull' p → isNull p ∨ isMore p) (apart : ∀ e ∈ b.exprs, e.ComparesApart isMore)
    (separated : Fragment.Separated b.fragments)
    (behind : ∀ u p, [.text u, .param p] <:+: b.fragments → isMore p →
      Fragment.testForNull? u = none)
    (written : ∀ p ∈ b.params, isMore p → r.param { p with nullBound := true } = r.param p) :
    r.body (b.testForNulls isNull') = r.body (b.testForNulls isNull) := by
  obtain ⟨parts, queries⟩ := Body.everywhere_of_exprs apart
  obtain ⟨exprs, trees⟩ := mapped_testForNull_congr fewer extra
  cases b with
  | verbatim fragments =>
    exact congrArg (fun parts => r.body (.verbatim parts))
      (Fragment.foldl_pushTested_congr fewer extra separated behind)
  | update u =>
    have condition : u.condition.map (Expr.mapped (Expr.testForNull isNull')) =
        u.condition.map (Expr.mapped (Expr.testForNull isNull)) :=
      Option.map_congr fun x hx => exprs x (parts x (List.mem_append_right _ (Option.mem_toList.2 hx)))
    have assigned (a : Assignment) (ha : a ∈ u.assignments) : r.assignment { a with
          value := (a.value.markNull isNull').mapped (Expr.testForNull isNull') } =
        r.assignment { a with
          value := (a.value.markNull isNull).mapped (Expr.testForNull isNull) } := by
      have inside : a.value ∈ (Body.update u).parts :=
        List.mem_append_left _ (List.mem_map.2 ⟨a, ha, rfl⟩)
      refine r.assignment_congr fewer extra (parts a.value inside) fun p hp => written p ?_
      rw [Body.params_eq, Body.queries, List.flatMap_nil, List.append_nil]
      refine List.mem_append_left _ (List.mem_flatMap.2 ⟨a.value, inside, ?_⟩)
      rw [Expr.params_eq]
      exact List.mem_append_left _ (Option.mem_toList.2 hp)
    have all := Render.mapM_congr assigned
    rw [Body.testForNulls, Body.testForNulls, Body.markNulls, Body.markNulls, Body.map_update,
      Body.map_update, condition, List.map_map, List.map_map]
    unfold RenderContext.body RenderContext.update
    simp only [List.mapM_map, Function.comp_def, all]
  | _ => exact congrArg r.body (Body.map_congr (fun x hx => exprs x (parts x hx))
      fun q hq => trees q (queries q hq))

end Statements

end BoundSql
