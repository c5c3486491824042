import BoundSql.Param.Table
import Mathlib.Data.List.Induction
import Mathlib.Data.List.Nodup

/-!
# What a parameter table says

The table of a list of declarations in a form without a loop: its entries are the distinct keys in
order of first appearance, each with what the declarations of the key say together, and its clashes
are those of each declaration with the type kept from the declarations before it.
-/

namespace BoundSql

namespace ParamSpec

/-- What the declarations of a key say together: the first description and the first type that any
of them gives, and whether any of them admits NULL. -/
def declared (specs : List ParamSpec) (key : ParamKey) : ParamSpec :=
  let own := specs.filter (·.key == key)
  { key
    descr := own.findSome? descr
    typeName := own.findSome? typeName
    nullok := own.any nullok }

variable {specs : List ParamSpec} {spec : ParamSpec} {key : ParamKey}

@[simp] theorem declared_key (specs : List ParamSpec) (key : ParamKey) :
    (declared specs key).key = key := rfl

/-- Declaring the same again changes nothing. -/
@[simp] theorem merge_self (spec : ParamSpec) : spec.merge spec = spec := by
  simp [merge]

@[simp] theorem clashes_self (spec : ParamSpec) : spec.clashes spec = false := by
  unfold clashes
  split
  · rename_i kept other
    simp_all [Text.sameWord]
  · rfl

/-- A further declaration of a key is merged with what is declared so far. -/
theorem declared_concat (specs : List ParamSpec) (spec : ParamSpec) :
    declared (specs ++ [spec]) spec.key = (declared specs spec.key).merge spec := by
  simp [declared, merge, List.findSome?_append]

theorem declared_concat_of_ne (h : spec.key ≠ key) :
    declared (specs ++ [spec]) key = declared specs key := by
  simp [declared, h]

/-- The first declaration of a key is all that is declared of it. -/
theorem declared_concat_of_fresh (h : spec.key ∉ specs.map ParamSpec.key) :
    declared (specs ++ [spec]) spec.key = spec := by
  have none : specs.filter (·.key == spec.key) = [] := by
    refine List.filter_eq_nil_iff.2 fun s hs same => h ?_
    rw [← eq_of_beq same]
    exact List.mem_map_of_mem hs
  rw [declared_concat, declared, none]
  rfl

end ParamSpec

namespace ParamTable

open ParamSpec

variable {specs : List ParamSpec} {key : ParamKey}

theorem ofSpecs_concat (specs : List ParamSpec) (spec : ParamSpec) :
    ofSpecs (specs ++ [spec]) = (ofSpecs specs).insert spec := by
  rw [ofSpecs, List.foldl_append]
  rfl

/-- Looking a key up among entries that are each under a key of their own. -/
theorem find?_map_key (entry : ParamKey → ParamSpec) {keys : List ParamKey} {key : ParamKey}
    (own : ∀ k ∈ keys, (entry k).key = (entry key).key → k = key) :
    (keys.map entry).find? (·.key == (entry key).key) =
      if key ∈ keys then some (entry key) else none := by
  induction keys with
  | nil => rfl
  | cons k keys ih =>
    rw [List.forall_mem_cons] at own
    by_cases same : k = key
    · subst same
      simp
    · have other : (entry k).key ≠ (entry key).key := fun h => same (own.1 h)
      simp [other, Ne.symm same, ih own.2]

/-- Looking a key up among entries that are each under their own key. -/
theorem find?_map_declared (specs : List ParamSpec) (keys : List ParamKey) (key : ParamKey) :
    (keys.map (declared specs)).find? (·.key == key) =
      if key ∈ keys then some (declared specs key) else none :=
  find?_map_key (declared specs) fun _ _ same => same

/-- One declaration adds its key behind the others or is merged into the entry of its key. -/
theorem specs_ofSpecs (specs : List ParamSpec) :
    (ofSpecs specs).specs = (specs.map ParamSpec.key).eraseDups.map (declared specs) := by
  induction specs using List.reverseRecOn with
  | nil => rfl
  | append_singleton specs spec ih =>
    have found : ((ofSpecs specs).get? spec.key).isSome ↔ spec.key ∈ specs.map ParamSpec.key := by
      rw [get?, ih, find?_map_declared]
      simp only [List.mem_eraseDups]
      split <;> simp_all
    rw [ofSpecs_concat, insert, List.map_append, List.eraseDups_append]
    by_cases known : spec.key ∈ specs.map ParamSpec.key
    · have nothing : ([spec].map ParamSpec.key).removeAll (specs.map ParamSpec.key) = [] := by
        simpa [List.removeAll] using List.mem_map.1 known
      rw [if_pos (found.2 known), nothing, List.eraseDups_nil, List.append_nil, ih, List.map_map]
      refine List.map_congr_left fun key _ => ?_
      by_cases same : spec.key = key
      · subst same
        simp [declared_concat]
      · simp [declared_concat_of_ne same, Ne.symm same]
    · have one : ([spec].map ParamSpec.key).removeAll (specs.map ParamSpec.key) = [spec.key] := by
        simpa [List.removeAll] using known
      have kept : (specs.map ParamSpec.key).eraseDups.map (declared (specs ++ [spec])) =
          (specs.map ParamSpec.key).eraseDups.map (declared specs) := by
        refine List.map_congr_left fun key member => declared_concat_of_ne ?_
        rintro rfl
        exact known (List.mem_eraseDups.1 member)
      rw [if_neg (mt found.1 known), one, ih, List.map_append, kept]
      simp [List.eraseDups_cons, declared_concat_of_fresh known]

/-- The entry of a key, if it is declared. -/
theorem get?_ofSpecs (specs : List ParamSpec) (key : ParamKey) :
    (ofSpecs specs).get? key =
      if key ∈ specs.map ParamSpec.key then some (declared specs key) else none := by
  rw [get?, specs_ofSpecs, find?_map_declared]
  simp only [List.mem_eraseDups]

/-- If all declarations of a key say the same, the entry of the key says that, and nothing clashes. -/
theorem ofSpecs_map (entry : ParamKey → ParamSpec) {keys : List ParamKey}
    (own : ∀ k ∈ keys, ∀ l ∈ keys, (entry k).key = (entry l).key → k = l) :
    ofSpecs (keys.map entry) = ⟨keys.eraseDups.map entry, []⟩ := by
  induction keys using List.reverseRecOn with
  | nil => rfl
  | append_singleton keys key ih =>
    have known (k) (hk : k ∈ keys) : k ∈ keys ++ [key] := List.mem_append_left _ hk
    have here : key ∈ keys ++ [key] := List.mem_append_right _ List.mem_cons_self
    have found : (⟨keys.eraseDups.map entry, []⟩ : ParamTable).get? (entry key).key =
        if key ∈ keys then some (entry key) else none := by
      rw [get?, find?_map_key entry fun k hk => own k (known k (List.mem_eraseDups.1 hk)) key here]
      simp only [List.mem_eraseDups]
    rw [List.map_append, List.map_singleton, ofSpecs_concat,
      ih fun k hk l hl => own k (known k hk) l (known l hl), insert, conflict?, found,
      List.eraseDups_append]
    by_cases old : key ∈ keys
    · have nothing : [key].removeAll keys = [] := by simpa [List.removeAll] using old
      have merged : (keys.eraseDups.map entry).map
          (fun s => if s.key == (entry key).key then s.merge (entry key) else s) =
          keys.eraseDups.map entry := by
        rw [List.map_map]
        refine List.map_congr_left fun k hk => ?_
        by_cases same : (entry k).key = (entry key).key
        · rw [own k (known k (List.mem_eraseDups.1 hk)) key here same]
          simp
        · simp [same]
      rw [if_pos old, nothing]
      simp only [Option.isSome_some, if_true, clashes_self, Bool.false_eq_true, if_false,
        Option.toList_none, List.eraseDups_nil, List.append_nil, merged]
    · have one : [key].removeAll keys = [key] := by simpa [List.removeAll] using old
      simp [old, one, List.eraseDups_cons]

/-- A key has an entry exactly if it is declared. -/
theorem exists_spec_iff : (∃ spec ∈ (ofSpecs specs).specs, spec.key = key) ↔
    key ∈ specs.map ParamSpec.key := by
  simp [specs_ofSpecs]

end ParamTable

end BoundSql
