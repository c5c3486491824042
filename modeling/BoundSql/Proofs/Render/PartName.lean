import BoundSql.Proofs.Render.Delimited

/-!
# The parts of names

A part of a name is a plain name or stands between delimiters. What stands in front of a point inside
delimiters is no part, so that a text is split at its points into the parts that it was put together
from, if all of the pieces are parts.
-/

namespace BoundSql

namespace Text

/-- The name that a part of a name is: the part itself, or what stands between its delimiters. -/
def partName? (part : List Char) : Option (List Char) :=
  if IsPlainName part then some part
  else (Dialect.bareName? part).filter fun name =>
    part = Dialect.delimited '"' name ∨ part = Dialect.delimited '\x60' name

variable {part name xs ys : List Char} {quote : Char}

theorem partName?_delimited (h : quote = '"' ∨ quote = '\x60') (name : List Char) :
    partName? (Dialect.delimited quote name) = some name := by
  have other : ¬IsPlainName (Dialect.delimited quote name) := by
    rintro ⟨first, -⟩
    rcases h with rfl | rfl <;> cases first
  rw [partName?, if_neg other, Dialect.bareName?_delimited h, Option.filter_some]
  rcases h with rfl | rfl <;> simp

theorem partName?_cases (h : partName? part = some name) : IsPlainName part ∧ name = part ∨
    ∃ quote, (quote = '"' ∨ quote = '\x60') ∧ part = Dialect.delimited quote name := by
  unfold partName? at h
  split at h
  · exact .inl ⟨‹_›, (Option.some.inj h).symm⟩
  · obtain ⟨-, delimited⟩ := Option.filter_eq_some_iff.1 h
    rcases of_decide_eq_true delimited with double | backtick
    · exact .inr ⟨'"', .inl rfl, double⟩
    · exact .inr ⟨'\x60', .inr rfl, backtick⟩

/-! ## Points inside delimiters -/

/-- The characters of a name, the delimiters among them doubled. -/
def doubled (quote : Char) (name : List Char) : List Char :=
  name.flatMap fun c => if c = quote then [quote, quote] else [c]

theorem doubled_cons_self (quote : Char) (name : List Char) :
    doubled quote (quote :: name) = quote :: quote :: doubled quote name := by
  simp [doubled]

theorem doubled_cons_of_ne {c : Char} (h : c ≠ quote) (name : List Char) :
    doubled quote (c :: name) = c :: doubled quote name := by
  simp [doubled, h]

theorem delimited_eq (quote : Char) (name : List Char) :
    Dialect.delimited quote name = quote :: (doubled quote name ++ [quote]) := rfl

theorem count_doubled (quote : Char) (name : List Char) :
    (doubled quote name).count quote % 2 = 0 := by
  induction name with
  | nil => rfl
  | cons c name ih =>
    by_cases delimiter : c = quote
    · rw [delimiter, doubled_cons_self, List.count_cons_self, List.count_cons_self]
      omega
    · rw [doubled_cons_of_ne delimiter, List.count_cons_of_ne delimiter]
      exact ih

/-- In front of a point inside delimiters stands an even number of them. -/
theorem count_front (point : quote ≠ '.') (h : doubled quote name ++ [quote] = xs ++ '.' :: ys) :
    xs.count quote % 2 = 0 := by
  induction name generalizing xs with
  | nil =>
    rcases xs with _ | ⟨x, xs⟩
    · exact absurd (List.cons.inj h).1 point
    · exact absurd (List.cons.inj h).2.symm (by simp)
  | cons c name ih =>
    by_cases delimiter : c = quote
    · rw [delimiter, doubled_cons_self, List.cons_append, List.cons_append] at h
      rcases xs with _ | ⟨x, _ | ⟨y, xs⟩⟩
      · exact absurd (List.cons.inj h).1 point
      · exact absurd (List.cons.inj (List.cons.inj h).2).1 point
      · obtain ⟨rfl, second⟩ := List.cons.inj h
        obtain ⟨rfl, rest⟩ := List.cons.inj second
        have even := ih rest
        rw [List.count_cons_self, List.count_cons_self]
        omega
    · rw [doubled_cons_of_ne delimiter, List.cons_append] at h
      rcases xs with _ | ⟨x, xs⟩
      · rfl
      · obtain ⟨rfl, rest⟩ := List.cons.inj h
        rw [List.count_cons_of_ne delimiter]
        exact ih rest

theorem notMem_of_isPlainName {c : Char} (start : isNameStart c = false) (inside : isNameChar c = false)
    (h : IsPlainName part) : c ∉ part := by
  cases part with
  | nil => exact List.not_mem_nil
  | cons d cs =>
    intro member
    rcases List.mem_cons.1 member with rfl | behind
    · rw [h.1] at start
      cases start
    · rw [h.2 c behind] at inside
      cases inside

theorem point_notMem_of_isPlainName (h : IsPlainName part) : '.' ∉ part :=
  notMem_of_isPlainName (by decide) (by decide) h

/-- A plain name stands between no delimiters. -/
theorem bareName?_of_isPlainName {s : String} (h : IsPlainName s.toList) :
    Dialect.bareName? s.toList = none := by
  refine bareName?_eq_none (List.any_eq_false.2 fun c hc delimiter => ?_)
  simp only [Bool.or_eq_true, decide_eq_true_eq] at delimiter
  rcases delimiter with rfl | rfl <;> exact notMem_of_isPlainName (by decide) (by decide) h hc

/-- What stands in front of a point of a part is no part itself. -/
theorem partName?_front (whole : partName? (xs ++ '.' :: ys) = some name) : partName? xs = none := by
  rcases partName?_cases whole with ⟨plain, -⟩ | ⟨quote, hquote, delimited⟩
  · have point : '.' ∈ xs ++ '.' :: ys := by simp
    exact absurd point (point_notMem_of_isPlainName plain)
  · have point : quote ≠ '.' := by rcases hquote with rfl | rfl <;> decide
    rw [delimited_eq] at delimited
    rcases xs with _ | ⟨x, xs⟩
    · exact absurd (List.cons.inj delimited).1.symm point
    · obtain ⟨rfl, inside⟩ := List.cons.inj delimited
      have even : xs.count x % 2 = 0 := count_front point inside.symm
      rw [Option.eq_none_iff_forall_ne_some]
      intro own found
      rcases partName?_cases found with ⟨plain, -⟩ | ⟨quote', -, front⟩
      · rcases hquote with rfl | rfl <;> exact absurd plain.1 (by decide)
      · -- The delimiter at its end would be one too many.
        rw [delimited_eq] at front
        obtain ⟨rfl, rfl⟩ := List.cons.inj front
        have twice := count_doubled x own
        rw [List.count_append, List.count_singleton_self] at even
        omega

/-! ## Splitting at points -/

theorem splitAt_append (h : '.' ∉ xs) : splitAt '.' (xs ++ '.' :: ys) = xs :: splitAt '.' ys := by
  induction xs with
  | nil => rw [List.nil_append, splitAt, if_pos rfl]
  | cons x xs ih =>
    rw [List.mem_cons, not_or] at h
    rw [List.cons_append, splitAt, if_neg (Ne.symm h.1), ih h.2]

/-- Where all pieces are parts, none of the parts holds a point. -/
theorem point_notMem_of_pieces {rest : List Char} (own : (partName? part).isSome)
    (pieces : ∀ p ∈ splitAt '.' (part ++ rest), (partName? p).isSome) : '.' ∉ part := by
  intro point
  obtain ⟨a, b, rfl, first⟩ := List.eq_append_cons_of_mem point
  obtain ⟨name, own⟩ := Option.isSome_iff_exists.1 own
  rw [List.append_assoc, List.cons_append, splitAt_append first] at pieces
  have piece := pieces a List.mem_cons_self
  rw [partName?_front own] at piece
  cases piece

/-- A text is split into the parts that it was put together from, if all pieces are parts. -/
theorem splitAt_intercalate {parts : List (List Char)} (nonempty : parts ≠ [])
    (hparts : ∀ p ∈ parts, (partName? p).isSome)
    (pieces : ∀ p ∈ splitAt '.' (['.'].intercalate parts), (partName? p).isSome) :
    splitAt '.' (['.'].intercalate parts) = parts := by
  induction parts with
  | nil => exact absurd rfl nonempty
  | cons p parts ih =>
    obtain ⟨own, behind⟩ := List.forall_mem_cons.1 hparts
    cases parts with
    | nil =>
      rw [List.intercalate_singleton] at pieces ⊢
      rw [← List.append_nil p] at pieces
      exact Delimiters.splitAt_of_notMem (point_notMem_of_pieces own pieces)
    | cons q parts =>
      rw [List.intercalate_cons_cons, List.append_assoc, List.singleton_append] at pieces ⊢
      have apart := point_notMem_of_pieces own pieces
      rw [splitAt_append apart] at pieces ⊢
      rw [ih (List.cons_ne_nil _ _) behind (List.forall_mem_cons.1 pieces).2]

/-- The pieces of a text between its points. -/
def pieces (s : String) : List String := (splitAt '.' s.toList).map String.ofList

theorem pieces_intercalate {parts : List String} (nonempty : parts ≠ [])
    (hparts : ∀ s ∈ parts, (partName? s.toList).isSome)
    (hpieces : ∀ s ∈ pieces (String.intercalate "." parts), (partName? s.toList).isSome) :
    pieces (String.intercalate "." parts) = parts := by
  have whole : (String.intercalate "." parts).toList = ['.'].intercalate (parts.map String.toList) :=
    String.toList_intercalate
  have split : splitAt '.' (['.'].intercalate (parts.map String.toList)) = parts.map String.toList := by
    refine splitAt_intercalate (by simpa using nonempty) (List.forall_mem_map.2 hparts) fun p hp => ?_
    have piece := hpieces (String.ofList p) (List.mem_map_of_mem (whole ▸ hp))
    rwa [String.toList_ofList] at piece
  rw [pieces, whole, split, List.map_map]
  exact (List.map_congr_left fun s _ => String.ofList_toList).trans (List.map_id parts)

theorem pieces_of_notMem {s : String} (h : '.' ∉ s.toList) : pieces s = [s] := by
  rw [pieces, Delimiters.splitAt_of_notMem h, List.map_singleton, String.ofList_toList]

theorem splitAt_ne_nil (xs : List Char) : splitAt '.' xs ≠ [] := by
  induction xs with
  | nil => exact List.cons_ne_nil _ _
  | cons x xs ih =>
    rw [splitAt]
    split
    · exact List.cons_ne_nil _ _
    · split
      · exact List.cons_ne_nil _ _
      · exact List.cons_ne_nil _ _

theorem pieces_ne_nil (s : String) : pieces s ≠ [] :=
  mt List.map_eq_nil_iff.1 (splitAt_ne_nil _)

theorem one_lt_length_pieces {s : String} (h : '.' ∈ s.toList) : 1 < (pieces s).length := by
  obtain ⟨a, b, split, first⟩ := List.eq_append_cons_of_mem h
  have behind := List.length_pos_iff.2 (splitAt_ne_nil b)
  rw [pieces, split, splitAt_append first, List.length_map, List.length_cons]
  omega

theorem exists_intercalate {s t : String} {parts : List String} :
    ∃ rest, (String.intercalate "." (s :: t :: parts)).toList = s.toList ++ '.' :: rest := by
  refine ⟨['.'].intercalate ((t :: parts).map String.toList), ?_⟩
  have whole : (String.intercalate "." (s :: t :: parts)).toList =
      ['.'].intercalate ((s :: t :: parts).map String.toList) := String.toList_intercalate
  rw [whole, List.map_cons, List.map_cons, List.intercalate_cons_cons, List.append_assoc,
    List.singleton_append]

end Text

end BoundSql
