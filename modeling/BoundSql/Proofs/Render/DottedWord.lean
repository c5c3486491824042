import BoundSql.Proofs.Render.PartName
import BoundSql.Proofs.RoundTrip.Plain
import Mathlib.Data.List.Induction

/-!
# Names with points among words

A name with points is a name and what goes on with it: points with further parts behind them, and
perhaps a star. `Word.dottedNames` reads all of them off a list of words, in order.
-/

namespace BoundSql

open Token

/-- A name with points between its parts. -/
structure DottedName where
  parts : List (List Char)
  /-- A star stands behind the last point. -/
  all : Bool
  deriving DecidableEq

namespace DottedName

/-- The name whose parts have these texts, if each of them is a part of a name. -/
def of? (parts : List String) (all : Bool) : Option DottedName :=
  let names := parts.map fun s => Text.partName? s.toList
  if none ∈ names then none else some ⟨names.filterMap id, all⟩

/-- The name with points, if it has more than one part, or a star. -/
def named? (parts : List String) (all : Bool) : Option DottedName :=
  if parts.length ≤ 1 && !all then none else of? parts all

variable {parts parts' : List String} {all : Bool}

theorem isSome_of? : (of? parts all).isSome ↔ ∀ s ∈ parts, (Text.partName? s.toList).isSome := by
  unfold of?
  rw [apply_ite Option.isSome]
  simp [Option.isSome_iff_ne_none]

/-- What the texts of the parts are does not matter. -/
theorem named?_congr (same : parts.map (fun s => Text.partName? s.toList) =
    parts'.map fun s => Text.partName? s.toList) : named? parts all = named? parts' all := by
  have length := congrArg List.length same
  rw [List.length_map, List.length_map] at length
  rw [named?, named?, of?, of?, same, length]

end DottedName

namespace Word

/-- The text of the name that the word is, if it is one. -/
def name? (behindPoint : Bool) (w : Word) : Option String :=
  match w.kind with
  | .identifier s => some s
  | .keyword k => if behindPoint || !k.isReserved then some w.text else none
  | _ => none

/-- What goes on with a name behind its first part: further parts, and a star, if there is one. -/
def goesOn : List Word → List String × Bool
  | dot :: w :: ws =>
    if dot.kind ≠ .punct .dot then ([], false)
    else if w.kind = .punct .star then ([], true)
    else match w.name? true with
      | some s => (s :: (goesOn ws).1, (goesOn ws).2)
      | none => ([], false)
  | _ => ([], false)

/-- The name with points that begins with the word, if there is one. -/
def dottedName? (w : Word) (ws : List Word) : Option DottedName :=
  (w.name? false).bind fun s => DottedName.named? (s :: (goesOn ws).1) (goesOn ws).2

/-- The names with points among words, in order. The word behind a point begins none. -/
def dottedNamesFrom (behindPoint : Bool) : List Word → List DottedName
  | [] => []
  | w :: ws =>
    if behindPoint then dottedNamesFrom false ws
    else if w.kind = .punct .dot then dottedNamesFrom true ws
    else (w.dottedName? ws).toList ++ dottedNamesFrom false ws

/-- The names with points among words, in order. -/
abbrev dottedNames (ws : List Word) : List DottedName := dottedNamesFrom false ws

/-- The words go on with what stands in front of them. -/
def startsDot : List Word → Bool
  | w :: _ => w.kind == .punct .dot
  | [] => false

variable {dot star w : Word} {us ws : List Word} {s : String} {parts : List String}

theorem Calls.name? {behindPoint : Bool} (h : w.Calls behindPoint s) :
    w.name? behindPoint = some s := by
  cases h with
  | identifier kind => rw [Word.name?, kind]
  | keyword kind free =>
    rw [Word.name?, kind]
    rcases free with behind | free
    · simp [behind]
    · simp [free]

theorem Calls.ne_punct {behindPoint : Bool} (h : w.Calls behindPoint s) (p : Punct) :
    w.kind ≠ .punct p := by
  cases h with
  | identifier kind => simp [kind]
  | keyword kind _ => simp [kind]

theorem Calls.behindPoint (h : w.Calls false s) : w.Calls true s := by
  cases h with
  | identifier kind => exact .identifier kind
  | keyword kind _ => exact .keyword kind (.inl rfl)

/-- A plain name that needs no delimiters can be called by its word. -/
theorem calls_ofName (free : Dialect.isReservedSqlWord s = false) :
    (ofName s.toList).Calls false s := by
  cases found : Keyword.ofWord? s.toList with
  | none =>
    refine .identifier ?_
    rw [ofName, word, found]
    exact congrArg TokenKind.identifier String.ofList_toList
  | some k =>
    have keyword : (ofName s.toList).kind = .keyword k := by
      rw [ofName, word, found]
    have calls := @Calls.keyword false _ k keyword
      (.inr (Keyword.isReserved_of_ofWord? free found))
    rwa [text, ofName, String.ofList_toList] at calls

theorem InRow.ne_dot (h : w.InRow) : w.kind ≠ .punct .dot := by
  intro point
  rcases h with ⟨cs, kind⟩ | ⟨cs, whole, kind⟩ | ⟨c, kind⟩ <;> rw [point] at kind
  · unfold word at kind
    split at kind <;> cases kind
  · unfold number at kind
    split at kind
    · cases kind
    · split at kind <;> cases kind
  · cases kind

/-- A name with one more part in front. -/
theorem Dotted.cons (calls : w.Calls false s) (point : dot.kind = .punct .dot)
    (h : Dotted us parts) : Dotted (w :: dot :: us) (s :: parts) := by
  cases h with
  | mk first members => exact .mk calls (.cons point first.behindPoint members)

theorem Dotted.ne_nil (h : Dotted us parts) : parts ≠ [] := by
  cases h
  exact List.cons_ne_nil _ _

theorem startsDot_dotted (dotted : Dotted us parts) (ws : List Word) :
    startsDot (us ++ ws) = false := by
  obtain ⟨calls, -⟩ := dotted
  simpa [startsDot] using calls.ne_punct .dot

theorem goesOn_of_not_startsDot (h : startsDot ws = false) : goesOn ws = ([], false) := by
  unfold goesOn
  split
  · rw [if_pos (by simpa [startsDot] using h)]
  · rfl

theorem dottedName?_of_not_startsDot (h : startsDot ws = false) (w : Word) :
    w.dottedName? ws = none := by
  rw [dottedName?, goesOn_of_not_startsDot h]
  cases w.name? false with
  | none => rfl
  | some s => rfl

theorem dottedNames_cons (h : w.kind ≠ .punct .dot) (ws : List Word) :
    dottedNames (w :: ws) = (w.dottedName? ws).toList ++ dottedNames ws := by
  rw [dottedNames, dottedNamesFrom, if_neg Bool.false_ne_true, if_neg h]

theorem dottedNames_dot (h : dot.kind = .punct .dot) (w : Word) (ws : List Word) :
    dottedNames (dot :: w :: ws) = dottedNames ws := by
  rw [dottedNames, dottedNamesFrom, if_neg Bool.false_ne_true, if_pos h, dottedNamesFrom, if_pos rfl]

theorem goesOn_member (point : dot.kind = .punct .dot) (calls : w.Calls true s) (ws : List Word) :
    goesOn (dot :: w :: ws) = (s :: (goesOn ws).1, (goesOn ws).2) := by
  rw [goesOn, if_neg (not_not_intro point), if_neg (calls.ne_punct .star), calls.name?]

theorem goesOn_members (members : Members us parts) (ws : List Word) :
    goesOn (us ++ ws) = (parts ++ (goesOn ws).1, (goesOn ws).2) := by
  induction members with
  | nil => rfl
  | @cons dot w us s ss point calls _ ih =>
    rw [List.cons_append, List.cons_append, goesOn_member point calls, ih]
    rfl

theorem goesOn_star (point : dot.kind = .punct .dot) (h : star.kind = .punct .star)
    (ws : List Word) : goesOn (dot :: star :: ws) = ([], true) := by
  rw [goesOn, if_neg (not_not_intro point), if_pos h]

theorem dottedNames_members (members : Members us parts) (ws : List Word) :
    dottedNames (us ++ ws) = dottedNames ws := by
  induction members with
  | nil => rfl
  | cons point _ _ ih => rw [List.cons_append, List.cons_append, dottedNames_dot point, ih]

/-- A name that nothing goes on with. -/
theorem dottedNames_dotted (dotted : Dotted us parts) (h : startsDot ws = false) :
    dottedNames (us ++ ws) = (DottedName.named? parts false).toList ++ dottedNames ws := by
  obtain ⟨calls, members⟩ := dotted
  rw [List.cons_append, dottedNames_cons (calls.ne_punct .dot), dottedNames_members members,
    dottedName?, calls.name?, goesOn_members members, goesOn_of_not_startsDot h, List.append_nil,
    Option.bind_some]

/-- A name with a star behind it. -/
theorem dottedNames_wildcard (dotted : Dotted us parts) (point : dot.kind = .punct .dot)
    (h : star.kind = .punct .star) (ws : List Word) : dottedNames (us ++ dot :: star :: ws) =
      (DottedName.named? parts true).toList ++ dottedNames ws := by
  obtain ⟨calls, members⟩ := dotted
  rw [List.cons_append, dottedNames_cons (calls.ne_punct .dot), dottedNames_members members,
    dottedNames_dot point, dottedName?, calls.name?, goesOn_members members, goesOn_star point h,
    List.append_nil, Option.bind_some]

example : dottedNames (Dialect.standard.words "s.t, \"a.b\".*, c".toList) =
    [⟨["s".toList, "t".toList], false⟩, ⟨["a.b".toList], true⟩] := by
  decide +kernel

/-! ### Words that are no part of a name -/

/-- The word is neither a name nor goes on with one. -/
structure IsApart (w : Word) : Prop where
  ne_dot : w.kind ≠ .punct .dot
  ne_star : w.kind ≠ .punct .star
  name?_eq (behindPoint : Bool) : w.name? behindPoint = none

theorem isApart_sign {p : Punct} {s : String} (dot : p ≠ .dot) (star : p ≠ .star) :
    (sign p s).IsApart where
  ne_dot := by simpa [sign] using dot
  ne_star := by simpa [sign] using star
  name?_eq _ := rfl

theorem IsApart.startsDot_cons (h : w.IsApart) (ws : List Word) : startsDot (w :: ws) = false := by
  simpa [startsDot] using h.ne_dot

theorem IsApart.goesOn_append (h : w.IsApart) (us ws : List Word) :
    goesOn (us ++ w :: ws) = goesOn (us ++ [w]) := by
  induction us using List.twoStepInduction with
  | nil =>
    rw [List.nil_append, List.nil_append, goesOn_of_not_startsDot (h.startsDot_cons ws),
      goesOn_of_not_startsDot (h.startsDot_cons [])]
  | singleton u =>
    rw [List.singleton_append, List.singleton_append, goesOn, goesOn, if_neg h.ne_star,
      if_neg h.ne_star, h.name?_eq]
  | cons_cons u v us ih _ =>
    rw [List.cons_append, List.cons_append, List.cons_append, List.cons_append, goesOn, goesOn, ih]

theorem IsApart.dottedName?_append (h : w.IsApart) (u : Word) (us ws : List Word) :
    u.dottedName? (us ++ w :: ws) = u.dottedName? (us ++ [w]) := by
  rw [dottedName?, dottedName?, h.goesOn_append]

theorem IsApart.dottedName?_eq_none (h : w.IsApart) (ws : List Word) : w.dottedName? ws = none := by
  rw [dottedName?, h.name?_eq, Option.bind_none]

theorem IsApart.dottedNames_cons (h : w.IsApart) (ws : List Word) :
    dottedNames (w :: ws) = dottedNames ws := by
  rw [Word.dottedNames_cons h.ne_dot, h.dottedName?_eq_none]
  rfl

/-- The names on the two sides of such a word have nothing to do with each other. -/
theorem IsApart.dottedNamesFrom_append (h : w.IsApart) (behindPoint : Bool) (us ws : List Word) :
    dottedNamesFrom behindPoint (us ++ w :: ws) =
      dottedNamesFrom behindPoint (us ++ [w]) ++ dottedNames ws := by
  induction us generalizing behindPoint with
  | nil =>
    cases behindPoint with
    | true => rfl
    | false =>
      exact (h.dottedNames_cons ws).trans
        (congrArg (· ++ dottedNames ws) (h.dottedNames_cons []).symm)
  | cons u us ih =>
    rw [List.cons_append, List.cons_append, dottedNamesFrom, dottedNamesFrom,
      h.dottedName?_append u us ws, ih, ih]
    split
    · rfl
    · split
      · rfl
      · rw [List.append_assoc]

theorem IsApart.dottedNames_append (h : w.IsApart) (us ws : List Word) :
    dottedNames (us ++ w :: ws) = dottedNames (us ++ [w]) ++ dottedNames ws :=
  h.dottedNamesFrom_append false us ws

end Word

end BoundSql
