import BoundSql.Proofs.Render.DottedWord
import Mathlib.Algebra.Order.Monoid.Unbundled.WithTop

/-!
# Names keep their parts

The parts of a name are written between the same points, each as it is or between the delimiters of
the dialect. `Parsed.dottedNames_render` says so of all names with points of a statement at once, in
order. The target that UPDATE sets, the name in front of `.*` and the name of a function are kept as
one text. The first is written as a single name, whose points are lost, and the second is split at
all of its points, those inside delimiters too: nothing is said about statements in which this makes
a difference.
-/

namespace BoundSql

open Phrase Token

/-! ## What names are worth -/

/-- Names with points, in order. Words that begin with a point are worth all of them in a text that
is read, and less than none in a text that is written, since their first word goes on with what stands
in front of it. -/
abbrev Names := WithBot (WithTop (Kept DottedName))

namespace Names

open Word

/-- Names that are known. -/
def of (names : List DottedName) : Names := ↑(↑(Kept.ofList names) : WithTop (Kept DottedName))

theorem of_append (xs ys : List DottedName) : of (xs ++ ys) = of xs + of ys := rfl

theorem of_mono {xs ys : List DottedName} (h : xs.Sublist ys) : of xs ≤ of ys :=
  WithBot.coe_le_coe.2 (WithTop.coe_le_coe.2 h)

theorem sublist_of_le {xs ys : List DottedName} (h : of xs ≤ of ys) : xs.Sublist ys :=
  WithTop.coe_le_coe.1 (WithBot.coe_le_coe.1 h)

theorem of_add_top (xs : List DottedName) : of xs + ⊤ = ⊤ := by
  rw [of, ← WithBot.coe_top, ← WithBot.coe_add, WithTop.add_top]

/-- The names of words that are read. -/
noncomputable def read (ws : List Word) : Names := if startsDot ws then ⊤ else of (dottedNames ws)

/-- The names of words that are written. -/
noncomputable def written (ws : List Word) : Names :=
  if startsDot ws then ⊥ else of (dottedNames ws)

variable {dot star w : Word} {us ws : List Word} {parts : List String}

/-- If words are read that go on with something, all is said. -/
theorem read_le {xs : List DottedName} (first : startsDot us = false)
    (h : startsDot ws = false → dottedNames us = xs ++ dottedNames ws) :
    read us ≤ of xs + read ws := by
  unfold read
  rw [first, if_neg Bool.false_ne_true]
  split
  · rw [of_add_top]
    exact le_top
  · rename_i apart
    rw [h (by simpa using apart), of_append]

theorem read_cons_le (h : w.kind ≠ .punct .dot) (ws : List Word) : read (w :: ws) ≤ read ws := by
  have single := @read_le (w :: ws) ws [] (by simpa [startsDot] using h) fun apart => by
    rw [dottedNames_cons h, dottedName?_of_not_startsDot apart]
    rfl
  exact single.trans (zero_add (read ws)).le

theorem read_dotted_le (dotted : Dotted us parts) (ws : List Word) :
    read (us ++ ws) ≤ of (DottedName.named? parts false).toList + read ws :=
  read_le (startsDot_dotted dotted _) fun apart => dottedNames_dotted dotted apart

theorem read_wildcard_le (dotted : Dotted us parts) (point : dot.kind = .punct .dot)
    (h : star.kind = .punct .star) (ws : List Word) :
    read (us ++ dot :: star :: ws) ≤ of (DottedName.named? parts true).toList + read ws :=
  read_le (startsDot_dotted dotted _) fun _ => dottedNames_wildcard dotted point h ws

/-- The name that is put together from the parts is worth this, if it is known. -/
noncomputable def worth (parts : List String) (all : Bool) : WithTop Names :=
  if parts.length ≤ 1 && !all then 0
  else match DottedName.of? parts all with
    | some name => ↑(of [name])
    | none => ⊤

theorem zero_le_worth (parts : List String) (all : Bool) : 0 ≤ worth parts all := by
  unfold worth
  split
  · exact le_rfl
  · split
    · exact WithTop.coe_le_coe.2 (of_mono (List.nil_sublist _))
    · exact le_top

/-- The parts of a name that is known are parts of names. -/
theorem worth_ne_top {parts : List String} {all : Bool}
    (own : ∀ s ∈ parts, (Text.partName? s.toList).isSome) : worth parts all ≠ ⊤ := by
  unfold worth
  split
  · exact WithTop.coe_ne_top
  · split
    · exact WithTop.coe_ne_top
    · rename_i unknown
      rw [← @DottedName.isSome_of? parts all, unknown] at own
      cases own

theorem of_named?_le (parts : List String) (all : Bool) :
    (↑(of (DottedName.named? parts all).toList) : WithTop Names) ≤ worth parts all := by
  unfold DottedName.named? worth
  split
  · exact le_rfl
  · cases DottedName.of? parts all with
    | some name => exact le_rfl
    | none => exact le_top

/-- If a text that was put together from parts is split into parts, these are the same. -/
theorem of_named?_le_pieces (nonempty : parts ≠ []) (all : Bool) :
    (↑(of (DottedName.named? parts all).toList) : WithTop Names) ≤
      worth (Text.pieces (String.intercalate "." parts)) all := by
  cases found : DottedName.named? parts all with
  | none => exact zero_le_worth _ all
  | some name =>
    unfold DottedName.named? at found
    split at found
    · cases found
    · rename_i several
      have own := DottedName.isSome_of?.1 (Option.isSome_of_eq_some found)
      by_cases known :
          ∀ s ∈ Text.pieces (String.intercalate "." parts), (Text.partName? s.toList).isSome
      · rw [Text.pieces_intercalate nonempty own known, worth, if_neg several, found]
        exact le_rfl
      · -- There is a point to split the text at.
        have split : ¬((Text.pieces (String.intercalate "." parts)).length ≤ 1 && !all) := by
          rcases parts with _ | ⟨s, _ | ⟨t, parts⟩⟩
          · exact absurd rfl nonempty
          · have star : all = true := by simpa using several
            simp [star]
          · obtain ⟨rest, whole⟩ := @Text.exists_intercalate s t parts
            have longer := @Text.one_lt_length_pieces (String.intercalate "." (s :: t :: parts))
              (by rw [whole]; simp)
            simp only [Bool.and_eq_true, decide_eq_true_eq, not_and]
            omega
        have unknown : DottedName.of? (Text.pieces (String.intercalate "." parts)) all = none := by
          rw [← Option.not_isSome_iff_eq_none, DottedName.isSome_of?]
          exact known
        rw [worth, if_neg split, unknown]
        exact le_top

/-- The name of a function is written as it is. It is known if the dialect reads the same name. -/
noncomputable def function (d : Dialect) (s : String) : WithTop Names :=
  if startsDot (d.words s.toList) = false ∧
      dottedNames (d.words s.toList ++ [.sign .leftParen "("]) =
        (DottedName.named? (Text.pieces s) false).toList then worth (Text.pieces s) false
  else ⊤

/-- The target that UPDATE sets is written as a single name. -/
noncomputable def assigned (s : String) : WithTop Names :=
  if '.' ∈ s.toList ∧ Text.partName? s.toList = none then ⊤ else 0

/-- The names with points in a tree. -/
noncomputable def weights (d : Dialect) : Weights Names where
  name _ := 0
  names parts := worth parts false
  function := function d
  wildcard s := worth (Text.pieces s) true
  assigned := assigned
  collation s := Worth.nothing (∀ w ∈ d.words s.toList, w.kind ≠ .punct .dot)
  type _ := 0
  param _ := ⊤
  join _ := 0

theorem zero_le_function (d : Dialect) (s : String) : 0 ≤ function d s := by
  unfold function
  split
  · exact zero_le_worth _ _
  · exact le_top

theorem of_named?_le_function (d : Dialect) (nonempty : parts ≠ []) :
    (↑(of (DottedName.named? parts false).toList) : WithTop Names) ≤
      function d (String.intercalate "." parts) := by
  unfold function
  split
  · exact of_named?_le_pieces nonempty false
  · exact le_top

/-- No text with points that was put together from parts is a part. -/
theorem of_named?_le_assigned (parts : List String) :
    (↑(of (DottedName.named? parts false).toList) : WithTop Names) ≤
      assigned (String.intercalate "." parts) := by
  unfold assigned
  split
  · exact le_top
  · rename_i single
    cases found : DottedName.named? parts false with
    | none => exact le_rfl
    | some name =>
      refine absurd ?_ single
      rcases parts with _ | ⟨s, _ | ⟨t, parts⟩⟩
      · cases found
      · cases found
      · have own := DottedName.isSome_of?.1 (Option.isSome_of_eq_some found) s List.mem_cons_self
        obtain ⟨rest, whole⟩ := @Text.exists_intercalate s t parts
        rw [whole]
        refine ⟨by simp, ?_⟩
        rw [Option.eq_none_iff_forall_ne_some]
        intro other part
        rw [Text.partName?_front part] at own
        cases own

theorem le_add {x : WithTop Names} (hx : 0 ≤ x) {n m : Names} (h : n ≤ m) :
    (↑n : WithTop Names) ≤ x + ↑m :=
  (WithTop.coe_le_coe.2 h).trans (le_add_of_nonneg_left hx)

/-- A name that is worth no less than the name with points that it is. -/
theorem dotted_le (dotted : Dotted us parts) {x : WithTop Names}
    (hx : ↑(of (DottedName.named? parts false).toList) ≤ x) (ws : List Word) :
    (↑(read (us ++ ws)) : WithTop Names) ≤ x + ↑(read ws) :=
  (WithTop.coe_le_coe.2 (read_dotted_le dotted ws)).trans (add_le_add_left hx _)

end Names

open Names Word in
/-- The names with points of a text are in its tree. -/
noncomputable def Names.marking (d : Dialect) : Marking Names where
  toWeights := weights d
  marks := read
  marks_nil := le_rfl
  idle_eof w ws kind := read_cons_le (by simp [kind]) ws
  idle_keyword k _ w ws kind := read_cons_le (by simp [kind]) ws
  idle_punct p dot _ w ws kind := read_cons_le (by simpa [kind] using dot) ws
  idle_literal k l literal w ws kind := by
    refine read_cons_le ?_ ws
    rintro point
    rw [← kind, point] at literal
    cases literal
  param_le _ _ _ _ _ := le_top
  hostParam_le _ _ _ _ := le_top
  name_le w ws s calls := le_add le_rfl (read_cons_le (calls.ne_punct .dot) ws)
  names_le us ws parts dotted := dotted_le dotted (of_named?_le parts false) ws
  wildcard_le us dot w ws parts dotted point star :=
    (WithTop.coe_le_coe.2 (read_wildcard_le dotted point star ws)).trans
      (add_le_add_left (of_named?_le_pieces dotted.ne_nil true) _)
  function_le us ws parts dotted := dotted_le dotted (of_named?_le_function d dotted.ne_nil) ws
  assigned_le us ws parts dotted := dotted_le dotted (of_named?_le_assigned parts) ws
  label_le as w ws s kind called := by
    refine le_add le_rfl ((read_cons_le (by simp [kind]) _).trans (read_cons_le ?_ ws))
    rcases called with string | calls
    · simp [string]
    · exact calls.ne_punct .dot
  type_le front w ws more args hfront opens := by
    refine le_add le_rfl ((read_cons_le ?_ _).trans (read_cons_le ?_ ws))
    · rcases hfront with h | h <;> simp [h]
    · rcases opens with ⟨s, h⟩ | ⟨k, h⟩ <;> simp [h]
  idle_secondWord s _ w ws kind := read_cons_le (by simp [kind]) ws
  zero_le_literalType _ _ _ := le_rfl
  call_le w v ws kind _ := read_cons_le (by rcases kind with h | h <;> simp [h]) _
  zero_le_function := zero_le_function d
  collation_le w ws s called := by
    refine le_add (Worth.zero_le_nothing _) (read_cons_le ?_ ws)
    rcases called with string | calls
    · simp [string]
    · exact calls.ne_punct .dot
  zero_le_cross := le_rfl
  zero_le_inner := le_rfl
  outer_le w v ws k j kind _ _ := le_add le_rfl (read_cons_le (by simp [kind]) _)
  natural_le w v ws kind _ := le_add le_rfl (read_cons_le (by simp [kind]) _)
  naturalKind_le w v ws kind behind := by
    refine le_add le_rfl ((read_cons_le (by simp [kind]) _).trans (read_cons_le ?_ ws))
    rcases behind with h | ⟨k, j, h, -⟩ <;> simp [h]

/-! ## Written names -/

namespace RenderContext

variable {r : RenderContext} {s : String} {name : List Char} {parts : List String}

/-- A name that is written between delimiters is the part that it holds. -/
theorem words_part_of_delimited (h : r.dialect.writeName r.quoting s =
    String.ofList (Dialect.delimited r.dialect.identifierQuote name)) :
    ∃ w t, wordsIn r.dialect [r.name s] = [w] ∧ w.Calls false t ∧
      Text.partName? t.toList = some name := by
  obtain ⟨w, words, kind, quote, hquote, lexeme⟩ := words_delimited h
  refine ⟨w, w.text, words, .identifier kind, ?_⟩
  rw [Word.text, String.toList_ofList, lexeme, Text.partName?_delimited hquote]

/-- A part of a name is written as a single word, which is the same part. -/
theorem words_part (h : Text.partName? s.toList = some name) :
    ∃ w t, wordsIn r.dialect [r.name s] = [w] ∧ w.Calls false t ∧
      Text.partName? t.toList = some name := by
  rcases Text.partName?_cases h with ⟨plain, rfl⟩ | ⟨quote, hquote, delimited⟩
  · have bare := Text.bareName?_of_isPlainName plain
    have bald : r.dialect.isDelimited s = false := by
      rw [Bool.eq_false_iff]
      exact fun delimited => Dialect.bareName?_ne_none delimited bare
    by_cases quoted : (r.quoting.always || r.dialect.needsQuotes r.quoting.caseSensitive s) = true
    · refine words_part_of_delimited ?_
      rw [Dialect.writeName, bare, Dialect.quoteWith, bald]
      exact if_pos quoted
    · have written : r.dialect.writeName r.quoting s = s := by
        rw [Dialect.writeName, bare, Dialect.quoteWith, bald]
        exact if_neg quoted
      have free : Dialect.isReservedSqlWord s = false := by
        simp only [Bool.or_eq_true, not_or, Bool.not_eq_true] at quoted
        exact Dialect.isReservedSqlWord_of_needsQuotes quoted.2
      refine ⟨.ofName s.toList, s, ?_, Word.calls_ofName free, h⟩
      rw [wordsIn_name, written]
      exact (SpellsName.of_isPlainName plain).spells.words_eq
  · refine words_part_of_delimited ?_
    rw [Dialect.writeName, delimited, Dialect.bareName?_delimited hquote]

/-- Parts of a name are written as the same parts. -/
theorem words_dotted (nonempty : parts ≠ [])
    (own : ∀ s ∈ parts, (Text.partName? s.toList).isSome) :
    ∃ texts, Word.Dotted (wordsIn r.dialect (r.dotted parts)) texts ∧
      texts.map (fun s => Text.partName? s.toList) = parts.map fun s => Text.partName? s.toList := by
  induction parts with
  | nil => exact absurd rfl nonempty
  | cons s parts ih =>
    obtain ⟨here, below⟩ := List.forall_mem_cons.1 own
    obtain ⟨name, known⟩ := Option.isSome_iff_exists.1 here
    obtain ⟨w, t, words, calls, same⟩ := words_part (r := r) known
    cases parts with
    | nil =>
      refine ⟨[t], ?_, by rw [List.map_singleton, List.map_singleton, known, same]⟩
      have single : r.dotted [s] = [r.name s] := rfl
      rw [single, words]
      exact .single calls
    | cons s' parts =>
      obtain ⟨texts, dotted, all⟩ := ih (List.cons_ne_nil _ _) below
      refine ⟨t :: texts, ?_, by rw [List.map_cons, List.map_cons, known, same, all]⟩
      have split : r.dotted (s :: s' :: parts) =
          [r.name s] ++ [.text "."] ++ r.dotted (s' :: parts) := rfl
      rw [split, wordsIn_append, wordsIn_append, words, wordsIn_text, words_dot]
      exact .cons calls rfl dotted

end RenderContext

namespace Names

open Word Worth

variable {us ws : List Word} {r : RenderContext} {parts : List String} {all : Bool}

/-- Words without points in front of others take nothing away. -/
theorem written_le_append (free : ∀ w ∈ us, w.kind ≠ .punct .dot) (ws : List Word) :
    written ws ≤ written (us ++ ws) := by
  induction us with
  | nil => exact le_rfl
  | cons w us ih =>
    obtain ⟨here, behind⟩ := List.forall_mem_cons.1 free
    refine (ih behind).trans ?_
    have first : startsDot (w :: (us ++ ws)) = false := by simpa [startsDot] using here
    rw [List.cons_append, written, written, first, if_neg Bool.false_ne_true,
      dottedNames_cons here]
    split
    · exact bot_le
    · exact of_mono (List.sublist_append_right _ _)

theorem keeps {k : TokenKind} (h : k ≠ .punct .dot) : Keeps written k := by
  rintro w ws rfl
  exact @written_le_append [w] (List.forall_mem_singleton.2 h) ws

theorem tells_zero {d : Dialect} {p : Phrase} (free : ∀ w ∈ wordsIn d p, w.kind ≠ .punct .dot) :
    Tells written d 0 p := by
  intro n hn ws
  obtain rfl : 0 = n := WithTop.coe_eq_coe.1 hn
  rw [zero_add]
  exact written_le_append free ws

theorem tells_name (s : String) : Tells written r.dialect 0 [r.name s] :=
  tells_zero fun w hw => (r.inRow_name s w hw).ne_dot

theorem tells_keyword (k : Keyword) : Tells written r.dialect 0 [.text k.spelling] := by
  refine tells_zero fun w hw => ?_
  rw [wordsIn_text, (spells_keyword _ k).words_eq, List.mem_singleton] at hw
  rw [hw]
  simp [Word.key]

/-- What a name is worth is the name. -/
theorem of_worth {n : Names} (h : worth parts all = ↑n) :
    n = of (DottedName.named? parts all).toList := by
  unfold worth at h
  unfold DottedName.named?
  split at h
  · rename_i single
    rw [if_pos single]
    exact (WithTop.coe_eq_coe.1 h).symm
  · rename_i several
    rw [if_neg several]
    split at h
    · rename_i name found
      rw [found]
      exact (WithTop.coe_eq_coe.1 h).symm
    · cases h

/-- A name of several parts that is known. -/
theorem isSome_of_worth {n : Names} (h : worth parts all = ↑n)
    (several : ¬(parts.length ≤ 1 && !all)) : ∀ s ∈ parts, (Text.partName? s.toList).isSome := by
  unfold worth at h
  rw [if_neg several] at h
  split at h
  · rename_i name found
    exact DottedName.isSome_of?.1 (Option.isSome_of_eq_some found)
  · cases h

/-- If words are written that go on with something, nothing is to be said. -/
theorem add_written_le {xs : List DottedName} (first : startsDot us = false)
    (h : startsDot ws = false → dottedNames us = xs ++ dottedNames ws) :
    of xs + written ws ≤ written us := by
  unfold written
  rw [first, if_neg Bool.false_ne_true]
  split
  · rw [WithBot.add_bot]
    exact bot_le
  · rename_i apart
    rw [h (by simpa using apart), of_append]

theorem tells_dotted (parts : List String) :
    Tells written r.dialect (worth parts false) (r.dotted parts) := by
  by_cases single : parts.length ≤ 1
  · have none : worth parts false = 0 := if_pos (by simpa using single)
    rw [none]
    rcases parts with _ | ⟨s, _ | ⟨t, parts⟩⟩
    · exact .nil
    · exact tells_name s
    · simp at single
  · intro n known ws
    have nonempty : parts ≠ [] := by
      rintro rfl
      exact single (by simp)
    have own := isSome_of_worth known (by simpa using single)
    obtain ⟨texts, dotted, same⟩ := RenderContext.words_dotted (r := r) nonempty own
    rw [of_worth known]
    refine add_written_le (startsDot_dotted dotted ws) fun apart => ?_
    rw [dottedNames_dotted dotted apart, DottedName.named?_congr same]

theorem tells_wildcard (s : String) : Tells written r.dialect (worth (Text.pieces s) true)
    (r.dotted (Text.pieces s) ++ [.text ".", .text "*"]) := by
  intro n known ws
  have own := isSome_of_worth known (by simp)
  obtain ⟨texts, dotted, same⟩ := RenderContext.words_dotted (r := r) (Text.pieces_ne_nil s) own
  have words : wordsIn r.dialect (r.dotted (Text.pieces s) ++ [.text ".", .text "*"]) ++ ws =
      wordsIn r.dialect (r.dotted (Text.pieces s)) ++ .sign .dot "." :: .sign .star "*" :: ws := by
    rw [wordsIn_append, wordsIn_star, List.append_assoc]
    rfl
  rw [of_worth known, words]
  refine add_written_le (startsDot_dotted dotted _) fun _ => ?_
  rw [dottedNames_wildcard dotted rfl rfl, DottedName.named?_congr same]

theorem tells_function {d : Dialect} {s : String} {n : Names} (known : function d s = ↑n)
    (ws : List Word) : n + written (.sign .leftParen "(" :: ws) ≤
      written (d.words s.toList ++ .sign .leftParen "(" :: ws) := by
  have paren : (Word.sign .leftParen "(").IsApart := isApart_sign (by decide) (by decide)
  unfold function at known
  split at known
  · rename_i alike
    obtain ⟨first, same⟩ := alike
    have opens : startsDot (d.words s.toList ++ .sign .leftParen "(" :: ws) = false := by
      cases words : d.words s.toList with
      | nil => exact paren.startsDot_cons ws
      | cons w us =>
        rw [words] at first
        exact first
    rw [of_worth known, written, written, opens, paren.startsDot_cons, if_neg Bool.false_ne_true,
      if_neg Bool.false_ne_true, paren.dottedNames_append, same, paren.dottedNames_cons,
      of_append]
  · cases known

/-- Whatever stands between AS and a parenthesis, it takes nothing away. -/
theorem written_le_as {d : Dialect} {s : String} (ws : List Word) :
    written (.sign .rightParen ")" :: ws) ≤
      written (.key .AS :: (d.words s.toList ++ .sign .rightParen ")" :: ws)) := by
  have paren : (Word.sign .rightParen ")").IsApart := isApart_sign (by decide) (by decide)
  have first : startsDot (.key .AS :: (d.words s.toList ++ .sign .rightParen ")" :: ws)) = false := rfl
  rw [written, written, first, paren.startsDot_cons, if_neg Bool.false_ne_true,
    if_neg Bool.false_ne_true, ← List.cons_append, paren.dottedNames_append,
    paren.dottedNames_cons]
  exact of_mono (List.sublist_append_right _ _)

theorem function_of_exists {d : Dialect} {s : String} (h : Text.sameWord s.toList "EXISTS".toList)
    {n : Names} (known : function d s = ↑n) : n = 0 := by
  have single : '.' ∉ s.toList := by
    intro point
    have upper : '.'.toUpper ∈ Text.upper s.toList := List.mem_map_of_mem point
    rw [beq_iff_eq.1 h] at upper
    exact absurd upper (by decide)
  unfold function at known
  rw [Text.pieces_of_notMem single] at known
  split at known
  · exact (WithTop.coe_eq_coe.1 known).symm
  · cases known

/-- What is worth no more than what is written of it is known. -/
theorem sublist_of_read_le (h : read us ≤ written ws) :
    (dottedNames us).Sublist (dottedNames ws) := by
  unfold read written at h
  split at h
  · split at h
    · exact absurd h (WithBot.not_coe_le_bot ⊤)
    · exact absurd (WithBot.coe_le_coe.1 h) (WithTop.not_top_le_coe _)
  · split at h
    · exact absurd h (WithBot.not_coe_le_bot _)
    · exact sublist_of_le h

end Names

open Names Word in
/-- The names with points of a tree are in its text. -/
noncomputable def Names.writing (r : RenderContext) : Writing Names r where
  toWeights := weights r.dialect
  marks := written
  keep_keyword k _ := keeps (by simp)
  keep_punct p dot _ := keeps (by simpa using dot)
  keep_literal k l literal := keeps (by
    rintro rfl
    cases literal)
  keep_name cs _ _ ws :=
    @written_le_append [.ofName cs] (List.forall_mem_singleton.2
      (Word.InRow.ne_dot (.inl ⟨cs, rfl⟩))) ws
  tells_name := tells_name
  tells_names := tells_dotted
  tells_wildcard := tells_wildcard
  tells_label s := (tells_keyword .AS).behind (tells_name s).blank
  tells_assigned s := by
    change Tells _ _ (assigned s) _
    unfold assigned
    split
    · intro n known
      cases known
    · exact tells_name s
  tells_collation s := by
    intro n known
    obtain ⟨free, rfl⟩ := Worth.of_nothing known
    refine tells_zero (fun w hw => ?_) 0 rfl
    rw [wordsIn_text] at hw
    exact free w hw
  tells_param p used text written := by
    intro n known
    cases known
  tells_join k := .words_join tells_keyword k
  function_le s n known ws := tells_function known ws
  exists_le s n same known := (function_of_exists same known).le
  type_le t n known ws := by
    obtain rfl : 0 = n := WithTop.coe_eq_coe.1 known
    rw [zero_add]
    exact written_le_as ws

/-- No parameter stands in the statement. Each part of a name is plain or properly delimited, also
where the text in front of `.*` and the name of a function are split at their points, and the dialect
reads the name of a function as these parts. No target that UPDATE sets has several parts, no point
stands in the name of a collation, and names with points do not stand both in the LIMIT and in the
OFFSET of a query. -/
def Body.PointsApart (d : Dialect) (b : Body) : Prop := b.worth (Names.weights d) ≠ ⊤

namespace Statement

open Word

variable {s : ParseSettings} {delimiter text : List Char} {st : Statement}

/-- In whatever dialect a statement is read and for whatever dialect it is rendered, its names with
points are in the text that is written, in the same order and with the same parts, each of which is
compared by what stands between its delimiters. -/
theorem Parsed.dottedNames_render (h : st.Parsed s delimiter text) {values : Bindings}
    {settings : RenderSettings} {d : Dialect}
    (notNull : ∀ p ∈ st.body.params, p.holdsNull st.params values = false)
    (lexable : st.body.Lexable (st.context values settings d)) (apart : st.body.PointsApart d)
    {sql : String} (written : st.render values settings d = .ok sql) :
    (dottedNames (s.dialect.allWords st.sql)).Sublist (dottedNames (d.allWords sql)) := by
  obtain ⟨n, known⟩ := WithTop.ne_top_iff_exists.1 apart
  obtain ⟨source, output⟩ := h.marks_le_render (Names.marking d) (Names.writing _) rfl notNull
    lexable known.symm written
  refine Names.sublist_of_read_le (source.trans (le_trans ?_ output))
  have eof : Names.written [.eof] = 0 := rfl
  change n ≤ n + Names.written [.eof]
  rw [eof, add_zero]

/-- `SELECT "a.b"."c" FROM s.t`. -/
def ofDotted : Statement where
  sql := "SELECT \"a.b\".\"c\" FROM s.t"
  body := .select { Select.ofColumns [⟨.name ⟨["\"a.b\"", "\"c\""]⟩, none⟩] with
    source := some ⟨[⟨.table ⟨["s", "t"]⟩, none⟩], []⟩ }
  params := .empty

theorem parsed_ofDotted : ofDotted.Parsed {} [] ofDotted.sql.toList := by
  let ts : List Token :=
    [.onLine (.keyword .SELECT) "" "SELECT" 0, .onLine (.identifier "\"a.b\"") " " "\"a.b\"" 7,
      .onLine (.punct .dot) "" "." 12, .onLine (.identifier "\"c\"") "" "\"c\"" 13,
      .onLine (.keyword .FROM) " " "FROM" 17, .onLine (.identifier "s") " " "s" 22,
      .onLine (.punct .dot) "" "." 23, .onLine (.identifier "t") "" "t" 24]
  let p : Piece := .onLine ts 25
  have found : ((Script.ofText [] ofDotted.sql.toList).settle .standard).piece {} = .ok p := by
    decide +kernel
  have inner : p.innerTokens .standard = ts ++ [p.terminator] := by decide +kernel
  exact parsed_of_piece found nofun inner rfl rfl rfl rfl rfl rfl

theorem Parsed.dottedNames_render_quoted :
    ofDotted.Parsed {} [] ofDotted.sql.toList ∧
      (∀ p ∈ ofDotted.body.params, p.holdsNull ofDotted.params .empty = false) ∧
      ofDotted.body.Lexable (ofDotted.context .empty { forceQuotes := true } .standard) ∧
      ofDotted.body.PointsApart .standard ∧
      ofDotted.render .empty { forceQuotes := true } .standard =
        .ok "SELECT \"a.b\".\"c\" FROM \"s\".\"t\"" ∧
      (dottedNames (Dialect.standard.allWords ofDotted.sql)).Sublist
        (dottedNames (Dialect.standard.allWords "SELECT \"a.b\".\"c\" FROM \"s\".\"t\"")) := by
  have params : ofDotted.body.params = [] := by rfl
  have notNull : ∀ p ∈ ofDotted.body.params, p.holdsNull ofDotted.params .empty = false := by
    simp [params]
  have lexable :
      ofDotted.body.Lexable (ofDotted.context .empty { forceQuotes := true } .standard) := by
    refine ⟨nofun, fun q hq => ?_⟩
    rw [List.mem_singleton.1 hq]
    refine .intro nofun (fun x hx => ?_) nofun
    rw [List.mem_singleton.1 hx]
    exact .intro trivial nofun nofun
  have column : Names.worth ["\"a.b\"", "\"c\""] false ≠ ⊤ :=
    Names.worth_ne_top (by decide +kernel)
  have table : Names.worth ["s", "t"] false ≠ ⊤ := Names.worth_ne_top (by decide +kernel)
  have apart : ofDotted.body.PointsApart .standard := by
    simp [Body.PointsApart, ofDotted, Select.ofColumns, Body.worth, Select.worth,
      Column.worthAll, Expr.worth, Expr.worthOption, Expr.worthAll, OrderItem.worthAll,
      FromClause.worthOption, Target.worths, Join.worths, Worth.source, Worth.joined, Worth.either,
      Names.weights, column, table]
  have written : ofDotted.render .empty { forceQuotes := true } .standard =
      .ok "SELECT \"a.b\".\"c\" FROM \"s\".\"t\"" := by
    decide +kernel
  exact ⟨parsed_ofDotted, notNull, lexable, apart, written,
    parsed_ofDotted.dottedNames_render notNull lexable apart written⟩

end Statement

end BoundSql
