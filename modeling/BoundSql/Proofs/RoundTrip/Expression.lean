import BoundSql.Proofs.RoundTrip.Operand
import BoundSql.Proofs.RoundTrip.Plain

/-!
# Reading plain expressions back

One lemma for each way of building an expression says that its words are read back if those of its
parts are; `readBack` puts them together.
-/

namespace BoundSql

open Text Token Parse Grammar Phrase Render RenderContext

section Parts

variable {d : Dialect} {r : RenderContext} {e : Expr} {p : Phrase} {limit levels least : Nat}
  {w : Word}

theorem rank_of_outermost_none {e : Expr} (h : e.outermost? = none) : e.rank = 17 := by
  rw [Expr.rank, h]

theorem Operator.power_ne_of_flattens {op : Operator} (h : op.flattens) :
    op.power ≠ 4 ∧ op.power ≠ 5 ∧ op.power ≠ 17 := by
  cases op <;> first | (cases h; done) | decide

/-- An expression that is no operation between operands. -/
theorem readBack_atom {u : Word} {us : List Word} (hout : e.outermost? = none)
    (hout' : e.regrouped.outermost? = none) (hu : wordsIn d p = u :: us) (hbegins : u.Begins)
    (hnull : u.kind ≠ .keyword .NULL) (hnot : u.kind ≠ .keyword .NOT)
    (opens : ∀ {limit levels least w}, 2 * sizeOf e ≤ levels → w.Follows 17 →
      Opens (below limit levels) least (wordsIn d p) e.regrouped w) : ReadBack d e p := by
  have hrank := rank_of_outermost_none hout
  refine .of_opens (hout'.trans hout.symm) (fun op hop => ?_)
    ⟨u, us, hu, hbegins, hnull, fun _ => hnot⟩ fun hlevels hw _ => ?_
  · rw [hrank]
    exact (Operator.power_ne_of_flattens hop).2.2
  · rw [hrank] at hw
    exact opens hlevels hw

theorem readBack_literal {l : Literal} (hl : l.Plain) :
    ReadBack .standard (.literal l) [.text (l.sql .standard)] := by
  obtain ⟨v, hspells, hv⟩ := hl.spells
  have hwords : wordsIn .standard [.text (l.sql .standard)] = [v] := by
    rw [wordsIn_text, hspells.words_eq]
  have hne {k : TokenKind} (hk : literal? k = none ∨ literal? k = some .null) : v.kind ≠ k := by
    rintro rfl
    rw [hv] at hk
    rcases hk with h | h <;> cases h
    exact hl
  refine readBack_atom rfl rfl hwords ?_ (hne (.inr rfl)) (hne (.inl rfl)) fun _ hw => ?_
  · constructor <;> exact hne (.inl rfl)
  · rw [hwords]
    exact opens_literal hv hw.separates

/-- The words of names with points between them. -/
theorem wordsIn_dotted {s : String} {ss : List String} (hs : r.PlainName s)
    (hss : ∀ s ∈ ss, r.PlainName s) :
    wordsIn r.dialect (r.dotted (s :: ss)) =
      .ofName s.toList :: Word.dotted (ss.map fun s => .ofName s.toList) := by
  have hword {s : String} (hs : r.PlainName s) : wordsIn r.dialect [r.name s] = [.ofName s.toList] := by
    rw [wordsIn_name, hs.writeName]
    exact (SpellsName.of_isPlainName hs.isPlainName).spells.words_eq
  induction ss generalizing s with
  | nil => exact hword hs
  | cons t ts ih =>
    have ih := ih (hss t List.mem_cons_self) fun s hs => hss s (List.mem_cons_of_mem _ hs)
    have hdotted : r.dotted (s :: t :: ts) = [r.name s] ++ [.text "."] ++ r.dotted (t :: ts) := rfl
    rw [hdotted, wordsIn_append, wordsIn_append, ih, hword hs, wordsIn_text, words_dot]
    rfl

theorem ofName_text (s : String) : (Word.ofName s.toList).text = s := String.ofList_toList

/-- A name begins what it stands at the beginning of. -/
theorem RenderContext.PlainName.begins {s : String} (hs : r.PlainName s) :
    (Word.ofName s.toList).Begins ∧ (Word.ofName s.toList).kind ≠ .keyword .NULL ∧
      (Word.ofName s.toList).kind ≠ .keyword .NOT := by
  have hname := hs.isName
  exact ⟨⟨hname.ne_keyword rfl, hname.ne_keyword rfl, hname.ne_keyword rfl, hname.ne_keyword rfl,
    hname.ne_punct _⟩, hname.ne_keyword rfl, hname.ne_keyword rfl⟩

theorem readBack_name {i : Identifier} (hne : i.parts ≠ []) (hi : ∀ s ∈ i.parts, r.PlainName s) :
    ReadBack r.dialect (.name i) (r.qualified i) := by
  obtain ⟨parts⟩ := i
  cases parts with
  | nil => exact absurd rfl hne
  | cons s ss =>
    have hs := hi s List.mem_cons_self
    have hss : ∀ t ∈ ss, r.PlainName t := fun t ht => hi t (List.mem_cons_of_mem _ ht)
    obtain ⟨hbegins, hnull, hnot⟩ := hs.begins
    have hwords := wordsIn_dotted hs hss
    refine readBack_atom rfl rfl hwords hbegins hnull hnot fun {limit levels least w} _ hw => ?_
    have hmembers : ∀ m ∈ ss.map fun s => Word.ofName s.toList, m.IsMember := by
      intro m hm
      obtain ⟨t, ht, rfl⟩ := List.mem_map.1 hm
      exact (hss t ht).isName.isMember
    have hopens : Opens (below limit levels) least
        (.ofName s.toList :: Word.dotted (ss.map fun s => .ofName s.toList)) _ w :=
      opens_name hs.isName hmembers hw.separates
    rw [qualified, hwords, Expr.regrouped_name]
    simpa only [List.map_map, Function.comp_def, ofName_text, List.map_id'] using hopens

section Lists

variable {es : List Expr} {ps : List Phrase}

theorem takesCommas_commas (h : List.Forall₂ (ReadBack d) es ps) (hne : es ≠ [])
    (hlevels : ∀ e ∈ es, 2 * sizeOf e < levels) (hw : w.Closes) :
    TakesCommas (expression limit levels 0) w (wordsIn d (commas ps)) (es.map Expr.regrouped) := by
  refine takesCommas_of_forall₂ ?_ (by simpa using hne)
  induction h with
  | nil => exact .nil
  | @cons e p es ps he hes ih =>
    refine .cons (fun v hv => he.takes_whole (hlevels e List.mem_cons_self) ?_) ?_
    · rcases hv with hv | rfl
      · exact .punct hv rfl rfl
      · exact hw
    · cases es with
      | nil =>
        cases hes
        exact .nil
      | cons e' es => exact ih (by simp) fun x hx => hlevels x (List.mem_cons_of_mem _ hx)

theorem begins_commas (h : List.Forall₂ (ReadBack d) es ps) (hne : es ≠ []) :
    ∃ u us, wordsIn d (commas ps) = u :: us ∧ u.Begins := by
  cases h with
  | nil => exact absurd rfl hne
  | @cons e p es ps he hes =>
    obtain ⟨u, us, hu, hbegins, -⟩ := he.begins
    cases hes with
    | nil => exact ⟨u, us, hu, hbegins⟩
    | cons =>
      rw [wordsIn_commas, hu]
      exact ⟨u, _, rfl, hbegins⟩

theorem takesArguments_commas (h : List.Forall₂ (ReadBack d) es ps)
    (hlevels : ∀ e ∈ es, 2 * sizeOf e < levels) (hw : w.Closes) :
    TakesArguments (below limit levels) w (wordsIn d (commas ps)) (es.map Expr.regrouped) := by
  cases es with
  | nil =>
    cases h
    exact .none
  | cons e es =>
    have htakes : TakesCommas (expression limit levels 0) w (wordsIn d (commas ps))
        ((e :: es).map Expr.regrouped) := takesCommas_commas h (by simp) hlevels hw
    obtain ⟨u, us, hu, hbegins⟩ := begins_commas h (by simp)
    rw [hu] at htakes ⊢
    exact .some hbegins htakes

end Lists

/-- Whatever is written of the expression is read back. -/
def Expr.WrittenReadBack (r : RenderContext) (e : Expr) : Prop :=
  ∀ used p used', Gives (e.render r) used p used' → ReadBack r.dialect e p

variable {used used' : List String} {ps : List Phrase}

theorem Expr.readBack_renderAll {es : List Expr} (hes : ∀ e ∈ es, e.WrittenReadBack r)
    (h : Gives (Expr.renderAll r es) used ps used') :
    List.Forall₂ (ReadBack r.dialect) es ps := by
  rw [renderAll_eq_mapM] at h
  exact forall₂_of_gives_mapM hes h

theorem Expr.readBack_call {function : String} {distinct : Bool} {args : List Expr}
    (hfunction : r.PlainName function) (hquery : ∀ q, args ≠ [.subquery q])
    (hes : ∀ e ∈ args, e.WrittenReadBack r) : (call function distinct args).WrittenReadBack r := by
  intro used p used' h
  obtain ⟨ps, hps, rfl⟩ := (gives_call hquery).1 h
  have hargs := readBack_renderAll hes hps
  have hname := (SpellsName.of_isPlainName (d := r.dialect) hfunction.isPlainName).spells.words_eq
  have hwords : wordsIn r.dialect (.text function ::
      parens ((if distinct then [.text "DISTINCT", .blank] else []) ++ commas ps)) =
      .ofName function.toList :: .sign .leftParen "(" ::
        ((if distinct then [.key .DISTINCT] else []) ++ wordsIn r.dialect (commas ps)) ++
          [.sign .rightParen ")"] := by
    rw [wordsIn_cons, wordsIn_parens, wordsIn_append, Mark.words, hname]
    cases distinct
    · rfl
    · simp only [if_true, wordsIn_cons, wordsIn_nil, Mark.words, words_fixed r.dialect]
      rfl
  obtain ⟨hbegins, hnull, hnot⟩ := hfunction.begins
  refine readBack_atom rfl rfl hwords hbegins hnull hnot fun {limit levels least w} hlevels _ => ?_
  have hlevels' : ∀ e ∈ args, 2 * sizeOf e < levels := by
    intro e he
    have : sizeOf e < sizeOf (call function distinct args) := sizeOf_lt_of_mem_parts he
    omega
  have htakes : TakesArguments (below limit levels) (.sign .rightParen ")")
      (wordsIn r.dialect (commas ps)) (args.map regrouped) :=
    takesArguments_commas hargs hlevels' (.punct rfl rfl rfl)
  have hopens : Opens (below limit levels) least
      (.ofName function.toList :: Word.dotted [] ++ .sign .leftParen "(" ::
        ((if distinct then [.key .DISTINCT] else []) ++ wordsIn r.dialect (commas ps)) ++
          [.sign .rightParen ")"]) _ w :=
    opens_call hfunction.isName (by simp) rfl rfl htakes w
  rw [List.map_nil, String.intercalate_singleton, ofName_text] at hopens
  rw [hwords, regrouped_call]
  exact hopens

theorem Expr.readBack_renderOption {o : Option Expr} {q : Option Phrase}
    (ho : ∀ e ∈ o.toList, e.WrittenReadBack r) (h : Gives (Expr.renderOption r o) used q used') :
    o = none ∧ q = none ∨ ∃ e p, o = some e ∧ q = some p ∧ ReadBack r.dialect e p := by
  cases o with
  | none =>
    obtain ⟨rfl, -⟩ := gives_pure.1 h
    exact .inl ⟨rfl, rfl⟩
  | some e =>
    simp only [Expr.renderOption, gives_bind, gives_pure] at h
    obtain ⟨p, _, hp, rfl, -⟩ := h
    exact .inr ⟨e, p, rfl, rfl, ho e (by simp) _ _ _ hp⟩

/-- The arms of CASE. -/
theorem Expr.takesArms_renderArms {arms : List (Expr × Expr)}
    (harms : ∀ arm ∈ arms, arm.1.WrittenReadBack r ∧ arm.2.WrittenReadBack r)
    (hlevels : ∀ arm ∈ arms, 2 * sizeOf arm.1 < levels ∧ 2 * sizeOf arm.2 < levels)
    (h : Gives (Expr.renderArms r arms) used p used') :
    TakesArms (below limit levels) (wordsIn r.dialect p)
      (arms.map fun arm => (arm.1.regrouped, arm.2.regrouped)) := by
  induction arms generalizing used used' p with
  | nil =>
    obtain ⟨rfl, -⟩ := gives_pure.1 h
    exact .nil
  | cons arm arms ih =>
    obtain ⟨c, t⟩ := arm
    simp only [Expr.renderArms, gives_bind, gives_pure] at h
    obtain ⟨pc, _, hc, pt, _, ht, ps, _, hps, rfl, -⟩ := h
    obtain ⟨hwc, hwt⟩ := harms _ List.mem_cons_self
    obtain ⟨hlc, hlt⟩ := hlevels _ List.mem_cons_self
    have hothers := ih (fun a ha => harms a (List.mem_cons_of_mem _ ha))
      (fun a ha => hlevels a (List.mem_cons_of_mem _ ha)) hps
    have hwords : wordsIn r.dialect ([.blank, .text "WHEN", .blank] ++ pc ++
        [.blank, .text "THEN", .blank] ++ pt ++ ps) =
        .key .WHEN :: wordsIn r.dialect pc ++ .key .THEN :: wordsIn r.dialect pt ++
          wordsIn r.dialect ps := by
      simp only [wordsIn_append, wordsIn_cons, Mark.words, words_fixed r.dialect,
        List.nil_append, List.cons_append, List.append_assoc]
    have hcondition : Takes (expression limit levels 0) (wordsIn r.dialect pc) c.regrouped
        (.key .THEN) := (hwc _ _ _ hc).takes_whole hlc (.keyword rfl rfl)
    rw [hwords]
    exact .cons rfl rfl hcondition (fun w hw => (hwt _ _ _ ht).takes_whole hlt hw) hothers

/-- The value that CASE compares. -/
theorem Expr.takes_renderBase {base : Option Expr} {q : Option Phrase}
    (hbase : ∀ e ∈ base.toList, e.WrittenReadBack r)
    (hlevels : ∀ e ∈ base.toList, 2 * sizeOf e < levels)
    (h : Gives (Expr.renderOption r base) used q used') (hw : w.kind = .keyword .WHEN) :
    Takes (caseBase (below limit levels)) (wordsIn r.dialect (after [.blank] q))
      (base.map regrouped) w := by
  intro rest
  rcases readBack_renderOption hbase h with ⟨rfl, rfl⟩ | ⟨e, p, rfl, rfl, he⟩
  · refine (reads_isAt _).bind ?_
    rw [hw]
    exact reads_pure _
  · obtain ⟨u, us, hu, hbegins, -⟩ := he.begins
    have htakes : Takes (expression limit levels 0) (wordsIn r.dialect p) e.regrouped w :=
      he.takes_whole (hlevels e (by simp)) (.keyword hw rfl)
    have hreads := htakes rest
    change Reads _ (wordsIn r.dialect p ++ w :: rest) _ _
    rw [hu] at hreads ⊢
    refine (reads_isAt _).bind ?_
    rw [beq_eq_false_iff_ne.2 hbegins.arm]
    exact hreads.map

/-- The result of CASE when no arm applies. -/
theorem Expr.takesAfter_renderElse {otherwise : Option Expr} {q : Option Phrase}
    (hotherwise : ∀ e ∈ otherwise.toList, e.WrittenReadBack r)
    (hlevels : ∀ e ∈ otherwise.toList, 2 * sizeOf e < levels)
    (h : Gives (Expr.renderOption r otherwise) used q used') :
    TakesAfter .ELSE (expression limit levels 0) (.key .END)
      (wordsIn r.dialect (after [.blank, .text "ELSE", .blank] q)) (otherwise.map regrouped) := by
  rcases readBack_renderOption hotherwise h with ⟨rfl, rfl⟩ | ⟨e, p, rfl, rfl, he⟩
  · exact .none
  · have hmarks : wordsIn r.dialect (after [.blank, .text "ELSE", .blank] (some p)) =
        .key .ELSE :: wordsIn r.dialect p := by
      simp only [after, wordsIn_cons, Mark.words, words_fixed r.dialect, List.nil_append,
        List.cons_append]
    rw [hmarks]
    exact .some rfl (he.takes_whole (hlevels e (by simp)) (.keyword rfl rfl))

theorem Expr.readBack_cases {base otherwise : Option Expr} {arms : List (Expr × Expr)}
    (hne : arms ≠ []) (hbase : ∀ e ∈ base.toList, e.WrittenReadBack r)
    (harms : ∀ arm ∈ arms, arm.1.WrittenReadBack r ∧ arm.2.WrittenReadBack r)
    (hotherwise : ∀ e ∈ otherwise.toList, e.WrittenReadBack r) :
    (cases base arms otherwise).WrittenReadBack r := by
  intro used p used' h
  simp only [Expr.render, gives_bind, gives_pure] at h
  obtain ⟨pb, _, hpb, pa, _, hpa, po, _, hpo, rfl, -⟩ := h
  have hlevels {e : Expr} {levels : Nat} (he : e ∈ (cases base arms otherwise).parts)
      (hlevels : 2 * sizeOf (cases base arms otherwise) ≤ levels) : 2 * sizeOf e < levels := by
    have := sizeOf_lt_of_mem_parts he
    omega
  have hwords : wordsIn r.dialect (.text "CASE" :: after [.blank] pb ++ pa ++
      after [.blank, .text "ELSE", .blank] po ++ [.blank, .text "END"]) =
      .key .CASE :: (wordsIn r.dialect (after [.blank] pb) ++ wordsIn r.dialect pa ++
        wordsIn r.dialect (after [.blank, .text "ELSE", .blank] po)) ++ [.key .END] := by
    simp only [wordsIn_append, wordsIn_cons, wordsIn_nil, Mark.words, words_fixed r.dialect,
      List.nil_append, List.cons_append, List.append_assoc, List.append_nil]
  refine readBack_atom rfl rfl hwords (by constructor <;> simp [Word.key]) (by simp [Word.key])
    (by simp [Word.key]) fun {limit levels least w} hsize _ => ?_
  have htakesBase (w : Word) (hw : w.kind = .keyword .WHEN) :
      Takes (caseBase (below limit levels)) (wordsIn r.dialect (after [.blank] pb))
        (base.map regrouped) w :=
    takes_renderBase hbase (fun e he => hlevels (by simp [parts, Option.mem_toList.1 he]) hsize) hpb hw
  have htakesElse : TakesAfter .ELSE (expression limit levels 0) (.key .END)
      (wordsIn r.dialect (after [.blank, .text "ELSE", .blank] po)) (otherwise.map regrouped) :=
    takesAfter_renderElse hotherwise
      (fun e he => hlevels (by simp [parts, Option.mem_toList.1 he]) hsize) hpo
  have hlevelsArms : ∀ arm ∈ arms, 2 * sizeOf arm.1 < levels ∧ 2 * sizeOf arm.2 < levels := by
    intro arm harm
    have hmem : ∀ e ∈ [arm.1, arm.2], e ∈ (cases base arms otherwise).parts := by
      intro e he
      exact List.mem_append_left _ (List.mem_append_right _ (List.mem_flatMap.2 ⟨arm, harm, he⟩))
    exact ⟨hlevels (hmem _ (by simp)) hsize, hlevels (hmem _ (by simp)) hsize⟩
  have htakesArms : TakesArms (below limit levels) (wordsIn r.dialect pa)
      (arms.map fun arm => (arm.1.regrouped, arm.2.regrouped)) :=
    takesArms_renderArms harms hlevelsArms hpa
  rw [hwords, regrouped_cases]
  exact opens_cases rfl rfl htakesBase htakesArms (by simpa using hne) htakesElse w

theorem Expr.readBack_cast {e : Expr} {type : DataType} (hd : r.dialect = .standard)
    (htype : type.Plain) (he : e.WrittenReadBack r) : (cast e type).WrittenReadBack r := by
  intro used p used' h
  simp only [Expr.render, gives_bind, gives_pure] at h
  obtain ⟨p, _, hp, rfl, -⟩ := h
  obtain ⟨ws, hspells, htakes⟩ := htype.spells
  have htypeWords := hspells.words_eq
  rw [← hd] at htypeWords
  have hwords : wordsIn r.dialect (.text "CAST" ::
      parens (p ++ [.blank, .text "AS", .blank, .text type.sql])) =
      .key .CAST :: .sign .leftParen "(" :: (wordsIn r.dialect p ++ .key .AS :: ws) ++
        [.sign .rightParen ")"] := by
    simp only [wordsIn_parens, wordsIn_append, wordsIn_cons, wordsIn_nil, Mark.words,
      words_fixed r.dialect, htypeWords, List.nil_append, List.cons_append, List.append_nil]
  refine readBack_atom rfl rfl hwords (by constructor <;> simp [Word.key]) (by simp [Word.key])
    (by simp [Word.key]) fun {limit levels least w} hsize _ => ?_
  have hlevels : 2 * sizeOf e < levels := by
    have : sizeOf e < sizeOf (cast e type) := sizeOf_lt_of_mem_parts (by simp [parts])
    omega
  have htakesExpr : Takes (expression limit levels 0) (wordsIn r.dialect p) e.regrouped (.key .AS) :=
    (he _ _ _ hp).takes_whole hlevels (.keyword rfl rfl)
  rw [hwords, regrouped_cast]
  exact opens_cast rfl rfl rfl rfl htakesExpr (htakes _ rfl) w

end Parts

end BoundSql
