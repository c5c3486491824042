import BoundSql.Grammar.Query
import BoundSql.Proofs.Grammar.Reads
import BoundSql.Proofs.Token.Fixed

/-!
# Reading expressions

What the productions of the grammar read. An expression is read as an operand with infix forms taken
up behind it: `Opens` says how far that gets, and `Opens.takes` that it ends in front of a word that
does not bind tightly enough.
-/

namespace BoundSql

open Parse Grammar

/-- The words of the tokens of a text. -/
theorem Cursor.words_ofText (d : Dialect) (text : List Char) :
    (Cursor.ofTokens (Lexer.ofText d.lexicon text).tokens).words = d.words text ++ [Word.eof] := by
  have htokens := Lexer.toWord_tokens_ofText d.lexicon text .start
  have hne : (Lexer.ofText d.lexicon text).tokens ≠ [] := by
    intro hnil
    rw [hnil] at htokens
    simp at htokens
  rw [Cursor.words_ofTokens hne, htokens]
  rfl

namespace Operator

/-- How tightly the operator binds to its left, or to its operand, while it is read. -/
def power : Operator → Nat
  | or => 1
  | and => 3
  | not => 4
  | bitOr => 7
  | bitAnd => 9
  | leftShift | rightShift => 11
  | plus | minus | concat => 13
  | star | div | rem => 15
  | bitNot => 17
  | _ => 5

/-- The operator stands between two operands or more. -/
def IsBetween (op : Operator) : Prop := op.acceptsOperands 2 ∧ op ≠ isIn ∧ op ≠ notIn

instance (op : Operator) : Decidable op.IsBetween :=
  inferInstanceAs (Decidable (op.acceptsOperands 2 = true ∧ op ≠ isIn ∧ op ≠ notIn))

/-- What binds tighter where it is written binds tighter where it is read. -/
theorem power_lt_iff (a b : Operator) : a.power < b.power ↔ a.precedence < b.precedence := by
  cases a <;> cases b <;> decide

theorem power_eq_iff (a b : Operator) : a.power = b.power ↔ a.precedence = b.precedence := by
  cases a <;> cases b <;> decide

end Operator

namespace TokenKind

/-- Whether the token can stand behind an operand without belonging to it. -/
def separates : TokenKind → Bool
  | keyword _ | eof => true
  | punct p => p != .dot && p != .leftParen
  | _ => false

end TokenKind

namespace Word

/-- The word stands behind an operand, and an infix form that it begins binds at most this
tightly. -/
structure Follows (w : Word) (power : Nat) : Prop where
  separates : w.kind.separates
  loose : ∀ form, Infix.ofToken? w.kind = some form → form.left ≤ power

/-- The word stands behind an operand and begins no infix form that binds at least this tightly. -/
structure Stops (w : Word) (least : Nat) : Prop where
  separates : w.kind.separates
  loose : ∀ form, Infix.ofToken? w.kind = some form → form.left < least

/-- The word stands behind an operand and begins no infix form. -/
def Closes (w : Word) : Prop := w.kind.separates ∧ Infix.ofToken? w.kind = none

theorem Closes.keyword {w : Word} {k : Keyword} (h : w.kind = .keyword k)
    (hk : Infix.ofKeyword? k = none) : w.Closes := by
  rw [Closes, h]
  exact ⟨rfl, hk⟩

theorem Closes.punct {w : Word} {p : Punct} (h : w.kind = .punct p)
    (hp : (TokenKind.punct p).separates) (hk : Infix.ofPunct? p = none) : w.Closes := by
  rw [Closes, h]
  exact ⟨hp, hk⟩

theorem Closes.stops {w : Word} (h : w.Closes) (least : Nat) : w.Stops least :=
  ⟨h.1, fun form hform => by rw [h.2] at hform; cases hform⟩

theorem Closes.follows {w : Word} (h : w.Closes) (power : Nat) : w.Follows power :=
  ⟨h.1, fun form hform => by rw [h.2] at hform; cases hform⟩

theorem Follows.stops {w : Word} {power : Nat} (h : w.Follows power) : w.Stops (power + 1) :=
  ⟨h.1, fun form hform => Nat.lt_succ_of_le (h.2 form hform)⟩

theorem Follows.mono {w : Word} {m n : Nat} (h : w.Follows m) (hmn : m ≤ n) : w.Follows n :=
  ⟨h.1, fun form hform => Nat.le_trans (h.2 form hform) hmn⟩

theorem Stops.mono {w : Word} {m n : Nat} (h : w.Stops m) (hmn : m ≤ n) : w.Stops n :=
  ⟨h.1, fun form hform => Nat.lt_of_lt_of_le (h.2 form hform) hmn⟩

/-- The word can begin an expression where a query, a quantifier, an arm of CASE or the end of a
list might stand instead. -/
structure Begins (w : Word) : Prop where
  select : w.kind ≠ .keyword .SELECT
  arm : w.kind ≠ .keyword .WHEN
  distinct : w.kind ≠ .keyword .DISTINCT
  all : w.kind ≠ .keyword .ALL
  close : w.kind ≠ .punct .rightParen

/-- Names with a point in front of each. -/
def dotted (ms : List Word) : List Word := ms.flatMap fun m => [.sign .dot ".", m]

theorem dotted_cons (m : Word) (ms : List Word) :
    dotted (m :: ms) = .sign .dot "." :: m :: dotted ms := rfl

theorem length_le_dotted (ms : List Word) : ms.length ≤ (dotted ms).length := by
  induction ms with
  | nil => exact Nat.le_refl _
  | cons m ms ih =>
    simp only [dotted_cons, List.length_cons]
    omega

end Word

namespace Grammar

/-- How expressions and queries are read with `levels` levels of nesting left. -/
def below (limit levels : Nat) : Nested := ⟨expression limit levels, query limit levels⟩

variable {r : Nested} {limit levels least : Nat} {ws vs us : List Word} {w : Word} {x y : Expr}

/-- An operand and infix forms behind it that bind at least this tightly are read as `x` up to the
word `w`, where there may be more of them. -/
def Opens (r : Nested) (least : Nat) (ws : List Word) (x : Expr) (w : Word) : Prop :=
  ∀ rest, ∃ vs y, Reads (operand r) (ws ++ w :: rest) y vs ∧
    Steps (infixStep r least) vs y (w :: rest) x

/-- Infix forms that are taken up behind `x` turn it into `y`. -/
def Extends (r : Nested) (least : Nat) (x : Expr) (ws : List Word) (y : Expr) (w : Word) : Prop :=
  ∀ rest, Steps (infixStep r least) (ws ++ w :: rest) x (w :: rest) y

theorem reads_infixStep_none (hw : w.Stops least) :
    Reads (infixStep r least x) (w :: ws) none (w :: ws) := by
  refine reads_kind.bind ?_
  split
  · exact reads_pure _
  · rename_i form hform
    rw [if_pos (hw.loose form hform)]
    exact reads_pure _

theorem reads_infixStep {form : Infix} (hform : Infix.ofToken? w.kind = some form)
    (hleast : least ≤ form.left) (hne : ws ≠ []) (h : Reads (infixTail r x form) ws y vs) :
    Reads (infixStep r least x) (w :: ws) (some y) vs := by
  refine reads_kind.bind ?_
  rw [hform]
  dsimp only
  rw [if_neg (Nat.not_lt.2 hleast)]
  exact (reads_advance hne).bind h.map

theorem Opens.takes (h : Opens (below limit levels) least ws x w) (hw : w.Stops least) :
    Takes (expression limit (levels + 1) least) ws x w := by
  intro rest
  obtain ⟨vs, y, hoperand, hsteps⟩ := h rest
  exact hoperand.bind (hsteps.reads (reads_infixStep_none hw))

theorem Opens.extends {v : Word} (h : Opens r least ws x v)
    (h' : Extends r least x (v :: vs) y w) : Opens r least (ws ++ v :: vs) y w := by
  intro rest
  obtain ⟨us, z, hoperand, hsteps⟩ := h (vs ++ w :: rest)
  refine ⟨us, z, ?_, hsteps.trans (h' rest)⟩
  simpa only [List.append_assoc, List.cons_append] using hoperand

theorem Extends.trans {v : Word} {z : Expr} (h : Extends r least x ws y v)
    (h' : Extends r least y (v :: vs) z w) : Extends r least x (ws ++ v :: vs) z w := by
  intro rest
  have := (h (vs ++ w :: rest)).trans (h' rest)
  simpa only [List.append_assoc, List.cons_append] using this

theorem Opens.of_reads (h : ∀ rest, Reads (operand r) (ws ++ w :: rest) x (w :: rest)) :
    Opens r least ws x w :=
  fun rest => ⟨_, _, h rest, .refl⟩

/-- One infix form. -/
theorem Extends.form {v : Word} (form : Infix) (hform : Infix.ofToken? v.kind = some form)
    (hleast : least ≤ form.left) (h : Takes (infixTail r x form) ws y w) :
    Extends r least x (v :: ws) y w := by
  intro rest
  refine .single (reads_infixStep hform hleast (by simp) (h rest)) ?_
  simp only [List.cons_append, List.length_append, List.length_cons]
  omega

/-- A binary operator with the operand behind it. -/
theorem Extends.binary {v : Word} {op : Operator} {lhs : Expr}
    (hform : Infix.ofToken? v.kind = some (.binary op)) (hleast : least ≤ (Infix.binary op).left)
    (h : Takes (r.expr (Infix.binary op).right) ws x w) :
    Extends r least lhs (v :: ws) (combine op lhs x) w :=
  .form (.binary op) hform hleast fun rest => (h rest).bind (reads_pure _)

/-- What begins with neither NOT nor a sign is an expression without operators around it. -/
theorem reads_operand (hnot : w.kind ≠ .keyword .NOT) (hminus : w.kind ≠ .punct .minus)
    (hbitNot : w.kind ≠ .punct .bitNot) (hplus : w.kind ≠ .punct .plus)
    (h : Reads (primary r) (w :: ws) x vs) : Reads (operand r) (w :: ws) x vs := by
  refine reads_kind.bind ?_
  split
  · exact absurd ‹_› hnot
  · exact absurd ‹_› hminus
  · exact absurd ‹_› hbitNot
  · exact absurd ‹_› hplus
  · exact h

/-- NOT and a sign in front of an operand. -/
theorem opens_not {v : Word} (hv : v.kind = .keyword .NOT) (h : Takes (r.expr notPower) ws x w) :
    Opens r least (v :: ws) (.operation .not [x]) w := by
  refine .of_reads fun rest => reads_kind.bind ?_
  rw [hv]
  exact (reads_advance (by simp)).bind ((h rest).bind (reads_pure _))

theorem opens_minus {v : Word} (hv : v.kind = .punct .minus) (h : Takes (r.expr signPower) ws x w) :
    Opens r least (v :: ws) (.operation .minus [x]) w := by
  refine .of_reads fun rest => reads_kind.bind ?_
  rw [hv]
  exact (reads_advance (by simp)).bind ((h rest).bind (reads_pure _))

theorem opens_bitNot {v : Word} (hv : v.kind = .punct .bitNot)
    (h : Takes (r.expr signPower) ws x w) : Opens r least (v :: ws) (.operation .bitNot [x]) w := by
  refine .of_reads fun rest => reads_kind.bind ?_
  rw [hv]
  exact (reads_advance (by simp)).bind ((h rest).bind (reads_pure _))

theorem reads_literal {l : Literal} (hw : w.kind.separates) (v : Word) (rest : List Word) :
    Reads (literal l) (v :: w :: rest) (.literal l) (w :: rest) := by
  refine (reads_advance (by simp)).bind (reads_kind.bind ?_)
  split
  · rename_i p hp
    rw [hp] at hw
    cases hw
  · exact reads_pure _

/-- A literal in front of what separates operands. -/
theorem reads_operand_literal {v : Word} {l : Literal} (hv : literal? v.kind = some l)
    (hw : w.kind.separates) (rest : List Word) :
    Reads (operand r) (v :: w :: rest) (.literal l) (w :: rest) := by
  have hne {k : TokenKind} (hk : literal? k = none) : v.kind ≠ k := by
    rintro rfl
    rw [hv] at hk
    cases hk
  refine reads_operand (hne rfl) (hne rfl) (hne rfl) (hne rfl) (reads_kind.bind ?_)
  rw [hv]
  exact reads_literal hw v rest

theorem opens_literal {v : Word} {l : Literal} (hv : literal? v.kind = some l)
    (hw : w.kind.separates) : Opens r least [v] (.literal l) w :=
  .of_reads (reads_operand_literal hv hw)

/-- An expression in parentheses. -/
theorem opens_group {left right v : Word} (hleft : left.kind = .punct .leftParen)
    (hright : right.kind = .punct .rightParen) (hv : v.kind ≠ .keyword .SELECT)
    (h : Takes (r.expr 0) (v :: ws) x right) : Opens r least (left :: v :: ws ++ [right]) x w := by
  refine .of_reads fun rest => ?_
  simp only [List.cons_append, List.append_assoc, List.nil_append]
  have hne {k : TokenKind} (hk : k ≠ .punct .leftParen) : left.kind ≠ k := by
    rw [hleft]
    exact fun h => hk h.symm
  refine reads_operand (hne (by simp)) (hne (by simp)) (hne (by simp)) (hne (by simp)) ?_
  refine reads_kind.bind ?_
  rw [hleft]
  refine (reads_advance (by simp)).bind ((reads_isAt _).bind ?_)
  rw [beq_eq_false_iff_ne.2 hv]
  exact (h _).bind ((reads_sign hright (by simp)).bind (reads_pure _))

/-- A keyword that is not reserved begins a name, unless a string behind it makes it a type. -/
theorem reads_primary_name {v u : Word} (hv : v.IsName) (hu : ∀ s, u.kind ≠ .string s)
    (h : Reads (nameExpr r) (v :: u :: ws) x vs) : Reads (primary r) (v :: u :: ws) x vs := by
  refine reads_kind.bind ?_
  rcases hv with hv | ⟨k, hk, hfree⟩
  · rw [hv]
    exact h
  · rw [hk]
    have hliteral : literal? (.keyword k) = none := by
      cases k <;> first | rfl | cases hfree
    rw [hliteral]
    refine reads_nextKind.bind ?_
    split
    · cases hfree
    · cases hfree
    · exact absurd ‹_› (hu _)
    · cases hfree
    · cases hfree
    · cases hfree
    · cases hfree
    · rw [hfree]
      exact h

theorem reads_operand_name {v u : Word} (hv : v.IsName) (hu : ∀ s, u.kind ≠ .string s)
    (h : Reads (nameExpr r) (v :: u :: ws) x vs) : Reads (operand r) (v :: u :: ws) x vs :=
  reads_operand (hv.ne_keyword rfl) (hv.ne_punct _) (hv.ne_punct _) (hv.ne_punct _)
    (reads_primary_name hv hu h)

/-- The parts of a name behind points, up to what ends the name. -/
theorem reads_nameFrom {v : Word} {ms : List Word} (hms : ∀ m ∈ ms, m.IsMember) {fuel : Nat}
    (hfuel : ms.length < fuel) {parts : List String}
    (hend : ∀ fuel, Reads (nameFrom r (fuel + 1) (parts ++ ms.map Word.text)) (v :: ws) x vs) :
    Reads (nameFrom r fuel parts) (Word.dotted ms ++ v :: ws) x vs := by
  induction ms generalizing parts fuel with
  | nil =>
    cases fuel with
    | zero => cases hfuel
    | succ fuel =>
      have hend := hend fuel
      rwa [List.map_nil, List.append_nil] at hend
  | cons m ms ih =>
    cases fuel with
    | zero => cases hfuel
    | succ fuel =>
      have hm : m.IsMember := hms m List.mem_cons_self
      have hstar : m.kind ≠ .punct .star := by
        rcases hm with hm | ⟨k, hm⟩ <;> rw [hm] <;> simp
      have hend' fuel : Reads (nameFrom r (fuel + 1) (parts ++ [m.text] ++ ms.map Word.text))
          (v :: ws) x vs := by
        simpa using hend fuel
      rw [Word.dotted_cons, List.cons_append, List.cons_append]
      refine (reads_accept rfl (by simp)).bind ((reads_accept_ne hstar).bind ?_)
      refine (reads_memberName hm (by simp)).bind ?_
      exact ih (fun m hm => hms m (List.mem_cons_of_mem _ hm)) (Nat.lt_of_succ_lt_succ hfuel) hend'

/-- A name with its qualifiers, and what stands behind it. -/
theorem reads_operand_nameFrom {v u : Word} {ms : List Word} (hv : v.IsName)
    (hms : ∀ m ∈ ms, m.IsMember) (hu : ∀ s, u.kind ≠ .string s)
    (hend : ∀ fuel, Reads (nameFrom r (fuel + 1) (v.text :: ms.map Word.text)) (u :: us) x vs) :
    Reads (operand r) (v :: Word.dotted ms ++ u :: us) x vs := by
  have hname : Reads (nameExpr r) (v :: (Word.dotted ms ++ u :: us)) x vs := by
    refine (reads_name hv (by simp)).bind (reads_get fun c hc => ?_)
    refine reads_nameFrom hms ?_ hend
    have hlen := congrArg List.length hc
    have := Word.length_le_dotted ms
    simp only [Cursor.words, List.length_cons, List.length_map, List.length_append] at hlen
    omega
  cases ms with
  | nil => exact reads_operand_name hv hu hname
  | cons m ms => exact reads_operand_name (u := .sign .dot ".") hv (by simp [Word.sign]) hname

/-- A name with its qualifiers in front of what separates operands. -/
theorem reads_operand_qualified {v : Word} {ms : List Word} (hv : v.IsName)
    (hms : ∀ m ∈ ms, m.IsMember) (hw : w.kind.separates) (rest : List Word) :
    Reads (operand r) (v :: Word.dotted ms ++ w :: rest) (.name ⟨v.text :: ms.map Word.text⟩)
      (w :: rest) := by
  have hne {k : TokenKind} (hk : k.separates = false) : w.kind ≠ k := by
    rintro rfl
    rw [hk] at hw
    cases hw
  refine reads_operand_nameFrom hv hms (fun s => hne rfl) fun fuel => ?_
  refine (reads_accept_ne (hne rfl)).bind ((reads_isAt _).bind ?_)
  rw [beq_eq_false_iff_ne.2 (hne rfl)]
  exact reads_pure _

theorem opens_name {v : Word} {ms : List Word} (hv : v.IsName) (hms : ∀ m ∈ ms, m.IsMember)
    (hw : w.kind.separates) :
    Opens r least (v :: Word.dotted ms) (.name ⟨v.text :: ms.map Word.text⟩) w :=
  .of_reads (reads_operand_qualified hv hms hw)

/-- The arguments of a call up to the parenthesis behind them. -/
inductive TakesArguments (r : Nested) (close : Word) : List Word → List Expr → Prop
  | none : TakesArguments r close [] []
  | some {v ws xs} (begins : v.Begins) (args : TakesCommas (r.expr 0) close (v :: ws) xs) :
    TakesArguments r close (v :: ws) xs

theorem takes_call {left right : Word} {name : String} {distinct : Bool} {xs : List Expr}
    (hleft : left.kind = .punct .leftParen) (hright : right.kind = .punct .rightParen)
    (h : TakesArguments r right ws xs) (w : Word) :
    Takes (call r name) (left :: ((if distinct then [.key .DISTINCT] else []) ++ ws) ++ [right])
      (.call name distinct xs) w := by
  have hcomma : right.kind ≠ .punct .comma := by simp [hright]
  have hargs (rest : List Word) : Reads (do
        if ← isAt (.punct .rightParen) then return Expr.call name distinct []
        else return Expr.call name distinct (← expressions r))
      (ws ++ right :: rest) (.call name distinct xs) (right :: rest) := by
    cases h with
    | none =>
      refine (reads_isAt _).bind ?_
      rw [hright, beq_self_eq_true]
      exact reads_pure _
    | some hv h =>
      refine (reads_isAt _).bind ?_
      rw [beq_eq_false_iff_ne.2 hv.close]
      exact (h.takes hcomma rest).bind (reads_pure _)
  refine Takes.parenthesized hleft hright (fun rest => ?_) w
  cases distinct
  · have hnext : ∃ v vs, ws ++ right :: rest = v :: vs ∧ v.kind ≠ .keyword .DISTINCT ∧
        v.kind ≠ .keyword .ALL := by
      cases h with
      | none => exact ⟨right, rest, rfl, by simp [hright], by simp [hright]⟩
      | some hv h => exact ⟨_, _, rfl, hv.distinct, hv.all⟩
    obtain ⟨v, vs, hvs, hdistinct, hall⟩ := hnext
    have hargs := hargs rest
    rw [hvs] at hargs
    simp only [Bool.false_eq_true, if_false, List.nil_append]
    rw [hvs]
    exact (reads_accept_ne hdistinct).bind ((reads_accept_ne hall).bind hargs)
  · exact (reads_accept rfl (by simp)).bind (hargs rest)

/-- A function with its arguments. -/
theorem opens_call {v left right : Word} {ms : List Word} {distinct : Bool} {xs : List Expr}
    (hv : v.IsName) (hms : ∀ m ∈ ms, m.IsMember) (hleft : left.kind = .punct .leftParen)
    (hright : right.kind = .punct .rightParen) (h : TakesArguments r right ws xs) (w : Word) :
    Opens r least
      (v :: Word.dotted ms ++ left :: ((if distinct then [.key .DISTINCT] else []) ++ ws) ++ [right])
      (.call (String.intercalate "." (v.text :: ms.map Word.text)) distinct xs) w := by
  refine .of_reads fun rest => ?_
  have hcall : Reads (call r (String.intercalate "." (v.text :: ms.map Word.text)))
      ((left :: ((if distinct then [.key .DISTINCT] else []) ++ ws) ++ [right]) ++ w :: rest)
      (.call (String.intercalate "." (v.text :: ms.map Word.text)) distinct xs) (w :: rest) :=
    takes_call hleft hright h w rest
  simp only [List.cons_append, List.append_assoc] at hcall ⊢
  rw [← List.cons_append]
  refine reads_operand_nameFrom hv hms (by simp [hleft]) fun fuel => ?_
  refine (reads_accept_ne (by simp [hleft])).bind ((reads_isAt _).bind ?_)
  rw [hleft, beq_self_eq_true]
  exact hcall

/-- The arms of CASE. -/
inductive TakesArms (r : Nested) : List Word → List (Expr × Expr) → Prop
  | nil : TakesArms r [] []
  | cons {«when» «then» ws vs us c t arms} (isWhen : «when».kind = .keyword .WHEN)
    (isThen : «then».kind = .keyword .THEN) (condition : Takes (r.expr 0) ws c «then»)
    (result : ∀ w : Word, w.Closes → Takes (r.expr 0) vs t w) (others : TakesArms r us arms) :
    TakesArms r («when» :: ws ++ «then» :: vs ++ us) ((c, t) :: arms)

theorem TakesArms.steps {arms : List (Expr × Expr)} (h : TakesArms r ws arms) (hw : w.Closes)
    (acc : List (Expr × Expr)) (rest : List Word) :
    Steps (armStep r) (ws ++ w :: rest) acc (w :: rest) (acc ++ arms) := by
  induction h generalizing acc with
  | nil =>
    rw [List.append_nil]
    exact .refl
  | @cons v u ws vs us c t arms hv hu hcondition hresult hothers ih =>
    have hnext : ∃ v' vs', us ++ w :: rest = v' :: vs' ∧ v'.Closes := by
      cases hothers with
      | nil => exact ⟨w, rest, rfl, hw⟩
      | cons hv => exact ⟨_, _, rfl, .keyword hv rfl⟩
    obtain ⟨v', vs', hvs, hclose⟩ := hnext
    have ih := ih (acc ++ [(c, t)])
    have hstep : Reads (caseArm r) (v :: (ws ++ u :: (vs ++ (us ++ w :: rest)))) (some (c, t))
        (us ++ w :: rest) := by
      refine reads_afterWord hv (by simp) ((hcondition _).bind ?_)
      refine (reads_word hu (by simp)).bind (Reads.bind ?_ (reads_pure _))
      rw [hvs]
      exact hresult v' hclose vs'
    rw [List.append_assoc, List.singleton_append] at ih
    simp only [List.cons_append, List.append_assoc]
    refine .head (hstep.bind (reads_pure _)) ?_ ih
    simp
    omega

theorem reads_keywordExpr {v : Word} {k : Keyword} (hv : v.kind = .keyword k)
    (hliteral : literal? (.keyword k) = none) (hnot : k ≠ .NOT)
    (h : Reads (keywordExpr r k) (v :: ws) x vs) : Reads (operand r) (v :: ws) x vs := by
  refine reads_operand (by simpa [hv] using hnot) (by simp [hv]) (by simp [hv]) (by simp [hv]) ?_
  refine reads_kind.bind ?_
  rw [hv, hliteral]
  exact h

/-- CASE with its arms. -/
theorem opens_cases {v u : Word} {base otherwise : Option Expr} {arms : List (Expr × Expr)}
    (hv : v.kind = .keyword .CASE) (hu : u.kind = .keyword .END)
    (hbase : ∀ w : Word, w.kind = .keyword .WHEN → Takes (caseBase r) ws base w)
    (harms : TakesArms r vs arms) (hne : arms ≠ [])
    (hotherwise : TakesAfter .ELSE (r.expr 0) u us otherwise) (w : Word) :
    Opens r least (v :: (ws ++ vs ++ us) ++ [u]) (.cases base arms otherwise) w := by
  refine .of_reads fun rest => ?_
  simp only [List.cons_append, List.append_assoc, List.nil_append]
  obtain ⟨v', vs', hvs, hwhen⟩ : ∃ v' vs', vs = v' :: vs' ∧ v'.kind = .keyword .WHEN := by
    cases harms with
    | nil => exact absurd rfl hne
    | cons hwhen => exact ⟨_, _, rfl, hwhen⟩
  obtain ⟨u', us', hus, hclose, hstop⟩ : ∃ u' us', us ++ u :: w :: rest = u' :: us' ∧ u'.Closes ∧
      u'.kind ≠ .keyword .WHEN := by
    cases hotherwise with
    | none => exact ⟨u, _, rfl, .keyword hu rfl, by simp [hu]⟩
    | some helse => exact ⟨_, _, rfl, .keyword helse rfl, by simp [helse]⟩
  have hsteps := harms.steps hclose [] us'
  have hend : Reads (armStep r arms) (u' :: us') none (u' :: us') :=
    (reads_afterWord_ne hstop).bind (reads_pure _)
  have harms' : Reads (repeatStep (armStep r) []) (vs ++ u' :: us') arms (u' :: us') :=
    hsteps.reads hend
  have hnonempty : arms.isEmpty = false := by
    cases arms with
    | nil => exact absurd rfl hne
    | cons => rfl
  have hbase := hbase v' hwhen (vs' ++ u' :: us')
  rw [← List.cons_append, ← hvs] at hbase
  have hcase : Reads (caseExpr r) (v :: (ws ++ (vs ++ (us ++ u :: w :: rest))))
      (.cases base arms otherwise) (w :: rest) := by
    rw [hus]
    refine (reads_word hv (by simp [hvs])).bind (hbase.bind (harms'.bind ?_))
    rw [hnonempty, ← hus]
    refine (hotherwise.takes (by simp [hu]) _).bind ?_
    exact (reads_word hu (by simp)).bind (reads_pure _)
  obtain ⟨second, more, hmore⟩ := List.exists_cons_of_ne_nil
    (show ws ++ (vs ++ (us ++ u :: w :: rest)) ≠ [] by simp)
  rw [hmore] at hcase ⊢
  exact reads_keywordExpr hv rfl (by simp) (reads_nextKind.bind hcase)

/-- CAST with its type. -/
theorem opens_cast {v left as right : Word} {type : DataType} (hv : v.kind = .keyword .CAST)
    (hleft : left.kind = .punct .leftParen) (has : as.kind = .keyword .AS)
    (hright : right.kind = .punct .rightParen) (h : Takes (r.expr 0) ws x as)
    (htype : Takes dataType vs type right) (w : Word) :
    Opens r least (v :: left :: (ws ++ as :: vs) ++ [right]) (.cast x type) w := by
  refine .of_reads fun rest => ?_
  have hcast : Reads (castCall r) ((v :: left :: (ws ++ as :: vs) ++ [right]) ++ w :: rest)
      (.cast x type) (w :: rest) := by
    refine (reads_word hv (by simp)).bind ?_
    refine Takes.parenthesized hleft hright (fun rest => ?_) w rest
    rw [List.append_assoc, List.cons_append]
    refine (h _).bind ((reads_word has (by simp)).bind ?_)
    exact (htype _).bind (reads_pure _)
  exact reads_keywordExpr hv rfl (by simp) (reads_nextKind.bind hcast)

theorem combine_of_not_flattens {op : Operator} (h : op.flattens = false) (lhs rhs : Expr) :
    combine op lhs rhs = .operation op [lhs, rhs] := by
  unfold combine
  split
  · simp [h]
  · rfl

/-- An operator between two operands, however it is spelled, with the second one. -/
theorem Extends.operator_of_kinds {op : Operator} {signs : List Word} {u : Word} {lhs : Expr}
    (hkinds : signs.map Word.kind = op.words.map Word.kind) (hshape : op.IsBetween)
    (hleast : least ≤ op.power) (hu : op = .is → u.kind ≠ .keyword .NOT ∧ u.kind ≠ .keyword .NULL)
    (h : Takes (r.expr (op.power + 1)) (u :: ws) x w) :
    Extends r least lhs (signs ++ u :: ws) (combine op lhs x) w := by
  -- Each operator is a single word, but for the two that begin with NOT and for SIMILAR TO.
  cases op
  case is =>
    obtain ⟨v, rfl, hv⟩ := List.map_eq_singleton_iff.1 hkinds
    refine .form .is (by rw [hv]; rfl) hleast fun rest => ?_
    rw [combine_of_not_flattens rfl]
    obtain ⟨hnot, hnull⟩ := hu rfl
    refine (reads_accept_ne hnot).bind ((reads_accept_ne hnull).bind ?_)
    exact (h rest).bind (reads_pure _)
  case notLike =>
    obtain ⟨v, vs, rfl, hv, hvs⟩ := List.map_eq_cons_iff.1 hkinds
    obtain ⟨v', rfl, hv'⟩ := List.map_eq_singleton_iff.1 hvs
    refine .form .negated (by rw [hv]; rfl) hleast fun rest => reads_kind.bind ?_
    rw [hv', combine_of_not_flattens rfl]
    exact (reads_advance (by simp)).bind ((h rest).bind (reads_pure _))
  case notIlike =>
    obtain ⟨v, vs, rfl, hv, hvs⟩ := List.map_eq_cons_iff.1 hkinds
    obtain ⟨v', rfl, hv'⟩ := List.map_eq_singleton_iff.1 hvs
    refine .form .negated (by rw [hv]; rfl) hleast fun rest => reads_kind.bind ?_
    rw [hv', combine_of_not_flattens rfl]
    exact (reads_advance (by simp)).bind ((h rest).bind (reads_pure _))
  case similar =>
    obtain ⟨v, vs, rfl, hv, hvs⟩ := List.map_eq_cons_iff.1 hkinds
    obtain ⟨v', rfl, hv'⟩ := List.map_eq_singleton_iff.1 hvs
    refine .form .similar (by rw [hv]; rfl) hleast fun rest => ?_
    rw [combine_of_not_flattens rfl]
    exact (reads_word hv' (by simp)).bind ((h rest).bind (reads_pure _))
  all_goals first
    | exact absurd hshape (by decide)
    | obtain ⟨v, rfl, hv⟩ := List.map_eq_singleton_iff.1 hkinds
      exact .binary (by rw [hv]; rfl) hleast h

/-- An operator between two operands, as it is written, with the second one. -/
theorem Extends.operator {op : Operator} {u : Word} {lhs : Expr} (hshape : op.IsBetween)
    (hleast : least ≤ op.power) (hu : op = .is → u.kind ≠ .keyword .NOT ∧ u.kind ≠ .keyword .NULL)
    (h : Takes (r.expr (op.power + 1)) (u :: ws) x w) :
    Extends r least lhs (op.words ++ u :: ws) (combine op lhs x) w :=
  operator_of_kinds rfl hshape hleast hu h

/-- A test for NULL. -/
theorem Extends.isNull {lhs : Expr} (hleast : least ≤ Operator.isNull.power) :
    Extends r least lhs Operator.isNull.words (.operation .isNull [lhs]) w := by
  refine .form .is rfl hleast fun rest => ?_
  refine (reads_accept_ne (by simp [Word.key])).bind ((reads_accept rfl (by simp)).bind ?_)
  exact reads_pure _

theorem Extends.isNotNull {lhs : Expr} (hleast : least ≤ Operator.isNotNull.power) :
    Extends r least lhs Operator.isNotNull.words (.operation .isNotNull [lhs]) w := by
  refine .form .is rfl hleast fun rest => ?_
  refine (reads_accept rfl (by simp)).bind ((reads_accept rfl (by simp)).bind ?_)
  exact reads_pure _

/-- A range with its bounds. -/
theorem Extends.between {v : Word} {lhs low high : Expr} (hv : v.kind = .keyword .AND)
    (hleast : least ≤ Operator.between.power) (hlow : Takes (r.expr Infix.between.right) ws low v)
    (hhigh : Takes (r.expr Infix.between.right) vs high w) :
    Extends r least lhs (Operator.between.words ++ (ws ++ v :: vs))
      (.operation .between [lhs, low, high]) w := by
  refine .form .between rfl hleast fun rest => ?_
  change Reads _ ((ws ++ v :: vs) ++ w :: rest) _ _
  rw [List.append_assoc, List.cons_append]
  refine (hlow _).bind ((reads_word hv (by simp)).bind ?_)
  exact (hhigh _).bind (reads_pure _)

/-- A list in parentheses behind IN. -/
theorem takes_inList {left right u : Word} {op : Operator} {lhs : Expr} {xs : List Expr}
    (hleft : left.kind = .punct .leftParen) (hright : right.kind = .punct .rightParen)
    (hu : u.kind ≠ .keyword .SELECT) (h : TakesCommas (r.expr 0) right (u :: ws) xs) (w : Word) :
    Takes (inList r op lhs) (left :: (u :: ws) ++ [right]) (.operation op (lhs :: xs)) w := by
  refine Takes.parenthesized hleft hright (fun rest => ?_) w
  refine (reads_isAt _).bind ?_
  rw [beq_eq_false_iff_ne.2 hu]
  exact (h.takes (by simp [hright]) rest).bind (reads_pure _)

/-- A test of membership. -/
theorem Extends.membership {op : Operator} {lhs : Expr} (hop : op = .isIn ∨ op = .notIn)
    (hleast : least ≤ op.power) (h : Takes (inList r op lhs) ws x w) :
    Extends r least lhs (op.words ++ ws) x w := by
  rcases hop with rfl | rfl
  · exact .form .isIn rfl hleast h
  · refine .form .negated rfl hleast fun rest => reads_kind.bind ?_
    exact (reads_advance (by simp)).bind (h rest)

end Grammar

end BoundSql
