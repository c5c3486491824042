import BoundSql.Proofs.Render.Tidy
import BoundSql.Proofs.Render.Told

/-!
# Written commands about transactions

What is written of BEGIN, COMMIT, ROLLBACK and of the commands about savepoints is tidy and tells the
name that the command has: `RenderContext.tells_transaction`.
-/

namespace BoundSql

open Phrase Render RenderContext Token

namespace RenderContext

variable {r : RenderContext}

/-- The words that begin a transaction. -/
theorem isQuiet_beginWords {t : Transaction} {ws : List String} (given : r.beginWords t = .ok ws) :
    ∀ w ∈ ws, Text.isQuiet w = true := by
  have locking (m : TransactionMode) (h : m.isLocking = true) : Text.isQuiet m.sql = true := by
    cases m <;> first | decide | cases h
  have fixed : ∀ w ∈ ["START", "SET", "BEGIN", "TRANSACTION"], Text.isQuiet w = true := by
    decide
  simp only [List.forall_mem_cons] at fixed
  obtain ⟨start, set, begin_, transaction, -⟩ := fixed
  unfold beginWords at given
  extract_lets locked at given
  have locks : locked = true → ∀ m ∈ t.mode, Text.isQuiet m.sql = true := by
    intro h m mode
    simp only [locked, Option.mem_def.1 mode] at h
    exact locking m h
  clear_value locked
  split at given
  · cases given
  split at given
  · cases given
  split at given
  · cases given
    simp [start, transaction]
  · cases given
    simp [set, transaction]
  · cases given
    cases locked with
    | false => simp [begin_, transaction]
    | true =>
      cases mode : t.mode with
      | none => simp [begin_, transaction]
      | some m => simp [begin_, transaction, locks rfl m mode]

/-- The name behind BEGIN, where it is written. -/
def beginName (r : RenderContext) (t : Transaction) : Phrase :=
  match t.name with
  | some n => if r.dialect = .sqlite then [.blank, r.name n] else []
  | none => []

/-- The options behind BEGIN. -/
def beginOptions (t : Transaction) : Phrase :=
  (match t.isolation with
    | some level => .blank :: words ["ISOLATION", "LEVEL", level.sql]
    | none => []) ++
  match t.mode with
    | some m => if m.isLocking then [] else [.blank, .text m.sql]
    | none => []

theorem beginPhrase_eq_ok {t : Transaction} {p : Phrase} : r.beginPhrase t = .ok p ↔
    ∃ ws, r.beginWords t = .ok ws ∧ p = words ws ++ r.beginName t ++ beginOptions t := by
  unfold beginPhrase
  cases r.beginWords t with
  | error e => exact ⟨nofun, nofun⟩
  | ok ws =>
    have phrase : words ws ++ r.beginName t ++ beginOptions t = _ :=
      (List.append_assoc (words ws ++ r.beginName t) _ _).symm
    constructor
    · intro h
      exact ⟨ws, rfl, (Except.ok.inj h).symm.trans phrase.symm⟩
    · rintro ⟨_, h, rfl⟩
      cases h
      exact congrArg Except.ok phrase.symm

/-! ## Options -/

/-- The texts of the options of a transaction spell one or two keywords. -/
theorem spells_level (d : Dialect) (level : IsolationLevel) : ∃ ks : List Keyword,
    (∀ k ∈ ks, k.IsOrdinary) ∧ Spells d level.sql.toList (ks.map Word.key) := by
  cases level with
  | readCommitted =>
    exact ⟨[.READ, .COMMITTED], by decide, spells_keywords d .READ (spells_keyword d .COMMITTED)⟩
  | readUncommitted =>
    exact ⟨[.READ, .UNCOMMITTED], by decide, spells_keywords d .READ (spells_keyword d .UNCOMMITTED)⟩
  | repeatableRead =>
    exact ⟨[.REPEATABLE, .READ], by decide, spells_keywords d .REPEATABLE (spells_keyword d .READ)⟩
  | serializable => exact ⟨[.SERIALIZABLE], by decide, spells_keyword d .SERIALIZABLE⟩

theorem spells_mode (d : Dialect) (mode : TransactionMode) : ∃ ks : List Keyword,
    (∀ k ∈ ks, k.IsOrdinary) ∧ Spells d mode.sql.toList (ks.map Word.key) := by
  cases mode with
  | deferred => exact ⟨[.DEFERRED], by decide, spells_keyword d .DEFERRED⟩
  | immediate => exact ⟨[.IMMEDIATE], by decide, spells_keyword d .IMMEDIATE⟩
  | exclusive => exact ⟨[.EXCLUSIVE], by decide, spells_keyword d .EXCLUSIVE⟩
  | readOnly => exact ⟨[.READ, .ONLY], by decide, spells_keywords d .READ (spells_keyword d .ONLY)⟩
  | readWrite => exact ⟨[.READ, .WRITE], by decide, spells_keywords d .READ (spells_keyword d .WRITE)⟩

/-! ## Commands are tidy -/

section Tidy

variable {α : Type} {f : Word → α} {p : Phrase}

theorem tidyApart_name (n : String) : TidyApart f r.dialect [.blank, r.name n] :=
  ⟨(tidy_name n).blank, apart_blank _⟩

theorem tidy_beginPhrase {t : Transaction} (written : r.beginPhrase t = .ok p) :
    p.Tidy f r.dialect := by
  obtain ⟨ws, given, rfl⟩ := beginPhrase_eq_ok.1 written
  have front : Tidy f r.dialect (words ws) :=
    .plain_words fun w hw => Text.isPlainName_of_isQuiet (isQuiet_beginWords given w hw)
  have name : TidyApart f r.dialect (r.beginName t) := by
    unfold beginName
    split
    · split
      · exact tidyApart_name _
      · exact .nil
    · exact .nil
  have options : TidyApart f r.dialect (beginOptions t) := by
    have isolation : TidyApart f r.dialect (match t.isolation with
        | some level => .blank :: words ["ISOLATION", "LEVEL", level.sql]
        | none => []) := by
      split
      · rename_i level _
        obtain ⟨ks, -, spells⟩ := spells_level r.dialect level
        refine ⟨(Tidy.words ?_).blank, apart_blank _⟩
        simp only [List.forall_mem_cons]
        exact ⟨.of_isPlainName (by decide), .of_isPlainName (by decide), spells.whole, nofun⟩
      · exact .nil
    have mode : TidyApart f r.dialect (match t.mode with
        | some m => if m.isLocking then [] else [.blank, .text m.sql]
        | none => []) := by
      split
      · rename_i m _
        split
        · exact .nil
        · obtain ⟨ks, -, spells⟩ := spells_mode r.dialect m
          exact ⟨(Tidy.text spells.whole).blank, apart_blank _⟩
      · exact .nil
    exact isolation.append mode
  exact (front.append name.1 name.2).append options.1 options.2

theorem tidy_transaction {t : Transaction} (written : r.transaction t = .ok p) :
    p.Tidy f r.dialect := by
  have named {command : String} (h : IsPlainName command.toList) :
      Tidy f r.dialect (r.named t command) := by
    unfold RenderContext.named
    split
    · exact Tidy.text_cons (.of_isPlainName h) (tidyApart_name _).1 (apart_blank _)
    · exact .text (.of_isPlainName h)
  have savepoint {ws : List String} (h : ∀ w ∈ ws, IsPlainName w.toList)
      (given : r.savepoint t ws = .ok p) : p.Tidy f r.dialect := by
    unfold RenderContext.savepoint at given
    split at given
    · cases given
      exact (Tidy.plain_words h).append (tidyApart_name _).1 (apart_blank _)
    · cases given
  unfold RenderContext.transaction at written
  split at written
  · exact tidy_beginPhrase written
  · cases written
    exact named (by decide)
  · cases written
    exact named (by decide)
  · exact savepoint (by decide) written
  · exact savepoint (by decide) written
  · exact savepoint (by decide) written

end Tidy

/-! ## Commands tell their names -/

variable {N : Type} [AddMonoid N] [Preorder N] [AddLeftMono N] (v : Writing N r) {p : Phrase}

omit [AddLeftMono N] in
theorem tells_keywords {s : String} {ks : List Keyword} (hks : ∀ k ∈ ks, k.IsOrdinary)
    (spells : Spells r.dialect s.toList (ks.map Word.key)) : Tells v.marks r.dialect 0 [.text s] := by
  refine .quiet fun ws => ?_
  rw [spells.words_eq]
  clear spells
  induction ks with
  | nil => exact le_rfl
  | cons k ks ih =>
    rw [List.forall_mem_cons] at hks
    exact (ih hks.2).trans (v.keep_keyword k hks.1 _ _ rfl)

theorem tells_beginOptions (t : Transaction) : Tells v.marks r.dialect 0 (beginOptions t) := by
  refine .behind ?_ ?_
  · split
    · rename_i level _
      obtain ⟨ks, ordinary, spells⟩ := spells_level r.dialect level
      refine (Tells.words ?_).blank
      simp only [List.forall_mem_cons]
      exact ⟨v.tells_quiet (by decide), v.tells_quiet (by decide),
        tells_keywords v ordinary spells, nofun⟩
    · exact .nil
  · split
    · rename_i m _
      split
      · exact .nil
      · obtain ⟨ks, ordinary, spells⟩ := spells_mode r.dialect m
        exact (tells_keywords v ordinary spells).blank
    · exact .nil

theorem tells_beginPhrase {t : Transaction} (unnamed : v.nameOption t.name = 0)
    (written : r.beginPhrase t = .ok p) : Tells v.marks r.dialect 0 p := by
  obtain ⟨ws, given, rfl⟩ := beginPhrase_eq_ok.1 written
  have front : Tells v.marks r.dialect 0 (words ws) :=
    .words fun w hw => v.tells_quiet (isQuiet_beginWords given w hw)
  have name : Tells v.marks r.dialect 0 (r.beginName t) := by
    unfold beginName
    split
    · rename_i n named
      split
      · rw [named, v.nameOption_some] at unnamed
        exact unnamed ▸ (v.tells_name n).blank
      · exact .nil
    · exact .nil
  exact (front.behind name).behind (tells_beginOptions v t)

/-- A command whose worth is known tells it with its name. -/
theorem tells_transaction {t : Transaction} (known : t.worth v.toWeights ≠ ⊤)
    (written : r.transaction t = .ok p) :
    Tells v.marks r.dialect (t.worth v.toWeights) p := by
  have same := Transaction.worth_eq_nameOption v.toWeights known
  have named {command : String} (h : Text.isQuiet command = true) :
      Tells v.marks r.dialect (t.worth v.toWeights) (r.named t command) := by
    rw [same]
    unfold RenderContext.named
    split
    · rename_i n name
      rw [name, v.nameOption_some]
      exact (v.tells_quiet h).behind (v.tells_name n).blank
    · rename_i name
      rw [name, v.nameOption_none]
      exact v.tells_quiet h
  have savepoint {ws : List String} (h : ∀ w ∈ ws, Text.isQuiet w = true)
      (given : r.savepoint t ws = .ok p) : Tells v.marks r.dialect (t.worth v.toWeights) p := by
    rw [same]
    unfold RenderContext.savepoint at given
    split at given
    · rename_i n name
      cases given
      rw [name, v.nameOption_some]
      exact (Tells.words fun w hw => v.tells_quiet (h w hw)).behind (v.tells_name n).blank
    · cases given
  unfold RenderContext.transaction at written
  split at written
  · rename_i begins
    have nothing := Transaction.worth_begin v.toWeights begins known
    rw [nothing]
    exact tells_beginPhrase v (same.symm.trans nothing) written
  · cases written
    exact named (by decide)
  · cases written
    exact named (by decide)
  · exact savepoint (by decide) written
  · exact savepoint (by decide) written
  · exact savepoint (by decide) written

end RenderContext

end BoundSql
