import BoundSql.Proofs.Render.Phrase
import BoundSql.Render.Param

/-!
# Written names as words

Whatever a name holds, it is lexed as the same words wherever a name can end, so that names with
points between them are lexed as the words of the names with points between them.
-/

namespace BoundSql

open Text Token

namespace Phrase

variable {α : Type} {f : Word → α} {d : Dialect} {p q : Phrase}

/-- However it is laid out, the phrase is lexed as its words in front of whatever ends a name, and
it begins with no digit. -/
def NameTidy (d : Dialect) (p : Phrase) : Prop :=
  ∀ pretty, SpellsName d (write pretty p) (wordsIn d p) ∧ startsDigit (write pretty p) = false

theorem words_dot : d.words ".".toList = [.sign .dot "."] := by
  have h : d.words ['.'] = ⟨.punct .dot, ['.']⟩ :: d.words [] := SpellsName.dot rfl
  rwa [Spells.nil.words_eq] at h

theorem spells_star : Spells d "*".toList [.sign .star "*"] := by
  have h : Operator.star.ReadIn d := .of_plain rfl (by decide) _
  exact spells_operator h

theorem wordsIn_star : wordsIn d [.text ".", .text "*"] = [.sign .dot ".", .sign .star "*"] := by
  rw [wordsIn_cons, wordsIn_text, Mark.words, words_dot, spells_star.words_eq, List.singleton_append]

namespace NameTidy

theorem tidy (h : NameTidy d p) : Tidy f d p := .of_spells fun pretty => (h pretty).1.spells

theorem nil : NameTidy d [] := fun _ => ⟨fun _ _ => rfl, rfl⟩

/-- A point and more of a name behind a name. -/
theorem dot (hp : NameTidy d p) (hq : NameTidy d q) : NameTidy d (p ++ .text "." :: q) := by
  intro pretty
  obtain ⟨hp, hdigit⟩ := hp pretty
  obtain ⟨hq, hstart⟩ := hq pretty
  rw [write_append, wordsIn_append, write_cons, wordsIn_cons, Mark.words, words_dot]
  refine ⟨fun rest hrest => ?_, startsDigit_of_append hdigit rfl⟩
  have hdot : startsDigit (write pretty q ++ rest) = false :=
    startsDigit_of_append hstart hrest.startsDigit
  have happ : write pretty p ++ (Mark.write pretty (.text ".") ++ write pretty q) ++ rest =
      write pretty p ++ ('.' :: (write pretty q ++ rest)) := by
    simp [Mark.write]
  rw [happ, hp _ (.inr ⟨_, rfl, hdot⟩), SpellsName.dot hdot, hq rest hrest, List.append_assoc,
    List.append_assoc]
  rfl

/-- Names with points between them. -/
theorem sepBy {ps : List Phrase} (h : ∀ p ∈ ps, NameTidy d p) :
    NameTidy d (sepBy [.text "."] ps) := by
  induction ps with
  | nil => exact nil
  | cons p ps ih =>
    have hp : NameTidy d p := h p List.mem_cons_self
    have hps : NameTidy d (Phrase.sepBy [.text "."] ps) :=
      ih fun q hq => h q (List.mem_cons_of_mem _ hq)
    cases ps with
    | nil => exact hp
    | cons q qs =>
      rw [Phrase.sepBy, List.append_assoc]
      exact hp.dot hps
      simp

/-- All columns of a table. -/
theorem star (hp : NameTidy d p) : Tidy f d (p ++ [.text ".", .text "*"]) := by
  refine .of_spells fun pretty rest hrest => ?_
  obtain ⟨hp, -⟩ := hp pretty
  have hwrite : write pretty (p ++ [.text ".", .text "*"]) ++ rest =
      write pretty p ++ ('.' :: ("*".toList ++ rest)) := by
    simp [Mark.write]
  have hdot : startsDigit ("*".toList ++ rest) = false := rfl
  rw [hwrite, hp _ (.inr ⟨_, rfl, hdot⟩), SpellsName.dot hdot, spells_star rest hrest, wordsIn_append,
    wordsIn_star]
  simp [Word.sign]

end NameTidy

end Phrase

namespace RenderContext

variable (r : RenderContext)

theorem wordsIn_name (text : String) : Phrase.wordsIn r.dialect [r.name text] =
    r.dialect.words (r.dialect.writeName r.quoting text).toList := Phrase.wordsIn_text _ _

theorem nameTidy_name (text : String) : Phrase.NameTidy r.dialect [r.name text] := by
  intro pretty
  obtain ⟨ws, h, hdigit, -⟩ := spellsName_writeName r.dialect r.quoting text
  rw [Phrase.write_cons, Phrase.write_nil, List.append_nil, wordsIn_name, h.spells.words_eq]
  exact ⟨h, hdigit⟩

/-- The words of a name. -/
theorem inRow_name (text : String) : ∀ w ∈ Phrase.wordsIn r.dialect [r.name text], w.InRow := by
  obtain ⟨ws, h, -, hrow⟩ := spellsName_writeName r.dialect r.quoting text
  rw [wordsIn_name, h.spells.words_eq]
  exact hrow

theorem nameTidy_dotted (parts : List String) : Phrase.NameTidy r.dialect (r.dotted parts) := by
  refine .sepBy fun p hp => ?_
  obtain ⟨text, -, rfl⟩ := List.mem_map.1 hp
  exact r.nameTidy_name text

end RenderContext

end BoundSql
