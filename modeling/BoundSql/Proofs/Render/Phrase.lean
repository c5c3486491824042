import BoundSql.Proofs.Token.Fixed
import BoundSql.Render.Phrase

/-!
# Phrases as words

The words of a phrase are those of its texts. A phrase is `Tidy` if its characters, however it is
laid out, are lexed as these words, or at least as what is shown of them; the rules below follow the
ways in which phrases are built.
-/

namespace BoundSql

open Text Token

namespace Mark

/-- The words of a mark. -/
def words (d : Dialect) : Mark → List Word
  | text s => d.words s.toList
  | blank | clause => []

@[simp] theorem words_blank (d : Dialect) : blank.words d = [] := rfl

@[simp] theorem words_clause (d : Dialect) : clause.words d = [] := rfl

/-- The characters of a gap begin with a stop. -/
theorem ends_write_blank (pretty : Bool) (cs : List Char) : Ends (blank.write pretty ++ cs) :=
  ends_cons rfl cs

theorem ends_write_clause (pretty : Bool) (cs : List Char) : Ends (clause.write pretty ++ cs) := by
  cases pretty <;> exact ends_cons rfl cs

end Mark

namespace Phrase

variable {α : Type} {f : Word → α} {d : Dialect} {p q : Phrase} {s : String}

/-- The words of a phrase. -/
def wordsIn (d : Dialect) (p : Phrase) : List Word := p.flatMap (Mark.words d)

@[simp] theorem wordsIn_nil (d : Dialect) : wordsIn d [] = [] := rfl

@[simp] theorem wordsIn_cons (d : Dialect) (m : Mark) (p : Phrase) :
    wordsIn d (m :: p) = m.words d ++ wordsIn d p := rfl

@[simp] theorem wordsIn_append (d : Dialect) (p q : Phrase) :
    wordsIn d (p ++ q) = wordsIn d p ++ wordsIn d q := by
  simp [wordsIn]

theorem wordsIn_text (d : Dialect) (s : String) : wordsIn d [.text s] = d.words s.toList :=
  List.append_nil _

/-- However it is laid out, the phrase is lexed as its words, as far as `f` shows them. -/
def Tidy (f : Word → α) (d : Dialect) (p : Phrase) : Prop :=
  ∀ pretty, Shows f d (write pretty p) ((wordsIn d p).map f)

/-- The phrase is empty or begins with a stop. -/
def Apart (p : Phrase) : Prop := ∀ pretty, Ends (write pretty p)

theorem apart_nil : Apart [] := fun _ => ends_nil

theorem apart_blank (p : Phrase) : Apart (.blank :: p) := fun pretty => Mark.ends_write_blank pretty _

theorem apart_clause (p : Phrase) : Apart (.clause :: p) :=
  fun pretty => Mark.ends_write_clause pretty _

theorem apart_text {c : Char} {cs : List Char} (hs : s.toList = c :: cs) (hc : isStop c) (p : Phrase) :
    Apart (.text s :: p) := by
  intro pretty
  rw [write_cons, Mark.write, hs]
  exact ends_cons hc _

theorem apart_parens (p : Phrase) : Apart (parens p) :=
  apart_text (s := "(") rfl rfl (p ++ [.text ")"])

theorem Apart.append (hp : Apart p) (hq : Apart q) : Apart (p ++ q) := by
  intro pretty
  rw [write_append]
  exact (hp pretty).append (hq pretty)

/-- Unless the phrase opens with a minus sign, no layout begins with one. -/
theorem head?_write (h : opensWithMinus p = false) (pretty : Bool) :
    (write pretty p).head? ≠ some '-' := by
  induction p with
  | nil => simp
  | cons m p ih =>
    cases m with
    | text s =>
      rw [write_cons, Mark.write]
      rw [opensWithMinus] at h
      cases hs : s.toList with
      | nil =>
        rw [hs] at h
        exact ih h
      | cons c cs =>
        rw [hs] at h
        simpa using h
    | blank => simp [Mark.write]
    | clause => cases pretty <;> simp [Mark.write]

namespace Tidy

/-- A phrase that is lexed as its words is tidy. -/
theorem of_spells (h : ∀ pretty, Spells d (write pretty p) (wordsIn d p)) : Tidy f d p :=
  fun pretty => (h pretty).shows

/-- With nothing hidden, a tidy phrase is lexed as its words. -/
theorem spells (h : Tidy id d p) (pretty : Bool) : Spells d (write pretty p) (wordsIn d p) := by
  have shows := h pretty
  rw [List.map_id] at shows
  exact shows.spells

theorem nil : Tidy f d [] := fun _ => .nil

theorem text (h : Whole d s) : Tidy f d [.text s] := by
  refine of_spells fun pretty => ?_
  rw [write_cons, write_nil, wordsIn_cons, wordsIn_nil, List.append_nil, List.append_nil]
  exact h

theorem append (hp : Tidy f d p) (hq : Tidy f d q) (hapart : Apart q) : Tidy f d (p ++ q) := by
  intro pretty
  rw [write_append, wordsIn_append, List.map_append]
  exact (hp pretty).append (hq pretty) (hapart pretty)

theorem text_cons (h : Whole d s) (hp : Tidy f d p) (hapart : Apart p) : Tidy f d (.text s :: p) :=
  (text h).append hp hapart

theorem blank (hp : Tidy f d p) : Tidy f d (.blank :: p) :=
  fun pretty => (hp pretty).blank rfl

theorem clause (hp : Tidy f d p) : Tidy f d (.clause :: p) := by
  intro pretty
  rw [write_cons, wordsIn_cons]
  cases pretty <;> exact (hp _).blank rfl

theorem words_leftParen : d.words "(".toList = [.sign .leftParen "("] :=
  (Spells.nil.leftParen (d := d)).words_eq

theorem words_rightParen : d.words ")".toList = [.sign .rightParen ")"] :=
  (Spells.nil.rightParen (d := d)).words_eq

theorem words_comma : d.words ",".toList = [.sign .comma ","] :=
  (Spells.nil.comma (d := d)).words_eq

/-- A text that is one token whatever follows. -/
theorem token {c : Char} {w : Word} (hs : s.toList = [c])
    (htoken : ∀ cs, d.words (c :: cs) = w :: d.words cs) (hp : Tidy f d p) :
    Tidy f d (.text s :: p) := by
  intro pretty
  have word : d.words s.toList = [w] := by
    rw [hs, htoken, Spells.nil.words_eq]
  rw [write_cons, wordsIn_cons, Mark.write, Mark.words, word, hs]
  exact (hp pretty).token htoken

theorem leftParen (hp : Tidy f d p) : Tidy f d (.text "(" :: p) :=
  hp.token rfl Dialect.words_leftParen

theorem rightParen (hp : Tidy f d p) : Tidy f d (.text ")" :: p) :=
  hp.token rfl Dialect.words_rightParen

theorem words_minus : d.words "-".toList = [.sign .minus "-"] :=
  (Spells.nil.minus (d := d) (by simp)).words_eq

/-- A minus sign in front of a phrase that opens with none. -/
theorem minus (hp : Tidy f d p) (h : opensWithMinus p = false) : Tidy f d (.text "-" :: p) := by
  intro pretty
  rw [wordsIn_cons, Mark.words, words_minus]
  exact (hp pretty).minus (head?_write h pretty)

/-- A tilde that is no part of a matching operator. -/
theorem bitNot (hp : Tidy f d p) (hd : d.regexpOperators = false) : Tidy f d (.text "~" :: p) :=
  hp.token rfl fun cs => Dialect.words_bitNot cs hd

theorem comma (hp : Tidy f d p) : Tidy f d (.text "," :: p) := hp.token rfl Dialect.words_comma

theorem parens (hp : Tidy f d p) : Tidy f d (parens p) :=
  (hp.append nil.rightParen (apart_text rfl rfl _)).leftParen

/-- Phrases with a tidy phrase between them that stands apart and ends with a gap. -/
theorem sepBy {glue : Phrase} (hglue : ∀ {q}, Tidy f d q → Tidy f d (glue ++ q))
    (hapart : ∀ q, Apart (glue ++ q)) {ps : List Phrase} (h : ∀ p ∈ ps, Tidy f d p) :
    Tidy f d (sepBy glue ps) := by
  induction ps with
  | nil => exact nil
  | cons p ps ih =>
    have hp : Tidy f d p := h p List.mem_cons_self
    have hps : Tidy f d (Phrase.sepBy glue ps) := ih fun q hq => h q (List.mem_cons_of_mem _ hq)
    cases ps with
    | nil => exact hp
    | cons q qs =>
      rw [Phrase.sepBy, List.append_assoc]
      exact hp.append (hglue hps) (hapart _)
      simp

theorem commas {ps : List Phrase} (h : ∀ p ∈ ps, Tidy f d p) : Tidy f d (commas ps) :=
  sepBy (fun hq => hq.blank.comma) (fun _ => apart_text rfl rfl _) h

theorem words {ws : List String} (h : ∀ w ∈ ws, Whole d w) : Tidy f d (words ws) := by
  refine sepBy (fun hq => hq.blank) (fun _ => apart_blank _) fun p hp => ?_
  obtain ⟨w, hw, rfl⟩ := List.mem_map.1 hp
  exact text (h w hw)

/-- Plain names with blanks between them. -/
theorem plain_words {ws : List String} (h : ∀ w ∈ ws, IsPlainName w.toList) :
    Tidy f d (Phrase.words ws) :=
  words fun w hw => .of_isPlainName (h w hw)

theorem clause_words {ws : List String} (h : ∀ w ∈ ws, Whole d w) (hp : Tidy f d p) :
    Tidy f d (Phrase.clause ws p) := by
  rw [Phrase.clause, List.cons_append]
  exact ((words h).append hp.blank (apart_blank _)).clause

end Tidy

end Phrase

end BoundSql
