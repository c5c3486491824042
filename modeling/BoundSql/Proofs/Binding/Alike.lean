import BoundSql.Proofs.Render.Gives
import Mathlib.Data.List.Perm.Basic

/-!
# Writing in two ways

An `Entry` is a parameter that is written, in view of the names recorded before it. `Phrase.Alike`
says that two phrases differ in nothing but texts that stand for entries. `Render.Parallel` carries a
relation between results, in view of the entries made for them, through two computations that take
the same course.
-/

namespace BoundSql

/-- A parameter that is written, and the names recorded before it. -/
structure Entry where
  param : ParamRef
  before : List String

namespace Entry

/-- The name that is recorded. -/
def name (e : Entry) : String := e.param.key.display

/-- The entries of parameters that are written one behind the other. -/
def ofParams (used : List String) : List ParamRef → List Entry
  | [] => []
  | p :: ps => ⟨p, used⟩ :: ofParams (used ++ [p.key.display]) ps

variable {used : List String} {ps qs : List ParamRef}

@[simp] theorem map_name_ofParams :
    (ofParams used ps).map name = ps.map (·.key.display) := by
  induction ps generalizing used with
  | nil => rfl
  | cons p ps ih => exact congrArg (p.key.display :: ·) ih

@[simp] theorem map_param_ofParams : (ofParams used ps).map param = ps := by
  induction ps generalizing used with
  | nil => rfl
  | cons p ps ih => exact congrArg (p :: ·) ih

@[simp] theorem ofParams_eq_nil_iff : ofParams used ps = [] ↔ ps = [] := by
  cases ps <;> simp [ofParams]

theorem ofParams_append : ofParams used (ps ++ qs) =
    ofParams used ps ++ ofParams (used ++ ps.map (·.key.display)) qs := by
  induction ps generalizing used with
  | nil => simp [ofParams]
  | cons p ps ih => simp [ofParams, ih]

/-- The names recorded before an entry, and its own, are the first of all. -/
theorem before_prefix {e : Entry} (h : e ∈ ofParams used ps) :
    e.before ++ [e.name] <+: used ++ ps.map (·.key.display) := by
  induction ps generalizing used with
  | nil => cases h
  | cons p ps ih =>
    have behind : used ++ (p :: ps).map (·.key.display) =
        used ++ [p.key.display] ++ ps.map (·.key.display) := by simp
    rw [behind]
    rcases List.mem_cons.1 h with rfl | h
    · exact List.prefix_append ..
    · exact ih h

end Entry

namespace Phrase

/-- The phrases are the same but for a text for each of these entries. Which texts may stand for an
entry, in the first phrase and in the second, is said by `Hole`. -/
inductive Alike (Hole : Entry → String → String → Prop) : List Entry → Phrase → Phrase → Prop
  | nil : Alike Hole [] [] []
  | cons {es p₁ p₂} (m : Mark) (rest : Alike Hole es p₁ p₂) :
    Alike Hole es (m :: p₁) (m :: p₂)
  | hole {e es s₁ s₂ p₁ p₂} (here : Hole e s₁ s₂) (rest : Alike Hole es p₁ p₂) :
    Alike Hole (e :: es) (.text s₁ :: p₁) (.text s₂ :: p₂)

namespace Alike

variable {Hole : Entry → String → String → Prop} {l m : List Entry} {p₁ p₂ q₁ q₂ : Phrase}

theorem refl (p : Phrase) : Alike Hole [] p p := by
  induction p with
  | nil => exact .nil
  | cons m p ih => exact .cons m ih

theorem append (hp : Alike Hole l p₁ p₂) (hq : Alike Hole m q₁ q₂) :
    Alike Hole (l ++ m) (p₁ ++ q₁) (p₂ ++ q₂) := by
  induction hp with
  | nil => exact hq
  | cons m _ ih => exact .cons m ih
  | hole here _ ih => exact .hole here ih

/-- If the texts for an entry do, both phrases begin with a minus sign or none does. -/
theorem opensWithMinus (h : Alike Hole l p₁ p₂)
    (opens : ∀ {e s₁ s₂} {q₁ q₂ : Phrase}, Hole e s₁ s₂ →
      q₁.opensWithMinus = q₂.opensWithMinus →
        Phrase.opensWithMinus (.text s₁ :: q₁) = Phrase.opensWithMinus (.text s₂ :: q₂)) :
    p₁.opensWithMinus = p₂.opensWithMinus := by
  induction h with
  | nil => rfl
  | cons m _ ih =>
    cases m with
    | text s =>
      unfold Phrase.opensWithMinus
      cases s.toList with
      | nil => exact ih
      | cons => rfl
    | blank => rfl
    | clause => rfl
  | hole here _ ih => exact opens here ih

/-- There are texts for each of the entries. -/
theorem exists_texts (h : Alike Hole l p₁ p₂) : ∀ e ∈ l, ∃ s₁ s₂, Hole e s₁ s₂ := by
  induction h with
  | nil => exact fun e member => nomatch member
  | cons _ _ ih => exact ih
  | hole here _ ih => exact List.forall_mem_cons.2 ⟨⟨_, _, here⟩, ih⟩

/-- Without a text that may stand for an entry, there are no entries and no differences. -/
theorem of_no_hole (h : Alike (fun _ _ _ => False) l p₁ p₂) : l = [] := by
  induction h with
  | nil => rfl
  | cons _ _ ih => exact ih
  | hole here => exact here.elim

end Alike

end Phrase

namespace Render

variable {α β γ δ ε : Type}

/-- With the same names recorded, either both computations fail with the same error, or they record
the names of the same parameters and yield results that `R` relates in view of these entries. -/
def Parallel (R : List Entry → α → β → Prop) (c₁ : Render α) (c₂ : Render β) : Prop :=
  ∀ used,
    (∃ e more, c₁.run.run used = (.error e, more) ∧ c₂.run.run used = (.error e, more)) ∨
      ∃ a b ps, Gives c₁ used a (used ++ ps.map (·.key.display)) ∧
        Gives c₂ used b (used ++ ps.map (·.key.display)) ∧ R (Entry.ofParams used ps) a b

/-- The computation records no names where it succeeds. -/
def Silent (c : Render α) : Prop := ∀ used a used', Gives c used a used' → used' = used

/-- Results in a row are related one by one. -/
inductive OneByOne (R : List Entry → α → β → Prop) : List Entry → List α → List β → Prop
  | nil : OneByOne R [] [] []
  | cons {l m a b as bs} (first : R l a b) (rest : OneByOne R m as bs) :
    OneByOne R (l ++ m) (a :: as) (b :: bs)

/-- Results that may be missing are related, or both missing. -/
inductive IfAny (R : List Entry → α → β → Prop) : List Entry → Option α → Option β → Prop
  | none : IfAny R [] none none
  | some {l a b} (h : R l a b) : IfAny R l (some a) (some b)

variable {R : List Entry → α → β → Prop} {S : List Entry → γ → δ → Prop}

theorem parallel_pure {a : α} {b : β} (h : R [] a b) : Parallel R (pure a) (pure b) :=
  fun used => .inr ⟨a, b, [], by simp, by simp, h⟩

theorem Parallel.mono {R' : List Entry → α → β → Prop} {c₁ : Render α} {c₂ : Render β}
    (h : Parallel R c₁ c₂) (hR : ∀ l a b, R l a b → R' l a b) : Parallel R' c₁ c₂ := by
  intro used
  rcases h used with failed | ⟨a, b, ps, ha, hb, hab⟩
  · exact .inl failed
  · exact .inr ⟨a, b, ps, ha, hb, hR _ _ _ hab⟩

theorem Parallel.bind {c₁ : Render α} {c₂ : Render β} {f₁ : α → Render γ} {f₂ : β → Render δ}
    (h : Parallel R c₁ c₂)
    (hf : ∀ l a b, R l a b → Parallel (fun m => S (l ++ m)) (f₁ a) (f₂ b)) :
    Parallel S (c₁ >>= f₁) (c₂ >>= f₂) := by
  intro used
  rcases h used with ⟨e, more, h₁, h₂⟩ | ⟨a, b, ps, ha, hb, hab⟩
  · refine .inl ⟨e, more, ?_, ?_⟩
    · rw [run_bind, h₁]
    · rw [run_bind, h₂]
  · rcases hf _ a b hab (used ++ ps.map (·.key.display)) with
      ⟨e, more, h₁, h₂⟩ | ⟨x, y, qs, hx, hy, hxy⟩
    · refine .inl ⟨e, more, ?_, ?_⟩
      · rw [run_bind, ha]
        exact h₁
      · rw [run_bind, hb]
        exact h₂
    · refine .inr ⟨x, y, ps ++ qs, ?_, ?_, ?_⟩
      · rw [List.map_append, ← List.append_assoc]
        exact gives_bind.2 ⟨a, _, ha, hx⟩
      · rw [List.map_append, ← List.append_assoc]
        exact gives_bind.2 ⟨b, _, hb, hy⟩
      · rw [Entry.ofParams_append]
        exact hxy

/-- The last step puts the result together. -/
theorem Parallel.map {c₁ : Render α} {c₂ : Render β} {f₁ : α → γ} {f₂ : β → δ}
    (h : Parallel R c₁ c₂) (hf : ∀ l a b, R l a b → S l (f₁ a) (f₂ b)) :
    Parallel S (c₁ >>= fun a => pure (f₁ a)) (c₂ >>= fun b => pure (f₂ b)) := by
  refine h.bind fun l a b hab => parallel_pure ?_
  rw [List.append_nil]
  exact hf l a b hab

/-- A step that both take and that records nothing. -/
theorem parallel_lift {c : Except SqlError ε} {f₁ : ε → Render γ} {f₂ : ε → Render δ}
    (hf : ∀ a, c = .ok a → Parallel S (f₁ a) (f₂ a)) :
    Parallel S (liftM c >>= f₁) (liftM c >>= f₂) := by
  have same : Parallel (fun l a b => l = [] ∧ a = b ∧ c = .ok a) (liftM c) (liftM c) := by
    intro used
    cases c with
    | error e => exact .inl ⟨e, used, rfl, rfl⟩
    | ok a => exact .inr ⟨a, a, [], by simp, by simp, rfl, rfl, rfl⟩
  refine same.bind fun l a b hab => ?_
  obtain ⟨rfl, rfl, ha⟩ := hab
  exact hf a ha

theorem parallel_throw (e : SqlError) : Parallel R (throw e) (throw e) :=
  fun used => .inl ⟨e, used, rfl, rfl⟩

/-- The same items in a row. -/
theorem parallel_mapM {f₁ : ε → Render α} {f₂ : ε → Render β} {xs : List ε}
    (h : ∀ x ∈ xs, Parallel R (f₁ x) (f₂ x)) :
    Parallel (OneByOne R) (xs.mapM f₁) (xs.mapM f₂) := by
  induction xs with
  | nil => exact parallel_pure .nil
  | cons x xs ih =>
    rw [List.mapM_cons, List.mapM_cons]
    refine (h x List.mem_cons_self).bind fun l a b hab => ?_
    exact (ih fun y hy => h y (List.mem_cons_of_mem _ hy)).map fun m as bs rest => .cons hab rest

/-- A parameter is refused or written, and its name is recorded if it is written. -/
theorem parallel_param {r₁ r₂ : RenderContext} {p : ParamRef}
    {R : List Entry → Phrase → Phrase → Prop}
    (h : ∀ used, (∃ e, r₁.paramText p used = .error e ∧ r₂.paramText p used = .error e) ∨
      ∃ s₁ s₂, r₁.paramText p used = .ok s₁ ∧ r₂.paramText p used = .ok s₂ ∧
        R [⟨p, used⟩] [.text s₁] [.text s₂]) :
    Parallel R (r₁.param p) (r₂.param p) := by
  have refused {r : RenderContext} {used : List String} {e : SqlError}
      (h : r.paramText p used = .error e) : (r.param p).run.run used = (.error e, used) := by
    rw [RenderContext.param, run_bind]
    change (liftM (r.paramText p used) >>= _ : Render Phrase).run.run used = _
    rw [h]
    rfl
  have written {r : RenderContext} {used : List String} {text : String}
      (h : r.paramText p used = .ok text) :
      Gives (r.param p) used [.text text] (used ++ [p.key.display]) := by
    simp only [RenderContext.param, gives_bind, gives_pure, gives_lift, gives_recorded,
      gives_record]
    exact ⟨used, used, ⟨rfl, rfl⟩, text, used, ⟨h, rfl⟩, (), _, rfl, rfl, rfl⟩
  intro used
  rcases h used with ⟨e, h₁, h₂⟩ | ⟨s₁, s₂, h₁, h₂, alike⟩
  · exact .inl ⟨e, used, refused h₁, refused h₂⟩
  · exact .inr ⟨_, _, [p], written h₁, written h₂, alike⟩

/-- Where the first computation succeeds, so does the second. -/
theorem Parallel.of_gives {c₁ : Render α} {c₂ : Render β} {a : α} {used used' : List String}
    (h : Parallel R c₁ c₂) (ha : Gives c₁ used a used') :
    ∃ b ps, used' = used ++ ps.map (·.key.display) ∧ Gives c₂ used b used' ∧
      R (Entry.ofParams used ps) a b := by
  rcases h used with ⟨e, more, failed, -⟩ | ⟨a', b, ps, ha', hb, hab⟩
  · exact nomatch ha.symm.trans failed
  · cases ha.symm.trans ha'
    exact ⟨b, ps, rfl, hb, hab⟩

/-- A silent computation makes no entries to view the results with. -/
theorem Parallel.silent {c₁ : Render α} {c₂ : Render β} (h : Parallel R c₁ c₂) :
    Parallel (fun l a b => R l a b ∧ (Silent c₁ → l = [])) c₁ c₂ := by
  intro used
  rcases h used with failed | ⟨a, b, ps, ha, hb, hab⟩
  · exact .inl failed
  · refine .inr ⟨a, b, ps, ha, hb, hab, fun silent => ?_⟩
    have none := List.append_right_eq_self.1 (silent used a _ ha)
    exact Entry.ofParams_eq_nil_iff.2 (List.map_eq_nil_iff.1 none)

end Render

end BoundSql
