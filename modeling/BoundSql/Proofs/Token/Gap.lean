import BoundSql.Token.Comment

/-!
# What stands between tokens

`Gap` says without the scanner which texts may stand between two tokens: blanks, line comments up to
the end of their line, and closed block comments that declare no placeholder. The main statements are
that what the scanner passes over is such a text, `gap_take`, and that it passes over every such
text, `gapLength_of_gap`.
-/

namespace BoundSql.Token

open Text

/-- The text closes `depth + 1` block comments that are open in front of it, the outermost one with
its last mark. Marks are read from the left. -/
inductive ClosesComment : Nat → List Char → Prop
  | outermost : ClosesComment 0 ['*', '/']
  | inner {depth : Nat} {cs : List Char} :
    ClosesComment depth cs → ClosesComment (depth + 1) ('*' :: '/' :: cs)
  | nested {depth : Nat} {cs : List Char} :
    ClosesComment (depth + 1) cs → ClosesComment depth ('/' :: '*' :: cs)
  | char {depth : Nat} {c : Char} {cs : List Char} : (c = '*' → cs.head? ≠ some '/') →
    (c = '/' → cs.head? ≠ some '*') → ClosesComment depth cs → ClosesComment depth (c :: cs)

/-- A line ends in front of the text. -/
def EndsLine (after : List Char) : Prop := ∀ c, after.head? = some c → c = '\n'

/-- A whole comment, in front of the text `after`, that declares no placeholder. A single `#` opens
one only where `hash` is set. -/
inductive Comment (hash : Bool) : List Char → List Char → Prop
  | dashes {line after : List Char} : '\n' ∉ line → EndsLine after →
    Comment hash ('-' :: '-' :: line) after
  | hash {line after : List Char} : hash = true → (line ++ after).head? ≠ some '#' →
    '\n' ∉ line → EndsLine after → Comment hash ('#' :: line) after
  | block {content after : List Char} : ClosesComment 0 (content ++ ['*', '/']) →
    isPlaceholderComment content = false →
    Comment hash ('/' :: '*' :: (content ++ ['*', '/'])) after

/-- Blanks and whole comments in front of the text `after`. -/
inductive Gap (hash : Bool) : List Char → List Char → Prop
  | nil {after : List Char} : Gap hash [] after
  | blank {c : Char} {gap after : List Char} : isBlank c → Gap hash gap after →
    Gap hash (c :: gap) after
  | comment {text gap after : List Char} : Comment hash text (gap ++ after) →
    Gap hash gap after → Gap hash (text ++ gap) after

variable {hash : Bool} {c : Char} {cs : List Char}

theorem cons_of_head?_take {n : Nat} {d : Char} (h : (cs.take n).head? = some d) :
    ∃ tail, cs = d :: tail := by
  cases cs with
  | nil => simp at h
  | cons e tail =>
    cases n with
    | zero => simp at h
    | succ n =>
      rw [List.take_succ_cons, List.head?_cons, Option.some.injEq] at h
      exact ⟨tail, by rw [h]⟩

/-- What the scanner takes for the rest of a block comment closes it. -/
theorem closesComment_take {depth n : Nat} {content : List Char}
    (h : commentBody depth cs = some (content, n)) :
    ClosesComment depth (cs.take n) ∧ cs.take n = content ++ ['*', '/'] := by
  fun_induction commentBody depth cs generalizing content n with
  | case1 => cases h
  | case2 tail =>
    cases h
    exact ⟨.outermost, rfl⟩
  | case3 depth tail ih =>
    obtain ⟨⟨content', n'⟩, found, hn⟩ := Option.map_eq_some_iff.1 h
    cases hn
    obtain ⟨closes, spelled⟩ := ih found
    exact ⟨.inner closes, by simp [spelled]⟩
  | case4 depth tail ih =>
    obtain ⟨⟨content', n'⟩, found, hn⟩ := Option.map_eq_some_iff.1 h
    cases hn
    obtain ⟨closes, spelled⟩ := ih found
    exact ⟨.nested closes, by simp [spelled]⟩
  | case5 depth c tail houter hinner hopen ih =>
    obtain ⟨⟨content', n'⟩, found, hn⟩ := Option.map_eq_some_iff.1 h
    cases hn
    obtain ⟨closes, spelled⟩ := ih found
    refine ⟨.char ?_ ?_ closes, by simp [spelled]⟩
    · intro star slash
      obtain ⟨rest, rfl⟩ := cons_of_head?_take slash
      cases depth with
      | zero => exact houter rest rfl star rfl
      | succ depth => exact hinner depth rest rfl star rfl
    · intro slash star
      obtain ⟨rest, rfl⟩ := cons_of_head?_take star
      exact hopen rest slash rfl

/-- A block comment ends with its closing mark. -/
theorem getLast?_commentBody {depth n : Nat} {content : List Char}
    (h : commentBody depth cs = some (content, n)) : (cs.take n).getLast? = some '/' := by
  rw [(closesComment_take h).2]
  simp

theorem take_lineLength (cs : List Char) : cs.take (lineLength cs) = cs.takeWhile (· != '\n') := by
  induction cs with
  | nil => rfl
  | cons c cs ih =>
    unfold lineLength at ih ⊢
    by_cases newline : c = '\n'
    · simp [newline]
    · simp [newline, ih]

/-- The scanner ends a line comment at the end of its line. -/
theorem line_ends (cs : List Char) :
    '\n' ∉ cs.take (lineLength cs) ∧ EndsLine (cs.drop (lineLength cs)) := by
  refine ⟨?_, ?_⟩
  · rw [take_lineLength]
    intro newline
    have := List.all_eq_true.1 List.all_takeWhile _ newline
    simp at this
  · induction cs with
    | nil => simp [EndsLine]
    | cons c cs ih =>
      unfold lineLength at ih ⊢
      by_cases newline : c = '\n'
      · simp [newline, EndsLine]
      · simpa [newline] using ih

/-- What the scanner takes for a comment is one. -/
theorem comment_take {more : Nat} (h : commentLead hash (c :: cs) = .comment more) :
    Comment hash (c :: cs.take more) (cs.drop more) := by
  generalize ht : c :: cs = text at h
  fun_cases commentLead hash text
  case case1 line =>
    cases ht
    simp only [commentLead, CommentLead.comment.injEq] at h
    rw [← h]
    exact .dashes (line_ends line).1 (line_ends line).2
  case case4 inner content n body placeholder =>
    cases ht
    simp only [commentLead, body, placeholder] at h
    cases h
    obtain ⟨closes, spelled⟩ := closesComment_take body
    rw [List.take_succ_cons, spelled]
    rw [spelled] at closes
    exact .block closes (by simpa using placeholder)
  case case5 line single =>
    cases ht
    simp only [commentLead, single, if_true, CommentLead.comment.injEq] at h
    rw [← h]
    simp only [Bool.and_eq_true, bne_iff_ne] at single
    refine .hash single.1 ?_ (line_ends cs).1 (line_ends cs).2
    rw [List.take_append_drop]
    exact single.2
  case case6 line single =>
    cases ht
    rw [commentLead, if_neg single] at h
    cases h
  all_goals simp_all [commentLead]

/-- Inside a comment the scanner counts its characters and goes on behind it. -/
theorem gapLength_inside (hash : Bool) (inside : Nat) (cs : List Char) :
    gapLength hash inside cs = (cs.take inside).length + gapLength hash 0 (cs.drop inside) := by
  induction cs generalizing inside with
  | nil => simp [gapLength]
  | cons c cs ih =>
    cases inside with
    | zero => simp
    | succ inside =>
      rw [gapLength, ih inside, List.take_succ_cons, List.drop_succ_cons, List.length_cons]
      omega

theorem gapLength_le (hash : Bool) (inside : Nat) (cs : List Char) :
    gapLength hash inside cs ≤ cs.length := by
  fun_induction gapLength hash inside cs with
  | case1 => exact Nat.zero_le _
  | case2 inside c cs ih | case3 c cs blank ih | case4 c cs blank more lead ih =>
    simpa using ih
  | case5 => exact Nat.zero_le _

/-- No gap stands behind a gap. -/
theorem gapLength_behind (hash : Bool) (inside : Nat) (cs : List Char) :
    gapLength hash 0 (cs.drop (gapLength hash inside cs)) = 0 := by
  fun_induction gapLength hash inside cs with
  | case1 => rfl
  | case2 inside c cs ih | case3 c cs blank ih | case4 c cs blank more lead ih =>
    simpa using ih
  | case5 c cs blank nolead =>
    rw [List.drop_zero, gapLength, if_neg blank]
    split
    · exact absurd ‹_› (nolead _)
    · rfl

/-- The text in front of the next token is a gap. -/
theorem gap_take (hash : Bool) (cs : List Char) :
    Gap hash (cs.take (gapLength hash 0 cs)) (cs.drop (gapLength hash 0 cs)) := by
  induction hn : cs.length using Nat.strongRecOn generalizing cs with
  | ind n ih =>
    cases cs with
    | nil => exact .nil
    | cons c cs =>
      by_cases blank : isBlank c
      · rw [gapLength, if_pos blank]
        exact .blank blank (ih cs.length (by simp [← hn]) cs rfl)
      · rw [gapLength, if_neg blank]
        split
        · rename_i more lead
          -- The comment reaches `more` characters behind `c`; the gap goes on behind it.
          have behind := ih (cs.drop more).length
            (by simp only [← hn, List.length_drop, List.length_cons]; omega) (cs.drop more) rfl
          have comment := comment_take lead
          have split : (c :: cs.take more).length + gapLength hash 0 (cs.drop more) =
              gapLength hash more cs + 1 := by
            rw [gapLength_inside hash more cs, List.length_cons]
            omega
          have spelled : c :: cs = (c :: cs.take more) ++ cs.drop more := by simp
          rw [← split, spelled, List.take_length_add_append, List.drop_length_add_append]
          refine .comment ?_ behind
          rwa [List.take_append_drop]
        · exact .nil

/-! ## What is passed over -/

/-- A character that begins no mark belongs to the content. -/
theorem commentBody_plain {depth : Nat} {c d : Char} {cs : List Char}
    (hclose : c = '*' → d ≠ '/') (hopen : c = '/' → d ≠ '*') :
    commentBody depth (c :: d :: cs) =
      (commentBody depth (d :: cs)).map fun (text, n) => (c :: text, n + 1) := by
  rw [commentBody.eq_def]
  split <;> simp_all

/-- A text that closes the open comments is what the scanner takes for the rest of the outermost. -/
theorem commentBody_of_closes {depth : Nat} (h : ClosesComment depth cs) (after : List Char) :
    ∃ content, cs = content ++ ['*', '/'] ∧
      commentBody depth (cs ++ after) = some (content, cs.length) := by
  induction h with
  | outermost => exact ⟨[], rfl, rfl⟩
  | inner _ ih | nested _ ih =>
    obtain ⟨content, rfl, body⟩ := ih
    refine ⟨_ :: _ :: content, rfl, ?_⟩
    simp only [List.cons_append, commentBody, body]
    rfl
  | @char depth c cs hstar hslash _ ih =>
    obtain ⟨content, spelled, body⟩ := ih
    obtain ⟨d, ds, rfl⟩ := List.exists_cons_of_ne_nil (l := cs) (by simp [spelled])
    have hclose : c = '*' → d ≠ '/' := fun hc hd => hstar hc (by rw [hd]; rfl)
    have hopen : c = '/' → d ≠ '*' := fun hc hd => hslash hc (by rw [hd]; rfl)
    refine ⟨c :: content, by rw [spelled]; rfl, ?_⟩
    rw [List.cons_append, List.cons_append, commentBody_plain hclose hopen, ← List.cons_append, body]
    rfl

/-- A line that ends in front of a text is counted up to there. -/
theorem lineLength_of_ends {line after : List Char} (h : '\n' ∉ line) (ends : EndsLine after) :
    lineLength (line ++ after) = line.length := by
  have inside : ∀ c ∈ line, (c != '\n') = true := by
    intro c member
    rw [bne_iff_ne]
    rintro rfl
    exact h member
  have stop : after.takeWhile (· != '\n') = [] := by
    cases after with
    | nil => rfl
    | cons c after => simp [ends c rfl]
  rw [lineLength, List.takeWhile_append_of_pos inside, stop, List.append_nil]

/-- The scanner takes a comment for one. -/
theorem commentLead_of_comment {text after : List Char} (h : Comment hash text after) :
    ∃ c more, text = c :: more ∧ isBlank c = false ∧
      commentLead hash (text ++ after) = .comment more.length := by
  cases h with
  | @dashes line _ single ends =>
    refine ⟨'-', '-' :: line, rfl, by decide, ?_⟩
    rw [List.cons_append, List.cons_append, commentLead, lineLength_of_ends single ends]
    rfl
  | @hash line _ set open_ single ends =>
    refine ⟨'#', line, rfl, by decide, ?_⟩
    have mark : (hash && (line ++ after).head? != some '#') = true := by simpa [set] using open_
    rw [List.cons_append, commentLead, if_pos mark, lineLength_of_ends single ends]
  | @block content _ closes noParam =>
    refine ⟨'/', '*' :: (content ++ ['*', '/']), rfl, by decide, ?_⟩
    obtain ⟨content', spelled, body⟩ := commentBody_of_closes closes after
    obtain rfl : content = content' := List.append_cancel_right spelled
    simp only [List.cons_append, commentLead, body, noParam]
    simp

/-- A gap is passed over as a whole. -/
theorem gapLength_of_gap {gap after : List Char} (h : Gap hash gap after) :
    gapLength hash 0 (gap ++ after) = gap.length + gapLength hash 0 after := by
  induction h with
  | nil => simp
  | blank blank _ ih =>
    rw [List.cons_append, gapLength, if_pos blank, ih, List.length_cons]
    omega
  | comment comment _ ih =>
    obtain ⟨c, more, rfl, solid, lead⟩ := commentLead_of_comment comment
    rw [List.append_assoc, List.cons_append, gapLength, if_neg (by simp [solid])]
    rw [List.cons_append] at lead
    simp only [lead]
    rw [gapLength_inside, List.take_left, List.drop_left, ih, List.length_append, List.length_cons]
    omega

/-- Whether a text is a comment depends on the first character behind it. -/
theorem Comment.replace {text after after' : List Char} (h : Comment hash text after)
    (same : after'.head? = after.head?) : Comment hash text after' := by
  cases h with
  | dashes single ends => exact .dashes single fun c hc => ends c (same ▸ hc)
  | @hash line _ set open_ single ends =>
    refine .hash set ?_ single fun c hc => ends c (same ▸ hc)
    rw [List.head?_append] at open_ ⊢
    rwa [same]
  | block closes noParam => exact .block closes noParam

/-- Whether a text is a gap depends on the first character behind it. -/
theorem Gap.replace {gap after after' : List Char} (h : Gap hash gap after)
    (same : after'.head? = after.head?) : Gap hash gap after' := by
  induction h with
  | nil => exact .nil
  | blank blank _ ih => exact .blank blank (ih same)
  | comment comment _ ih =>
    refine .comment (comment.replace ?_) (ih same)
    rw [List.head?_append, List.head?_append, same]

end BoundSql.Token
