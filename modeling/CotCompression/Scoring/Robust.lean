import CotCompression.Scoring.Evaluate

set_option autoImplicit false

namespace CotCompression

open Text (lit strip isSpace)

def scoreRow (genText : Text) (row : Row) : Except PyError Int := do
  let pred := strip (extractAnswer genText)
  let gold ← getGold row
  return exactMatch pred gold

def Scored (genText : Text) (row : Row) : Prop :=
  ∃ em, scoreRow genText row = .ok em ∧ (em = 0 ∨ em = 1) ∧
    ((¬ ∃ gold, gold ≠ [] ∧ getGold row = .ok gold) → em = 0)

theorem exactMatch_cases (pred gold : Text) : exactMatch pred gold = 0 ∨ exactMatch pred gold = 1 := by
  unfold exactMatch matchWith
  repeat' split
  all_goals simp

theorem line_behind {sol : Text} (found : answerMarker <:+: strip sol) :
    (∃ behind line, lastItem (Text.split answerMarker (strip sol)) = .ok behind ∧
      item (Text.splitlines (strip behind)) 0 = .ok line) ↔ ¬ answerMarker <:+ strip sol := by
  have alone : 'A' ∉ lit "nswer:" := by decide
  have shape : answerMarker = 'A' :: lit "nswer:" := rfl
  rw [shape] at found ⊢
  obtain ⟨behind, last, ⟨front, whole⟩, ends⟩ := Text.split_last_nil alone found
  have lastIs : lastItem (Text.split ('A' :: lit "nswer:") (strip sol)) = .ok behind := by rw [lastItem, last]
  rw [← ends, lastIs]
  constructor
  · rintro ⟨_, line, same, read⟩ rfl
    obtain rfl := Except.ok.inj same
    cases read
  · intro filled
    have some : strip sol ≠ [] := by
      rw [← whole]
      simp [filled]
    have solid := Text.strip_last some
    have inside : (strip sol).getLast some ∈ behind := by
      rw [List.getLast_congr some (by simp [filled]) whole.symm, List.getLast_append_of_ne_nil _ filled]
      exact List.getLast_mem filled
    have lines : Text.splitlines (strip behind) ≠ [] :=
      Text.splitlinesFrom_ne_nil (.inr (Text.strip_ne_nil inside solid))
    exact ⟨behind, _, rfl, item_ok [] (List.length_pos_iff.mpr lines)⟩

-- Each source of the gold answer but one is guarded: behind the last marker there may be no line.
theorem getGold_ok_iff (row : Row) : (∃ gold, getGold row = .ok gold) ↔
    strip (row.answer.getD []) ≠ [] ∨ ¬ answerMarker <:+ strip (row.solution.getD []) := by
  by_cases answered : strip (row.answer.getD []) ≠ []
  · exact iff_of_true ⟨_, by rw [getGold, if_pos answered]; rfl⟩ (.inl answered)
  · rw [getGold, if_neg answered, or_iff_right answered]
    by_cases found : answerMarker <:+: strip (row.solution.getD [])
    · rw [← line_behind found]
      simp only [if_pos found]
      constructor
      · rintro ⟨gold, made⟩
        obtain ⟨behind, last, made⟩ := bind_eq_ok.mp made
        obtain ⟨line, read, _⟩ := bind_eq_ok.mp made
        exact ⟨behind, line, last, read⟩
      · rintro ⟨behind, line, last, read⟩
        exact ⟨Text.rstripDots line, by rw [last, ok_bind, read]; rfl⟩
    · simp only [if_neg found]
      refine iff_of_true ?_ fun ends => found ends.isInfix
      split
      · exact ⟨_, rfl⟩
      · exact ⟨_, rfl⟩

-- The scoring step goes through unless the answer is to be found behind a marker that ends the solution.
theorem scored_iff (genText : Text) (row : Row) : Scored genText row ↔
    strip (row.answer.getD []) ≠ [] ∨ ¬ answerMarker <:+ strip (row.solution.getD []) := by
  rw [← getGold_ok_iff]
  constructor
  · rintro ⟨em, ran, _⟩
    obtain ⟨gold, found, _⟩ := bind_eq_ok.mp ran
    exact ⟨gold, found⟩
  · rintro ⟨gold, found⟩
    refine ⟨exactMatch (strip (extractAnswer genText)) gold, ?_, exactMatch_cases _ _, fun none => ?_⟩
    · rw [scoreRow, found]
      rfl
    · obtain rfl : gold = [] := by
        by_contra filled
        exact none ⟨gold, filled, found⟩
      rfl

-- A solution cut off behind its marker: the evaluation stops with an IndexError.
theorem cut_off_unscored : scoreRow (lit "Answer: 5.") ⟨none, some (lit "so 5. Answer:"), none⟩ = .error .indexError ∧
    ¬ Scored (lit "Answer: 5.") ⟨none, some (lit "so 5. Answer:"), none⟩ := by
  have raised : scoreRow (lit "Answer: 5.") ⟨none, some (lit "so 5. Answer:"), none⟩ = .error .indexError := by
    rfl
  refine ⟨raised, ?_⟩
  rintro ⟨em, ran, _⟩
  rw [raised] at ran
  cases ran

end CotCompression
