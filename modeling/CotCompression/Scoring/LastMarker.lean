import CotCompression.Scoring.Reward

set_option autoImplicit false

namespace CotCompression

open Text (lit isSpace isDecimal)

-- The pattern whose last match _extract reads.
def answerPattern : Pattern := markerPattern (insensitive answerMarker) numberPattern

structure Breaking (c : Char) : Prop where
  digit : isDecimal c = false
  letter : c.isAlpha = false
  longS : c ≠ 'ſ'
  colon : c ≠ ':'
  blank : isSpace c = false
  minus : c ≠ '-'

section Glue

variable {c : Char}

theorem takeWhile_glued {p : Char → Bool} (stops : p c = false) (t rest : Text) :
    (t ++ c :: rest).takeWhile p = t.takeWhile p ∧
      (t ++ c :: rest).dropWhile p = t.dropWhile p ++ c :: rest := by
  induction t with
  | nil => simp [stops]
  | cons d t ih =>
    by_cases inside : p d = true
    · simp [inside, ih]
    · simp [inside]

theorem readInt_glued (digit : isDecimal c = false) (minus : c ≠ '-') (t rest : Text) :
    readInt (t ++ c :: rest) = (readInt t).map fun (run, after) => (run, after ++ c :: rest) := by
  have plain (d : Char) (other : d ≠ '-') (t : Text) : readInt (d :: t) =
      if isDecimal d then some (d :: t.takeWhile isDecimal, t.dropWhile isDecimal) else none :=
    readInt.eq_2 _ _ (by rintro e t' rfl; exact fun _ => other rfl)
  rcases t with _ | ⟨d, t⟩
  · rw [List.nil_append, plain c minus, digit]
    rfl
  · by_cases sign : d = '-'
    · subst sign
      rcases t with _ | ⟨d, t⟩
      · have notDecimal : isDecimal '-' = false := by decide
        simp [readInt, digit, notDecimal]
      · obtain ⟨takes, drops⟩ := takeWhile_glued digit t rest
        rw [List.cons_append, List.cons_append, readInt, readInt, takes, drops]
        split <;> rfl
    · obtain ⟨takes, drops⟩ := takeWhile_glued digit t rest
      rw [List.cons_append, plain d sign, plain d sign, takes, drops]
      split <;> rfl

theorem toLower_of_not_alpha (letter : c.isAlpha = false) : c.toLower = c := by
  unfold Char.toLower
  rw [dif_neg]
  intro upper
  have isUpper : c.isUpper = true := decide_eq_true upper
  rw [Text.alpha_of_upper isUpper] at letter
  cases letter

theorem sameLetter_letter {d : Char} (alpha : d.toLower.isAlpha = true) (letter : c.isAlpha = false)
    (longS : c ≠ 'ſ') : sameLetter d c = false := by
  have other : c ≠ d.toLower := by
    rintro rfl
    rw [alpha] at letter
    cases letter
  have notLong : c.toNat ≠ 0x17F := fun same => longS (Char.ext (UInt32.toNat.inj same))
  simp [sameLetter, toLower_of_not_alpha letter, other, notLong]

theorem Breaking.off_marker (breaking : Breaking c) : ∀ p ∈ insensitive answerMarker, p c = false := by
  have letters : ∀ d ∈ answerMarker, d.toLower.isAlpha = true ∨ d = ':' := by decide
  intro p member
  obtain ⟨d, known, rfl⟩ := List.mem_map.mp member
  rcases letters d known with alpha | rfl
  · exact sameLetter_letter alpha breaking.letter breaking.longS
  · by_contra same
    exact breaking.colon (sameLetter_sign (by decide) (by simpa using same))

theorem answerPattern_glued (breaking : Breaking c) (t rest : Text) :
    answerPattern.first (t ++ c :: rest) =
      (answerPattern.first t).map fun m => { m with rest := m.rest ++ c :: rest } := by
  rw [answerPattern, markerPattern_first, markerPattern_first, Pattern.dropWord_glued breaking.off_marker]
  cases dropped : Pattern.dropWord (insensitive answerMarker) t with
  | none => rfl
  | some behind =>
    obtain ⟨front, rfl, all⟩ := Pattern.dropWord_split dropped
    obtain ⟨takes, drops⟩ := takeWhile_glued breaking.blank behind rest
    have word (tail : Text) : (front ++ tail).take (insensitive answerMarker).length = front := by
      rw [all.length_eq, List.take_left]
    rw [Option.map_some, Option.bind_some, Option.bind_some, drops, takes,
      readInt_glued breaking.digit breaking.minus, List.append_assoc, word, word]
    cases readInt (behind.dropWhile isSpace) <;> rfl

end Glue

theorem computeScore_congr {s t groundTruth : Text} {m n : Pattern.Match}
    (left : (answerPattern.findall s).getLast? = some m) (right : (answerPattern.findall t).getLast? = some n)
    (same : m.groups = n.groups) : computeScore s groundTruth = computeScore t groundTruth := by
  rw [answerPattern] at left right
  rw [computeScore, computeScore, extract, extract, left, right]
  simp only [group1, same]

-- Neither what stands before a text with a marked number nor what comes behind it, short of another
-- such number, has a part in the score.
theorem computeScore_last_marker {t : Text} (marked : (answerPattern.search t).isSome) (groundTruth : Text) :
    (∀ front, computeScore (front ++ t) groundTruth = computeScore t groundTruth) ∧
      ∀ c rest, Breaking c → answerPattern.search (c :: rest) = none →
        computeScore (t ++ c :: rest) groundTruth = computeScore t groundTruth := by
  have apart := markerPattern_apart heads_insensitive
  have nil := markerPattern_nil heads_insensitive
  have filled := Pattern.findall_ne_nil apart nil marked
  have last := List.getLast?_eq_some_getLast filled
  refine ⟨fun front => ?_, fun c rest breaking clear => ?_⟩
  · exact computeScore_congr ((Pattern.findall_behind apart nil front filled).trans last) last rfl
  · have glued := Pattern.findall_before apart nil t (fun v => answerPattern_glued breaking v rest) clear
    have last' := congrArg List.getLast? glued
    rw [List.getLast?_map, last] at last'
    exact computeScore_congr last' last rfl

theorem computeScore_last_marker_five : computeScore (lit "so Answer: 7. Answer:5" ++ lit ". Answer none") (lit "5") =
    computeScore (lit "so Answer: 7. Answer:5") (lit "5") := by
  obtain ⟨_, behind⟩ := computeScore_last_marker
    (by decide +kernel : (answerPattern.search (lit "so Answer: 7. Answer:5")).isSome) (lit "5")
  exact behind '.' (lit " Answer none") ⟨by decide, by decide, by decide, by decide, by decide, by decide⟩
    (by decide +kernel)

end CotCompression
