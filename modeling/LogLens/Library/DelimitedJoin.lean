import Mathlib.Data.List.Basic

/-! Texts joined by a delimiter that may also occur inside them. The joined text
determines the delimited fields of all the texts in order, and nothing about
where one text ends and the next begins. -/

namespace DelimitedJoin

variable {α : Type*} [DecidableEq α] (delimiter : α)

def join (texts : List (List α)) : List α := [delimiter].intercalate texts

def fields (text : List α) : List (List α) := text.splitOn delimiter

theorem join_fields (text : List α) : join delimiter (fields delimiter text) = text :=
  List.intercalate_splitOn delimiter

theorem fields_join {texts : List (List α)} (nonempty : texts ≠ []) :
    fields delimiter (join delimiter texts) = texts.flatMap (fields delimiter) := by
  induction texts with
  | nil => exact absurd rfl nonempty
  | cons text rest ih =>
    cases rest with
    | nil => simp [join]
    | cons next rest =>
      have later := ih (List.cons_ne_nil next rest)
      have split : join delimiter (text :: next :: rest) =
          text ++ delimiter :: join delimiter (next :: rest) := by
        unfold join
        rw [List.intercalate_cons_cons, List.append_assoc, List.singleton_append]
      rw [List.flatMap_cons, ← later, split]
      exact List.splitOn_append_cons_self text _

theorem join_eq_iff {texts texts' : List (List α)} (nonempty : texts ≠ [])
    (nonempty' : texts' ≠ []) : join delimiter texts = join delimiter texts' ↔
      texts.flatMap (fields delimiter) = texts'.flatMap (fields delimiter) := by
  rw [← fields_join delimiter nonempty, ← fields_join delimiter nonempty']
  constructor
  · exact congrArg (fields delimiter)
  · intro same
    rw [← join_fields delimiter (join delimiter texts), same, join_fields]

theorem length_fields (text : List α) :
    (fields delimiter text).length = text.count delimiter + 1 := by
  induction text with
  | nil => rfl
  | cons x rest ih =>
    unfold fields at ih ⊢
    rw [List.splitOn_cons_eq_if_modifyHead, List.count_cons]
    by_cases here : x = delimiter
    · rw [if_pos (beq_iff_eq.mpr here), if_pos (beq_iff_eq.mpr here), List.length_cons, ih]
    · rw [if_neg (by simpa using here), if_neg (by simpa using here), List.length_modifyHead, ih]

/-- Equal fields and, text by text, equally many delimiters leave no choice. -/
theorem eq_of_fields {texts texts' : List (List α)}
    (same : texts.flatMap (fields delimiter) = texts'.flatMap (fields delimiter))
    (counts : texts.map (List.count delimiter) = texts'.map (List.count delimiter)) :
    texts = texts' := by
  induction texts generalizing texts' with
  | nil =>
    cases texts' with
    | nil => rfl
    | cons => cases counts
  | cons text rest ih =>
    cases texts' with
    | nil => cases counts
    | cons text' rest' =>
      rw [List.map_cons, List.map_cons, List.cons.injEq] at counts
      have lengths : (fields delimiter text).length = (fields delimiter text').length := by
        rw [length_fields, length_fields, counts.1]
      rw [List.flatMap_cons, List.flatMap_cons] at same
      obtain ⟨first, later⟩ := List.append_inj same lengths
      have text_eq : text = text' := by
        rw [← join_fields delimiter text, first, join_fields]
      rw [text_eq, ih later counts.2]

/-- A pair is determined if the delimiter does not occur in its second text. -/
theorem join_pair {a b a' b' : List α} (plain : delimiter ∉ b) (plain' : delimiter ∉ b')
    (same : join delimiter [a, b] = join delimiter [a', b']) : a = a' ∧ b = b' := by
  have lengths : (join delimiter [a, b]).count delimiter =
      (join delimiter [a', b']).count delimiter := congrArg _ same
  simp only [join, List.intercalate_cons_cons, List.intercalate_singleton, List.count_append,
    List.count_eq_zero_of_not_mem plain, List.count_eq_zero_of_not_mem plain'] at lengths
  have counts : [a, b].map (List.count delimiter) = [a', b'].map (List.count delimiter) := by
    simp only [List.map_cons, List.map_nil, List.count_eq_zero_of_not_mem plain,
      List.count_eq_zero_of_not_mem plain', List.cons.injEq, and_true]
    omega
  have texts := eq_of_fields delimiter ((join_eq_iff delimiter (by simp) (by simp)).mp same) counts
  simpa using texts

end DelimitedJoin
