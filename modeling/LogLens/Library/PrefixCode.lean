import Mathlib.Data.List.Basic

/-! Codes that are read back without marks around them: what is coded first in a text is
determined by the text, as long as what goes on behind it stops it. Lists of coded values
between separators and an end mark are read back in the same way. -/

namespace PrefixCode
variable {α β : Type*}

/-- The code of `a` is read back from any text that begins with it and goes on with a stop, and
is not the beginning of what another value of `S` is coded by. -/
def ReadsBack (S : α → Prop) (code : α → List β) (stops : List β → Prop) (a : α) : Prop :=
  ∀ b, S b → ∀ x y, stops x → stops y → code a ++ x = code b ++ y → a = b ∧ x = y

/-- Coded values with `sep` between them and `close` at the end; `lead` stands before the first. -/
def delimited (code : α → List β) (sep close : List β) : (lead : List β) → List α → List β
  | _, [] => close
  | lead, a :: as => lead ++ (code a ++ delimited code sep close sep as)

/-- Without separators the codes follow one another. -/
theorem delimited_nil (code : α → List β) (close : List β) (as : List α) :
    delimited code [] close [] as = as.flatMap code ++ close := by
  induction as with
  | nil => rfl
  | cons a as ih => rw [delimited, ih, List.nil_append, List.flatMap_cons, List.append_assoc]

/-- No value of `S` is taken for the end mark, and separator and end mark stop a value. -/
structure Delimits (S : α → Prop) (code : α → List β) (stops : List β → Prop)
    (sep close : List β) : Prop where
  apart : ∀ lead ∈ [[], sep], ∀ a, S a → ∀ x y, lead ++ (code a ++ x) ≠ close ++ y
  sep_stops : ∀ a, S a → ∀ x, stops (sep ++ (code a ++ x))
  close_stops : ∀ x, stops (close ++ x)

section Lists
variable {S : α → Prop} {code : α → List β} {stops : List β → Prop} {sep close : List β}

theorem Delimits.stops_delimited (h : Delimits S code stops sep close) {as : List α}
    (coded : ∀ a ∈ as, S a) (x : List β) : stops (delimited code sep close sep as ++ x) := by
  cases as with
  | nil => exact h.close_stops x
  | cons a as =>
    rw [delimited, List.append_assoc, List.append_assoc]
    exact h.sep_stops a (coded a List.mem_cons_self) _

/-- A list of coded values is read back where each of them is. -/
theorem Delimits.reads (h : Delimits S code stops sep close) {lead : List β}
    (hlead : lead ∈ [[], sep]) {as bs : List α} (each : ∀ a ∈ as, ReadsBack S code stops a)
    (coded : ∀ a ∈ as, S a) (coded' : ∀ b ∈ bs, S b) {x y : List β}
    (same : delimited code sep close lead as ++ x = delimited code sep close lead bs ++ y) :
    as = bs ∧ x = y := by
  induction as generalizing bs lead with
  | nil =>
    cases bs with
    | nil => exact ⟨rfl, List.append_cancel_left same⟩
    | cons b bs =>
      rw [delimited, delimited, List.append_assoc, List.append_assoc] at same
      exact absurd same.symm (h.apart lead hlead b (coded' b List.mem_cons_self) _ _)
  | cons a as ih =>
    cases bs with
    | nil =>
      rw [delimited, delimited, List.append_assoc, List.append_assoc] at same
      exact absurd same (h.apart lead hlead a (coded a List.mem_cons_self) _ _)
    | cons b bs =>
      rw [List.forall_mem_cons] at each coded coded'
      rw [delimited, delimited, List.append_assoc, List.append_assoc, List.append_assoc,
        List.append_assoc] at same
      obtain ⟨rfl, rest⟩ := each.1 b coded'.1 _ _ (h.stops_delimited coded.2 x)
        (h.stops_delimited coded'.2 y) (List.append_cancel_left same)
      obtain ⟨rfl, ends⟩ := ih (by simp) each.2 coded.2 coded'.2 rest
      exact ⟨rfl, ends⟩

/-- A value behind another one. -/
theorem ReadsBack.pair {α' : Type*} {S' : α' → Prop} {code' : α' → List β}
    {stops' : List β → Prop} {a : α} {a' : α'} (h : ReadsBack S code stops a)
    (h' : ReadsBack S' code' stops' a') (between : ∀ b, S' b → ∀ x, stops (sep ++ (code' b ++ x)))
    (own : S' a') : ReadsBack (fun p : α × α' => S p.1 ∧ S' p.2)
      (fun p => code p.1 ++ (sep ++ code' p.2)) stops' (a, a') := by
  rintro ⟨b, b'⟩ ⟨coded, coded'⟩ x y stop stop' same
  simp only [List.append_assoc] at same
  obtain ⟨rfl, rest⟩ := h b coded _ _ (between a' own x) (between b' coded' y) same
  obtain ⟨rfl, ends⟩ := h' b' coded' x y stop stop' (List.append_cancel_left rest)
  exact ⟨rfl, ends⟩

end Lists

end PrefixCode
