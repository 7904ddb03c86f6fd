import InCircuit.Text.Pieces
import Mathlib.Data.List.TakeWhile

set_option autoImplicit false

/-!
# Text cut, split and trimmed

A cut is made at the first separator, a split at every one, and the pieces put together again are
the text. What trimming leaves has no blank at either end, and the text is that with blanks around
it.
-/
namespace InCircuit.Text

variable {c : Char} {cs core : List Char}

/-! ## Cutting and splitting -/

theorem cut_of_not_mem (h : c ∉ cs) : cut c cs = (cs, none) := by
  induction cs with
  | nil => rfl
  | cons d cs ih =>
    have other : d ≠ c := fun same => h (same ▸ List.mem_cons_self)
    rw [cut, if_neg other, ih fun mem => h (List.mem_cons_of_mem d mem)]

theorem cut_append {before : List Char} (h : c ∉ before) (after : List Char) :
    cut c (before ++ c :: after) = (before, some after) := by
  induction before with
  | nil => exact if_pos rfl
  | cons d before ih =>
    have other : d ≠ c := fun same => h (same ▸ List.mem_cons_self)
    rw [List.cons_append, cut, if_neg other, ih fun mem => h (List.mem_cons_of_mem d mem)]

theorem cut_cases (c : Char) (cs : List Char) :
    (c ∉ cs ∧ cut c cs = (cs, none)) ∨
      ∃ before after, c ∉ before ∧ cs = before ++ c :: after ∧ cut c cs = (before, some after) := by
  by_cases mem : c ∈ cs
  · obtain ⟨before, after, rfl, first⟩ := List.eq_append_cons_of_mem mem
    exact .inr ⟨before, after, first, rfl, cut_append first after⟩
  · exact .inl ⟨mem, cut_of_not_mem mem⟩

theorem split_eq_splitOn (c : Char) (cs : List Char) : split c cs = cs.splitOn c := by
  induction cs with
  | nil => rfl
  | cons d cs ih =>
    rw [split, List.splitOn_cons_eq_if_modifyHead, ← ih]
    by_cases here : d = c
    · rw [if_pos here, if_pos (beq_iff_eq.mpr here)]
    · rw [if_neg here, if_neg (mt beq_iff_eq.mp here)]
      cases pieces : split c cs with
      | cons piece others => rfl
      | nil => exact absurd (ih ▸ pieces) (List.splitOn_ne_nil c cs)

theorem not_mem_of_mem_split {piece : List Char} (h : piece ∈ split c cs) : c ∉ piece := by
  induction cs generalizing piece with
  | nil =>
    obtain rfl := List.mem_singleton.mp h
    exact List.not_mem_nil
  | cons d cs ih =>
    rw [split] at h
    by_cases here : d = c
    · rw [if_pos here] at h
      rcases List.mem_cons.mp h with rfl | later
      · exact List.not_mem_nil
      · exact ih later
    · rw [if_neg here] at h
      cases pieces : split c cs with
      | nil =>
        rw [pieces] at h
        obtain rfl := List.mem_singleton.mp h
        exact fun mem => here (List.mem_singleton.mp mem).symm
      | cons first others =>
        rw [pieces] at h ih
        rcases List.mem_cons.mp h with rfl | later
        · intro mem
          rcases List.mem_cons.mp mem with same | mem
          · exact here same.symm
          · exact ih List.mem_cons_self mem
        · exact ih (List.mem_cons_of_mem first later)

/-! ## Trimming -/

def AllBlank (cs : List Char) : Prop := ∀ c ∈ cs, isBlank c = true

structure Trimmed (cs : List Char) : Prop where
  first : ∀ c ∈ cs.head?, isBlank c = false
  last : ∀ c ∈ cs.getLast?, isBlank c = false

/-- `cs` is `core` with blanks around it. -/
def Padded (core cs : List Char) : Prop :=
  ∃ before after, AllBlank before ∧ AllBlank after ∧ cs = before ++ core ++ after

theorem padded_self (cs : List Char) : Padded cs cs :=
  ⟨[], [], List.forall_mem_nil _, List.forall_mem_nil _, (List.append_nil cs).symm⟩

theorem AllBlank.not_mem (h : AllBlank cs) (shown : isBlank c = false) : c ∉ cs :=
  fun mem => Bool.false_ne_true (shown.symm.trans (h c mem))

theorem Padded.mem_iff (h : Padded core cs) (shown : isBlank c = false) : c ∈ cs ↔ c ∈ core := by
  obtain ⟨before, after, left, right, rfl⟩ := h
  rw [List.mem_append, List.mem_append, or_iff_left (right.not_mem shown),
    or_iff_right (left.not_mem shown)]

theorem padded_nil_iff : Padded [] cs ↔ AllBlank cs := by
  constructor
  · rintro ⟨before, after, left, right, rfl⟩ c mem
    rw [List.append_nil, List.mem_append] at mem
    exact mem.elim (left c) (right c)
  · intro all
    exact ⟨cs, [], all, List.forall_mem_nil _, by rw [List.append_nil, List.append_nil]⟩

theorem dropWhile_append_blanks {before : List Char} (h : AllBlank before)
    (first : ∀ c ∈ cs.head?, isBlank c = false) : (before ++ cs).dropWhile isBlank = cs := by
  rw [List.dropWhile_append_of_pos h]
  cases cs with
  | nil => rfl
  | cons c cs => exact List.dropWhile_cons_of_neg (Bool.eq_false_iff.mp (first c rfl))

theorem trim_of_padded (h : Padded core cs) (trimmed : Trimmed core) : trim cs = core := by
  cases core with
  | nil =>
    rw [trim, List.dropWhile_eq_nil_iff.mpr (padded_nil_iff.mp h)]
    rfl
  | cons c core =>
    obtain ⟨before, after, left, right, rfl⟩ := h
    have right : AllBlank after.reverse := fun c mem => right c (List.mem_reverse.mp mem)
    have first : ∀ d ∈ (c :: core ++ after).head?, isBlank d = false := trimmed.first
    have last : ∀ d ∈ (c :: core).reverse.head?, isBlank d = false := by
      rw [List.head?_reverse]
      exact trimmed.last
    rw [trim, List.append_assoc, dropWhile_append_blanks left first, List.reverse_append,
      dropWhile_append_blanks right last, List.reverse_reverse]

theorem not_isBlank_of_mem_head?_dropWhile (h : c ∈ (cs.dropWhile isBlank).head?) :
    isBlank c = false := by
  have first := List.head?_dropWhile_not isBlank cs
  rw [h] at first
  exact first

/-- Only blanks at the end are left to drop once those at the start are gone. -/
theorem dropWhile_eq_trim_append (cs : List Char) :
    ∃ after, AllBlank after ∧ cs.dropWhile isBlank = trim cs ++ after := by
  refine ⟨((cs.dropWhile isBlank).reverse.takeWhile isBlank).reverse,
    fun c mem => List.mem_takeWhile_imp (List.mem_reverse.mp mem), ?_⟩
  rw [trim, ← List.reverse_append, List.takeWhile_append_dropWhile, List.reverse_reverse]

theorem padded_trim (cs : List Char) : Padded (trim cs) cs := by
  obtain ⟨after, right, rest⟩ := dropWhile_eq_trim_append cs
  refine ⟨cs.takeWhile isBlank, after, fun c mem => List.mem_takeWhile_imp mem, right, ?_⟩
  rw [List.append_assoc, ← rest, List.takeWhile_append_dropWhile]

theorem trimmed_trim (cs : List Char) : Trimmed (trim cs) := by
  constructor
  case first =>
    intro c mem
    obtain ⟨after, -, rest⟩ := dropWhile_eq_trim_append cs
    have head : c ∈ (cs.dropWhile isBlank).head? := by
      rw [rest, List.head?_append, mem]
      rfl
    exact not_isBlank_of_mem_head?_dropWhile head
  case last =>
    intro c mem
    rw [trim, List.getLast?_reverse] at mem
    exact not_isBlank_of_mem_head?_dropWhile mem

theorem trim_eq_iff : trim cs = core ↔ Trimmed core ∧ Padded core cs :=
  ⟨fun h => h ▸ ⟨trimmed_trim cs, padded_trim cs⟩, fun h => trim_of_padded h.2 h.1⟩

theorem trimmed_nil : Trimmed [] := ⟨by rintro _ ⟨⟩, by rintro _ ⟨⟩⟩

theorem trim_eq_nil_iff : trim cs = [] ↔ AllBlank cs :=
  trim_eq_iff.trans ((and_iff_right trimmed_nil).trans padded_nil_iff)

end InCircuit.Text
