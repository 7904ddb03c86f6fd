import InCircuit.Progress
import Mathlib.Data.List.Chain

set_option autoImplicit false

/-!
# What a tracker reports

Once the start has been reported, the reports are a matter of the last of them and of the marks that
follow. They climb to the total and stop there. When the marks come in small steps, the reports do
not lie far apart.
-/
namespace InCircuit

namespace Tracker

def told (t : Tracker) (l : Nat) : Tracker := { t with last := some l }

def tell (t : Tracker) (d : Nat) : Report := ⟨t.operation, d, t.total⟩

def dones (t : Tracker) (l : Nat) : List Nat → List Nat
  | [] => []
  | u :: us =>
    if t.total ≤ u then
      if l = t.total then t.dones l us else t.total :: t.dones t.total us
    else if u < l + t.granularity then t.dones l us
    else u :: t.dones u us

variable (t : Tracker)

theorem step_finish (l : Nat) : (t.told l).step .finish =
    if l = t.total then (t.told l, none) else (t.told t.total, some (t.tell t.total)) := by
  change (if some l = some t.total then _ else _) = _
  simp only [Option.some.injEq]
  rfl

theorem step_reached (l u : Nat) : (t.told l).step (.reached u) =
    if t.total ≤ u then
      if l = t.total then (t.told l, none) else (t.told t.total, some (t.tell t.total))
    else if u < l + t.granularity then (t.told l, none)
    else (t.told u, some (t.tell u)) := by
  rw [← step_finish]
  rfl

theorem step_finish_eq (l : Nat) :
    (t.told l).step .finish = (t.told l).step (.reached t.total) := by
  rw [step_finish, step_reached, if_pos (Nat.le_refl _)]

theorem reports_told (l : Nat) (us : List Nat) :
    (t.told l).reports (us.map .reached) = (t.dones l us).map t.tell := by
  induction us generalizing l with
  | nil => rfl
  | cons u us ih =>
    rw [List.map_cons, reports, step_reached, dones]
    by_cases full : t.total ≤ u
    · rw [if_pos full, if_pos full]
      by_cases ended : l = t.total
      · rw [if_pos ended, if_pos ended]
        exact ih l
      · rw [if_neg ended, if_neg ended]
        exact congrArg _ (ih t.total)
    · rw [if_neg full, if_neg full]
      by_cases soon : u < l + t.granularity
      · rw [if_pos soon, if_pos soon]
        exact ih l
      · rw [if_neg soon, if_neg soon]
        exact congrArg _ (ih u)

theorem reports_append_finish (l : Nat) (us : List Nat) :
    (t.told l).reports (us.map .reached ++ [.finish]) =
      (t.dones l (us ++ [t.total])).map t.tell := by
  rw [← reports_told, List.map_append]
  induction us generalizing l with
  | nil =>
    simp only [List.map_nil, List.nil_append, List.map_cons, reports, step_finish_eq]
  | cons u us ih =>
    simp only [List.map_cons, List.cons_append, reports, step_reached]
    split <;> split <;> exact congrArg _ (ih _)

theorem mem_dones {t : Tracker} {l d : Nat} {us : List Nat} (h : d ∈ t.dones l us) :
    ∃ u ∈ us, d = min u t.total := by
  induction us generalizing l with
  | nil => exact absurd h List.not_mem_nil
  | cons u us ih =>
    have later {l : Nat} (h : d ∈ t.dones l us) : ∃ v ∈ u :: us, d = min v t.total := by
      obtain ⟨v, mem, value⟩ := ih h
      exact ⟨v, List.mem_cons_of_mem u mem, value⟩
    have now (h : d = min u t.total) : ∃ v ∈ u :: us, d = min v t.total :=
      ⟨u, List.mem_cons_self, h⟩
    rw [dones] at h
    split at h
    · split at h
      · exact later h
      · rcases List.mem_cons.mp h with rfl | h
        · exact now (by omega)
        · exact later h
    · split at h
      · exact later h
      · rcases List.mem_cons.mp h with rfl | h
        · exact now (by omega)
        · exact later h

/-! ## Climbing to the total -/

/-- From `l` on, `ds` do not fall, end with the total and have it only there. -/
def Climbs (t : Tracker) : Nat → List Nat → Prop
  | l, [] => l = t.total
  | l, d :: ds => l < t.total ∧ l ≤ d ∧ t.Climbs d ds

variable {t} {l : Nat}

theorem climbs_dones (h : l ≤ t.total) (us : List Nat) :
    t.Climbs l (t.dones l (us ++ [t.total])) := by
  -- The last report `l` is all that the tracker remembers, and it is never past the total.
  induction us generalizing l with
  | nil =>
    rw [List.nil_append, dones, if_pos (Nat.le_refl _)]
    by_cases ended : l = t.total
    · rw [if_pos ended]
      exact ended
    · rw [if_neg ended]
      exact ⟨by omega, h, rfl⟩
  | cons u us ih =>
    rw [List.cons_append, dones]
    by_cases full : t.total ≤ u
    · rw [if_pos full]
      by_cases ended : l = t.total
      · rw [if_pos ended]
        exact ih h
      · rw [if_neg ended]
        exact ⟨by omega, h, ih (Nat.le_refl _)⟩
    · rw [if_neg full]
      by_cases soon : u < l + t.granularity
      · rw [if_pos soon]
        exact ih h
      · rw [if_neg soon]
        exact ⟨by omega, by omega, ih (by omega)⟩

theorem Climbs.bounded {ds : List Nat} (h : t.Climbs l ds) :
    ∀ d ∈ l :: ds, l ≤ d ∧ d ≤ t.total := by
  induction ds generalizing l with
  | nil =>
    rintro d (_ | ⟨_, ⟨⟩⟩)
    exact ⟨Nat.le_refl _, Nat.le_of_eq h⟩
  | cons e ds ih =>
    obtain ⟨below, up, rest⟩ := h
    rintro d (_ | ⟨_, later⟩)
    · exact ⟨Nat.le_refl _, Nat.le_of_lt below⟩
    · exact ⟨Nat.le_trans up (ih rest d later).1, (ih rest d later).2⟩

theorem Climbs.pairwise {ds : List Nat} (h : t.Climbs l ds) : (l :: ds).Pairwise (· ≤ ·) := by
  induction ds generalizing l with
  | nil => exact List.pairwise_singleton _ _
  | cons e ds ih =>
    exact List.pairwise_cons.mpr ⟨fun d later => (h.bounded d (List.mem_cons_of_mem _ later)).1,
      ih h.2.2⟩

theorem Climbs.getLast? {ds : List Nat} (h : t.Climbs l ds) :
    (l :: ds).getLast? = some t.total := by
  induction ds generalizing l with
  | nil => exact congrArg some h
  | cons e ds ih =>
    rw [List.getLast?_cons_cons]
    exact ih h.2.2

theorem Climbs.count {ds : List Nat} (h : t.Climbs l ds) : (l :: ds).count t.total = 1 := by
  induction ds generalizing l with
  | nil =>
    obtain rfl : l = t.total := h
    exact List.count_singleton_self
  | cons e ds ih =>
    rw [List.count_cons_of_ne (Nat.ne_of_lt h.1)]
    exact ih h.2.2

/-! ## Marks in steps -/

/-- From `u` on, marks come in steps of at most `step` bytes, and it is the last that has got to the
total. -/
def Rises (total step : Nat) : Nat → List Nat → Prop
  | u, [] => total ≤ u
  | u, v :: us => (total = 0 ∨ u < total) ∧ v ≤ u + step ∧ Rises total step v us

theorem Rises.below {total step u v : Nat} {before after : List Nat}
    (h : Rises total step u (before ++ v :: after)) (nonzero : total ≠ 0) :
    ∀ x ∈ before, x < total := by
  induction before generalizing u with
  | nil => exact fun x none => absurd none List.not_mem_nil
  | cons w before ih =>
    have rest : Rises total step w (before ++ v :: after) := h.2.2
    have first : w < total := by
      cases before with
      | nil => exact rest.1.resolve_left nonzero
      | cons x before => exact rest.1.resolve_left nonzero
    exact List.forall_mem_cons.mpr ⟨first, ih rest⟩

/-- Marks on pieces of one size rise when those before the end lie below the total and those from
the end on do not. -/
theorem rises_range' {total step size stop : Nat} {g : Nat → Nat}
    (near : ∀ x, g (x + size) ≤ g x + step) (early : ∀ x, x < stop → total = 0 ∨ g x < total)
    (late : ∀ x, stop ≤ x → total ≤ g x) (count x : Nat) (cover : stop ≤ x + count * size)
    (needed : x + count * size < stop + size) :
    Rises total step (g x) ((List.range' (x + size) count size).map g) := by
  induction count generalizing x with
  | zero => exact late x (by omega)
  | succ count ih =>
    rw [Nat.succ_mul] at cover needed
    exact ⟨early x (by omega), near x, ih (x + size) (by omega) (by omega)⟩

/-- A report comes at the first mark that lies far enough past the last one, so it lies at most a
step farther than that. -/
theorem isChain_dones {step u : Nat} {us : List Nat} (h : Rises t.total step u us)
    (positive : 0 < t.granularity) (near : l = t.total ∨ u < l + t.granularity) :
    (l :: t.dones l (us ++ [t.total])).IsChain fun a b => b < a + (t.granularity + step) := by
  induction us generalizing l u with
  | nil =>
    change t.total ≤ u at h
    rw [List.nil_append, dones, if_pos (Nat.le_refl _)]
    by_cases ended : l = t.total
    · rw [if_pos ended]
      exact .singleton l
    · rw [if_neg ended]
      exact .cons_cons (by omega) (.singleton _)
  | cons v us ih =>
    obtain ⟨-, up, rest⟩ := h
    rw [List.cons_append, dones]
    by_cases full : t.total ≤ v
    · rw [if_pos full]
      by_cases ended : l = t.total
      · rw [if_pos ended]
        exact ih rest (.inl ended)
      · rw [if_neg ended]
        exact .cons_cons (by omega) (ih rest (.inl rfl))
    · rw [if_neg full]
      by_cases soon : v < l + t.granularity
      · rw [if_pos soon]
        exact ih rest (.inr soon)
      · rw [if_neg soon]
        exact .cons_cons (by omega) (ih rest (.inr (by omega)))

end Tracker

/-- The reports of an operation that has gone through all of its `total` bytes, each of them less
than `gap` bytes past the one before. -/
structure Report.Complete (operation : Operation) (total gap : Nat) (reports : List Report) :
    Prop where
  carry : ∀ r ∈ reports, r.operation = operation ∧ r.total = total
  first : reports.head?.map (·.done) = some 0
  last : reports.getLast?.map (·.done) = some total
  ascend : reports.Pairwise fun r s => r.done ≤ s.done
  bounded : ∀ r ∈ reports, r.done ≤ total
  once : (reports.map (·.done)).count total = 1
  near : reports.IsChain fun r s => s.done < r.done + gap

theorem Report.Complete.reaches {operation : Operation} {total gap : Nat} {reports : List Report}
    (h : Report.Complete operation total gap reports) : ∃ r ∈ reports, r.done = total := by
  obtain ⟨r, last, done⟩ := Option.map_eq_some_iff.mp h.last
  exact ⟨r, List.mem_of_getLast? last, done⟩

namespace Tracker

variable {t : Tracker} {step : Nat} {us : List Nat}

theorem reports_start (t : Tracker) (marks : List Mark) :
    t.reports (.start :: marks) = t.tell 0 :: (t.told 0).reports marks := rfl

theorem done_tell (t : Tracker) : (fun r : Report => r.done) ∘ t.tell = id := rfl

theorem reports_whole (t : Tracker) (us : List Nat) :
    t.reports (.start :: (us.map .reached ++ [.finish])) =
      (0 :: t.dones 0 (us ++ [t.total])).map t.tell := by
  rw [reports_start, reports_append_finish]
  rfl

theorem complete_of_isChain {gap : Nat}
    (near : (0 :: t.dones 0 (us ++ [t.total])).IsChain fun a b => b < a + gap) :
    Report.Complete t.operation t.total gap
      (t.reports (.start :: (us.map .reached ++ [.finish]))) := by
  have climbs : t.Climbs 0 (t.dones 0 (us ++ [t.total])) := climbs_dones (Nat.zero_le _) us
  rw [reports_whole]
  refine ⟨?_, rfl, ?_, ?_, ?_, ?_, (List.isChain_map _).mpr near⟩
  · rintro r mem
    obtain ⟨d, -, rfl⟩ := List.mem_map.mp mem
    exact ⟨rfl, rfl⟩
  · rw [List.getLast?_map, climbs.getLast?]
    rfl
  · exact List.pairwise_map.mpr climbs.pairwise
  · rintro r mem
    obtain ⟨d, listed, rfl⟩ := List.mem_map.mp mem
    exact (climbs.bounded d listed).2
  · rw [List.map_map, done_tell, List.map_id]
    exact climbs.count

theorem complete_reports (rises : Rises t.total step 0 us) (positive : 0 < t.granularity) :
    Report.Complete t.operation t.total (t.granularity + step)
      (t.reports (.start :: (us.map .reached ++ [.finish]))) :=
  complete_of_isChain (isChain_dones rises positive (.inr (by omega)))

theorem done_of_mem_reports {r : Report} (nonzero : t.total ≠ 0) (below : ∀ u ∈ us, u < t.total)
    (mem : r ∈ t.reports (.start :: us.map .reached)) : r.done ≠ t.total := by
  rw [reports_start, reports_told] at mem
  rcases List.mem_cons.mp mem with rfl | mem
  · exact Ne.symm nonzero
  · obtain ⟨d, listed, rfl⟩ := List.mem_map.mp mem
    obtain ⟨u, marked, rfl⟩ := mem_dones listed
    have low := below u marked
    change min u t.total ≠ t.total
    omega

end Tracker

end InCircuit
