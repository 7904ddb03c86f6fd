import InCircuit.Proofs.Progress

set_option autoImplicit false

/-!
# Reports of any marks

The marks of an operation may come in any order, be repeated and go past the total. The reports
still climb from 0 to the total, in steps of the granularity at least up to the last, and no mark
that has come so far past the last report is passed over.
-/
namespace InCircuit.Tracker

variable {t : Tracker} {l : Nat}

theorem Climbs.eq_nil {ds : List Nat} (h : t.Climbs t.total ds) : ds = [] := by
  cases ds with
  | nil => rfl
  | cons d ds => exact absurd h.1 (Nat.lt_irrefl _)

theorem Climbs.ne_nil {ds : List Nat} (h : t.Climbs l ds) (below : l < t.total) : ds ≠ [] := by
  rintro rfl
  exact Nat.ne_of_lt below h

/-- Up to the one before the total, each report is a granularity past the one before it. -/
theorem isChain_dropLast_dones (h : l ≤ t.total) (us : List Nat) :
    (l :: t.dones l (us ++ [t.total])).dropLast.IsChain fun a b => a + t.granularity ≤ b := by
  have ended (us : List Nat) : t.dones t.total (us ++ [t.total]) = [] :=
    (climbs_dones (Nat.le_refl _) us).eq_nil
  induction us generalizing l with
  | nil =>
    rw [List.nil_append, dones, if_pos (Nat.le_refl _)]
    split
    · exact .nil
    · exact .singleton l
  | cons u us ih =>
    rw [List.cons_append, dones]
    by_cases full : t.total ≤ u
    · rw [if_pos full]
      split
      · exact ih h
      · rw [ended]
        exact .singleton l
    · rw [if_neg full]
      by_cases soon : u < l + t.granularity
      · rw [if_pos soon]
        exact ih h
      · have below : u < t.total := by omega
        have later := ih (Nat.le_of_lt below)
        have more := (climbs_dones (Nat.le_of_lt below) us).ne_nil below
        rw [if_neg soon, List.dropLast_cons_of_ne_nil (List.cons_ne_nil _ _)]
        rw [List.dropLast_cons_of_ne_nil more] at later ⊢
        exact .cons_cons (by omega) later

theorem dones_append (t : Tracker) (l : Nat) (us vs : List Nat) :
    t.dones l (us ++ vs) =
      t.dones l us ++ t.dones ((l :: t.dones l us).getLast (List.cons_ne_nil _ _)) vs := by
  induction us generalizing l with
  | nil => rfl
  | cons u us ih =>
    rw [List.cons_append, dones, dones]
    by_cases full : t.total ≤ u
    · rw [if_pos full, if_pos full]
      split
      · exact ih l
      · exact congrArg _ (ih t.total)
    · rw [if_neg full, if_neg full]
      split
      · exact ih l
      · exact congrArg _ (ih u)

theorem reports_begun (t : Tracker) (us : List Nat) :
    t.reports (.start :: us.map .reached) = (0 :: t.dones 0 us).map t.tell := by
  rw [reports_start, reports_told]
  rfl

/-- A mark below the total that lies a granularity past the last report is reported next. -/
theorem reports_of_far {before after : List Nat} {u : Nat} (below : u < t.total) {r : Report}
    (last : r ∈ (t.reports (.start :: before.map .reached)).getLast?)
    (far : r.done + t.granularity ≤ u) :
    t.reports (.start :: ((before ++ u :: after).map .reached ++ [.finish])) =
      t.reports (.start :: before.map .reached) ++
        t.tell u :: (t.told u).reports (after.map .reached ++ [.finish]) := by
  let d := (0 :: t.dones 0 before).getLast (List.cons_ne_nil _ _)
  have same : t.tell d = r := by
    rw [reports_begun, List.getLast?_map, List.getLast?_eq_getLast_of_ne_nil (List.cons_ne_nil _ _)]
      at last
    exact Option.some.inj last
  have far : ¬ u < d + t.granularity := by
    rw [← same] at far
    exact Nat.not_lt_of_le far
  have reported : t.dones d (u :: after ++ [t.total]) = u :: t.dones u (after ++ [t.total]) := by
    rw [List.cons_append, dones, if_neg (Nat.not_le_of_lt below), if_neg far]
  rw [reports_whole, reports_begun, reports_append_finish, List.append_assoc, dones_append,
    reported]
  simp only [List.map_append, List.map_cons, List.cons_append]

/-- Whatever marks come between the start and the end, the reports climb from 0 to the total and
stop there, each but the last a granularity past the one before; and a mark below the total that
lies a granularity past the last report is reported itself. -/
theorem reports_spaced (t : Tracker) (us : List Nat) :
    Report.Complete t.operation t.total (t.total + 1)
        (t.reports (.start :: (us.map .reached ++ [.finish]))) ∧
      (t.reports (.start :: (us.map .reached ++ [.finish]))).dropLast.IsChain
        (fun r s => r.done + t.granularity ≤ s.done) ∧
      ∀ before u after, us = before ++ u :: after → u < t.total →
        ∀ r ∈ (t.reports (.start :: before.map .reached)).getLast?, r.done + t.granularity ≤ u →
          t.reports (.start :: (us.map .reached ++ [.finish])) =
            t.reports (.start :: before.map .reached) ++
              t.tell u :: (t.told u).reports (after.map .reached ++ [.finish]) := by
  have climbs := climbs_dones (t := t) (Nat.zero_le _) us
  refine ⟨complete_of_isChain ?_, ?_, ?_⟩
  · -- No two reports can lie more than the total apart.
    refine (climbs.pairwise.imp_of_mem fun {a b} _ mem _ => ?_).isChain
    have top := (climbs.bounded b mem).2
    omega
  · rw [reports_whole, ← List.map_dropLast]
    exact (List.isChain_map _).mpr (isChain_dropLast_dones (Nat.zero_le _) us)
  · rintro before u after rfl below r last far
    exact reports_of_far below last far

def hundred : Tracker := { operation := .program, total := 100, granularity := 10 }

def wandering : List Nat := [5, 30, 25, 200, 7, 100]

theorem reports_spaced_wandering :
    (hundred.reports (.start :: (wandering.map .reached ++ [.finish]))).map (·.done) =
        [0, 30, 100] ∧
      30 < hundred.total ∧ 0 + hundred.granularity ≤ 30 ∧
      hundred.reports (.start :: (wandering.map .reached ++ [.finish])) =
        hundred.reports (.start :: [5].map .reached) ++
          hundred.tell 30 ::
            (hundred.told 30).reports ([25, 200, 7, 100].map .reached ++ [.finish]) := by
  obtain ⟨-, -, reported⟩ := reports_spaced hundred wandering
  exact ⟨rfl, by decide, by decide,
    reported [5] 30 [25, 200, 7, 100] rfl (by decide) (hundred.tell 0) rfl (by decide)⟩

end InCircuit.Tracker
