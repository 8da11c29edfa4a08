import Mathlib.Algebra.BigOperators.Group.List.Basic
import Mathlib.Algebra.Order.Field.Basic
import Mathlib.Algebra.Order.Group.MinMax
import Mathlib.Tactic.Linarith
import Mathlib.Tactic.Ring

/-!
# Metered payments

Payments are made from a level that rises no faster than a rate, never above a ceiling.  What was
paid in a window of time is then no more than the ceiling and what the rate gives in that time:
`Meter.window_le`.  The level may rise and be clamped whenever somebody looks at it (`Meter.refill`)
and falls by what is paid (`Meter.pay`).
-/

variable {K : Type*} [Field K] [LinearOrder K]

/-- What was paid in a window; an entry of the log is a time and an amount. -/
def Meter.window (start stop : K) (log : List (K × K)) : K :=
  (log.map fun e => if start ≤ e.1 ∧ e.1 ≤ stop then e.2 else 0).sum

/-- The payments of the log were made from a level, which is known for the time `last`. -/
structure Meter (ceiling rate : K) (log : List (K × K)) (level last : K) : Prop where
  past : ∀ e ∈ log, e.1 ≤ last
  nonneg : 0 ≤ level
  capped : level ≤ ceiling
  /-- What a window has paid, and what is left if it is not over, the ceiling and the rate gave. -/
  spent : ∀ start stop, start ≤ last → start ≤ stop →
    Meter.window start stop log + (if last ≤ stop then level else 0) ≤
      ceiling + rate * (min last stop - start)

namespace Meter

variable {ceiling rate level last start stop time amount : K} {log : List (K × K)}

theorem window_append (start stop : K) (log rest : List (K × K)) :
    window start stop (log ++ rest) = window start stop log + window start stop rest := by
  simp [window]

theorem window_singleton (start stop time amount : K) :
    window start stop [(time, amount)] = if start ≤ time ∧ time ≤ stop then amount else 0 := by
  simp [window]

/-- A window that begins after the last payment has paid nothing. -/
theorem window_eq_zero (h : ∀ e ∈ log, e.1 < start) : window start stop log = 0 := by
  refine List.sum_eq_zero fun paid hpaid => ?_
  obtain ⟨e, he, rfl⟩ := List.mem_map.mp hpaid
  exact if_neg fun hin => absurd hin.1 (not_le.mpr (h e he))

variable [IsStrictOrderedRing K]

theorem begin (hrate : 0 ≤ rate) (hnonneg : 0 ≤ level) (hcapped : level ≤ ceiling) :
    Meter ceiling rate [] level last where
  past := nofun
  nonneg := hnonneg
  capped := hcapped
  spent start stop hlast hstop := by
    have hgiven : 0 ≤ rate * (min last stop - start) :=
      mul_nonneg hrate (sub_nonneg.mpr (le_min hlast hstop))
    have hleft : (if last ≤ stop then level else 0) ≤ ceiling := by
      split_ifs
      · exact hcapped
      · exact hnonneg.trans hcapped
    show 0 + _ ≤ _
    linarith

theorem refill (h : Meter ceiling rate log level last) (hrate : 0 ≤ rate) {level' : K}
    (hnow : last ≤ time) (hnonneg : 0 ≤ level') (hcapped : level' ≤ ceiling)
    (hrise : level' ≤ level + rate * (time - last)) : Meter ceiling rate log level' time where
  past e he := (h.past e he).trans hnow
  nonneg := hnonneg
  capped := hcapped
  spent start stop htime hstop := by
    by_cases hlast : start ≤ last
    · have hspent := h.spent start stop hlast hstop
      by_cases hover : time ≤ stop
      · -- The window is still open.
        rw [if_pos (hnow.trans hover), min_eq_left (hnow.trans hover)] at hspent
        rw [if_pos hover, min_eq_left hover]
        have hgiven : rate * (last - start) + rate * (time - last) = rate * (time - start) := by ring
        linarith
      · rw [if_neg hover, min_eq_right (le_of_not_ge hover)]
        have hleft : 0 ≤ if last ≤ stop then level else 0 := by
          split_ifs
          · exact h.nonneg
          · exact le_refl _
        have hmin : rate * (min last stop - start) ≤ rate * (stop - start) :=
          mul_le_mul_of_nonneg_left (sub_le_sub_right (min_le_right _ _) _) hrate
        linarith
    · -- The window began since.
      have hzero : window start stop log = 0 :=
        window_eq_zero fun e he => (h.past e he).trans_lt (not_le.mp hlast)
      have hspent := (begin hrate hnonneg hcapped : Meter ceiling rate [] level' time).spent
        start stop htime hstop
      rw [hzero]
      exact hspent

theorem pay (h : Meter ceiling rate log level last) (hamount : 0 ≤ amount)
    (hlevel : amount ≤ level) : Meter ceiling rate (log ++ [(last, amount)]) (level - amount) last where
  past e he := by
    rcases List.mem_append.mp he with he | he
    · exact h.past e he
    · exact le_of_eq (congrArg Prod.fst (List.mem_singleton.mp he))
  nonneg := sub_nonneg.mpr hlevel
  capped := (sub_le_self level hamount).trans h.capped
  spent start stop hlast hstop := by
    have hspent := h.spent start stop hlast hstop
    rw [window_append, window_singleton]
    by_cases hover : last ≤ stop
    · rw [if_pos hover] at hspent ⊢
      rw [if_pos ⟨hlast, hover⟩]
      linarith
    · rw [if_neg hover] at hspent ⊢
      rw [if_neg fun hin => hover hin.2]
      linarith

/-- **What is paid in a window is no more than the ceiling and what the rate gives.** -/
theorem window_le (h : Meter ceiling rate log level last) (hrate : 0 ≤ rate) (hstop : start ≤ stop) :
    window start stop log ≤ rate * (stop - start) + ceiling := by
  have hceiling : 0 ≤ ceiling := h.nonneg.trans h.capped
  by_cases hlast : start ≤ last
  · have hspent := h.spent start stop hlast hstop
    have hleft : 0 ≤ if last ≤ stop then level else 0 := by
      split_ifs
      · exact h.nonneg
      · exact le_refl _
    have hmin : rate * (min last stop - start) ≤ rate * (stop - start) :=
      mul_le_mul_of_nonneg_left (sub_le_sub_right (min_le_right _ _) _) hrate
    linarith
  · have hzero : window start stop log = 0 :=
      window_eq_zero fun e he => (h.past e he).trans_lt (not_le.mp hlast)
    have hgiven : 0 ≤ rate * (stop - start) := mul_nonneg hrate (sub_nonneg.mpr hstop)
    linarith

end Meter
