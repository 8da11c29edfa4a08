import MediaCenterSync.Bandwidth.Service
import MediaCenterSync.Lib.LabelledRun
import MediaCenterSync.Lib.Meter

/-!
# The cap is a cap

A turn that cannot pay leaves the bucket as full as the time since the last turn has made it
(`refilled_of_lt`): the ceiling is never below the payment, so it is only felt by a turn that pays.
So the bucket is a level that rises with the limit under a ceiling (`Meter`), and what is paid in a
window of time is bounded; and while nobody else is paid, a caller finds more in the bucket at each of
its turns, up to what it asks for, and is paid then (`Waited.run`): `cap_holds`.
-/

namespace MediaCenterSync.Bandwidth

open LabelledRun (Free Run)

namespace TokenBucket

variable {bucket bucket' : TokenBucket} {bytes : ℕ} {now : ℚ}

/-- A turn pays, or it finds less than it is to pay. -/
theorem turn_cases (hlimit : 0 < bucket.bytesPerSecond) (bytes : ℕ) (now : ℚ) :
    ((bytes : ℚ) ≤ bucket.refilled bytes now ∧
      bucket.turn bytes now =
        ({ bucket with tokens := bucket.refilled bytes now - bytes, last := now }, none)) ∨
    (bucket.refilled bytes now < bytes ∧ ∃ waits, 5 ≤ ⌊waits⌋ ∧
      bucket.turn bytes now =
        ({ bucket with tokens := bucket.refilled bytes now, last := now }, some waits)) := by
  unfold turn
  rw [if_neg (not_le.mpr hlimit)]
  by_cases hpays : (bytes : ℚ) ≤ bucket.refilled bytes now
  · exact .inl ⟨hpays, by simp [hpays]⟩
  · set missing := (bytes : ℚ) - bucket.refilled bytes now
    refine .inr ⟨not_le.mp hpays, min (max 5 (missing / bucket.bytesPerSecond * 1000)) 250, ?_, ?_⟩
    · refine Int.le_floor.mpr (le_min ?_ (by norm_num))
      exact_mod_cast le_max_left _ _
    · simp only [if_neg hpays]
      rfl

theorem refilled_of_lt (h : bucket.refilled bytes now < bytes) :
    bucket.refilled bytes now =
      bucket.tokens + (now - bucket.last) / 1000 * bucket.bytesPerSecond := by
  have hceiling : (bytes : ℚ) ≤ max bucket.bytesPerSecond bytes := le_max_right _ _
  rcases min_choice (max bucket.bytesPerSecond (bytes : ℚ))
      (bucket.tokens + (now - bucket.last) / 1000 * bucket.bytesPerSecond) with hmin | hmin
  · have hle : (bytes : ℚ) ≤ bucket.refilled bytes now := hceiling.trans (le_of_eq hmin.symm)
    exact absurd h (not_lt.mpr hle)
  · exact hmin

theorem refilled_nonneg (hlimit : 0 < bucket.bytesPerSecond) (htokens : 0 ≤ bucket.tokens)
    (hnow : bucket.last ≤ now) : 0 ≤ bucket.refilled bytes now := by
  have hgiven : 0 ≤ (now - bucket.last) / 1000 * bucket.bytesPerSecond :=
    mul_nonneg (div_nonneg (sub_nonneg.mpr hnow) (by norm_num)) hlimit.le
  exact le_min (hlimit.le.trans (le_max_left _ _)) (by linarith)

end TokenBucket

namespace State

variable {s s' : State} {L : ℚ} {B : ℕ}

/-! ### One turn -/

theorem turned_cases (hlimit : 0 < s.bucket.bytesPerSecond) (bytes : ℕ)
    (callers : Option ℚ → List Caller) :
    ((bytes : ℚ) ≤ s.bucket.refilled bytes s.now ∧
      s.turned bytes callers =
        { s with
          bucket :=
            { s.bucket with tokens := s.bucket.refilled bytes s.now - bytes, last := s.now }
          callers := callers none
          grants := s.grants ++ [(s.now, (bytes : ℚ))] }) ∨
    (s.bucket.refilled bytes s.now < bytes ∧ ∃ waits : ℤ, 5 ≤ waits ∧
      s.turned bytes callers =
        { s with
          bucket := { s.bucket with tokens := s.bucket.refilled bytes s.now, last := s.now }
          callers := callers (some (s.now + waits)) }) := by
  unfold turned
  rcases s.bucket.turn_cases hlimit bytes s.now with ⟨hpays, heq⟩ | ⟨hlacks, waits, hwaits, heq⟩
  · exact .inl ⟨hpays, by rw [heq]; rfl⟩
  · exact .inr ⟨hlacks, ⌊waits⌋, hwaits, by rw [heq]; rfl⟩

/-- Nothing is owed, and the bucket was last looked at in the past. -/
structure Sane (s : State) : Prop where
  tokens : 0 ≤ s.bucket.tokens
  last : s.bucket.last ≤ s.now

theorem sane_built (bytesPerSecond now : ℚ) : Sane (built bytesPerSecond now) where
  tokens := le_refl 0
  last := le_refl now

theorem Sane.turned (h : Sane s) (bytes : ℕ) (callers : Option ℚ → List Caller) :
    Sane (s.turned bytes callers) := by
  by_cases hlimit : s.bucket.bytesPerSecond ≤ 0
  · have hturn : s.bucket.turn bytes s.now = (s.bucket, none) := by
      rw [TokenBucket.turn, if_pos hlimit]
    rw [State.turned, hturn]
    exact ⟨h.tokens, h.last⟩
  · have hlimit := not_le.mp hlimit
    rcases turned_cases hlimit bytes callers with ⟨hpays, heq⟩ | ⟨-, waits, -, heq⟩
    · rw [heq]
      exact ⟨sub_nonneg.mpr hpays, le_refl _⟩
    · rw [heq]
      exact ⟨TokenBucket.refilled_nonneg hlimit h.tokens h.last, le_refl _⟩

theorem wake_cases {i : ℕ} (hstep : step s (.wake i) = some s') :
    ∃ bytes wakeAt, s.callers[i]? = some ⟨bytes, some wakeAt⟩ ∧ wakeAt ≤ s.now ∧
      s' = s.turned bytes fun due => s.callers.set i ⟨bytes, due⟩ := by
  simp only [step] at hstep
  split at hstep
  · next bytes wakeAt hcaller =>
    obtain ⟨hdue, hs'⟩ := Option.ite_none_right_eq_some.mp hstep
    exact ⟨bytes, wakeAt, hcaller, hdue, (Option.some.inj hs').symm⟩
  · cases hstep

theorem sane_step (s : State) (a : Act) (s' : State) (h : Sane s) (_ : Free s a)
    (hstep : step s a = some s') : Sane s' := by
  cases a with
  | take bytes => exact Option.some.inj hstep ▸ h.turned bytes _
  | wake i =>
    obtain ⟨bytes, _, -, -, rfl⟩ := wake_cases hstep
    exact h.turned bytes _
  | wait ms =>
    obtain ⟨hms, hs'⟩ := Option.ite_none_right_eq_some.mp hstep
    cases hs'
    refine ⟨h.tokens, ?_⟩
    have hlast := h.last
    show s.bucket.last ≤ s.now + ms
    linarith
  | setLimit uploadRateLimit =>
    cases hstep
    exact ⟨h.tokens, h.last⟩

/-! ### Under one limit -/

/-- The limit stays what it is, and no payment is larger than `B`. -/
def Within (L : ℚ) (B : ℕ) (_ : State) : Act → Prop
  | .take bytes => bytes ≤ B
  | .setLimit uploadRateLimit => max 0 uploadRateLimit = L
  | _ => True

instance (L : ℚ) (B : ℕ) (s : State) : (a : Act) → Decidable (Within L B s a)
  | .take bytes => inferInstanceAs (Decidable (bytes ≤ B))
  | .setLimit uploadRateLimit => inferInstanceAs (Decidable (max 0 uploadRateLimit = L))
  | .wake _ => inferInstanceAs (Decidable True)
  | .wait _ => inferInstanceAs (Decidable True)

/-- The limit is `L`, and whoever waits is to pay no more than `B`. -/
structure Capped (L : ℚ) (B : ℕ) (s : State) : Prop extends Sane s where
  limit : s.bucket.bytesPerSecond = L
  payments : ∀ c ∈ s.callers, c.wakeAt.isSome → c.bytes ≤ B

/-- What was paid since then, from a bucket that is a meter. -/
def Metered (L : ℚ) (B : ℕ) (before : List (ℚ × ℚ)) (s : State) : Prop :=
  ∃ paid, s.grants = before ++ paid ∧
    (paid = [] ∨ Meter (max L B) (L / 1000) paid s.bucket.tokens s.bucket.last)

theorem Capped.turned (hL : 0 < L) (h : Capped L B s) {bytes : ℕ}
    {callers : Option ℚ → List Caller}
    (hcallers : ∀ due, ∀ c ∈ callers due, c.wakeAt.isSome → c.bytes ≤ B) :
    Capped L B (s.turned bytes callers) := by
  refine ⟨h.toSane.turned bytes callers, ?_, ?_⟩ <;>
    rcases turned_cases (h.limit.symm ▸ hL) bytes callers with ⟨-, heq⟩ | ⟨-, waits, -, heq⟩ <;>
    rw [heq]
  · exact h.limit
  · exact h.limit
  · exact hcallers none
  · exact hcallers _

/-- A turn fills the bucket no faster than the limit, and pays from it. -/
theorem Metered.turned (hL : 0 < L) (hs : Capped L B s) {before : List (ℚ × ℚ)}
    (h : Metered L B before s) {bytes : ℕ} (hbytes : bytes ≤ B)
    (callers : Option ℚ → List Caller) : Metered L B before (s.turned bytes callers) := by
  obtain ⟨paid, hpaid, hmeter⟩ := h
  have hlimit : 0 < s.bucket.bytesPerSecond := hs.limit.symm ▸ hL
  have hrate : 0 ≤ L / 1000 := div_nonneg hL.le (by norm_num)
  have hnonneg : 0 ≤ s.bucket.refilled bytes s.now :=
    TokenBucket.refilled_nonneg hlimit hs.tokens hs.last
  have hceiling : s.bucket.refilled bytes s.now ≤ max L B := by
    have hmin : s.bucket.refilled bytes s.now ≤ max s.bucket.bytesPerSecond bytes :=
      min_le_left _ _
    rw [hs.limit] at hmin
    exact hmin.trans (max_le_max_left L (by exact_mod_cast hbytes))
  have hrise : s.bucket.refilled bytes s.now ≤
      s.bucket.tokens + L / 1000 * (s.now - s.bucket.last) := by
    have hmin : s.bucket.refilled bytes s.now ≤
        s.bucket.tokens + (s.now - s.bucket.last) / 1000 * s.bucket.bytesPerSecond :=
      min_le_right _ _
    rw [hs.limit] at hmin
    exact hmin.trans (le_of_eq (by ring))
  have hfilled : Meter (max L B) (L / 1000) paid (s.bucket.refilled bytes s.now) s.now := by
    rcases hmeter with rfl | hmeter
    · exact .begin hrate hnonneg hceiling
    · exact hmeter.refill hrate hs.last hnonneg hceiling hrise
  rcases turned_cases hlimit bytes callers with ⟨hpays, heq⟩ | ⟨-, waits, -, heq⟩
  · rw [heq]
    refine ⟨paid ++ [(s.now, (bytes : ℚ))], ?_, .inr (hfilled.pay (Nat.cast_nonneg _) hpays)⟩
    show s.grants ++ _ = _
    rw [hpaid, List.append_assoc]
  · rw [heq]
    exact ⟨paid, hpaid, .inr hfilled⟩

theorem metered_step (hL : 0 < L) {before : List (ℚ × ℚ)} (s : State) (a : Act) (s' : State)
    (h : Capped L B s ∧ Metered L B before s) (hok : Within L B s a) (hstep : step s a = some s') :
    Capped L B s' ∧ Metered L B before s' := by
  obtain ⟨hcapped, hmetered⟩ := h
  have hsane : Sane s' := sane_step s a s' hcapped.toSane trivial hstep
  cases a with
  | take bytes =>
    cases hstep
    refine ⟨hcapped.turned hL fun due c hc hwaits => ?_, hmetered.turned hL hcapped hok _⟩
    rcases List.mem_append.mp hc with hc | hc
    · exact hcapped.payments c hc hwaits
    · exact List.mem_singleton.mp hc ▸ hok
  | wake i =>
    obtain ⟨bytes, wakeAt, hcaller, -, rfl⟩ := wake_cases hstep
    have hbytes : bytes ≤ B := hcapped.payments _ (List.mem_of_getElem? hcaller) rfl
    refine ⟨hcapped.turned hL fun due c hc hwaits => ?_, hmetered.turned hL hcapped hbytes _⟩
    rcases List.mem_or_eq_of_mem_set hc with hc | rfl
    · exact hcapped.payments c hc hwaits
    · exact hbytes
  | wait ms =>
    obtain ⟨-, hs'⟩ := Option.ite_none_right_eq_some.mp hstep
    cases hs'
    exact ⟨⟨hsane, hcapped.limit, hcapped.payments⟩, hmetered⟩
  | setLimit uploadRateLimit =>
    cases hstep
    exact ⟨⟨hsane, hok, hcapped.payments⟩, hmetered⟩

/-! ### Turns of one call -/

/-- Nobody is paid by the step but the `i`-th call. -/
def PaysOnly (i : ℕ) (s : State) (a : Act) : Prop :=
  a = .wake i ∨ ∀ s' ∈ step s a, s'.grants = s.grants

instance (i : ℕ) (s : State) (a : Act) : Decidable (PaysOnly i s a) :=
  inferInstanceAs (Decidable (a = .wake i ∨ ∀ s' ∈ step s a, s'.grants = s.grants))

/-- A turn of a call pays it, or nobody. -/
theorem wake_paid (hL : 0 < L) (hlimit : s.bucket.bytesPerSecond = L) {i bytes : ℕ} {wakeAt : ℚ}
    (hcaller : s.callers[i]? = some ⟨bytes, some wakeAt⟩) (hstep : step s (.wake i) = some s') :
    s'.grants = s.grants ∨
      s'.grants = s.grants ++ [(s.now, (bytes : ℚ))] ∧ s'.callers[i]? = some ⟨bytes, none⟩ := by
  obtain ⟨other, due, hother, -, rfl⟩ := wake_cases hstep
  obtain ⟨rfl, rfl⟩ : bytes = other ∧ wakeAt = due := by simpa [hcaller] using hother
  have hi := (List.getElem?_eq_some_iff.mp hcaller).1
  rcases turned_cases (hlimit.symm ▸ hL) bytes (fun due => s.callers.set i ⟨bytes, due⟩) with
    ⟨-, heq⟩ | ⟨-, waits, -, heq⟩
  · rw [heq]
    exact .inr ⟨rfl, List.getElem?_set_self hi⟩
  · rw [heq]
    exact .inl rfl

theorem callers_step {a : Act} {i : ℕ} {c : Caller} (hcaller : s.callers[i]? = some c)
    (hne : a ≠ .wake i) (hstep : step s a = some s') : s'.callers[i]? = some c := by
  have hi := (List.getElem?_eq_some_iff.mp hcaller).1
  cases a with
  | take bytes =>
    cases hstep
    exact (List.getElem?_append_left hi).trans hcaller
  | wake j =>
    obtain ⟨bytes, _, -, -, rfl⟩ := wake_cases hstep
    have hj : j ≠ i := fun h => hne (h ▸ rfl)
    exact (List.getElem?_set_ne hj).trans hcaller
  | wait ms =>
    obtain ⟨-, hs'⟩ := Option.ite_none_right_eq_some.mp hstep
    cases hs'
    exact hcaller
  | setLimit uploadRateLimit =>
    cases hstep
    exact hcaller

/-- A call that has been paid takes no more turns. -/
theorem paid_run {i bytes : ℕ} {as : List Act} (h : Run step (PaysOnly i) s as s')
    (hpaid : s.callers[i]? = some ⟨bytes, none⟩) :
    s'.grants = s.grants ∧ s'.callers[i]? = some ⟨bytes, none⟩ ∧ as.count (.wake i) = 0 := by
  induction h with
  | nil s => exact ⟨rfl, hpaid, List.count_nil⟩
  | @cons s m s' a as hok hstep _ ih =>
    have hne : a ≠ .wake i := by
      rintro rfl
      obtain ⟨_, _, hcaller, -, -⟩ := wake_cases hstep
      simp [hpaid] at hcaller
    obtain ⟨hgrants, hcaller, hcount⟩ := ih (callers_step hpaid hne hstep)
    have hsame : m.grants = s.grants := hok.resolve_left hne m hstep
    refine ⟨hgrants.trans hsame, hcaller, ?_⟩
    rw [List.count_cons_of_ne hne, hcount]

/-- The `i`-th call has waited in vain for so many turns, since a time from which the bucket holds
what the limit has given. -/
def Waited (L : ℚ) (i : ℕ) (bytes : ℕ) (turns : ℕ) (s : State) : Prop :=
  ∃ wakeAt, s.callers[i]? = some ⟨bytes, some wakeAt⟩ ∧
    (turns = 0 ∨ ∃ since, (s.bucket.last - since) * L ≤ s.bucket.tokens * 1000 ∧
      since + 5 * turns ≤ wakeAt ∧ 5 * (turns - 1) * L < bytes * 1000)

/-- A turn that pays nobody leaves the bucket as full as the time has made it. -/
theorem unpaid_turn (hL : 0 < L) (hlimit : s.bucket.bytesPerSecond = L) {bytes : ℕ}
    {callers : Option ℚ → List Caller} (hunpaid : (s.turned bytes callers).grants = s.grants) :
    ∃ tokens : ℚ, tokens * 1000 = s.bucket.tokens * 1000 + (s.now - s.bucket.last) * L ∧
      tokens < bytes ∧ ∃ waits : ℤ, 5 ≤ waits ∧
        s.turned bytes callers =
          { s with
            bucket := { s.bucket with tokens := tokens, last := s.now }
            callers := callers (some (s.now + waits)) } := by
  rcases turned_cases (hlimit.symm ▸ hL) bytes callers with ⟨-, heq⟩ | ⟨hlacks, waits, hwaits, heq⟩
  · rw [heq] at hunpaid
    have hlength := congrArg List.length hunpaid
    simp at hlength
  · refine ⟨_, ?_, hlacks, waits, hwaits, heq⟩
    rw [TokenBucket.refilled_of_lt hlacks, hlimit]
    ring

/-- A step in which nobody is paid keeps what a call has waited, and counts its turn. -/
theorem Waited.step (hL : 0 < L) (hs : Sane s) (hlimit : s.bucket.bytesPerSecond = L) {a : Act}
    {i bytes turns : ℕ} (h : Waited L i bytes turns s) (hstep : step s a = some s')
    (hunpaid : s'.grants = s.grants) :
    Waited L i bytes (turns + if a = .wake i then 1 else 0) s' := by
  obtain ⟨wakeAt, hcaller, hwaited⟩ := h
  -- The time that went by is in the bucket, whoever looks at it.
  have hpassed : ∀ tokens, tokens * 1000 = s.bucket.tokens * 1000 + (s.now - s.bucket.last) * L →
      ∀ since, (s.bucket.last - since) * L ≤ s.bucket.tokens * 1000 →
        (s.now - since) * L ≤ tokens * 1000 := by
    intro tokens htokens since hsince
    have hsum : (s.now - since) * L = (s.bucket.last - since) * L + (s.now - s.bucket.last) * L := by
      ring
    linarith
  cases a with
  | take other =>
    cases hstep
    obtain ⟨tokens, htokens, -, waits, -, heq⟩ := unpaid_turn hL hlimit hunpaid
    rw [heq]
    have hi := (List.getElem?_eq_some_iff.mp hcaller).1
    refine ⟨wakeAt, ?_, ?_⟩
    · exact (List.getElem?_append_left hi).trans hcaller
    · exact hwaited.imp_right fun ⟨since, hsince, hrest⟩ => ⟨since, hpassed _ htokens _ hsince, hrest⟩
  | wake j =>
    obtain ⟨other, due, hother, hdue, rfl⟩ := wake_cases hstep
    obtain ⟨tokens, htokens, hlacks, waits, hwaits, heq⟩ := unpaid_turn hL hlimit hunpaid
    rw [heq]
    have hwaits : (5 : ℚ) ≤ waits := by exact_mod_cast hwaits
    by_cases hj : j = i
    · subst hj
      rw [hcaller] at hother
      obtain ⟨rfl, rfl⟩ : bytes = other ∧ wakeAt = due := by simpa using hother
      have hi := (List.getElem?_eq_some_iff.mp hcaller).1
      refine ⟨s.now + waits, List.getElem?_set_self hi, .inr ?_⟩
      rw [if_pos rfl]
      rcases hwaited with rfl | ⟨since, hsince, hlater, -⟩
      · -- The first turn: the bucket holds nothing less than nothing.
        have hnonneg : 0 ≤ tokens * 1000 := by
          have hgiven : 0 ≤ (s.now - s.bucket.last) * L :=
            mul_nonneg (sub_nonneg.mpr hs.last) hL.le
          have htokens' := hs.tokens
          linarith
        refine ⟨s.now, ?_, ?_, ?_⟩
        · rw [sub_self, zero_mul]
          exact hnonneg
        · push_cast
          linarith
        · push_cast
          linarith
      · have hfull := hpassed _ htokens _ hsince
        have hlong : 5 * turns * L ≤ (s.now - since) * L :=
          mul_le_mul_of_nonneg_right (by linarith) hL.le
        refine ⟨since, hfull, ?_, ?_⟩
        · push_cast
          linarith
        · push_cast
          rw [add_sub_cancel_right]
          linarith
    · have hne : Act.wake j ≠ Act.wake i := fun h => hj (Act.wake.inj h)
      refine ⟨wakeAt, ?_, ?_⟩
      · exact (List.getElem?_set_ne hj).trans hcaller
      · rw [if_neg hne]
        exact hwaited.imp_right fun ⟨since, hsince, hrest⟩ => ⟨since, hpassed _ htokens _ hsince, hrest⟩
  | wait ms =>
    obtain ⟨-, hs'⟩ := Option.ite_none_right_eq_some.mp hstep
    cases hs'
    exact ⟨wakeAt, hcaller, hwaited⟩
  | setLimit uploadRateLimit =>
    cases hstep
    exact ⟨wakeAt, hcaller, hwaited⟩

theorem Waited.few (hL : 0 < L) {i bytes turns : ℕ} (h : Waited L i bytes turns s) :
    (turns : ℚ) < 200 * bytes / L + 1 := by
  obtain ⟨_, -, hturns⟩ := h
  rw [div_add_one hL.ne', lt_div_iff₀ hL]
  rcases hturns with hzero | ⟨_, -, -, hlacks⟩
  · have hbytes : (0 : ℚ) ≤ 200 * bytes := by positivity
    rw [hzero, Nat.cast_zero, zero_mul]
    linarith
  · linarith

/-- **Turn after turn**, while nobody else is paid: the call waits, or it has been paid. -/
theorem Waited.run (hL : 0 < L) {as : List Act} (h : Run State.step (Within L B) s as s')
    {i bytes turns : ℕ} (hothers : Run State.step (PaysOnly i) s as s') (hs : Capped L B s)
    (hwaited : Waited L i bytes turns s) :
    s'.grants = s.grants ∧ Waited L i bytes (turns + as.count (.wake i)) s' ∨
      ∃ time, s'.grants = s.grants ++ [(time, (bytes : ℚ))] ∧
        s'.callers[i]? = some ⟨bytes, none⟩ ∧
        ((turns + as.count (.wake i) : ℕ) : ℚ) < 200 * bytes / L + 2 := by
  induction h generalizing turns with
  | nil s => exact .inl ⟨rfl, hwaited⟩
  | @cons s m s' a as hok hstep hrun ih =>
    cases hothers with
    | cons hpays hstep' hrest =>
    obtain rfl := Option.some.inj (hstep.symm.trans hstep')
    by_cases hsame : m.grants = s.grants
    · have hfresh : Metered L B s.grants s := ⟨[], (List.append_nil _).symm, .inl rfl⟩
      have hm : Capped L B m := (metered_step hL s a m ⟨hs, hfresh⟩ hok hstep).1
      have hnext := hwaited.step hL hs.toSane hs.limit hstep hsame
      have hcount : (a :: as).count (.wake i) =
          (if a = .wake i then 1 else 0) + as.count (.wake i) := by
        rw [List.count_cons]
        simp only [beq_iff_eq]
        omega
      rw [hcount, ← Nat.add_assoc, ← hsame]
      exact ih hrest hm hnext
    · -- somebody is paid, so it is this call, and it is over
      obtain rfl := hpays.resolve_right fun h => hsame (h m hstep)
      obtain ⟨wakeAt, hcaller, -⟩ := id hwaited
      obtain ⟨hgrants, hpaid⟩ := (wake_paid hL hs.limit hcaller hstep).resolve_left hsame
      obtain ⟨hend, hcaller', hcount⟩ := paid_run hrest hpaid
      refine .inr ⟨s.now, hend.trans hgrants, hcaller', ?_⟩
      have hfew := hwaited.few hL
      rw [List.count_cons_self, hcount]
      push_cast
      linarith

/-! ### Every run -/

/-- **The cap is a cap.**  From any state the service can come to, as long as the limit is `L` and
no payment is larger than `B`: what is paid within a time is no more than `L` bytes a second and
`max L B`; and a call nobody else is paid before has taken fewer than `200 bytes / L + 1` turns, or
it has been paid, however large its payment is. -/
theorem cap_holds (hL : 0 < L) {bytesPerSecond now : ℚ} {before as : List Act}
    (hbefore : Run step Free (built bytesPerSecond now) before s)
    (hlimit : s.bucket.bytesPerSecond = L)
    (hpayments : ∀ c ∈ s.callers, c.wakeAt.isSome → c.bytes ≤ B)
    (h : Run step (Within L B) s as s') :
    (∀ paid, s'.grants = s.grants ++ paid → ∀ start stop, start ≤ stop →
      Meter.window start stop paid ≤ L * ((stop - start) / 1000) + max L B) ∧
    ∀ i (bytes : ℕ) wakeAt, s.callers[i]? = some ⟨bytes, some wakeAt⟩ →
      Run step (PaysOnly i) s as s' →
        s'.grants = s.grants ∧ (∃ wakeAt, s'.callers[i]? = some ⟨bytes, some wakeAt⟩) ∧
          (as.count (.wake i) : ℚ) < 200 * bytes / L + 1 ∨
        ∃ time, s'.grants = s.grants ++ [(time, (bytes : ℚ))] ∧
          s'.callers[i]? = some ⟨bytes, none⟩ ∧
          (as.count (.wake i) : ℚ) < 200 * bytes / L + 2 := by
  have hcapped : Capped L B s :=
    ⟨hbefore.invariant sane_step (sane_built _ _), hlimit, hpayments⟩
  constructor
  · intro paid hpaid start stop hstop
    have hfresh : Metered L B s.grants s := ⟨[], (List.append_nil _).symm, .inl rfl⟩
    have hrun := h.invariant (metered_step hL) ⟨hcapped, hfresh⟩
    obtain ⟨-, paid', hpaid', hmeter⟩ := hrun
    obtain rfl : paid' = paid := List.append_cancel_left (hpaid'.symm.trans hpaid)
    have hrate : 0 ≤ L / 1000 := div_nonneg hL.le (by norm_num)
    rcases hmeter with rfl | hmeter
    · have hgiven : 0 ≤ L * ((stop - start) / 1000) :=
        mul_nonneg hL.le (div_nonneg (sub_nonneg.mpr hstop) (by norm_num))
      have hceiling : L ≤ max L B := le_max_left _ _
      show 0 ≤ _
      linarith
    · exact (hmeter.window_le hrate hstop).trans (le_of_eq (by ring))
  · intro i bytes wakeAt hcaller hothers
    have hwaited : Waited L i bytes 0 s := ⟨wakeAt, hcaller, .inl rfl⟩
    have hrun := hwaited.run hL h hothers hcapped
    rw [Nat.zero_add] at hrun
    refine hrun.imp_left fun ⟨hunpaid, hend⟩ => ⟨hunpaid, ?_, hend.few hL⟩
    obtain ⟨wakeAt', hcaller', -⟩ := hend
    exact ⟨wakeAt', hcaller'⟩

/-- Five bytes at two bytes a second. -/
def afterTake : State where
  bucket := ⟨2, 0, 0⟩
  now := 0
  callers := [⟨5, some 250⟩]
  grants := []

def afterTurn : State where
  bucket := ⟨2, 1 / 2, 250⟩
  now := 250
  callers := [⟨5, some 500⟩]
  grants := []

def afterPayment : State where
  bucket := ⟨2, 0, 2500⟩
  now := 2500
  callers := [⟨5, none⟩]
  grants := [(2500, 5)]

theorem cap_holds_fiveBytes :
    Meter.window 0 2500 [(2500, 5)] ≤ (2 : ℚ) * ((2500 - 0) / 1000) + max 2 (5 : ℕ) ∧
      ((([.wait 250, .wake 0] : List Act).count (.wake 0) : ℚ) < 200 * (5 : ℕ) / 2 + 1 ∧
        ∃ time, afterPayment.grants = afterTake.grants ++ [(time, ((5 : ℕ) : ℚ))]) := by
  have hbefore : Run step Free (built 2 0) [.take 5] afterTake := Run.ofExec (by decide +kernel)
  have hpaid : Run step (Within 2 5) afterTake [.wait 250, .wake 0, .wait 2250, .wake 0]
      afterPayment := Run.ofExec (by decide +kernel)
  have hturn : Run step (Within 2 5) afterTake [.wait 250, .wake 0] afterTurn :=
    Run.ofExec (by decide +kernel)
  have hlimit : (0 : ℚ) < 2 := by norm_num
  refine ⟨?_, ?_, ?_⟩
  · exact (cap_holds hlimit hbefore rfl (by decide) hpaid).1 _ rfl 0 2500 (by norm_num)
  · rcases (cap_holds hlimit hbefore rfl (by decide) hturn).2 0 5 250 rfl
      (Run.ofExec (by decide +kernel)) with ⟨-, -, hfew⟩ | ⟨_, -, hpaid, -⟩
    · exact hfew
    · cases hpaid
  · rcases (cap_holds hlimit hbefore rfl (by decide) hpaid).2 0 5 250 rfl
      (Run.ofExec (by decide +kernel)) with ⟨hunpaid, -, -⟩ | ⟨time, hgrants, -, -⟩
    · cases hunpaid
    · exact ⟨time, hgrants⟩

end State

end MediaCenterSync.Bandwidth
