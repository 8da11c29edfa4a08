import MediaCenterSync.Lib.LabelledRun
import MediaCenterSync.PeerReconnect.Service

/-!
# Redialling stops when told to

A peer has one timer, whatever happens (`Names.step`): arming replaces.  A dial in flight is not
replaced, by anything, and decides about the next attempt when it answers.  So a peer has one dial
in flight where the next is begun when none is, and stays stopped where no dial that was in flight
when it was stopped answers `UNREACHABLE` (`InTurn`).
-/

namespace MediaCenterSync.PeerReconnect

open LabelledRun

def Event.Asks (peerId : String) : Event → Prop
  | .schedule one | .now one => one = peerId
  | _ => False

namespace Service

variable {s s' : Service} {peerId other : String} {id id' : ℕ}

def Armed (s : Service) (id : ℕ) (peerId : String) : Prop :=
  ∃ timer, s.armed[id]? = some (some timer) ∧ timer.peerId = peerId

def InFlight (s : Service) (id : ℕ) (peerId : String) : Prop := s.dials[id]? = some (some peerId)

instance (s : Service) (id : ℕ) (peerId : String) : Decidable (s.InFlight id peerId) :=
  inferInstanceAs (Decidable (_ = _))

/-- No dial of the peer is in flight. -/
def Idle (s : Service) (peerId : String) : Prop := some peerId ∉ s.dials

instance (s : Service) (peerId : String) : Decidable (s.Idle peerId) :=
  inferInstanceAs (Decidable (¬ _))

/-- A dial is begun when none of its peer is in flight, and one that does not get through is of a
peer that was not stopped since. -/
def InTurn (s : Service) : Event → Prop
  | .now peerId => s.Idle peerId
  | .fires id => ∀ timer ∈ s.armed[id]?.join, s.Idle timer.peerId
  | .answers id .UNREACHABLE => ∀ peerId ∈ s.dials[id]?.join, s.stopped peerId = false
  | _ => True

instance (s : Service) : (event : Event) → Decidable (s.InTurn event)
  | .now peerId => inferInstanceAs (Decidable (s.Idle peerId))
  | .fires id => inferInstanceAs (Decidable (∀ timer ∈ s.armed[id]?.join, s.Idle timer.peerId))
  | .answers id .UNREACHABLE =>
    inferInstanceAs (Decidable (∀ peerId ∈ s.dials[id]?.join, s.stopped peerId = false))
  | .answers _ .LINKED | .answers _ .REFUSED => isTrue trivial
  | .schedule _ | .cancel _ | .onDial | .onModuleDestroy => isTrue trivial

def Stops (s : Service) (peerId : String) : Event → Prop
  | .cancel one => one = peerId
  | .answers id .REFUSED => s.InFlight id peerId
  | _ => False

def Starts (s s' : Service) (peerId : String) : Prop := s'.dials = s.dials ++ [some peerId]

/-! ### What stays as it is -/

@[simp] theorem timers_clear (s : Service) (peerId : String) :
    (s.clear peerId).timers = Function.update s.timers peerId none := by
  unfold clear
  split
  · next h => rw [← h, Function.update_eq_self]
  · rfl

@[simp] theorem dials_clear (s : Service) (peerId : String) :
    (s.clear peerId).dials = s.dials := by
  unfold clear
  split <;> rfl

@[simp] theorem stopped_clear (s : Service) (peerId : String) :
    (s.clear peerId).stopped = s.stopped := by
  unfold clear
  split <;> rfl

@[simp] theorem dial_clear (s : Service) (peerId : String) : (s.clear peerId).dial = s.dial := by
  unfold clear
  split <;> rfl

@[simp] theorem dials_schedule (s : Service) (peerId : String) :
    (s.schedule peerId).dials = s.dials := by
  simp [schedule, arm]

@[simp] theorem stopped_schedule (s : Service) (peerId : String) :
    (s.schedule peerId).stopped = s.stopped := by
  simp [schedule, arm]

theorem timers_schedule_of_ne (h : other ≠ peerId) :
    (s.schedule peerId).timers other = s.timers other := by
  simp [schedule, arm, h]

@[simp] theorem timers_attempt (s : Service) (peerId : String) :
    (s.attempt peerId).timers = s.timers := by
  unfold attempt
  split <;> rfl

@[simp] theorem armed_attempt (s : Service) (peerId : String) :
    (s.attempt peerId).armed = s.armed := by
  unfold attempt
  split <;> rfl

@[simp] theorem stopped_attempt (s : Service) (peerId : String) :
    (s.attempt peerId).stopped = s.stopped := by
  unfold attempt
  split <;> rfl

theorem dials_attempt (s : Service) (peerId : String) :
    (s.attempt peerId).dials = s.dials ∨ (s.attempt peerId).dials = s.dials ++ [some peerId] := by
  unfold attempt
  split
  · exact .inr rfl
  · exact .inl rfl

/-! ### One timer -/

/-- Every timer that is armed is the one its peer has. -/
def Names (s : Service) : Prop :=
  ∀ id timer, s.armed[id]? = some (some timer) → s.timers timer.peerId = some id

/-- Taking a timer away from a peer and from the runtime. -/
theorem Names.drop (h : s.Names) (hid : ∀ id', s.timers peerId = some id' → id' = id) {s' : Service}
    (harmed : s'.armed = s.armed.set id none)
    (htimers : s'.timers = Function.update s.timers peerId none) : s'.Names := by
  intro id' timer hget
  rw [harmed, List.getElem?_set] at hget
  split at hget
  · split at hget <;> cases hget
  · next hne =>
    have hthis := h id' timer hget
    rw [htimers, Function.update_of_ne, hthis]
    rintro rfl
    exact hne (hid id' hthis).symm

theorem Names.clear (h : s.Names) (peerId : String) : (s.clear peerId).Names := by
  unfold Service.clear
  split
  · exact h
  · next id hid => exact h.drop (fun id' hid' => Option.some.inj (hid'.symm.trans hid)) rfl rfl

theorem Names.arm (h : s.Names) (peerId : String) (delay : ℕ) : (s.arm peerId delay).Names := by
  have hcleared := h.clear peerId
  intro id timer hget
  change ((s.clear peerId).armed ++ [some ⟨peerId, delay⟩])[id]? = _ at hget
  change Function.update (s.clear peerId).timers peerId _ timer.peerId = _
  rcases Nat.lt_or_ge id (s.clear peerId).armed.length with hlt | hge
  · rw [List.getElem?_append_left hlt] at hget
    have hthis := hcleared id timer hget
    rw [Function.update_of_ne, hthis]
    -- the peer had no timer left
    intro heq
    rw [heq, timers_clear, Function.update_self] at hthis
    cases hthis
  · rw [List.getElem?_append_right hge, List.getElem?_singleton] at hget
    split at hget
    · obtain rfl := Option.some.inj (Option.some.inj hget)
      rw [Function.update_self]
      congr 1
      omega
    · cases hget

theorem Names.schedule (h : s.Names) (peerId : String) : (s.schedule peerId).Names := by
  have hcounted : Names { s with
    attempts := Function.update s.attempts peerId (s.attempts peerId + 1) } := h
  exact hcounted.arm peerId _

theorem Names.attempt (h : s.Names) (peerId : String) : (s.attempt peerId).Names := by
  unfold Names
  rw [armed_attempt, timers_attempt]
  exact h

theorem Names.fired (h : s.Names) {timer : Timer} (hget : s.armed[id]? = some (some timer)) :
    (s.fired id timer).Names :=
  have hid : ∀ id', s.timers timer.peerId = some id' → id' = id :=
    fun _ hid' => Option.some.inj (hid'.symm.trans (h id timer hget))
  Names.attempt (h.drop hid rfl rfl) timer.peerId

theorem Names.answered (h : s.Names) (id : ℕ) (peerId : String) (outcome : PeerDialOutcome) :
    (s.answered id peerId outcome).Names := by
  have hended : Names { s with dials := s.dials.set id none } := h
  cases outcome with
  | LINKED => exact h
  | REFUSED => exact hended.clear peerId
  | UNREACHABLE => exact hended.schedule peerId

theorem Names.step (h : s.Names) {event : Event} (hstep : s.step event = some s') : s'.Names := by
  cases event with
  | onDial =>
    cases hstep
    exact h
  | schedule peerId =>
    cases hstep
    exact h.schedule peerId
  | now peerId =>
    cases hstep
    exact (h.clear peerId).attempt peerId
  | cancel peerId =>
    cases hstep
    exact h.clear peerId
  | onModuleDestroy =>
    cases hstep
    intro id timer hget
    -- a timer that is left would be one that no peer has
    simp only [Service.onModuleDestroy, List.getElem?_mapIdx] at hget
    obtain ⟨before, hbefore, hfilter⟩ := Option.map_eq_some_iff.mp hget
    obtain ⟨rfl, hleft⟩ := Option.filter_eq_some_iff.mp hfilter
    exact absurd (h id timer hbefore) (of_decide_eq_true hleft)
  | fires id =>
    obtain ⟨timer, hget, rfl⟩ := Option.map_eq_some_iff.mp hstep
    exact h.fired (Option.join_eq_some_iff.mp hget)
  | answers id outcome =>
    obtain ⟨peerId, -, rfl⟩ := Option.map_eq_some_iff.mp hstep
    exact h.answered id peerId outcome

/-! ### One dial -/

/-- No two dials of one peer are in flight. -/
def Alone (s : Service) : Prop :=
  ∀ peerId id id', s.InFlight id peerId → s.InFlight id' peerId → id = id'

theorem Alone.congr (h : s.Alone) (hdials : s'.dials = s.dials) : s'.Alone := by
  unfold Alone InFlight
  rw [hdials]
  exact h

theorem Alone.set (h : s.Alone) (hdials : s'.dials = s.dials.set id none) : s'.Alone := by
  have hbefore : ∀ {peerId id'}, s'.InFlight id' peerId → s.InFlight id' peerId := by
    intro peerId id' hin
    rw [InFlight, hdials, List.getElem?_set] at hin
    split at hin
    · split at hin <;> cases hin
    · exact hin
  exact fun peerId a b ha hb => h peerId a b (hbefore ha) (hbefore hb)

theorem Alone.attempt (h : s.Alone) (hidle : s.Idle peerId) : (s.attempt peerId).Alone := by
  rcases s.dials_attempt peerId with hsame | hmore
  · exact h.congr hsame
  · have hnew : ∀ {one id}, (s.attempt peerId).InFlight id one →
        s.InFlight id one ∨ one = peerId ∧ id = s.dials.length := by
      intro one id hin
      rw [InFlight, hmore] at hin
      rcases Nat.lt_or_ge id s.dials.length with hlt | hge
      · exact .inl (by rwa [List.getElem?_append_left hlt] at hin)
      · rw [List.getElem?_append_right hge, List.getElem?_singleton] at hin
        split at hin
        · obtain rfl := Option.some.inj (Option.some.inj hin)
          exact .inr ⟨rfl, by omega⟩
        · cases hin
    intro one a b ha hb
    rcases hnew ha with ha | ⟨rfl, rfl⟩ <;> rcases hnew hb with hb | ⟨heq, rfl⟩
    · exact h one a b ha hb
    · exact absurd (List.mem_of_getElem? ha) (heq ▸ hidle)
    · exact absurd (List.mem_of_getElem? hb) hidle
    · rfl

theorem Alone.step (h : s.Alone) {event : Event} (hturn : s.InTurn event)
    (hstep : s.step event = some s') : s'.Alone := by
  cases event with
  | onDial | onModuleDestroy =>
    cases hstep
    exact h
  | schedule peerId =>
    cases hstep
    exact h.congr (s.dials_schedule peerId)
  | now peerId =>
    cases hstep
    have hidle : (s.clear peerId).Idle peerId := by
      rw [Idle, dials_clear]
      exact hturn
    exact (h.congr (s.dials_clear peerId)).attempt hidle
  | cancel peerId =>
    cases hstep
    exact h.congr (s.dials_clear peerId)
  | fires id =>
    obtain ⟨timer, hget, rfl⟩ := Option.map_eq_some_iff.mp hstep
    exact Alone.attempt (s := { s with armed := _, timers := _ }) h (hturn timer hget)
  | answers id outcome =>
    obtain ⟨peerId, -, rfl⟩ := Option.map_eq_some_iff.mp hstep
    refine Alone.set h (show _ = s.dials.set id none from ?_)
    cases outcome with
    | LINKED => rfl
    | REFUSED => exact dials_clear _ peerId
    | UNREACHABLE => exact dials_schedule _ peerId

/-! ### A peer that was stopped -/

/-- A peer that was stopped has no timer. -/
def Silent (s : Service) : Prop := ∀ peerId, s.stopped peerId = true → s.timers peerId = none

theorem Silent.clear (h : s.Silent) (peerId : String) : (s.clear peerId).Silent := by
  intro one hone
  rw [stopped_clear] at hone
  rw [timers_clear, Function.update_apply]
  split
  · rfl
  · exact h one hone

theorem Silent.cancel (h : s.Silent) (peerId : String) : (s.cancel peerId).Silent := by
  intro one hone
  change Function.update s.stopped peerId true one = true at hone
  change (s.clear peerId).timers one = none
  rw [timers_clear]
  by_cases heq : one = peerId
  · rw [heq, Function.update_self]
  · rw [Function.update_of_ne heq] at hone ⊢
    exact h one hone

theorem Silent.schedule (h : s.Silent) (hopen : s.stopped peerId = false) :
    (s.schedule peerId).Silent := by
  intro one hone
  rw [stopped_schedule] at hone
  rw [timers_schedule_of_ne, h one hone]
  rintro rfl
  cases hone.symm.trans hopen

theorem Silent.asked (h : ∀ one ≠ peerId, s.stopped one = true → s.timers one = none) :
    (s.asked peerId).Silent := by
  intro one hone
  change Function.update s.stopped peerId false one = true at hone
  by_cases heq : one = peerId
  · rw [heq, Function.update_self] at hone
    cases hone
  · rw [Function.update_of_ne heq] at hone
    exact h one heq hone

theorem Silent.step (h : s.Silent) {event : Event} (hturn : s.InTurn event)
    (hstep : s.step event = some s') : s'.Silent := by
  cases event with
  | onDial =>
    cases hstep
    exact h
  | schedule peerId =>
    cases hstep
    refine Silent.asked fun one hne hone => ?_
    rw [timers_schedule_of_ne hne]
    exact h one (by rwa [stopped_schedule] at hone)
  | now peerId =>
    cases hstep
    refine Silent.asked fun one hne hone => ?_
    rw [Service.now, timers_attempt]
    exact h.clear peerId one (by rwa [Service.now, stopped_attempt] at hone)
  | cancel peerId =>
    cases hstep
    exact h.cancel peerId
  | onModuleDestroy =>
    cases hstep
    exact fun one _ => rfl
  | fires id =>
    obtain ⟨timer, -, rfl⟩ := Option.map_eq_some_iff.mp hstep
    intro one hone
    rw [fired, stopped_attempt] at hone
    rw [fired, timers_attempt]
    change Function.update s.timers timer.peerId none one = none
    rw [Function.update_apply, h one hone, ite_self]
  | answers id outcome =>
    obtain ⟨peerId, hget, rfl⟩ := Option.map_eq_some_iff.mp hstep
    have hended : Silent { s with dials := s.dials.set id none } := h
    cases outcome with
    | LINKED => exact h
    | REFUSED => exact hended.cancel peerId
    | UNREACHABLE => exact hended.schedule (hturn peerId hget)

/-- Where no peer that was stopped has a timer, the next dial is of one that was not, or was asked
for. -/
theorem not_starts (hnames : s.Names) (hsilent : s.Silent) (hstopped : s.stopped peerId = true)
    {event : Event} (hstep : s.step event = some s') (hasks : ¬ event.Asks peerId) :
    ¬ s.Starts s' peerId := by
  have hlength : ∀ {l : List (Option String)}, s.dials.length = l.length →
      l ≠ s.dials ++ [some peerId] := by
    rintro l hl rfl
    simp at hl
  intro hstarts
  cases event with
  | onDial | onModuleDestroy =>
    cases hstep
    exact hlength rfl hstarts
  | schedule one =>
    cases hstep
    exact hlength (congrArg List.length (s.dials_schedule one)).symm hstarts
  | now one =>
    cases hstep
    rcases (s.clear one).dials_attempt one with hsame | hmore
    · exact hlength (by rw [dials_clear] at hsame; exact congrArg List.length hsame.symm) hstarts
    · rw [dials_clear] at hmore
      have heq := List.append_cancel_left (hmore.symm.trans hstarts)
      exact hasks (Option.some.inj (List.head_eq_of_cons_eq heq))
  | cancel one =>
    cases hstep
    exact hlength (congrArg List.length (s.dials_clear one)).symm hstarts
  | fires id =>
    obtain ⟨timer, hget, rfl⟩ := Option.map_eq_some_iff.mp hstep
    have htimer := hnames id timer (Option.join_eq_some_iff.mp hget)
    rcases Service.dials_attempt { s with armed := s.armed.set id none, timers := _ } timer.peerId
      with hsame | hmore
    · exact hlength (congrArg List.length hsame.symm) hstarts
    · have heq := List.append_cancel_left (hmore.symm.trans hstarts)
      obtain rfl := Option.some.inj (List.head_eq_of_cons_eq heq)
      cases htimer.symm.trans (hsilent timer.peerId hstopped)
  | answers id outcome =>
    obtain ⟨one, -, rfl⟩ := Option.map_eq_some_iff.mp hstep
    refine hlength ?_ hstarts
    cases outcome with
    | LINKED => exact (List.length_set).symm
    | REFUSED => exact ((congrArg List.length (dials_clear _ one)).trans List.length_set).symm
    | UNREACHABLE =>
      exact ((congrArg List.length (dials_schedule _ one)).trans List.length_set).symm

theorem stopped_asked_of_ne (h : ¬ other = peerId) :
    (s.asked other).stopped peerId = s.stopped peerId :=
  Function.update_of_ne (Ne.symm h) _ _

theorem stopped_step (hstopped : s.stopped peerId = true) {event : Event}
    (hstep : s.step event = some s') (hasks : ¬ event.Asks peerId) : s'.stopped peerId = true := by
  have hkept : ∀ one, Function.update s.stopped one true peerId = true := by
    intro one
    rw [Function.update_apply, hstopped, ite_self]
  cases event with
  | onDial | onModuleDestroy =>
    cases hstep
    exact hstopped
  | schedule one =>
    cases hstep
    rw [stopped_asked_of_ne hasks, stopped_schedule]
    exact hstopped
  | now one =>
    cases hstep
    rw [stopped_asked_of_ne hasks, Service.now, stopped_attempt, stopped_clear]
    exact hstopped
  | cancel one =>
    cases hstep
    exact hkept one
  | fires id =>
    obtain ⟨timer, -, rfl⟩ := Option.map_eq_some_iff.mp hstep
    rw [fired, stopped_attempt]
    exact hstopped
  | answers id outcome =>
    obtain ⟨one, -, rfl⟩ := Option.map_eq_some_iff.mp hstep
    cases outcome with
    | LINKED => exact hstopped
    | REFUSED => exact hkept one
    | UNREACHABLE =>
      rw [answered, stopped_schedule]
      exact hstopped

theorem stopped_of_stops {event : Event} (hstops : s.Stops peerId event)
    (hstep : s.step event = some s') : s'.stopped peerId = true := by
  match event, hstops with
  | .cancel _, rfl =>
    cases hstep
    exact Function.update_self ..
  | .answers id .REFUSED, hflying =>
    obtain ⟨one, hget, rfl⟩ := Option.map_eq_some_iff.mp hstep
    have heq := (Option.join_eq_some_iff.mp hget).symm.trans hflying
    obtain rfl := Option.some.inj (Option.some.inj heq)
    exact Function.update_self ..

/-! ### Runs -/

def OneTimer (s : Service) : Prop :=
  ∀ peerId id id', s.Armed id peerId → s.Armed id' peerId → id = id'

/-- After `cancel`, or after a dial answered `REFUSED`, no dial of the peer starts until it is asked
for. -/
def StaysStopped (events : List Event) : Prop :=
  ∀ before after stop event, events = before ++ stop :: (after ++ [event]) →
    ∀ s₁ s₂ s₃ s₄, Run step Free boot before s₁ → s₁.step stop = some s₂ →
      Run step Free s₂ after s₃ → s₃.step event = some s₄ →
        ∀ peerId, s₁.Stops peerId stop → (∀ asked ∈ after ++ [event], ¬ asked.Asks peerId) →
          ¬ s₃.Starts s₄ peerId

theorem names_of_run {ok : Service → Event → Prop} {events : List Event}
    (h : Run step ok boot events s) : s.Names :=
  h.invariant (fun _ _ _ hnames _ => hnames.step) nofun

theorem silent_of_run {events : List Event} (h : Run step InTurn boot events s) : s.Silent :=
  h.invariant (fun _ _ _ hsilent => hsilent.step) nofun

theorem stopped_of_run {ok : Service → Event → Prop} {events : List Event}
    (h : Run step ok s events s') (hstopped : s.stopped peerId = true)
    (hasks : ∀ event ∈ events, ¬ event.Asks peerId) : s'.stopped peerId = true := by
  induction h with
  | nil s => exact hstopped
  | cons _ hstep _ ih =>
    exact ih (stopped_step hstopped hstep (hasks _ List.mem_cons_self))
      fun event hin => hasks event (List.mem_cons_of_mem _ hin)

theorem staysStopped_of_run {events : List Event} (h : Run step InTurn boot events s) :
    StaysStopped events := by
  rintro before after stop event rfl s₁ s₂ s₃ s₄ hbefore hstop hafter hstep peerId hstops hasks
  obtain ⟨t₁, hfirst, _ | ⟨hok, hstop', hrest⟩⟩ := h.split
  obtain ⟨t₃, hafter', _ | ⟨hturn, -, -⟩⟩ := hrest.split
  obtain rfl := hfirst.unique hbefore
  obtain rfl := Option.some.inj (hstop'.symm.trans hstop)
  obtain rfl := hafter'.unique hafter
  have hsilent : t₃.Silent := hafter'.invariant (fun _ _ _ hsilent => hsilent.step)
    ((silent_of_run hfirst).step hok hstop)
  have hnames : t₃.Names := hafter'.invariant (fun _ _ _ hnames _ => hnames.step)
    ((names_of_run hfirst).step hstop)
  have hstopped := stopped_of_run hafter' (stopped_of_stops hstops hstop)
    fun one hin => hasks one (List.mem_append_left _ hin)
  exact not_starts hnames hsilent hstopped hstep (hasks event (by simp))

/-- **Redialling stops when told to**: in every run a peer has one timer, and where dials are begun
and answer in turn, it has one dial and stays stopped. -/
theorem redialling_stops {events : List Event} {s : Service} (h : Run step Free boot events s) :
    s.OneTimer ∧ (Run step InTurn boot events s → s.Alone ∧ StaysStopped events) := by
  refine ⟨?_, fun hturn => ⟨?_, staysStopped_of_run hturn⟩⟩
  · rintro peerId id id' ⟨timer, hget, hpeer⟩ ⟨timer', hget', hpeer'⟩
    have hnames := names_of_run h
    have hid := hnames id timer hget
    have hid' := hnames id' timer' hget'
    rw [hpeer] at hid
    rw [hpeer'] at hid'
    exact Option.some.inj (hid.symm.trans hid')
  · have hboot : boot.Alone := nofun
    exact hturn.invariant (I := Alone) (fun _ _ _ halone => halone.step) hboot

/-- A dial of leo that did not get through, and the one its timer begins: there is one in flight. -/
theorem redialling_stops_twice :
    ∃ s, Run step Free boot [.onDial, .now "leo", .answers 0 .UNREACHABLE, .fires 0] s ∧
      s.InFlight 1 "leo" ∧ s.OneTimer ∧ s.Alone := by
  have hrun : Run step Free boot [.onDial, .now "leo", .answers 0 .UNREACHABLE, .fires 0] _ :=
    .ofExec rfl
  obtain ⟨htimer, hinTurn⟩ := redialling_stops hrun
  exact ⟨_, hrun, rfl, htimer, (hinTurn (.ofExec rfl)).1⟩

/-- A second attempt by hand is a second dial; and a dial that was in flight when the peer was
cancelled arms the next. -/
theorem not_redialling_stops :
    (∃ events s, Run step Free boot events s ∧ ¬ s.Alone) ∧
      ∃ events s, Run step Free boot events s ∧ ¬ StaysStopped events := by
  constructor
  · have hrun : Run step Free boot [.onDial, .now "leo", .now "leo"] _ := .ofExec rfl
    refine ⟨_, _, hrun, fun h => ?_⟩
    cases h "leo" 0 1 rfl rfl
  · have hrun : Run step Free boot
        [.onDial, .now "leo", .cancel "leo", .answers 0 .UNREACHABLE, .fires 0] _ := .ofExec rfl
    refine ⟨_, _, hrun, fun h => ?_⟩
    refine h [.onDial, .now "leo"] [.answers 0 .UNREACHABLE] (.cancel "leo") (.fires 0) rfl _ _ _ _
      (.ofExec rfl) rfl (.ofExec rfl) rfl "leo" rfl (fun event hin => ?_) rfl
    rcases List.mem_pair.mp hin with rfl | rfl <;> exact id

end Service

end MediaCenterSync.PeerReconnect
