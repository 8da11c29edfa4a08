import MediaCenterSync.PeerRelay.Correct.Registration

/-!
# Whether the two ends of a link agree on what is carried

Each session of a link is a handshake of its own (`Handshake`): nothing that happens to one session
is seen by another, and every step of the link is a sequence of moves of one session's handshake.
So the invariant of the handshake holds of every session (`Paired`) in every run whose steps meet
its two conditions (`InTime`), and both ends agree once nothing is under way (`agree_of_inTime`).

Without the conditions they do not: a `reserve` that runs into its timer gives the session up and
tells nobody, and a holder whose acceptance was on its way keeps it (`apart_afterTimeout`).
-/

namespace MediaCenterSync.PeerRelay

open LabelledRun Relation

namespace Link

variable {l l' : Link} {side : Bool} {id : ℕ}

/-- Session `n` between the end that carries it and the other. -/
def session (l : Link) (side : Bool) (n : ℕ) : Handshake :=
  ⟨(l.ends side).carrierView n, (l.ends !side).holderView n⟩

/-- Every session of either side keeps the handshake's invariant. -/
structure Paired (l : Link) : Prop where
  numbered : ∀ side, (l.ends side).Numbered side
  inv : ∀ side n, Own side n → (l.session side n).Inv

theorem ends_setEnd_self (l : Link) (side : Bool) (r : Registration) :
    (l.setEnd side r).ends side = r :=
  Function.update_self ..

theorem ends_setEnd_not (l : Link) (side : Bool) (r : Registration) :
    (l.setEnd side r).ends (!side) = l.ends !side :=
  Function.update_of_ne (by simp) ..

theorem paired_boot (peers : Bool → String) : (boot peers).Paired where
  numbered side := Registration.numbered_create _ side
  inv _ _ _ := .unasked rfl ⟨rfl, rfl⟩ rfl

theorem eq_of_own {side side' : Bool} {n : ℕ} (h : Own side n) (h' : Own side' n) :
    side' = side := by
  cases side <;> cases side' <;> simp_all [Own]

theorem forall_side (side : Bool) {P : Bool → Prop} (h : P side) (h' : P !side) :
    ∀ side, P side := by
  cases side <;> simp_all

theorem Paired.setEnds (h : l.Paired) {r other : Registration} (hr : r.Numbered side)
    (hother : other.Numbered !side) (htouches : Registration.Touches id (l.ends side) r)
    (htouches' : Registration.Touches id (l.ends !side) other)
    (hown : Own side id → Handshake.Inv ⟨r.carrierView id, other.holderView id⟩)
    (hnot : Own (!side) id → Handshake.Inv ⟨other.carrierView id, r.holderView id⟩) :
    ((l.setEnd (!side) other).setEnd side r).Paired := by
  have hself : ((l.setEnd (!side) other).setEnd side r).ends side = r := ends_setEnd_self ..
  have hends : ((l.setEnd (!side) other).setEnd side r).ends (!side) = other := by
    rw [ends_setEnd_not, ends_setEnd_self]
  constructor
  · refine forall_side side ?_ ?_
    · rw [hself]; exact hr
    · rw [hends]; exact hother
  · intro side' n hside'
    have htouched : ∀ side', Registration.Touches id (l.ends side')
        (((l.setEnd (!side) other).setEnd side r).ends side') := by
      refine forall_side side ?_ ?_
      · rw [hself]; exact htouches
      · rw [hends]; exact htouches'
    rcases eq_or_ne n id with rfl | hne
    · rcases own_or side n with hmine | hyours
      · obtain rfl := eq_of_own hmine hside'
        unfold session
        rw [hself, hends]
        exact hown hmine
      · obtain rfl := eq_of_own hyours hside'
        unfold session
        rw [Bool.not_not, hself, hends]
        exact hnot hyours
    · have hsame : ((l.setEnd (!side) other).setEnd side r).session side' n =
          l.session side' n := by
        unfold session
        rw [(htouched side').carrier n hne, (htouched !side').holder n hne]
      exact hsame ▸ h.inv side' n hside'

theorem Paired.setEnd (h : l.Paired) {r : Registration} (hr : r.Numbered side)
    (htouches : Registration.Touches id (l.ends side) r)
    (hown : Own side id → Handshake.Inv ⟨r.carrierView id, (l.ends !side).holderView id⟩)
    (hnot : Own (!side) id → Handshake.Inv ⟨(l.ends !side).carrierView id, r.holderView id⟩) :
    (l.setEnd side r).Paired := by
  have hsame : l.setEnd (!side) (l.ends !side) = l :=
    congrArg Link.mk (Function.update_eq_self ..)
  have := h.setEnds hr (h.numbered !side) htouches (.refl ..) hown hnot
  rwa [hsame] at this

theorem inv_of_carries {r r' : Registration} {holder : HolderView}
    (hc : Registration.Carries side id holder r r')
    (h : Handshake.Inv ⟨r.carrierView id, holder⟩) :
    Handshake.Inv ⟨r'.carrierView id, holder⟩ := by
  have key : ∀ v, ReflTransGen (fun v v' => v.Moves holder v') (r.carrierView id) v →
      Handshake.Inv ⟨v, holder⟩ := by
    intro v hv
    induction hv with
    | refl => exact h
    | tail _ hlast ih => exact ih.move (.carrier hlast)
  exact key _ hc.moves

theorem inv_of_hosts {r r' : Registration} {carrier : CarrierView}
    (hc : Registration.Hosts side id carrier r r')
    (h : Handshake.Inv ⟨carrier, r.holderView id⟩) :
    Handshake.Inv ⟨carrier, r'.holderView id⟩ := by
  have key : ∀ v, ReflTransGen (fun v v' => v.Moves carrier v') (r.holderView id) v →
      Handshake.Inv ⟨carrier, v⟩ := by
    intro v hv
    induction hv with
    | refl => exact h
    | tail _ hlast ih => exact ih.move (.holder hlast)
  exact key _ hc.moves

theorem inv_not (h : l.Paired) (hown : Own (!side) id) :
    Handshake.Inv ⟨(l.ends !side).carrierView id, (l.ends side).holderView id⟩ := by
  simpa [session] using h.inv (!side) id hown

theorem Paired.carries (h : l.Paired) {r : Registration} (hown : Own side id)
    (hc : Registration.Carries side id ((l.ends !side).holderView id) (l.ends side) r) :
    (l.setEnd side r).Paired :=
  h.setEnd hc.numbered hc.touches (fun _ => inv_of_carries hc (h.inv side id hown))
    fun hnot => absurd hnot hown.not

theorem Paired.hosts (h : l.Paired) {r : Registration} (hown : Own (!side) id)
    (hc : Registration.Hosts side id ((l.ends !side).carrierView id) (l.ends side) r) :
    (l.setEnd side r).Paired :=
  h.setEnd hc.numbered hc.touches (fun hnot => absurd hown hnot.not)
    fun _ => inv_of_hosts hc (inv_not h hown)

/-- No `reserve` runs into its timer once the holder has taken the session, and no holder takes a
session that the call was refused, unless it has let go of it by then. -/
def InTime (l : Link) : Act → Prop
  | .at side (.timeout id) => ∀ session ∈ (l.ends side).sessions id, session.reserve = .waiting →
      id ∈ (l.ends !side).hosted → ∀ socket ∈ (l.ends !side).sockets id, socket.admitting
  | .at side (.admitted id true) => id ∈ (l.ends side).hosted →
      ∀ session ∈ (l.ends !side).sessions id, session.reserve.isRefused = false
  | _ => True

/-- What is left under way once the first frame is taken. -/
theorem popped_spec {r : Registration} {frame : RelayFrame} {rest : List RelayFrame}
    (h : r.Numbered side) (hout : r.outbox = frame :: rest) :
    Registration.Numbered side { r with outbox := rest } ∧
      Registration.Touches frame.session r { r with outbox := rest } := by
  have hrest : ∀ n ≠ frame.session, handshake n rest = handshake n r.outbox := by
    intro n hn
    rw [hout, handshake_cons, handshake_ne hn, List.nil_append]
  refine ⟨{ h with asked := fun other hother => h.asked other ?_ },
    ⟨fun n hn => ?_, fun n hn => ?_⟩⟩
  · rw [hout]
    exact List.mem_cons_of_mem _ hother
  · simp [Registration.carrierView, hrest n hn]
  · simp [Registration.holderView, hrest n hn]

/-- Bytes are not part of the handshake, and any other frame is the next of it. -/
theorem popped_handshake {r : Registration} {frame : RelayFrame} {rest : List RelayFrame}
    (hout : r.outbox = frame :: rest) :
    frame.opcode.isData = true ∧
      handshake frame.session rest = handshake frame.session r.outbox ∨
    frame.opcode.isData = false ∧
      handshake frame.session r.outbox = frame.opcode :: handshake frame.session rest := by
  rw [hout, handshake_cons]
  cases hdata : frame.opcode.isData with
  | true => exact .inl ⟨rfl, by rw [handshake_data _ hdata, List.nil_append]⟩
  | false => exact .inr ⟨rfl, by rw [handshake_self hdata, List.singleton_append]⟩

theorem Paired.deliverOwn (h : l.Paired) {parses : List UInt8 → Bool} {ready : Bool}
    {frame : RelayFrame} {rest : List RelayFrame} (hout : (l.ends !side).outbox = frame :: rest)
    (hown : Own side frame.session) :
    ((l.setEnd (!side) { l.ends !side with outbox := rest }).setEnd side
      ((l.ends side).dispatch ready parses frame)).Paired := by
  have hinv := h.inv side frame.session hown
  have hother := h.numbered !side
  obtain ⟨hpopped, htouches⟩ := popped_spec hother hout
  have hopen : frame.opcode ≠ .OPEN := fun hopcode =>
    hown.not (hother.asked frame (by rw [hout]; exact List.mem_cons_self) hopcode)
  have hborn : frame.session ∈ (l.ends side).carried →
      ((l.ends side).sessions frame.session).isSome := by
    intro hcarried
    have hreserve := (hinv.carried_iff.mp (by simpa [session, Registration.carrierView])).1
    exact Option.isSome_iff_ne_none.mpr fun hnone =>
      hreserve (by simp [session, Registration.carrierView, hnone])
  obtain ⟨hbytes, hframe⟩ := Registration.dispatch_own (h.numbered side) ready parses hown
    hopen hborn
  rcases popped_handshake hout with ⟨hdata, hsame⟩ | ⟨hdata, hnext⟩
  · have hview : ({ l.ends !side with outbox := rest } : Registration).holderView
        frame.session = (l.ends !side).holderView frame.session := by
      simp [Registration.holderView, hsame]
    have hc := hbytes hdata ((l.ends !side).holderView frame.session)
    exact h.setEnds hc.numbered hpopped hc.touches htouches
      (fun _ => hview ▸ inv_of_carries hc hinv) fun hnot => absurd hnot hown.not
  · obtain ⟨hn, ht, hm⟩ := hframe hdata
    exact h.setEnds hn hpopped ht htouches (fun _ => hinv.up hnext hm)
      fun hnot => absurd hnot hown.not

theorem Paired.deliverOther (h : l.Paired) {parses : List UInt8 → Bool} {ready : Bool}
    {frame : RelayFrame} {rest : List RelayFrame} (hout : (l.ends !side).outbox = frame :: rest)
    (hown : Own (!side) frame.session) :
    ((l.setEnd (!side) { l.ends !side with outbox := rest }).setEnd side
      ((l.ends side).dispatch ready parses frame)).Paired := by
  have hinv := inv_not h hown
  obtain ⟨hpopped, htouches⟩ := popped_spec (h.numbered !side) hout
  obtain ⟨hbytes, hframe⟩ := Registration.dispatch_other (h.numbered side) ready parses hown
  rcases popped_handshake hout with ⟨hdata, hsame⟩ | ⟨hdata, hnext⟩
  · have hview : ({ l.ends !side with outbox := rest } : Registration).carrierView
        frame.session = (l.ends !side).carrierView frame.session := by
      simp [Registration.carrierView, hsame]
    have hc := hbytes hdata ((l.ends !side).carrierView frame.session)
    exact h.setEnds hc.numbered hpopped hc.touches htouches
      (fun hnot => absurd hown hnot.not) fun _ => hview ▸ inv_of_hosts hc hinv
  · obtain ⟨hn, ht, hm⟩ := hframe hdata
    exact h.setEnds hn hpopped ht htouches (fun hnot => absurd hown hnot.not)
      fun _ => hinv.down hnext hm

theorem Paired.step (h : l.Paired) {parses : List UInt8 → Bool} {a : Act} (ho : l.InTime a)
    (hs : l.step parses a = some l') : l'.Paired := by
  cases a with
  | reserve side payload =>
    cases hs
    obtain ⟨hn, ht, hm⟩ := Registration.reserve_spec (h.numbered side) payload
      ((l.ends !side).holderView (l.ends side).next)
    exact h.carries (h.numbered side).next (.single hn ht hm)
  | «at» side act =>
    obtain ⟨r, hr, hs⟩ := Option.bind_eq_some_iff.mp hs
    cases hs
    obtain ⟨id, ⟨hown, hc⟩ | ⟨hown, hc⟩⟩ := Registration.step_cases (h.numbered side) hr
    · refine h.carries hown (hc _ ?_)
      rintro rfl session hsession hwaiting hhosted
      have hhosted : id ∈ (l.ends !side).hosted := by
        simpa [Registration.holderView] using hhosted
      have hadmitting := ho session hsession hwaiting hhosted
      simp only [Registration.holderView, ne_eq, Option.map_eq_some_iff, not_exists, not_and,
        Bool.not_eq_false]
      exact hadmitting
    · refine h.hosts hown (hc _ ?_)
      rintro rfl hhosted
      have hrefused := ho hhosted
      cases hsession : (l.ends !side).sessions id with
      | none => simp [CarrierView.refused, Registration.carrierView, hsession]
      | some session =>
        have hheld := hrefused session hsession
        simpa [CarrierView.refused, Registration.carrierView, hsession] using hheld
  | deliver side ready =>
    unfold Link.step at hs
    dsimp only at hs
    split at hs
    · cases hs
    next frame rest hout =>
    cases hs
    rcases own_or side frame.session with hown | hown
    · exact h.deliverOwn hout hown
    · exact h.deliverOther hout hown

/-- Nothing of session `n` is under way: no frame, no call that waits for its answer, no endpoint
that has still to give one. -/
def Quiet (l : Link) (side : Bool) (n : ℕ) : Prop :=
  (∀ side, ∀ frame ∈ (l.ends side).outbox, frame.session ≠ n) ∧
  (∀ session ∈ (l.ends side).sessions n, session.reserve.isPending = false) ∧
  ∀ socket ∈ (l.ends !side).sockets n, socket.admitting = false

theorem Paired.agree (h : l.Paired) {n : ℕ} (hquiet : l.Quiet side n) :
    n ∈ (l.ends side).carried ↔ n ∈ (l.ends !side).hosted := by
  rcases own_or side n with hown | hown
  · obtain ⟨hframes, hcall, hadmitting⟩ := hquiet
    have hnone : ∀ side, handshake n (l.ends side).outbox = [] := by
      intro side
      simp only [handshake, List.map_eq_nil_iff, List.filter_eq_nil_iff]
      intro frame hframe
      simp [hframes side frame hframe]
    have hagree := (h.inv side n hown).agree (hnone side) (hnone !side) ?_ ?_
    · simpa [session, Registration.carrierView, Registration.holderView] using hagree
    · simpa [session, Registration.carrierView] using hcall
    · simpa [session, Registration.holderView] using hadmitting
  · refine iff_of_false (fun hc => ?_) fun hh => ?_
    · exact ((h.numbered side).carried n hc).not hown
    · exact ((h.numbered !side).hosted n hh).not (by simpa using hown)

/-- **Carrier and holder agree on what is carried**, in every run whose steps are in time: a session
of which nothing is under way is carried by one end if and only if it is hosted by the other. -/
theorem agree_of_inTime (parses : List UInt8 → Bool) (peers : Bool → String) {as : List Act}
    (h : Run (step parses) InTime (boot peers) as l) (side : Bool) (n : ℕ)
    (hquiet : l.Quiet side n) : n ∈ (l.ends side).carried ↔ n ∈ (l.ends !side).hosted :=
  (h.invariant (fun _ _ _ h ho hs => Paired.step h ho hs) (paired_boot peers)).agree hquiet

/-! ### A call that gives up while the acceptance is on its way -/

instance (l : Link) : (a : Act) → Decidable (l.InTime a)
  | .at side (.timeout id) => inferInstanceAs (Decidable (∀ session ∈ (l.ends side).sessions id,
      session.reserve = .waiting → id ∈ (l.ends !side).hosted →
        ∀ socket ∈ (l.ends !side).sockets id, socket.admitting))
  | .at side (.admitted id true) => inferInstanceAs (Decidable (id ∈ (l.ends side).hosted →
      ∀ session ∈ (l.ends !side).sessions id, session.reserve.isRefused = false))
  | .at _ (.admitted _ false) | .at _ (.resume _) | .at _ (.attach _) | .at _ (.clientMessage ..)
  | .at _ (.clientClosed _) | .at _ (.abandon _) | .at _ (.paid ..) | .at _ (.hostSend ..)
  | .at _ (.hostClose _) | .reserve .. | .deliver .. => .isTrue trivial

instance (l : Link) (side : Bool) (n : ℕ) : Decidable (l.Quiet side n) :=
  inferInstanceAs (Decidable ((∀ side, ∀ frame ∈ (l.ends side).outbox, frame.session ≠ n) ∧
    (∀ session ∈ (l.ends side).sessions n, session.reserve.isPending = false) ∧
    ∀ socket ∈ (l.ends !side).sockets n, socket.admitting = false))

/-- Session 2 is asked for, taken, and handed out; session 4 is given up before it arrives, and is
then declined. -/
def handedOut : List Act :=
  [.reserve true [], .deliver false true, .at false (.admitted 2 true), .reserve true [],
    .at true (.timeout 4), .deliver true true, .at true (.resume 2), .at true (.resume 4),
    .deliver false true, .at false (.admitted 4 false), .deliver true true]

theorem agree_of_inTime_handedOut :
    2 ∈ (((exec (step fun _ => true) InTime (boot fun _ => "peer") handedOut).get
      (by decide +kernel)).ends true).carried ↔
    2 ∈ (((exec (step fun _ => true) InTime (boot fun _ => "peer") handedOut).get
      (by decide +kernel)).ends false).hosted :=
  agree_of_inTime _ _ (.ofExec (Option.some_get _).symm) true 2 (by decide +kernel)

/-- The timer fires, and the holder, who does not know, takes the session. -/
def gaveUp : List Act :=
  [.reserve true [], .at true (.timeout 2), .at true (.resume 2), .deliver false true,
    .at false (.admitted 2 true), .deliver true true]

/-- Where that leads. -/
def apart : Link :=
  (exec (step fun _ => true) Free (boot fun _ => "peer") gaveUp).get (by decide +kernel)

theorem quiet_apart (side : Bool) (n : ℕ) : apart.Quiet side n := by
  by_cases hn : n = 2
  · subst hn
    cases side <;> decide +kernel
  · have hframes : ∀ side, (apart.ends side).outbox = [] := by decide +kernel
    have hsessions : ∀ side, (apart.ends side).sessions n = none := by
      intro side
      cases side with
      | false => rfl
      | true =>
        have hupdates : ∃ asked late refused, (apart.ends true).sessions =
            Function.update (Function.update (Function.update (fun _ => none) 2 (some asked)) 2
              (some late)) 2 (some refused) := ⟨_, _, _, rfl⟩
        obtain ⟨_, _, _, hupdates⟩ := hupdates
        simp [hupdates, hn]
    have hsockets : ∀ side, (apart.ends side).sockets n = none := by
      intro side
      cases side with
      | true => rfl
      | false =>
        have hupdates : ∃ asked taken, (apart.ends false).sockets =
            Function.update (Function.update (fun _ => none) 2 (some asked)) 2 (some taken) :=
          ⟨_, _, rfl⟩
        obtain ⟨_, _, hupdates⟩ := hupdates
        simp [hupdates, hn]
    simp [Quiet, hframes, hsessions, hsockets]

/-- **A session that is given up stays live at the other end**, with nothing under way that could
tell it. -/
theorem apart_afterTimeout :
    ¬ ∀ (parses : List UInt8 → Bool) (peers : Bool → String) as l,
      Run (step parses) Free (boot peers) as l → (∀ side n, l.Quiet side n) →
        ∀ side n, n ∈ (l.ends side).carried ↔ n ∈ (l.ends !side).hosted := by
  intro h
  have hrun : Run (step fun _ => true) Free (boot fun _ => "peer") gaveUp apart :=
    .ofExec (Option.some_get _).symm
  have hagree := h _ _ _ _ hrun quiet_apart true 2
  exact absurd hagree (by decide +kernel)

end Link

end MediaCenterSync.PeerRelay
