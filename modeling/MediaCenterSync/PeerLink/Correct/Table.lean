import MediaCenterSync.Lib.LabelledRun
import MediaCenterSync.PeerLink.Table

/-!
# When the table names the live links

Two things write the table without looking at it: a `connect` that has got a link, and a link that
is lost.  Where the first finds no live link in the way, and has not been hung up on since it was
called, and the second finds its own entry or none that is live, every live link is the one the
table holds for its peer, and none is left to a peer that was disconnected (`Names.step`).
-/

namespace MediaCenterSync.PeerLink

open LabelledRun

/-- The link a `connect` is about to hold. -/
def Phase.link? : Phase → Option ℕ
  | .greeting _ l | .handshaking _ l | .proved l => some l
  | _ => none

namespace Table

variable {s s' : Table}

/-- A link to the peer that `connect` returned, neither lost nor closed by us: its socket is open. -/
def Live (s : Table) (l : ℕ) (peerId : String) : Prop :=
  ∃ link, s.made[l]? = some link ∧ link.peerId = peerId ∧ link.opened ∧ link.connected

/-- Every live link is the one the table holds, and a peer that was disconnected has none. -/
structure Names (s : Table) : Prop where
  names : ∀ l peerId, s.Live l peerId → s.links peerId = some l
  quiet : ∀ peerId, s.quiet peerId → ∀ l, ¬ s.Live l peerId
  waiting : ∀ connect ∈ s.connects, connect.hungUp = false → s.quiet connect.peer.id = false
  points : ∀ connect ∈ s.connects, ∀ l ∈ connect.phase.link?,
    (s.made[l]?).map (·.peerId) = some connect.peer.id

/-- A link is held when no other to its peer is live and nobody has hung up since; and a link that
is said to be lost is the one the table holds for its peer, or that one is not live. -/
def InTurn (s : Table) : Event → Prop
  | .held c =>
      ∀ connect ∈ s.connects[c]?, s.isLinked connect.peer.id = false ∧ connect.hungUp = false
  | .lost l => ∀ link ∈ s.made[l]?, ¬ (link.closedByUs ∨ link.reported) →
      s.links link.peerId = some l ∨ s.isLinked link.peerId = false
  | _ => True

instance (s : Table) : (event : Event) → Decidable (s.InTurn event)
  | .held _ | .lost _ => by unfold InTurn; infer_instance
  | .connect _ _ | .socketOpen _ | .socketFails _ | .greets _ | .proves _ _ | .refused _
  | .introduce _ | .introduced _ _ | .drops _ | .disconnect _ => .isTrue trivial

/-! ### What an event leaves of the links -/

theorem Names.isLinked (h : s.Names) {l : ℕ} {peerId : String} (hlive : s.Live l peerId) :
    s.isLinked peerId = true := by
  have hheld := h.names l peerId hlive
  obtain ⟨link, hmade, -, -, hconnected⟩ := hlive
  unfold Table.isLinked Table.link
  rw [hheld, Option.bind_some, hmade]
  exact hconnected

/-- Writing into a link what does not bring it to life. -/
theorem live_of_modify {l l' : ℕ} {peerId : String} {f : TableLink → TableLink}
    (hpeer : ∀ link, (f link).peerId = link.peerId)
    (hlife : ∀ link, (f link).opened → (f link).connected → link.opened ∧ link.connected)
    {made : List TableLink} (hmade : s'.made = made.modify l f) (hlive : s'.Live l' peerId) :
    Live { s with made := made } l' peerId := by
  obtain ⟨link, hget, hid, hopened, hconnected⟩ := hlive
  rw [hmade, List.getElem?_modify] at hget
  obtain ⟨before, hbefore, hafter⟩ := Option.map_eq_some_iff.mp hget
  by_cases hl : l = l'
  · rw [if_pos hl] at hafter
    subst hafter
    exact ⟨before, hbefore, (hpeer before).symm.trans hid, hlife before hopened hconnected⟩
  · rw [if_neg hl] at hafter
    subst hafter
    exact ⟨before, hbefore, hid, hopened, hconnected⟩

theorem peerId_modify {l l' : ℕ} {f : TableLink → TableLink}
    (hpeer : ∀ link, (f link).peerId = link.peerId) (made : List TableLink) :
    ((made.modify l f)[l']?).map (·.peerId) = (made[l']?).map (·.peerId) := by
  rw [List.getElem?_modify]
  cases made[l']? with
  | none => rfl
  | some link =>
    by_cases hl : l = l'
    · simp [hl, hpeer]
    · simp [hl]

theorem mem_goOn {c : ℕ} {phase : Phase} {connect : Connect}
    (h : connect ∈ (s.goOn c phase).connects) :
    connect ∈ s.connects ∨
      ∃ before, s.connects[c]? = some before ∧ connect = { before with phase := phase } := by
  obtain ⟨c', hget⟩ := List.mem_iff_getElem?.mp h
  unfold goOn at hget
  rw [List.getElem?_modify] at hget
  obtain ⟨before, hbefore, hafter⟩ := Option.map_eq_some_iff.mp hget
  by_cases hc : c = c'
  · rw [if_pos hc] at hafter
    exact .inr ⟨before, hc ▸ hbefore, hafter.symm⟩
  · rw [if_neg hc] at hafter
    exact .inl (hafter ▸ List.mem_of_getElem? hbefore)

/-- A `connect` goes on to a phase that points at a link of its peer, or at none. -/
theorem Names.goOn {c : ℕ} {phase : Phase} {connect : Connect} (h : s.Names)
    (hconnect : s.connects[c]? = some connect)
    (hpoints : ∀ l ∈ phase.link?, (s.made[l]?).map (·.peerId) = some connect.peer.id) :
    (s.goOn c phase).Names := by
  have hmem := List.mem_of_getElem? hconnect
  constructor
  case names => exact h.names
  case quiet => exact h.quiet
  case waiting =>
    intro other hother
    obtain hold | ⟨before, hbefore, rfl⟩ := mem_goOn hother
    · exact h.waiting other hold
    · obtain rfl := Option.some.inj (hconnect.symm.trans hbefore)
      exact h.waiting connect hmem
  case points =>
    intro other hother
    obtain hold | ⟨before, hbefore, rfl⟩ := mem_goOn hother
    · exact h.points other hold
    · obtain rfl := Option.some.inj (hconnect.symm.trans hbefore)
      exact hpoints

theorem Names.modify {l : ℕ} {f : TableLink → TableLink} (h : s.Names)
    (hpeer : ∀ link, (f link).peerId = link.peerId)
    (hlife : ∀ link, (f link).opened → (f link).connected → link.opened ∧ link.connected) :
    Names { s with made := s.made.modify l f } := by
  have hlive :
      ∀ {l' peerId}, Live { s with made := s.made.modify l f } l' peerId → s.Live l' peerId :=
    fun hlive => live_of_modify hpeer hlife rfl hlive
  constructor
  case names => exact fun l' peerId hl' => h.names l' peerId (hlive hl')
  case quiet => exact fun peerId hquiet l' hl' => h.quiet peerId hquiet l' (hlive hl')
  case waiting => exact h.waiting
  case points =>
    intro connect hconnect l' hl'
    rw [peerId_modify hpeer]
    exact h.points connect hconnect l' hl'

theorem Names.close (h : s.Names) (l : ℕ) : (s.close l).Names :=
  h.modify (fun _ => rfl) fun _ _ hconnected => by simp [TableLink.connected] at hconnected

theorem Names.append {link : TableLink} (h : s.Names) (hlink : link.opened = false) :
    Names { s with made := s.made ++ [link] } := by
  have hlive :
      ∀ {l peerId}, Live { s with made := s.made ++ [link] } l peerId → s.Live l peerId := by
    rintro l peerId ⟨other, hget, hid, hopened, hconnected⟩
    obtain hlt | hge := Nat.lt_or_ge l s.made.length
    · rw [List.getElem?_append_left hlt] at hget
      exact ⟨other, hget, hid, hopened, hconnected⟩
    · rw [List.getElem?_append_right hge] at hget
      obtain rfl := List.mem_singleton.mp (List.mem_of_getElem? hget)
      rw [hlink] at hopened
      cases hopened
  constructor
  case names => exact fun l peerId hl => h.names l peerId (hlive hl)
  case quiet => exact fun peerId hquiet l hl => h.quiet peerId hquiet l (hlive hl)
  case waiting => exact h.waiting
  case points =>
    intro connect hconnect l hl
    have hold := h.points connect hconnect l hl
    have hlt : l < s.made.length := by
      by_contra hge
      rw [List.getElem?_eq_none (Nat.le_of_not_lt hge)] at hold
      cases hold
    dsimp only
    rw [List.getElem?_append_left hlt]
    exact hold

/-! ### The ladder points at no link -/

theorem link?_relay (via : String) (rest : List String) (asked : ℕ) :
    (s.relay via rest asked).link? = none := by
  unfold relay
  split
  · split <;> rfl
  · rfl

theorem link?_introduction (peer : PeerDescriptor) (address : Option String) (via : String)
    (rest : List String) (asked : ℕ) :
    (s.introduction peer address via rest asked).link? = none := by
  unfold introduction
  split
  · split
    · rfl
    · exact link?_relay _ _ _
  · exact link?_relay _ _ _

theorem link?_nextIntroducer (connect : Connect) (candidates : List String) (asked : ℕ) :
    (s.nextIntroducer connect candidates asked).link? = none := by
  unfold nextIntroducer
  split
  · rfl
  · split
    · rfl
    · split
      · rfl
      · split
        · exact link?_introduction _ _ _ _ _
        · rfl

theorem link?_afterFailure (connect : Connect) (rung : Rung) :
    (s.afterFailure connect rung).link? = none := by
  cases rung with
  | direct => rfl
  | punched via address rest asked => exact link?_relay _ _ _
  | relayed via address rest asked => rfl

theorem link?_afterRefusal (rung : Rung) : (s.afterRefusal rung).link? = none := by
  cases rung with
  | direct => rfl
  | punched via address rest asked => exact link?_relay _ _ _
  | relayed via address rest asked => rfl

theorem Names.climb {c : ℕ} {phase : Phase} {connect : Connect} (h : s.Names)
    (hconnect : s.connects[c]? = some connect) (hphase : phase.link? = none) :
    (s.goOn c phase).Names :=
  h.goOn hconnect fun l hl => by
    rw [hphase] at hl
    cases hl

/-! ### The two that write the table -/

theorem Names.held {c l : ℕ} {connect : Connect} (h : s.Names)
    (hconnect : s.connects[c]? = some connect)
    (hphase : connect.phase = .proved l) (hfree : s.isLinked connect.peer.id = false)
    (hwanted : connect.hungUp = false) :
    Names ({ s with
      made := s.made.modify l fun link => { link with opened := true }
      links := Function.update s.links connect.peer.id (some l) }.goOn c .over) := by
  have hmem := List.mem_of_getElem? hconnect
  have hpoints : (s.made[l]?).map (·.peerId) = some connect.peer.id :=
    h.points connect hmem l (by rw [hphase]; rfl)
  -- a link that is live now was live, or is the one that is held
  have hlive : ∀ {l' peerId}, Live { s with
      made := s.made.modify l fun link => { link with opened := true }
      links := Function.update s.links connect.peer.id (some l) } l' peerId →
      s.Live l' peerId ∧ peerId ≠ connect.peer.id ∨ l' = l ∧ peerId = connect.peer.id := by
    rintro l' peerId ⟨link, hget, hid, hopened, hconnected⟩
    rw [List.getElem?_modify] at hget
    obtain ⟨before, hbefore, hafter⟩ := Option.map_eq_some_iff.mp hget
    by_cases hl : l = l'
    · subst hl
      rw [if_pos rfl] at hafter
      subst hafter
      rw [hbefore] at hpoints
      exact .inr ⟨rfl, hid.symm.trans (Option.some.inj hpoints)⟩
    · rw [if_neg hl] at hafter
      subst hafter
      have hold : s.Live l' peerId := ⟨before, hbefore, hid, hopened, hconnected⟩
      refine .inl ⟨hold, ?_⟩
      rintro rfl
      rw [h.isLinked hold] at hfree
      cases hfree
  have hnames : Names { s with
      made := s.made.modify l fun link => { link with opened := true }
      links := Function.update s.links connect.peer.id (some l) } := by
    constructor
    case names =>
      intro l' peerId hl'
      obtain ⟨hold, hother⟩ | ⟨rfl, rfl⟩ := hlive hl'
      · exact (Function.update_of_ne hother _ _).trans (h.names l' peerId hold)
      · exact Function.update_self _ _ _
    case quiet =>
      intro peerId hquiet l' hl'
      obtain ⟨hold, -⟩ | ⟨-, rfl⟩ := hlive hl'
      · exact h.quiet peerId hquiet l' hold
      · exact absurd hquiet (by simp [h.waiting connect hmem hwanted])
    case waiting => exact h.waiting
    case points =>
      intro other hother l' hl'
      refine (peerId_modify ?_ s.made).trans (h.points other hother l' hl')
      exact fun _ => rfl
  exact hnames.climb hconnect rfl

theorem Names.lost {l : ℕ} {link : TableLink} (h : s.Names)
    (hguard : s.links link.peerId = some l ∨ s.isLinked link.peerId = false) :
    Names { s with
      made := s.made.modify l fun link => { link with isOpen := false, reported := true }
      links := Function.update s.links link.peerId none } := by
  -- what is live was live, and is to another peer
  have hlive : ∀ {l' peerId}, Live { s with
      made := s.made.modify l fun link => { link with isOpen := false, reported := true }
      links := Function.update s.links link.peerId none } l' peerId →
      s.Live l' peerId ∧ peerId ≠ link.peerId := by
    rintro l' peerId ⟨other, hget, hid, hopened, hconnected⟩
    rw [List.getElem?_modify] at hget
    obtain ⟨before, hbefore, hafter⟩ := Option.map_eq_some_iff.mp hget
    by_cases hl : l = l'
    · rw [if_pos hl] at hafter
      subst hafter
      simp [TableLink.connected] at hconnected
    · rw [if_neg hl] at hafter
      subst hafter
      have hold : s.Live l' peerId := ⟨before, hbefore, hid, hopened, hconnected⟩
      refine ⟨hold, ?_⟩
      rintro rfl
      obtain hself | hnone := hguard
      · exact hl (Option.some.inj (hself.symm.trans (h.names l' _ hold)))
      · rw [h.isLinked hold] at hnone
        cases hnone
  constructor
  case names =>
    intro l' peerId hl'
    obtain ⟨hold, hother⟩ := hlive hl'
    exact (Function.update_of_ne hother _ _).trans (h.names l' peerId hold)
  case quiet => exact fun peerId hquiet l' hl' => h.quiet peerId hquiet l' (hlive hl').1
  case waiting => exact h.waiting
  case points =>
    intro connect hconnect l' hl'
    refine (peerId_modify ?_ s.made).trans (h.points connect hconnect l' hl')
    exact fun _ => rfl

/-- The entry of a peer without a live link is dropped, and whoever is on the way there is hung up
on. -/
theorem Names.hangUp {peerId : String} (h : s.Names) (hgone : ∀ l, ¬ s.Live l peerId) :
    Names { s with
      links := Function.update s.links peerId none
      connects := s.connects.map fun connect =>
        if connect.peer.id = peerId then { connect with hungUp := true } else connect
      quiet := Function.update s.quiet peerId true } := by
  constructor
  case names =>
    intro l peerId' hlive
    have hother : peerId' ≠ peerId := by
      rintro rfl
      exact hgone l hlive
    exact (Function.update_of_ne hother _ _).trans (h.names l peerId' hlive)
  case quiet =>
    intro peerId' hquiet l hlive
    by_cases hsame : peerId' = peerId
    · subst hsame
      exact hgone l hlive
    · exact h.quiet peerId' ((Function.update_of_ne hsame _ _).symm.trans hquiet) l hlive
  case waiting =>
    intro connect hconnect hwanted
    obtain ⟨before, hbefore, rfl⟩ := List.mem_map.mp hconnect
    by_cases hsame : before.peer.id = peerId
    · rw [if_pos hsame] at hwanted
      cases hwanted
    · rw [if_neg hsame] at hwanted ⊢
      exact (Function.update_of_ne hsame _ _).trans (h.waiting before hbefore hwanted)
  case points =>
    intro connect hconnect
    obtain ⟨before, hbefore, rfl⟩ := List.mem_map.mp hconnect
    by_cases hsame : before.peer.id = peerId
    · rw [if_pos hsame]
      exact h.points before hbefore
    · rw [if_neg hsame]
      exact h.points before hbefore

theorem Names.disconnect {peerId : String} (h : s.Names)
    (hstep : s.step (.disconnect peerId) = some s') : s'.Names := by
  simp only [Table.step] at hstep
  cases hstep
  cases hheld : s.links peerId with
  | none =>
    refine h.hangUp fun l hlive => ?_
    rw [h.names l peerId hlive] at hheld
    cases hheld
  | some l =>
    refine (h.close l).hangUp fun l' hlive => ?_
    obtain ⟨link, hget, hid, hopened, hconnected⟩ := hlive
    unfold Table.close at hget
    rw [List.getElem?_modify] at hget
    obtain ⟨before, hbefore, hafter⟩ := Option.map_eq_some_iff.mp hget
    by_cases hl : l = l'
    · -- the link the table held is closed
      rw [if_pos hl] at hafter
      subst hafter
      simp [TableLink.connected] at hconnected
    · rw [if_neg hl] at hafter
      subst hafter
      have hold := h.names l' peerId ⟨before, hbefore, hid, hopened, hconnected⟩
      exact hl (Option.some.inj (hheld.symm.trans hold))

/-- A call that opens nothing yet: its peer is wanted from now on. -/
theorem Names.connect (h : s.Names) {peer : PeerDescriptor} {options : PeerDialOptions}
    (hstep : s.step (.connect peer options) = some s') : s'.Names := by
  simp only [Table.step] at hstep
  split at hstep
  · cases hstep
    exact h
  · next hlinked =>
    cases hstep
    constructor
    case names => exact h.names
    case quiet =>
      intro peerId hquiet
      by_cases hsame : peerId = peer.id
      · subst hsame
        exact absurd ((Function.update_self _ _ _).symm.trans hquiet) (by simp)
      · exact h.quiet peerId ((Function.update_of_ne hsame _ _).symm.trans hquiet)
    case waiting =>
      intro connect hconnect hwanted
      obtain hold | hnew := List.mem_append.mp hconnect
      · by_cases hsame : connect.peer.id = peer.id
        · dsimp only
          rw [hsame, Function.update_self]
        · exact (Function.update_of_ne hsame _ _).trans (h.waiting connect hold hwanted)
      · obtain rfl := List.mem_singleton.mp hnew
        exact Function.update_self _ _ _
    case points =>
      intro connect hconnect
      obtain hold | hnew := List.mem_append.mp hconnect
      · exact h.points connect hold
      · obtain rfl := List.mem_singleton.mp hnew
        intro l hl
        dsimp only at hl
        split at hl <;> cases hl

/-- **One step** keeps the table naming the live links, where a link is held and lost in turn. -/
theorem Names.step {event : Event} (h : s.Names) (hguard : s.InTurn event)
    (hstep : s.step event = some s') : s'.Names := by
  cases event with
  | connect peer options => exact h.connect hstep
  | socketOpen c =>
    simp only [Table.step] at hstep
    obtain ⟨connect, hconnect, hstep⟩ := Option.bind_eq_some_iff.mp hstep
    split at hstep
    · next rung hphase =>
      cases hstep
      have hnew : (dialled connect.peer rung).opened = false := by cases rung <;> rfl
      have hpeer : (dialled connect.peer rung).peerId = connect.peer.id := by cases rung <;> rfl
      refine (h.append hnew).goOn hconnect ?_
      rintro _ ⟨⟩
      dsimp only
      rw [List.getElem?_append_right (Nat.le_refl _), Nat.sub_self]
      exact congrArg some hpeer
    · cases hstep
  | socketFails c =>
    simp only [Table.step] at hstep
    obtain ⟨connect, hconnect, hstep⟩ := Option.bind_eq_some_iff.mp hstep
    split at hstep
    · next rung hphase =>
      cases hstep
      exact h.climb hconnect (link?_afterFailure connect rung)
    · cases hstep
  | greets c =>
    simp only [Table.step] at hstep
    obtain ⟨connect, hconnect, hstep⟩ := Option.bind_eq_some_iff.mp hstep
    split at hstep
    · next rung l hphase =>
      split_ifs at hstep
      · cases hstep
        have hpoints := h.points connect (List.mem_of_getElem? hconnect) l (by rw [hphase]; rfl)
        refine h.goOn hconnect ?_
        rintro _ ⟨⟩
        exact hpoints
      · cases hstep
        exact h.climb hconnect (link?_afterFailure connect rung)
    · cases hstep
  | proves c capabilities =>
    simp only [Table.step] at hstep
    obtain ⟨connect, hconnect, hstep⟩ := Option.bind_eq_some_iff.mp hstep
    split at hstep
    · next rung l hphase =>
      obtain ⟨hlive, hsome⟩ := Option.ite_none_right_eq_some.mp hstep
      cases hsome
      have hpoints := h.points connect (List.mem_of_getElem? hconnect) l (by rw [hphase]; rfl)
      refine Names.goOn (h.modify (fun _ => rfl) fun _ hopened hconnected => ⟨hopened, hconnected⟩)
        hconnect ?_
      rintro _ ⟨⟩
      refine (peerId_modify ?_ s.made).trans hpoints
      exact fun _ => rfl
    · cases hstep
  | refused c =>
    simp only [Table.step] at hstep
    obtain ⟨connect, hconnect, hstep⟩ := Option.bind_eq_some_iff.mp hstep
    split at hstep
    · next rung l hphase =>
      cases hstep
      exact (h.close l).climb hconnect (link?_afterRefusal rung)
    · cases hstep
  | held c =>
    simp only [Table.step] at hstep
    obtain ⟨connect, hconnect, hstep⟩ := Option.bind_eq_some_iff.mp hstep
    split at hstep
    · next l hphase =>
      cases hstep
      obtain ⟨hfree, hwanted⟩ := hguard connect hconnect
      exact h.held hconnect hphase hfree hwanted
    · cases hstep
  | introduce c =>
    simp only [Table.step] at hstep
    obtain ⟨connect, hconnect, hstep⟩ := Option.bind_eq_some_iff.mp hstep
    split at hstep
    · next candidates asked hphase =>
      cases hstep
      exact h.climb hconnect (link?_nextIntroducer connect candidates asked)
    · cases hstep
  | introduced c answer =>
    simp only [Table.step] at hstep
    obtain ⟨connect, hconnect, hstep⟩ := Option.bind_eq_some_iff.mp hstep
    split at hstep
    · next via rest asked hphase =>
      split at hstep
      · cases hstep
        exact h.climb hconnect rfl
      · cases hstep
        exact h.climb hconnect (link?_introduction _ _ _ _ _)
    · cases hstep
  | drops l =>
    cases hstep
    exact h.modify (fun _ => rfl) fun _ _ hconnected => by simp [TableLink.connected] at hconnected
  | lost l =>
    simp only [Table.step] at hstep
    obtain ⟨link, hmade, hstep⟩ := Option.bind_eq_some_iff.mp hstep
    split at hstep
    · cases hstep
      exact h
    · next hgoing =>
      cases hstep
      exact h.lost (hguard link hmade hgoing)
  | disconnect peerId => exact h.disconnect hstep

theorem names_boot : boot.Names := by
  constructor
  case names => rintro l peerId ⟨link, hget, -⟩; cases hget
  case quiet => exact fun peerId hquiet => absurd hquiet (by simp [boot])
  case waiting => exact fun connect hconnect => absurd hconnect (by simp [boot])
  case points => exact fun connect hconnect => absurd hconnect (by simp [boot])

/-- **The table names the live links**, as long as no link is held beside a live one to its peer or
after somebody hung up, and none is lost that would take the entry of another: a live link is the
one the table holds for its peer, and to a peer that was disconnected and not connected to since
there is none. -/
theorem live_of_run {events : List Event} (hrun : Run step InTurn boot events s) :
    (∀ l peerId, s.Live l peerId → s.links peerId = some l) ∧
      ∀ peerId, s.quiet peerId → ∀ l, ¬ s.Live l peerId := by
  have hnames := hrun.invariant (fun _ _ _ h hguard hstep => Names.step h hguard hstep) names_boot
  exact ⟨hnames.names, hnames.quiet⟩

end Table

/-! ### One friend, connected to twice -/

def ann : PeerDescriptor := ⟨"ann", some "https://ann"⟩

/-- The dial of a `connect`, up to the link that is held. -/
def dial (c : ℕ) : List Table.Event :=
  [.socketOpen c, .greets c, .proves c [.INTRODUCE], .held c]

/-- The link is lost, and made again. -/
def again : List Table.Event :=
  .connect ann ⟨none, none, []⟩ :: dial 0 ++
    .drops 0 :: .lost 0 :: .connect ann ⟨none, none, []⟩ :: dial 1

/-- Both are called before either has a link. -/
def atOnce : List Table.Event :=
  [.connect ann ⟨none, none, []⟩, .connect ann ⟨none, none, []⟩] ++ dial 0 ++ dial 1

/-- Made again, the link is the one the table holds. -/
theorem live_of_run_again :
    ∃ s, exec Table.step Table.InTurn .boot again = some s ∧ s.links "ann" = some 1 := by
  have hmade : (exec Table.step Table.InTurn .boot again).any (fun s => (s.made[1]?).any fun link =>
      link.peerId = "ann" ∧ link.opened ∧ link.connected) = true := by decide +kernel
  obtain ⟨s, hexec, hend⟩ := (Option.any_eq_true _ _).mp hmade
  obtain ⟨link, hget, hlink⟩ := (Option.any_eq_true _ _).mp hend
  exact ⟨s, hexec,
    (Table.live_of_run (.ofExec hexec)).1 1 "ann" ⟨link, hget, of_decide_eq_true hlink⟩⟩

/-- Called at once, the second link takes the place of the first, which is live. -/
theorem not_live_of_run : ¬ ∀ (events : List Table.Event) (s : Table),
    Run Table.step Free .boot events s →
    (∀ l peerId, s.Live l peerId → s.links peerId = some l) ∧
      ∀ peerId, s.quiet peerId → ∀ l, ¬ s.Live l peerId := by
  intro h
  have hmade : (exec Table.step Free .boot atOnce).any (fun s => s.links "ann" = some 1 ∧
      (s.made[0]?).any fun link => link.peerId = "ann" ∧ link.opened ∧ link.connected) = true := by
    decide +kernel
  obtain ⟨s, hexec, hend⟩ := (Option.any_eq_true _ _).mp hmade
  obtain ⟨htable, hlive⟩ := of_decide_eq_true hend
  obtain ⟨link, hget, hlink⟩ := (Option.any_eq_true _ _).mp hlive
  have hheld := (h atOnce s (.ofExec hexec)).1 0 "ann" ⟨link, hget, of_decide_eq_true hlink⟩
  rw [htable] at hheld
  cases hheld

end MediaCenterSync.PeerLink
