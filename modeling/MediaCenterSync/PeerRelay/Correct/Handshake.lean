import MediaCenterSync.PeerRelay.Correct.Service

/-!
# One session between its two ends

What the carrier and the holder of one session know of it and what they have said to each other,
with everything else left out: an abstract protocol, and the invariant by which both ends agree once
nothing is under way (`Inv.agree`).

The carrier asks (`OPEN`), waits, and is answered, or gives up when its timer fires; either end may
close.  Giving up says nothing to the holder.  So two moves have a condition: the timer does not
fire once the holder has taken the session, and the holder does not take a session the carrier has
been refused, unless it has let go of it by then.
-/

namespace MediaCenterSync.PeerRelay

@[simp, grind]
def Reserve.isRefused : Reserve → Bool
  | .answered (some _) | .returned (some _) => true
  | _ => false

@[simp, grind]
def Reserve.isAccepted : Reserve → Bool
  | .answered none | .returned none => true
  | _ => false

/-- What the carrier has of a session, and the handshake frames it has under way. -/
structure CarrierView where
  /-- `none` before it is reserved. -/
  reserve : Option Reserve
  settle : Bool
  closed : Bool
  carried : Bool
  out : List RelayOpcode

/-- What the holder has of a session, and the handshake frames it has under way. -/
structure HolderView where
  hosted : Bool
  /-- Whether its endpoint has still to answer; `none` when it was never asked. -/
  admitting : Option Bool
  out : List RelayOpcode

/-- The session closes at the carrier, and the holder is told. -/
@[grind]
def CarrierView.close (v : CarrierView) : CarrierView :=
  { v with settle := false, closed := true, carried := false, out := v.out ++ [.CLOSE] }

/-- The call's promise resolved with a refusal. -/
@[grind]
def CarrierView.refused (v : CarrierView) : Bool := v.reserve.any (·.isRefused)

/-- The call's promise resolved with no refusal. -/
@[grind]
def CarrierView.accepted (v : CarrierView) : Bool := v.reserve.any (·.isAccepted)

theorem CarrierView.refused_or_accepted {v : CarrierView} (hborn : v.reserve ≠ none)
    (hreliable : v.reserve ≠ some .threw) (hover : v.reserve ≠ some .waiting) :
    v.refused ∨ v.accepted := by
  unfold CarrierView.refused CarrierView.accepted
  cases hreserve : v.reserve with
  | none => exact absurd hreserve hborn
  | some reserve =>
    cases reserve with
    | waiting => exact absurd hreserve hover
    | threw => exact absurd hreserve hreliable
    | answered refusal => cases refusal <;> simp
    | returned refusal => cases refusal <;> simp

/-- A frame from the holder. -/
inductive CarrierView.Receives (v : CarrierView) : RelayOpcode → CarrierView → Prop
  | ACCEPT : v.carried → v.settle → v.reserve = some .waiting →
      v.Receives .ACCEPT { v with reserve := some (.answered none) }
  | REFUSE : v.carried → v.settle → v.reserve = some .waiting →
      v.Receives .REFUSE { v with reserve := some (.answered (some .DECLINED)) }
  | CLOSE : v.carried → v.closed = false → v.Receives .CLOSE v.close
  /-- A session that is gone, or an answer nobody waits for. -/
  | deaf {op} : v.carried = false ∨ v.closed ∨
      op ≠ .CLOSE ∧ (v.settle = false ∨ v.reserve ≠ some .waiting) → v.Receives op v

/-- What the carrier does of its own. -/
inductive CarrierView.Moves (v : CarrierView) (holder : HolderView) : CarrierView → Prop
  | reserve : v.reserve = none → v.Moves holder
      { reserve := some .waiting, settle := true, closed := false, carried := true
        out := v.out ++ [.OPEN] }
  | timeout : v.reserve = some .waiting → (holder.hosted → holder.admitting ≠ some false) →
      v.Moves holder { v with reserve := some (.answered (some .DECLINED)) }
  | resume : v.reserve = some (.answered none) →
      v.Moves holder { v with reserve := some (.returned none), settle := false }
  | refused {reason} : v.reserve = some (.answered (some reason)) → v.Moves holder
      { v with
        reserve := some (.returned (some reason)), settle := false, closed := true
        carried := false }
  | close : v.reserve.isSome → v.closed = false → v.Moves holder v.close

/-- A frame from the carrier. -/
inductive HolderView.Receives (v : HolderView) : RelayOpcode → HolderView → Prop
  | refuse : v.Receives .OPEN { v with out := v.out ++ [.REFUSE] }
  | host : v.Receives .OPEN { v with hosted := true, admitting := some true }
  | CLOSE : v.Receives .CLOSE { v with hosted := false }
  | other {op} : op ≠ .OPEN → op ≠ .CLOSE → v.Receives op v

/-- What the holder does of its own. -/
inductive HolderView.Moves (v : HolderView) (carrier : CarrierView) : HolderView → Prop
  | letIn : v.admitting = some true → (v.hosted → carrier.refused = false) →
      v.Moves carrier { v with admitting := some false, out := v.out ++ [.ACCEPT] }
  | refuse : v.admitting = some true → v.Moves carrier
      { hosted := false, admitting := some false, out := v.out ++ [.REFUSE] }
  | close : v.admitting.isSome →
      v.Moves carrier { v with hosted := false, out := v.out ++ [.CLOSE] }

structure Handshake where
  carrier : CarrierView
  holder : HolderView

namespace Handshake

/-- One end moves, or the next frame under way arrives. -/
inductive Move (h : Handshake) : Handshake → Prop
  | carrier {v} : h.carrier.Moves h.holder v → h.Move ⟨v, h.holder⟩
  | holder {v} : h.holder.Moves h.carrier v → h.Move ⟨h.carrier, v⟩
  | down {op rest v} : h.carrier.out = op :: rest → h.holder.Receives op v →
      h.Move ⟨{ h.carrier with out := rest }, v⟩
  | up {op rest v} : h.holder.out = op :: rest → h.carrier.Receives op v →
      h.Move ⟨v, { h.holder with out := rest }⟩

/-- What the two ends know of each other, with what is under way. -/
structure Inv (h : Handshake) : Prop where
  unborn : h.carrier.reserve = none → h.carrier.carried = false ∧ h.carrier.out = [] ∧
    h.holder.admitting = none ∧ h.holder.out = []
  reliable : h.carrier.reserve ≠ some .threw
  carried_iff : h.carrier.carried = true ↔ h.carrier.reserve ≠ none ∧ h.carrier.closed = false
  out : h.carrier.out = [] ∨ h.carrier.out = [.OPEN] ∨ h.carrier.out = [.CLOSE] ∨
    h.carrier.out = [.OPEN, .CLOSE]
  closing : .CLOSE ∈ h.carrier.out → h.carrier.carried = false
  asking : .OPEN ∈ h.carrier.out → h.holder.admitting = none ∧ h.holder.out = [] ∧
    h.carrier.accepted = false
  hosting : h.holder.hosted → h.holder.admitting ≠ none
  admitting : h.holder.admitting = some true → .ACCEPT ∉ h.holder.out ∧ .REFUSE ∉ h.holder.out ∧
    h.carrier.accepted = false
  refusing : .REFUSE ∈ h.holder.out → h.holder.hosted = false ∧ .ACCEPT ∉ h.holder.out ∧
    h.carrier.accepted = false
  waiting : h.carrier.carried → h.carrier.reserve = some .waiting → h.carrier.settle
  gone : ∀ reason, h.carrier.reserve = some (.returned (some reason)) → h.carrier.carried = false
  /-- The holder has a carried session, or will, or says that it has not. -/
  told : h.carrier.carried → .OPEN ∈ h.carrier.out ∨ h.holder.hosted ∨ .REFUSE ∈ h.holder.out ∨
    .CLOSE ∈ h.holder.out ∨ h.carrier.refused
  /-- The carrier has a hosted session, or says that it has not, or was refused it and the holder
  has still to refuse. -/
  live : h.holder.hosted ∨ .OPEN ∈ h.carrier.out → .CLOSE ∈ h.carrier.out ∨
    h.carrier.carried ∧ h.carrier.refused = false ∨
    h.carrier.refused ∧ h.holder.admitting ≠ some false

variable {h : Handshake}

theorem Inv.moveCarrier (hinv : h.Inv) {v : CarrierView}
    (hv : h.carrier.Moves h.holder v) : Inv ⟨v, h.holder⟩ := by
  obtain ⟨h1, h2, h3, h4, h5, h6, h7, h8, h9, h10, h11, h12, h13⟩ := hinv
  cases hv with
  | reserve hnone =>
    obtain ⟨a, b, c, d⟩ := h1 hnone
    constructor <;> grind -ring -linarith
  | timeout hwaiting hcond => constructor <;> grind -ring -linarith
  | resume hanswered => constructor <;> grind -ring -linarith
  | refused hanswered => constructor <;> grind -ring -linarith
  | close hsome hclosed => constructor <;> grind -ring -linarith

theorem Inv.moveHolder (hinv : h.Inv) {v : HolderView}
    (hv : h.holder.Moves h.carrier v) : Inv ⟨h.carrier, v⟩ := by
  obtain ⟨h1, h2, h3, h4, h5, h6, h7, h8, h9, h10, h11, h12, h13⟩ := hinv
  cases hv with
  | letIn _ _ => constructor <;> grind -ring -linarith
  | refuse _ => constructor <;> grind -ring -linarith
  | close _ => constructor <;> grind -ring -linarith

theorem Inv.down (hinv : h.Inv) {op : RelayOpcode} {rest : List RelayOpcode}
    (hout : h.carrier.out = op :: rest) {v : HolderView} (hv : h.holder.Receives op v) :
    Inv ⟨{ h.carrier with out := rest }, v⟩ := by
  obtain ⟨h1, h2, h3, h4, h5, h6, h7, h8, h9, h10, h11, h12, h13⟩ := hinv
  cases hv with
  | refuse => constructor <;> grind -ring -linarith
  | host => constructor <;> grind -ring -linarith
  | CLOSE => constructor <;> grind -ring -linarith
  | other _ _ => constructor <;> grind -ring -linarith

theorem Inv.up (hinv : h.Inv) {op : RelayOpcode} {rest : List RelayOpcode}
    (hout : h.holder.out = op :: rest) {v : CarrierView} (hv : h.carrier.Receives op v) :
    Inv ⟨v, { h.holder with out := rest }⟩ := by
  obtain ⟨h1, h2, h3, h4, h5, h6, h7, h8, h9, h10, h11, h12, h13⟩ := hinv
  cases hv with
  | ACCEPT _ _ _ => constructor <;> grind -ring -linarith
  | REFUSE _ _ _ => constructor <;> grind -ring -linarith
  | CLOSE _ _ => constructor <;> grind -ring -linarith
  | deaf hdeaf =>
    -- a refusal nobody waits for finds the session refused already
    have hrefused : op = .REFUSE → h.carrier.carried → h.carrier.refused := by
      intro hop hcarried
      have hborn := h3.mp hcarried
      have hover : h.carrier.reserve ≠ some .waiting := by grind
      exact (CarrierView.refused_or_accepted hborn.1 h2 hover).resolve_right (by grind)
    constructor <;> grind -ring -linarith

theorem Inv.move (hinv : h.Inv) {h' : Handshake} (hmove : h.Move h') : h'.Inv := by
  cases hmove with
  | carrier hv => exact hinv.moveCarrier hv
  | holder hv => exact hinv.moveHolder hv
  | down hout hv => exact hinv.down hout hv
  | up hout hv => exact hinv.up hout hv

theorem Inv.unasked {h : Handshake} (hreserve : h.carrier.reserve = none)
    (hcarrier : h.carrier.carried = false ∧ h.carrier.out = [])
    (hholder : h.holder = ⟨false, none, []⟩) : h.Inv := by
  constructor <;> grind -ring -linarith

/-- **Both ends agree once nothing is under way**: no frame, no call that waits for its answer, no
endpoint that has still to give one. -/
theorem Inv.agree (hinv : h.Inv) (hdown : h.carrier.out = []) (hup : h.holder.out = [])
    (hcall : ∀ reserve ∈ h.carrier.reserve, reserve.isPending = false)
    (hadmitting : h.holder.admitting ≠ some true) :
    h.carrier.carried = h.holder.hosted := by
  have hopen : .OPEN ∉ h.carrier.out := by rw [hdown]; exact List.not_mem_nil
  have hclose : .CLOSE ∉ h.carrier.out := by rw [hdown]; exact List.not_mem_nil
  rw [Bool.eq_iff_iff]
  constructor
  · intro hcarried
    have hheld : h.carrier.refused = false := by
      cases hreserve : h.carrier.reserve with
      | none => grind
      | some reserve =>
        have hover := hcall reserve hreserve
        have hgone := hinv.gone
        cases reserve with
        | waiting => cases hover
        | answered refusal => cases hover
        | returned refusal => cases refusal <;> grind -ring -linarith
        | threw => exact absurd hreserve hinv.reliable
    have htold := hinv.told hcarried
    rw [hup, hheld] at htold
    simpa [hopen] using htold
  · intro hhosted
    have hasked := hinv.hosting hhosted
    rcases hinv.live (.inl hhosted) with hcl | ⟨hcarried, -⟩ | ⟨-, hanswer⟩
    · exact absurd hcl hclose
    · exact hcarried
    · cases hadm : h.holder.admitting with
      | none => exact absurd hadm hasked
      | some admitting => cases admitting <;> contradiction

end Handshake

end MediaCenterSync.PeerRelay
