import MediaCenterSync.PeerManager.Calls
import MediaCenterSync.PeerManager.Correct.Friends

/-!
# A ban is final until it is lifted

While a fingerprint is on the list nothing links it and nobody is let in under it, **as long as no
call is caught between what it read and what it does with it** (`final_of_run`).  Two things are
asked of a run (`Calls.Heeds`): a ban is not recorded while a call is about to save a row of that
fingerprint as linked, or to let it in (`Call.holds`); and while the fingerprint is on the list no
call reads what it would then save or answer so, which `approve` and the last look of `admit` do
without asking the list, and the others do when they asked it before the ban.

A `ban` that throws once the ban is recorded leaves a settled row behind, and `admit` lets it in
(`not_final_of_run`).
-/

namespace MediaCenterSync.PeerManager

open Peers
open LabelledRun (Run Free)

namespace Call

/-- It has read what it needs to save a row of that fingerprint as linked, or to let it in. -/
def holds (fingerprint : String) : Call → Bool
  | .save door saved existing =>
    saved = fingerprint ∧ (door.row "" saved existing).status = .LINKED
  | .settle peer => peer.fingerprint = fingerprint
  | .introduce credential _ _ _ _ => credential.fingerprint = fingerprint
  | .findHolder credential _ subject =>
    credential.fingerprint = fingerprint ∧ subject.any (·.isSettled)
  | .dialled peer (.LINKED _) => peer.fingerprint = fingerprint
  | _ => false

def welcomes (fingerprint : String) : Call → Bool
  | .admitted presented answer => presented = fingerprint ∧ answer.isSome
  | .granted presented answer => presented = fingerprint ∧ answer.isSome
  | _ => false

/-- The rows it has read are of the fingerprint they were looked up by, and have an identifier of
theirs. -/
def Reads (ids : List (String × String)) : Call → Prop
  | .save _ fingerprint existing =>
    ∀ peer ∈ existing, peer.fingerprint = fingerprint ∧ (peer.id, peer.fingerprint) ∈ ids
  | .introduction credential _ _ known _ | .findIntroducer credential _ _ known _
  | .key credential _ _ known _ _ | .reach credential _ _ known _ _ _
  | .introduce credential known _ _ _ =>
    ∀ peer ∈ known, peer.fingerprint = credential.fingerprint ∧ (peer.id, peer.fingerprint) ∈ ids
  | .settle peer | .dialCheck peer | .dialling peer | .dialled peer _ =>
    (peer.id, peer.fingerprint) ∈ ids
  | _ => True

/-- The rows of a fingerprint: none of them is agreed. -/
def unsettled (t : Tables) (fingerprint : String) : Bool :=
  (t.findByFingerprint fingerprint).all (!·.isSettled)

/-- What is asked of the next step of a call, where it is taken. -/
def Heeds (w : World) (t : Tables) (calls : List Call) : Call → Prop
  | .recordBan fingerprint _ => ∀ call ∈ calls, call.holds fingerprint = false
  | .find door fingerprint =>
    t.isBanned fingerprint →
      (door.row "" fingerprint (t.findByFingerprint fingerprint)).status ≠ .LINKED
  | .approve id =>
    ∀ peer ∈ t.findOne id, t.isBanned peer.fingerprint → peer.direction = some .OUTGOING
  | .reach credential token now _ claim introducer publicKey =>
    t.isBanned credential.fingerprint →
      (w.distance t.settings introducer publicKey claim token now).toOption = none
  | .answering credential | .findSubject credential _ =>
    t.isBanned credential.fingerprint → unsettled t credential.fingerprint
  | _ => True

/-- A dial that goes through is not to somebody who was banned meanwhile. -/
def mayLink (t : Tables) : Call → Prop
  | .dialling peer => t.isBanned peer.fingerprint = false
  | _ => True

instance (w : World) (t : Tables) (calls : List Call) :
    (call : Call) → Decidable (call.Heeds w t calls)
  | .recordBan .. | .find .. | .approve .. | .reach .. | .answering .. | .findSubject .. => by
    unfold Heeds
    infer_instance
  | .invite .. | .check .. | .save .. | .burn .. | .settle .. | .admitCredential ..
  | .introduction .. | .findIntroducer .. | .key .. | .introduce .. | .carry .. | .carried ..
  | .findHolder .. | .dial .. | .dialCheck .. | .dialling .. | .dialled .. | .ban .. | .remove ..
  | .delete .. | .banFingerprint .. | .unban .. | .over | .admitted .. | .granted .. =>
    .isTrue trivial

instance (t : Tables) (call : Call) : Decidable (call.mayLink t) := by
  unfold mayLink
  split <;> infer_instance

end Call

namespace Calls

/-- No ban is recorded while a call holds what the ban is to refuse, and no call reads it while the
ban is in force. -/
def Heeds (w : World) (s : Calls) : Action → Prop
  | .advance i _ => ∀ call ∈ s.calls[i]?, call.Heeds w s.tables s.calls
  | .connected i (.LINKED _) => ∀ call ∈ s.calls[i]?, call.mayLink s.tables
  | _ => True

instance (w : World) (s : Calls) : (action : Action) → Decidable (Heeds w s action)
  | .advance .. | .connected _ (.LINKED _) => by
    unfold Heeds
    infer_instance
  | .connected _ .UNREACHABLE | .connected _ .REFUSED | .call _ | .fail _ | .handshake ..
  | .settings _ =>
    .isTrue trivial

/-- What a step leaves as the ban wants it: no row of that fingerprint is linked that was not, and
nobody is let in under it who was not. -/
structure Final (s s' : Calls) (fingerprint : String) : Prop where
  linked : ∀ row ∈ s'.tables.peers, row.fingerprint = fingerprint → row.status = .LINKED →
    ∃ old ∈ s.tables.peers, old.id = row.id ∧ old.fingerprint = fingerprint ∧ old.status = .LINKED
  welcomed : ∀ (i : ℕ) (call : Call), s'.calls[i]? = some call → call.welcomes fingerprint →
    s.calls[i]? = some call

structure Inv (s : Calls) : Prop where
  unique : (s.ids.map (·.1)).Nodup
  rows : ∀ row ∈ s.tables.peers, (row.id, row.fingerprint) ∈ s.ids
  calls : ∀ call ∈ s.calls, call.Reads s.ids
  quiet : ∀ fingerprint, s.tables.isBanned fingerprint → ∀ call ∈ s.calls,
    call.holds fingerprint = false

end Calls

/-! ### The rows that are saved -/

namespace Door

variable {id fingerprint : String} (door : Door)

theorem row_none : (door.row id fingerprint none).id = id ∧
    (door.row id fingerprint none).fingerprint = fingerprint := by
  cases door <;> exact ⟨rfl, rfl⟩

theorem row_some (peer : Peer) : (door.row id fingerprint (some peer)).id = peer.id ∧
    (door.row id fingerprint (some peer)).fingerprint = peer.fingerprint := by
  have hread : ∀ {p : Peer → Bool} {read : Peer}, (some peer).filter p = some read → peer = read :=
    fun h => Option.some.inj (Option.filter_eq_some_iff.mp h).1
  cases door with
  | accept parsed name now minted => exact ⟨rfl, rfl⟩
  | add request | requested name address | admitCredential credential =>
    simp only [row]
    split
    · next hfilter =>
      obtain rfl := hread hfilter
      exact ⟨rfl, rfl⟩
    · exact ⟨rfl, rfl⟩

/-- Whether the row is linked does not depend on the identifier a new one is given. -/
theorem row_status (existing : Option Peer) :
    (door.row id fingerprint existing).status = (door.row "" fingerprint existing).status := by
  cases existing with
  | none => cases door <;> rfl
  | some peer =>
    cases door with
    | accept parsed name now minted => rfl
    | add request | requested name address | admitCredential credential =>
      simp only [row]
      split <;> rfl

end Door

/-! ### What a step may do to the rows -/

namespace Call

variable {w : World} {t : Tables} {ids : List (String × String)} {id fingerprint : String}

def writes : Call → Bool
  | .save .. | .settle _ | .introduce .. | .dialled .. | .delete _ => true
  | _ => false

theorem peers_advance {call : Call} (h : call.writes = false) :
    (call.advance w t id).1.peers = t.peers := by
  cases call with
  | save | settle | introduce | dialled | delete => exact nomatch h
  | _ =>
    simp only [advance]
    repeat' split
    all_goals rfl

/-- **No row is linked under a ban** by a step of a call that holds nothing of that fingerprint. -/
theorem linked_advance {call : Call} (hunique : (ids.map (·.1)).Nodup)
    (hrows : ∀ row ∈ t.peers, (row.id, row.fingerprint) ∈ ids) (hreads : call.Reads ids)
    (hholds : call.holds fingerprint = false) :
    ∀ row ∈ (call.advance w t id).1.peers, row.fingerprint = fingerprint → row.status = .LINKED →
      ∃ old ∈ t.peers, old.id = row.id ∧ old.fingerprint = fingerprint ∧ old.status = .LINKED := by
  have hsame : ∀ row ∈ t.peers, row.fingerprint = fingerprint → row.status = .LINKED →
      ∃ old ∈ t.peers, old.id = row.id ∧ old.fingerprint = fingerprint ∧ old.status = .LINKED :=
    fun row hrow hfp hlinked => ⟨row, hrow, rfl, hfp, hlinked⟩
  -- A save leaves the other rows, and the saved one is not a linked row of that fingerprint.
  have hsaved : ∀ {peer : Peer} {t' : Tables}, t.save peer = .ok t' →
      (peer.fingerprint = fingerprint → peer.status ≠ .LINKED) →
      ∀ row ∈ t'.peers, row.fingerprint = fingerprint → row.status = .LINKED →
        ∃ old ∈ t.peers,
          old.id = row.id ∧ old.fingerprint = fingerprint ∧ old.status = .LINKED := by
    intro peer t' hsave hnot row hrow hfp hlinked
    rcases Tables.mem_of_save hsave hrow with ⟨hold, -⟩ | ⟨key, rfl⟩
    · exact hsame row hold hfp hlinked
    · exact absurd hlinked (hnot hfp)
  intro row hrow hfp hlinked
  cases call with
  | save door saved existing =>
    simp only [advance] at hrow
    split at hrow
    · exact hsame row hrow hfp hlinked
    · next hsave =>
      refine hsaved hsave (fun hmine => ?_) row hrow hfp hlinked
      have hof : (door.row id saved existing).fingerprint = saved := by
        cases existing with
        | none => exact door.row_none.2
        | some peer => exact (door.row_some peer).2.trans (hreads peer rfl).1
      rw [door.row_status]
      intro hst
      rw [holds, decide_eq_false_iff_not] at hholds
      exact hholds ⟨hof ▸ hmine, hst⟩
  | settle peer =>
    simp only [advance] at hrow
    split at hrow
    · exact hsame row hrow hfp hlinked
    · next hsave =>
      refine hsaved hsave (fun hmine => ?_) row hrow hfp hlinked
      exact absurd hmine (of_decide_eq_false hholds)
  | introduce credential known introducer depth keep =>
    simp only [advance] at hrow
    split at hrow
    · exact hsame row hrow hfp hlinked
    · next hsave =>
      refine hsaved hsave (fun hmine => ?_) row hrow hfp hlinked
      have hof : (introducedRow id credential introducer depth keep known).fingerprint =
          credential.fingerprint := by
        cases known with
        | none => rfl
        | some peer => exact (hreads peer rfl).1
      exact absurd (hof ▸ hmine) (of_decide_eq_false hholds)
  | dialled peer outcome =>
    cases outcome with
    | LINKED address =>
      obtain ⟨old, hold, rfl⟩ := List.mem_map.mp hrow
      by_cases hid : old.id = peer.id
      · -- The row of the peer that was dialled has its fingerprint still.
        have hpair : old.fingerprint = peer.fingerprint := by
          have hmem := hrows old hold
          rw [hid] at hmem
          exact congrArg Prod.snd (List.inj_on_of_nodup_map hunique hmem hreads rfl)
        rw [if_pos hid] at hfp
        exact absurd (hpair ▸ hfp) (of_decide_eq_false hholds)
      · rw [if_neg hid] at hfp hlinked ⊢
        exact hsame old hold hfp hlinked
    | UNREACHABLE | REFUSED =>
      obtain ⟨old, hold, rfl⟩ := List.mem_map.mp hrow
      by_cases hid : old.id = peer.id
      · rw [if_pos hid] at hlinked
        exact nomatch hlinked
      · rw [if_neg hid] at hfp hlinked ⊢
        exact hsame old hold hfp hlinked
  | delete peerId => exact hsame row (List.mem_filter.mp hrow).1 hfp hlinked
  | _ =>
    rw [peers_advance (by rfl)] at hrow
    exact hsame row hrow hfp hlinked

/-! ### What a call holds after a step -/

/-- Under a ban a step leaves nothing in the hand of its call. -/
theorem holds_advance {call : Call} {calls : List Call} (hguard : call.Heeds w t calls)
    (hbanned : t.isBanned fingerprint) : (call.advance w t id).2.holds fingerprint = false := by
  -- The five steps that come to hold a fingerprint, each stopped by what its call heeds.
  cases call with
  | find door found =>
    simp only [advance, holds, decide_eq_false_iff_not]
    rintro ⟨rfl, hlinked⟩
    exact hguard hbanned hlinked
  | approve peerId =>
    simp only [advance]
    split
    · rfl
    · next peer hfind =>
      split
      · rfl
      · next hout =>
        simp only [holds, decide_eq_false_iff_not]
        rintro rfl
        exact hout (hguard peer hfind hbanned)
  | reach credential token now known claim introducer publicKey =>
    simp only [advance]
    split
    · rfl
    · next depth hdistance =>
      simp only [holds, decide_eq_false_iff_not]
      rintro rfl
      have hnone := hguard hbanned
      rw [hdistance] at hnone
      exact nomatch hnone
  | findSubject credential claim =>
    simp only [advance, holds, decide_eq_false_iff_not]
    rintro ⟨rfl, hsettled⟩
    have hall := hguard hbanned
    unfold unsettled at hall
    cases hfind : t.findByFingerprint credential.fingerprint with
    | none => rw [hfind] at hsettled; exact nomatch hsettled
    | some peer =>
      rw [hfind, Option.all_some] at hall
      rw [hfind, Option.any_some] at hsettled
      rw [hsettled] at hall
      exact nomatch hall
  | recordBan banned peerId => cases peerId <;> rfl
  | check door found =>
    simp only [advance]
    split
    · cases door <;> rfl
    · rfl
  | save door saved existing =>
    simp only [advance]
    split
    · rfl
    · cases door <;> rfl
  | dialled peer outcome => cases outcome <;> rfl
  | _ =>
    simp only [advance]
    repeat' split
    all_goals rfl

theorem welcomes_advance {call : Call} {calls : List Call} (hguard : call.Heeds w t calls)
    (hbanned : t.isBanned fingerprint) (hholds : call.holds fingerprint = false)
    (hwelcomes : (call.advance w t id).2.welcomes fingerprint) :
    (call.advance w t id).2 = call := by
  cases call with
  | admitted presented answer | granted presented answer => rfl
  | answering credential =>
    simp only [advance, welcomes, decide_eq_true_eq] at hwelcomes
    obtain ⟨rfl, hsome⟩ := hwelcomes
    have hall := hguard hbanned
    unfold unsettled at hall
    cases hfind : t.findByFingerprint credential.fingerprint with
    | none => rw [hfind] at hsome; exact nomatch hsome
    | some peer =>
      rw [hfind, Option.all_some, Bool.not_eq_true'] at hall
      rw [hfind, Option.filter_some, if_neg (by rw [hall]; exact Bool.false_ne_true)] at hsome
      exact nomatch hsome
  -- What would be welcomed is what the call held before, and it held nothing banned.
  | introduce credential known introducer depth keep =>
    simp only [advance] at hwelcomes
    split at hwelcomes
    · exact nomatch hwelcomes
    · simp only [welcomes, decide_eq_true_eq] at hwelcomes
      exact absurd hwelcomes.1 (of_decide_eq_false hholds)
  | findHolder credential claim subject =>
    simp only [advance, welcomes, decide_eq_true_eq] at hwelcomes
    obtain ⟨rfl, hsome⟩ := hwelcomes
    simp only [holds, true_and, decide_eq_false_iff_not, Bool.not_eq_true] at hholds
    cases subject with
    | none => exact nomatch hsome
    | some peer =>
      rw [Option.any_some] at hholds
      rw [Option.filter_some, if_neg (by rw [hholds]; exact Bool.false_ne_true)] at hsome
      exact nomatch hsome
  | check door found =>
    simp only [advance] at hwelcomes
    split at hwelcomes
    · cases door <;> exact nomatch hwelcomes
    · exact nomatch hwelcomes
  | save door saved existing =>
    simp only [advance] at hwelcomes
    split at hwelcomes
    · exact nomatch hwelcomes
    · cases door <;> exact nomatch hwelcomes
  | recordBan banned peerId => cases peerId <;> exact nomatch hwelcomes
  | dialled peer outcome => cases outcome <;> exact nomatch hwelcomes
  | _ =>
    simp only [advance] at hwelcomes
    repeat' split at hwelcomes
    all_goals simp [welcomes, unintroduced] at hwelcomes

/-! ### What a call has read -/

/-- A step reads rows of the fingerprint it looks up, and makes new rows under the identifier it is
given. -/
theorem reads_advance {call : Call} (hrows : ∀ row ∈ t.peers, (row.id, row.fingerprint) ∈ ids)
    (hreads : call.Reads ids) : (call.advance w t id).2.Reads ids := by
  have hfound : ∀ {found : String} {peer : Peer}, t.findByFingerprint found = some peer →
      peer.fingerprint = found ∧ (peer.id, peer.fingerprint) ∈ ids := by
    intro found peer hfind
    have hmem := Tables.mem_of_findByFingerprint hfind
    unfold Tables.findByFingerprint at hfind
    have hsame := List.find?_some hfind
    exact ⟨of_decide_eq_true hsame, hrows peer hmem⟩
  -- A row that was found is in the table now; a call that has one only hands it on.
  cases call with
  | find door found => exact fun peer hpeer => hfound hpeer
  | admitCredential credential token now =>
    simp only [advance]
    split
    · trivial
    · split
      · trivial
      · exact fun peer hpeer => hfound hpeer
  | introduction credential token now known claim =>
    simp only [advance]
    split
    · trivial
    · exact hreads
  | findIntroducer credential token now known claim =>
    simp only [advance]
    split
    · trivial
    · exact hreads
  | key credential token now known claim introducer => exact hreads
  | reach credential token now known claim introducer publicKey =>
    simp only [advance]
    split
    · trivial
    · exact hreads
  | approve peerId =>
    simp only [advance]
    split
    · trivial
    · next hfind =>
      split
      · trivial
      · exact hrows _ (Tables.mem_of_findOne hfind)
  | dial peerId =>
    simp only [advance]
    split
    · trivial
    · next hfind => exact hrows _ (Tables.mem_of_findOne hfind)
  | dialCheck peer =>
    simp only [advance]
    split
    · trivial
    · exact hreads
  | dialling peer => exact hreads
  | check door found =>
    simp only [advance]
    split
    · cases door <;> trivial
    · trivial
  | save door saved existing =>
    simp only [advance]
    split
    · trivial
    · cases door <;> trivial
  | recordBan banned peerId => cases peerId <;> trivial
  | dialled peer outcome => cases outcome <;> trivial
  | _ =>
    simp only [advance]
    repeat' split
    all_goals trivial

theorem Reads.mono {ids' : List (String × String)} (hsub : ids ⊆ ids') {call : Call}
    (h : call.Reads ids) : call.Reads ids' := by
  cases call with
  | save | introduction | findIntroducer | key | reach | introduce =>
    exact fun peer hpeer => ⟨(h peer hpeer).1, hsub (h peer hpeer).2⟩
  | settle | dialCheck | dialling | dialled => exact hsub h
  | _ => trivial

theorem rows_advance {call : Call} {ids' : List (String × String)}
    (hrows : ∀ row ∈ t.peers, (row.id, row.fingerprint) ∈ ids) (hsub : ids ⊆ ids')
    (hreads : call.Reads ids) (hcreates : ∀ made ∈ call.creates, (id, made) ∈ ids') :
    ∀ row ∈ (call.advance w t id).1.peers, (row.id, row.fingerprint) ∈ ids' := by
  -- A row that is written has the key and the fingerprint the call came with.
  have hsaved : ∀ {peer : Peer} {t' : Tables}, t.save peer = .ok t' →
      (peer.id, peer.fingerprint) ∈ ids' →
      ∀ row ∈ t'.peers, (row.id, row.fingerprint) ∈ ids' := by
    intro peer t' hsave hpeer row hrow
    rcases Tables.mem_of_save hsave hrow with ⟨hold, -⟩ | ⟨key, rfl⟩
    · exact hsub (hrows row hold)
    · exact hpeer
  intro row hrow
  cases call with
  | save door saved existing =>
    simp only [advance] at hrow
    split at hrow
    · exact hsub (hrows row hrow)
    · next hsave =>
      refine hsaved hsave ?_ row hrow
      cases existing with
      | none =>
        rw [door.row_none.1, door.row_none.2]
        exact hcreates saved rfl
      | some peer =>
        rw [(door.row_some peer).1, (door.row_some peer).2]
        exact hsub (hreads peer rfl).2
  | settle peer =>
    simp only [advance] at hrow
    split at hrow
    · exact hsub (hrows row hrow)
    · next hsave => exact hsaved hsave (hsub hreads) row hrow
  | introduce credential known introducer depth keep =>
    simp only [advance] at hrow
    split at hrow
    · exact hsub (hrows row hrow)
    · next hsave =>
      refine hsaved hsave ?_ row hrow
      cases known with
      | none => exact hcreates credential.fingerprint rfl
      | some peer => exact hsub (hreads peer rfl).2
  | dialled peer outcome =>
    cases outcome with
    | LINKED _ | UNREACHABLE | REFUSED =>
      obtain ⟨old, hold, rfl⟩ := List.mem_map.mp hrow
      split <;> exact hsub (hrows old hold)
  | delete peerId => exact hsub (hrows row (List.mem_filter.mp hrow).1)
  | _ =>
    rw [peers_advance (by rfl)] at hrow
    exact hsub (hrows row hrow)

theorem banned_advance {call : Call} (hbanned : fingerprint ∈ (call.advance w t id).1.banned) :
    fingerprint ∈ t.banned ∨ ∃ peerId, call = .recordBan fingerprint peerId := by
  have hsaved : ∀ {peer : Peer} {t' : Tables}, t.save peer = .ok t' → t'.banned = t.banned := by
    intro peer t' hsave
    unfold Tables.save at hsave
    split at hsave
    · exact Except.ok.inj hsave ▸ rfl
    · split at hsave
      · exact nomatch hsave
      · exact Except.ok.inj hsave ▸ rfl
  cases call with
  | recordBan banned peerId =>
    simp only [advance, Tables.recordBan] at hbanned
    split at hbanned
    · exact .inl hbanned
    · rcases List.mem_cons.mp hbanned with rfl | hbanned
      · exact .inr ⟨peerId, rfl⟩
      · exact .inl hbanned
  | unban lifted => exact .inl (List.mem_filter.mp hbanned).1
  | dialled peer outcome => cases outcome <;> exact .inl hbanned
  | save door saved existing | settle peer | introduce credential known introducer depth keep =>
    apply Or.inl
    revert hbanned
    simp only [advance]
    split
    · exact fun h => h
    · next hsave => exact fun h => hsaved hsave ▸ h
  | _ =>
    apply Or.inl
    revert hbanned
    simp only [advance]
    repeat' split
    all_goals exact fun h => h

theorem begin_spec (ids : List (String × String)) (fingerprint : String) (request : Request) :
    (request.begin w).Reads ids ∧ (request.begin w).holds fingerprint = false ∧
      (request.begin w).welcomes fingerprint = false := by
  cases request with
  | admitCredential credential now =>
    simp only [Request.begin]
    repeat' split
    all_goals simp [Reads, holds, welcomes]
  | carry credential now =>
    simp only [Request.begin]
    repeat' split
    all_goals simp [Reads, holds, welcomes]
  | _ =>
    simp only [Request.begin]
    repeat' split
    all_goals exact ⟨trivial, rfl, rfl⟩

end Call

/-! ### Runs -/

namespace Calls

variable {w : World} {s s' : Calls}

theorem advance_cases {i : ℕ} {id : String} (hstep : step w s (.advance i id) = some s') :
    ∃ call, s.calls[i]? = some call ∧ s'.tables = (call.advance w s.tables id).1 ∧
      s'.calls = s.calls.set i (call.advance w s.tables id).2 ∧ s.ids ⊆ s'.ids ∧
      ((s.ids.map (·.1)).Nodup → (s'.ids.map (·.1)).Nodup) ∧
      ∀ made ∈ call.creates, (id, made) ∈ s'.ids := by
  obtain ⟨call, hcall, hstep⟩ := Option.bind_eq_some_iff.mp hstep
  dsimp only at hstep
  split at hstep
  · next hcreates =>
    cases hstep
    exact ⟨call, hcall, rfl, rfl, List.Subset.refl _, fun h => h, by rw [hcreates]; nofun⟩
  · next made hcreates =>
    split at hstep
    · exact nomatch hstep
    · next hnew =>
      cases hstep
      refine ⟨call, hcall, rfl, rfl, List.subset_cons_self ..,
        fun h => List.nodup_cons.mpr ⟨hnew, h⟩,
        fun other hother => ?_⟩
      rw [hcreates] at hother
      exact Option.some.inj hother ▸ List.mem_cons_self

/-- **One step keeps what the calls know true**, and leaves no call with something banned in its
hand. -/
theorem inv_step {action : Action} (h : s.Inv) (hguard : Heeds w s action)
    (hstep : step w s action = some s') : s'.Inv := by
  cases action with
  | advance i id =>
    obtain ⟨call, hcall, htables, hcalls, hsub, hunique, hcreates⟩ := advance_cases hstep
    have hmem := List.mem_of_getElem? hcall
    have hreads := h.calls call hmem
    refine ⟨hunique h.unique, fun row hrow => ?_, fun other hother => ?_,
      fun fp hbanned other hother => ?_⟩
    · rw [htables] at hrow
      exact Call.rows_advance h.rows hsub hreads hcreates row hrow
    · rw [hcalls] at hother
      rcases List.mem_or_eq_of_mem_set hother with hother | rfl
      · exact (h.calls other hother).mono hsub
      · exact (Call.reads_advance h.rows hreads).mono hsub
    · rw [hcalls] at hother
      rw [htables] at hbanned
      have hold := Call.banned_advance (of_decide_eq_true hbanned)
      rcases List.mem_or_eq_of_mem_set hother with hrest | rfl
      · rcases hold with hold | ⟨peerId, rfl⟩
        · exact h.quiet fp (decide_eq_true hold) other hrest
        -- The ban is recorded now, while no call holds anything of it.
        · exact hguard _ hcall other hrest
      · rcases hold with hold | ⟨peerId, rfl⟩
        · exact Call.holds_advance (hguard call hcall) (decide_eq_true hold)
        · cases peerId <;> rfl
  | call request =>
    cases hstep
    refine ⟨h.unique, h.rows, fun other hother => ?_, fun fp hbanned other hother => ?_⟩
    · rcases List.mem_append.mp hother with hother | hother
      · exact h.calls other hother
      · rw [List.mem_singleton.mp hother]
        exact (Call.begin_spec s.ids "" request).1
    · rcases List.mem_append.mp hother with hother | hother
      · exact h.quiet fp hbanned other hother
      · rw [List.mem_singleton.mp hother]
        exact (Call.begin_spec [] fp request).2.1
  | connected i outcome =>
    simp only [step] at hstep
    split at hstep
    · next peer hcall =>
      cases hstep
      have hreads := h.calls _ (List.mem_of_getElem? hcall)
      refine ⟨h.unique, h.rows, fun other hother => ?_, fun fp hbanned other hother => ?_⟩
      · rcases List.mem_or_eq_of_mem_set hother with hother | rfl
        · exact h.calls other hother
        · exact hreads
      · rcases List.mem_or_eq_of_mem_set hother with hother | rfl
        · exact h.quiet fp hbanned other hother
        · cases outcome with
          | LINKED address =>
            have hmay : s.tables.isBanned peer.fingerprint = false := hguard _ hcall
            refine decide_eq_false fun hmine => ?_
            rw [hmine, hbanned] at hmay
            exact nomatch hmay
          | UNREACHABLE | REFUSED => rfl
    · exact nomatch hstep
  | fail i =>
    simp only [step] at hstep
    split at hstep
    · cases hstep
      refine ⟨h.unique, h.rows, fun other hother => ?_, fun fp hbanned other hother => ?_⟩
      · rcases List.mem_or_eq_of_mem_set hother with hother | rfl
        · exact h.calls other hother
        · trivial
      · rcases List.mem_or_eq_of_mem_set hother with hother | rfl
        · exact h.quiet fp hbanned other hother
        · rfl
    · exact nomatch hstep
  | handshake peerId publicKey =>
    cases hstep
    refine ⟨h.unique, fun row hrow => ?_, h.calls, h.quiet⟩
    obtain ⟨old, hold, rfl⟩ := List.mem_map.mp hrow
    split <;> exact h.rows old hold
  | settings settings =>
    cases hstep
    exact ⟨h.unique, h.rows, h.calls, h.quiet⟩

/-- **One step under a ban** links nothing of that fingerprint and lets nobody in under it. -/
theorem final_step {action : Action} (h : s.Inv) (hguard : Heeds w s action)
    (hstep : step w s action = some s') {fingerprint : String}
    (hbanned : s.tables.isBanned fingerprint) :
    Final s s' fingerprint := by
  have hsame : ∀ row ∈ s.tables.peers, row.fingerprint = fingerprint → row.status = .LINKED →
      ∃ old ∈ s.tables.peers,
        old.id = row.id ∧ old.fingerprint = fingerprint ∧ old.status = .LINKED :=
    fun row hrow hfp hlinked => ⟨row, hrow, rfl, hfp, hlinked⟩
  -- A call that is replaced by one that lets nobody in.
  have hset : ∀ {i : ℕ} {next : Call}, (next.welcomes fingerprint → s.calls[i]? = some next) →
      ∀ (j : ℕ) (call : Call), (s.calls.set i next)[j]? = some call → call.welcomes fingerprint →
        s.calls[j]? = some call := by
    intro i next hnext j call hcall hwelcomes
    rw [List.getElem?_set] at hcall
    split at hcall
    · next hij =>
      subst hij
      split at hcall
      · cases hcall
        exact hnext hwelcomes
      · exact nomatch hcall
    · exact hcall
  cases action with
  | advance i id =>
    obtain ⟨call, hcall, htables, hcalls, -, -, -⟩ := advance_cases hstep
    have hmem := List.mem_of_getElem? hcall
    have hholds := h.quiet fingerprint hbanned call hmem
    constructor
    · rw [htables]
      exact Call.linked_advance h.unique h.rows (h.calls call hmem) hholds
    · rw [hcalls]
      refine hset fun hwelcomes => ?_
      exact hcall.trans (congrArg some
        (Call.welcomes_advance (hguard call hcall) hbanned hholds hwelcomes).symm)
  | call request =>
    cases hstep
    refine ⟨hsame, fun j call hcall hwelcomes => ?_⟩
    rcases Nat.lt_or_ge j s.calls.length with hlt | hge
    · rwa [List.getElem?_append_left hlt] at hcall
    · rw [List.getElem?_append_right hge] at hcall
      have hbegin := List.mem_singleton.mp (List.mem_of_getElem? hcall)
      rw [hbegin, (Call.begin_spec [] fingerprint request).2.2] at hwelcomes
      exact nomatch hwelcomes
  | connected i outcome =>
    simp only [step] at hstep
    split at hstep
    · cases hstep
      exact ⟨hsame, hset nofun⟩
    · exact nomatch hstep
  | fail i =>
    simp only [step] at hstep
    split at hstep
    · cases hstep
      exact ⟨hsame, hset nofun⟩
    · exact nomatch hstep
  | handshake peerId publicKey =>
    cases hstep
    refine ⟨fun row hrow hfp hlinked => ?_, fun j call hcall _ => hcall⟩
    obtain ⟨old, hold, rfl⟩ := List.mem_map.mp hrow
    split at hfp <;> split at hlinked <;> split <;> exact hsame old hold hfp hlinked
  | settings settings =>
    cases hstep
    exact ⟨hsame, fun j call hcall _ => hcall⟩

theorem inv_boot (settings : Settings) : (boot settings).Inv where
  unique := List.nodup_nil
  rows _ hrow := absurd hrow List.not_mem_nil
  calls _ hcall := absurd hcall List.not_mem_nil
  quiet _ _ _ hcall := absurd hcall List.not_mem_nil

/-- **A ban is final until it is lifted**, in every run in which no call is caught between what it
read and what it does with it: a step that starts while a fingerprint is on the list turns no row of
it into a linked one, and no call of `admit` or `carry` answers by letting it in. -/
theorem final_of_run {settings : Settings} {actions : List Action}
    (hrun : Run (step w) (Heeds w) (boot settings) actions s) {action : Action}
    (hguard : Heeds w s action) (hstep : step w s action = some s') :
    ∀ fingerprint, s.tables.isBanned fingerprint → Final s s' fingerprint := by
  have hinv := hrun.invariant (fun _ _ _ hi hg hs => inv_step hi hg hs) (inv_boot settings)
  exact fun fingerprint hbanned => final_step hinv hguard hstep hbanned

end Calls

/-! ### A friend who is banned -/

def hers : PeerCredential where
  fingerprint := "her"
  publicKey := "her key"
  challenge := "her:0"
  signature := "her keyher:0"
  introduction := none
  address := none

/-- She is linked by her invitation, and a ban of her row is under way, up to the record of it. -/
def linkedAndBanned : List Calls.Action :=
  [.call (.accept invitation none 0), .advance 0 "", .advance 0 "", .advance 0 "", .advance 0 "1",
    .advance 0 "", .call (.ban "1"), .advance 1 "", .advance 1 ""]

def calls : List Calls.Action := [.call (.admitCredential hers 0), .advance 2 ""]

/-- Her row is removed as well, and she is not let in. -/
theorem final_of_run_removed : ∃ s s',
    LabelledRun.exec (Calls.step village) (Calls.Heeds village) (.boot homeSettings)
      (linkedAndBanned ++ [.advance 1 "", .advance 1 ""] ++ calls) = some s ∧
    Calls.step village s (.advance 2 "") = some s' ∧ Calls.Final s s' "her" := by
  have hrun : (LabelledRun.exec (Calls.step village) (Calls.Heeds village) (.boot homeSettings)
      (linkedAndBanned ++ [.advance 1 "", .advance 1 ""] ++ calls)).any (fun s =>
        Calls.Heeds village s (.advance 2 "") ∧ s.tables.isBanned "her" ∧
          (Calls.step village s (.advance 2 "")).isSome) = true := by decide +kernel
  obtain ⟨s, hexec, hend⟩ := (Option.any_eq_true _ _).mp hrun
  obtain ⟨hguard, hbanned, hsome⟩ := of_decide_eq_true hend
  obtain ⟨s', hstep⟩ := Option.isSome_iff_exists.mp hsome
  exact ⟨s, s', hexec, hstep, Calls.final_of_run (.ofExec hexec) hguard hstep "her" hbanned⟩

/-- The removal throws, and she is let in over the ban. -/
theorem not_final_of_run : ¬ ∀ (w : World) (settings : Settings) (actions : List Calls.Action)
    (s s' : Calls) (action : Calls.Action), Run (Calls.step w) Free (.boot settings) actions s →
      Calls.step w s action = some s' →
        ∀ fingerprint, s.tables.isBanned fingerprint → Calls.Final s s' fingerprint := by
  intro h
  have hrun : (LabelledRun.exec (Calls.step village) Free (.boot homeSettings)
      (linkedAndBanned ++ [.fail 1] ++ calls)).any (fun s =>
        s.tables.isBanned "her" ∧ (s.calls[2]?).all (!Call.welcomes "her" ·) ∧
          (Calls.step village s (.advance 2 "")).any fun s' =>
            (s'.calls[2]?).any (Call.welcomes "her")) = true := by decide +kernel
  obtain ⟨s, hexec, hend⟩ := (Option.any_eq_true _ _).mp hrun
  obtain ⟨hbanned, hbefore, hafter⟩ := of_decide_eq_true hend
  obtain ⟨s', hstep, hcall⟩ := (Option.any_eq_true _ _).mp hafter
  obtain ⟨call, hget, hwelcomes⟩ := (Option.any_eq_true _ _).mp hcall
  have hfinal := h _ _ _ s s' _ (.ofExec hexec) hstep "her" hbanned
  rw [hfinal.welcomed 2 call hget hwelcomes, Option.all_some, hwelcomes] at hbefore
  exact nomatch hbefore

end MediaCenterSync.PeerManager
