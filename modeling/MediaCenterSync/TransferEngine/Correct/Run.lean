import MediaCenterSync.TransferEngine.Correct.ChunkPlanner
import MediaCenterSync.TransferEngine.Run

/-!
# What a run can do

One relation for the steps of a fetch and one for those of the main thread, with everything a step
needs and everything it changes.
-/

namespace MediaCenterSync.TransferEngine

/-! ### Fetches -/

inductive FetchStage.At (wholeFile : Bool) (position : ℕ) : FetchStage → Prop
  | streaming : At wholeFile position (.streaming wholeFile position)
  | paying {length : ℕ} : At wholeFile position (.paying wholeFile position length)

/-- The fetch takes what it has for the whole of what it was sent for. -/
def Fetch.Concludes (r : Run) (chunk : PlannedChunk) (f : Fetch) (wholeFile : Bool)
    (position : ℕ) : FetchAct → Prop
  | .ended => f.stage = .streaming wholeFile position
  | .piece _ => f.stage = .streaming wholeFile position ∧ (r.cancelling = true ∨ r.pausing = true)
  | .write _ => ∃ length, f.stage = .paying wholeFile position length ∧
      min length (r.fetchEnd chunk wholeFile - position) = 0
  | _ => False

/-- Something went wrong, whatever arrived before. -/
def Fetch.Breaks (r : Run) (chunk : PlannedChunk) (f : Fetch) : FetchAct → Prop
  | .answer wholeFile => f.stage = .asked ∧ wholeFile = true ∧ chunk.start ≠ 0
  | .write _ => ∃ wholeFile position length, f.stage = .paying wholeFile position length ∧
      min length (r.fetchEnd chunk wholeFile - position) ≠ 0 ∧
      ∃ inode, r.handle = some ⟨inode, .closed⟩
  | .error => f.stage = .asked ∨ ∃ wholeFile position, f.stage = .streaming wholeFile position
  | _ => False

/-- A fetch fails: something went wrong, or its range came short. -/
def Fetch.Fails (r : Run) (chunk : PlannedChunk) (f : Fetch) (a : FetchAct) : Prop :=
  f.Breaks r chunk a ∨
    ∃ position, f.Concludes r chunk false position a ∧ position - chunk.start < chunk.size

/-- What an action does to a fetch, with what it needs. -/
inductive Fetch.Step (content : ServiceId → List UInt8) (s : Store) (r : Run) (f : Fetch)
    (chunk : PlannedChunk) (source : RuntimeSource) :
    FetchAct → Store → Run → FetchResult → Prop
  | answer {wholeFile : Bool} : f.stage = .asked → (wholeFile = true → chunk.start = 0) →
      Step content s r f chunk source (.answer wholeFile) s r
        (.goes (.streaming wholeFile chunk.start))
  | piece {wholeFile : Bool} {position length : ℕ} : f.stage = .streaming wholeFile position →
      0 < length → position + length ≤ (content source.serviceId).length →
      r.cancelling = false → r.pausing = false →
      Step content s r f chunk source (.piece length) s r
        (.goes (.paying wholeFile position length))
  | write {wholeFile : Bool} {position length writable inode : ℕ} {rate : Option ℕ} :
      f.stage = .paying wholeFile position length →
      writable = min length (r.fetchEnd chunk wholeFile - position) →
      0 < writable → r.handle = some ⟨inode, .opened⟩ →
      Step content s r f chunk source (.write rate)
        { s with inodes := s.inodes.modify inode fun file =>
            file.write position (((content source.serviceId).drop position).take writable) }
        (r.account f.source writable rate)
        (.goes (.streaming wholeFile (position + writable)))
  | writeNowhere {wholeFile : Bool} {position length writable : ℕ} {rate : Option ℕ} :
      f.stage = .paying wholeFile position length →
      writable = min length (r.fetchEnd chunk wholeFile - position) →
      0 < writable → (∀ handle ∈ r.handle, handle.state = .dropped) →
      Step content s r f chunk source (.write rate) s (r.account f.source writable rate)
        (.goes (.streaming wholeFile (position + writable)))
  | fails {a : FetchAct} : a ≠ .save → (∀ patch threw, f.stage ≠ .saving patch threw) →
      f.Fails r chunk a →
      Step content s r f chunk source a s (r.failFetch f chunk).1 (r.failFetch f chunk).2
  | succeeds {a : FetchAct} {wholeFile : Bool} {position : ℕ} :
      f.Concludes r chunk wholeFile position a →
      (wholeFile = false → chunk.size ≤ position - chunk.start) →
      Step content s r f chunk source a s (r.succeedFetch f chunk wholeFile).1
        (r.succeedFetch f chunk wholeFile).2
  | save {patch : ChunkPatch} {threw : Bool} : f.stage = .saving patch threw →
      Step content s r f chunk source .save (s.updateState chunk.index patch)
        (r.modifySource f.source fun source =>
          { source with connections := source.connections - 1 })
        (if threw = true ∧ chunk.state = .FAILED then .threw else .returned)

section

variable {content : ServiceId → List UInt8} {s s' : Store} {r r' : Run} {f : Fetch}
  {chunk : PlannedChunk} {source : RuntimeSource} {result : FetchResult}

theorem Fetch.Concludes.at {wholeFile : Bool} {position : ℕ} {a : FetchAct}
    (h : f.Concludes r chunk wholeFile position a) : f.stage.At wholeFile position := by
  cases a with
  | ended => rw [show f.stage = _ from h]; exact .streaming
  | piece => rw [h.1]; exact .streaming
  | write =>
    obtain ⟨length, hstage, _⟩ := h
    rw [hstage]
    exact .paying
  | answer | error | save => exact absurd h (by simp [Fetch.Concludes])

theorem Fetch.Step.of_conclude {wholeFile : Bool} {position : ℕ} {a : FetchAct}
    (h : f.Concludes r chunk wholeFile position a) :
    Step content s r f chunk source a s (r.concludeFetch f chunk wholeFile position).1
      (r.concludeFetch f chunk wholeFile position).2 := by
  unfold Run.concludeFetch
  split
  · rename_i hshort
    refine .fails ?_ ?_ (.inr ⟨position, ?_, hshort.2⟩)
    · rintro rfl
      exact h
    · intro patch threw hstage
      have := h.at
      rw [hstage] at this
      cases this
    · rw [hshort.1] at h
      exact h
  · rename_i hsize
    refine .succeeds h fun hwhole => ?_
    by_contra hshort
    exact hsize ⟨hwhole, by omega⟩

/-- **Inversion** for fetches. -/
theorem Fetch.Step.of_step {a : FetchAct}
    (h : f.step content s r chunk source a = some (s', r', result)) :
    Step content s r f chunk source a s' r' result := by
  cases a with
  | answer wholeFile =>
    simp only [Fetch.step] at h
    split at h
    · rename_i hstage
      split at h
      · rename_i hwhole
        cases h
        exact .fails nofun (by simp [hstage]) (.inl ⟨hstage, hwhole.1, hwhole.2⟩)
      · rename_i hwhole
        cases h
        exact .answer hstage fun h => by_contra fun hstart => hwhole ⟨h, hstart⟩
    · cases h
  | piece length =>
    simp only [Fetch.step] at h
    split at h
    · rename_i wholeFile position hstage
      split at h
      · rename_i hlength
        split at h
        · rename_i hflag
          cases h
          exact .of_conclude ⟨hstage, hflag⟩
        · rename_i hflag
          cases h
          obtain ⟨hcancelling, hpausing⟩ := not_or.mp hflag
          exact .piece hstage hlength.1 hlength.2 (by simpa using hcancelling)
            (by simpa using hpausing)
      · cases h
    · cases h
  | write rate =>
    simp only [Fetch.step] at h
    split at h
    · rename_i wholeFile position length hstage
      split at h
      · rename_i hfull
        cases h
        exact .of_conclude ⟨length, hstage, hfull⟩
      · rename_i hroom
        split at h
        · rename_i inode hhandle
          cases h
          exact .write hstage rfl (by omega) hhandle
        · rename_i inode hclosed
          cases h
          exact .fails nofun (by simp [hstage])
            (.inl ⟨wholeFile, position, length, hstage, hroom, inode, hclosed⟩)
        · rename_i hopened hclosed
          cases h
          refine .writeNowhere hstage rfl (by omega) fun handle hh => ?_
          obtain ⟨inode, state⟩ := handle
          cases state with
          | opened => exact absurd hh (hopened inode)
          | closed => exact absurd hh (hclosed inode)
          | dropped => rfl
    · cases h
  | ended =>
    simp only [Fetch.step] at h
    split at h
    · rename_i wholeFile position hstage
      cases h
      exact .of_conclude hstage
    · cases h
  | error =>
    simp only [Fetch.step] at h
    split at h
    · rename_i hstage
      cases h
      exact .fails nofun (by simp [hstage]) (.inl (.inl hstage))
    · rename_i wholeFile position hstage
      cases h
      exact .fails nofun (by simp [hstage]) (.inl (.inr ⟨wholeFile, position, hstage⟩))
    · cases h
  | save =>
    simp only [Fetch.step] at h
    split at h
    · rename_i patch threw hstage
      cases h
      exact .save hstage
    · cases h

end

/-! ### What a fetch leaves alone -/

def PlannedChunk.range (chunk : PlannedChunk) : ℕ × ℕ × ℕ := (chunk.start, chunk.last, chunk.size)

/-- The two are one run, but for the states of its chunks and the figures of its sources. -/
structure Run.Alike (r r' : Run) : Prop where
  phase : r'.phase = r.phase
  workers : r'.workers = r.workers
  transfer : r'.transfer = r.transfer
  handle : r'.handle = r.handle
  aborted : r'.aborted = r.aborted
  pausing : r'.pausing = r.pausing
  cancelling : r'.cancelling = r.cancelling
  cancelKind : r'.cancelKind = r.cancelKind
  bytesTotal : r'.plan.bytesTotal = r.plan.bytesTotal
  ranges : r'.plan.chunks.map (·.range) = r.plan.chunks.map (·.range)
  capabilities : r'.sources.map (·.capabilities) = r.sources.map (·.capabilities)

namespace Run.Alike

variable {r r' r'' : Run}

theorem refl (r : Run) : r.Alike r := ⟨rfl, rfl, rfl, rfl, rfl, rfl, rfl, rfl, rfl, rfl, rfl⟩

theorem trans (h : r.Alike r') (h' : r'.Alike r'') : r.Alike r'' where
  phase := h'.phase.trans h.phase
  workers := h'.workers.trans h.workers
  transfer := h'.transfer.trans h.transfer
  handle := h'.handle.trans h.handle
  aborted := h'.aborted.trans h.aborted
  pausing := h'.pausing.trans h.pausing
  cancelling := h'.cancelling.trans h.cancelling
  cancelKind := h'.cancelKind.trans h.cancelKind
  bytesTotal := h'.bytesTotal.trans h.bytesTotal
  ranges := h'.ranges.trans h.ranges
  capabilities := h'.capabilities.trans h.capabilities

end Run.Alike

/-- Changing an entry in place does not change what is the same about it. -/
theorem map_modify_eq {α β : Type*} (l : List α) (i : ℕ) {f : α → α} {g : α → β}
    (h : ∀ a, g (f a) = g a) : (l.modify i f).map g = l.map g := by
  apply List.ext_getElem?
  intro j
  simp only [List.getElem?_map, List.getElem?_modify]
  by_cases hij : i = j
  · simp [hij, Option.map_map, Function.comp_def, h]
  · simp [hij]

theorem Run.alike_modifyChunk (r : Run) (chunk : ℕ) {g : PlannedChunk → PlannedChunk}
    (h : ∀ c, (g c).range = c.range) : r.Alike (r.modifyChunk chunk g) :=
  { Alike.refl r with ranges := map_modify_eq _ _ h }

theorem Run.alike_modifySource (r : Run) (source : ℕ) {g : RuntimeSource → RuntimeSource}
    (h : ∀ s, (g s).capabilities = s.capabilities) : r.Alike (r.modifySource source g) :=
  { Alike.refl r with capabilities := map_modify_eq _ _ h }

theorem Run.alike_beginFetch (r : Run) (chunk source : ℕ) :
    r.Alike (r.beginFetch chunk source) := by
  unfold beginFetch
  apply (r.alike_modifySource source ?_).trans (alike_modifyChunk _ chunk ?_)
  · exact fun _ => rfl
  · exact fun _ => rfl

theorem Run.alike_account (r : Run) (source bytes : ℕ) (rate : Option ℕ) :
    r.Alike (r.account source bytes rate) := by
  have h := r.alike_modifySource source (g := fun s => { s with rate := rate.getD s.rate })
    fun _ => rfl
  simp only [account]
  split <;> exact ⟨h.phase, h.workers, h.transfer, h.handle, h.aborted, h.pausing, h.cancelling,
    h.cancelKind, h.bytesTotal, h.ranges, h.capabilities⟩

@[simp] theorem Run.account_chunks (r : Run) (source bytes : ℕ) (rate : Option ℕ) :
    (r.account source bytes rate).plan.chunks = r.plan.chunks := by
  simp only [account]
  split <;> rfl

theorem Run.alike_failFetch (r : Run) (f : Fetch) (chunk : PlannedChunk) :
    r.Alike (r.failFetch f chunk).1 := by
  unfold failFetch
  apply (r.alike_modifyChunk f.chunk ?_).trans (alike_modifySource _ f.source ?_)
  · exact fun _ => rfl
  · exact fun _ => rfl

theorem Run.alike_succeedFetch (r : Run) (f : Fetch) (chunk : PlannedChunk) (wholeFile : Bool) :
    r.Alike (r.succeedFetch f chunk wholeFile).1 := by
  have h := r.alike_modifyChunk f.chunk
    (g := fun c => { c with state := .DONE, bytesDone := c.size }) fun _ => rfl
  refine (h.trans ?_).trans (alike_modifySource _ f.source fun _ => rfl)
  cases wholeFile with
  | false => exact .refl _
  | true => exact { Alike.refl _ with ranges := by simp [PlannedChunk.range] }

theorem Fetch.Step.alike {content : ServiceId → List UInt8} {s s' : Store} {r r' : Run} {f : Fetch}
    {chunk : PlannedChunk} {source : RuntimeSource} {result : FetchResult} {a : FetchAct}
    (h : Step content s r f chunk source a s' r' result) : r.Alike r' := by
  cases h with
  | answer | piece => exact .refl r
  | write | writeNowhere => exact r.alike_account ..
  | fails => exact r.alike_failFetch f chunk
  | succeeds => exact r.alike_succeedFetch f chunk _
  | save => exact r.alike_modifySource f.source fun _ => rfl

/-- The loop of a worker changes its worker and chunks; when every source failed, the download is
over. -/
theorem Run.alike_turn (r : Run) (draining : Bool) (w : ℕ) :
    r.Alike { r.turn draining w with phase := r.phase, workers := r.workers } := by
  unfold turn
  split
  · exact .refl r
  · split
    · exact .refl r
    · rename_i chunk _
      split
      · split
        · simp only
          split <;> exact .refl r
        · exact .refl r
      · rename_i source _
        have h := (r.alike_modifyChunk chunk (g := fun c => { c with state := .ACTIVE })
          fun _ => rfl).trans (alike_beginFetch _ chunk source)
        exact { h with phase := rfl, workers := rfl }

theorem Run.phase_turn (r : Run) (draining : Bool) (w : ℕ) :
    (r.turn draining w).phase = r.phase ∨
      r.phase = .downloading ∧ (r.turn draining w).phase = .catching none := by
  unfold turn
  split
  · exact .inl rfl
  · split
    · exact .inl rfl
    · split
      · split
        · simp only
          split
          · rename_i hphase
            exact .inr ⟨hphase, rfl⟩
          · exact .inl rfl
        · exact .inl rfl
      · exact .inl rfl

theorem Run.alike_settleWork (r : Run) (w : ℕ) (f : Fetch) (result : FetchResult) :
    r.Alike { r.settleWork w f result with phase := r.phase, workers := r.workers } := by
  cases result with
  | goes | returned => exact .refl r
  | threw =>
    simp only [settleWork]
    split <;> exact .refl r

theorem Run.phase_settleWork (r : Run) (w : ℕ) (f : Fetch) (result : FetchResult) :
    (r.settleWork w f result).phase = r.phase ∨
      r.phase = .downloading ∧ (r.settleWork w f result).phase = .catching none := by
  cases result with
  | goes | returned => exact .inl rfl
  | threw =>
    simp only [settleWork]
    split
    · rename_i hphase
      exact .inr ⟨hphase, rfl⟩
    · exact .inl rfl

theorem Run.alike_assign (r : Run) (rest : List RepairAssignment) :
    r.Alike { r.assign rest with phase := r.phase } := by
  unfold assign
  split
  · exact .refl r
  · split
    · exact .refl r
    · rename_i chunk _
      have h := r.alike_modifyChunk chunk
        (g := fun c => { c with state := .CORRUPT, bytesDone := 0 }) fun _ => rfl
      simp only
      split
      · exact { h with phase := rfl }
      · rename_i source _
        exact { h.trans (alike_beginFetch _ chunk source) with phase := rfl }

theorem Run.phase_assign (r : Run) (rest : List RepairAssignment) :
    (r.assign rest).phase = .verifying ∨ (∃ rest', (r.assign rest).phase = .repairing rest') ∨
      ∃ f rest', (r.assign rest).phase = .refetching f rest' := by
  unfold assign
  split
  · exact .inl rfl
  · split
    · exact .inr (.inl ⟨_, rfl⟩)
    · simp only
      split
      · exact .inr (.inl ⟨_, rfl⟩)
      · exact .inr (.inr ⟨_, _, rfl⟩)

theorem Fetch.Step.store {content : ServiceId → List UInt8} {s s' : Store} {r r' : Run} {f : Fetch}
    {chunk : PlannedChunk} {source : RuntimeSource} {result : FetchResult} {a : FetchAct}
    (h : Step content s r f chunk source a s' r' result) :
    s'.row = s.row ∧ s'.work = s.work ∧ s'.placed = s.placed := by
  cases h <;> exact ⟨rfl, rfl, rfl⟩

/-! ### Plans -/

theorem map_adoptPieceChecksums {β : Type*} {g : PlannedChunk → β}
    (hg : ∀ (c : PlannedChunk) (checksum : Option String), g { c with checksum := checksum } = g c)
    (plan : ChunkPlan) (sources : List RuntimeSource) :
    (adoptPieceChecksums plan sources).chunks.map g = plan.chunks.map g := by
  unfold adoptPieceChecksums
  induction sources generalizing plan with
  | nil => rfl
  | cons source sources ih =>
    rw [List.foldl_cons, ih]
    unfold adoptChecksumsOf
    split
    · split
      · rw [List.map_map]
        exact List.map_congr_left fun c _ => hg c _
      · rfl
    · rfl

theorem adoptPieceChecksums_same (plan : ChunkPlan) (sources : List RuntimeSource) :
    (adoptPieceChecksums plan sources).bytesTotal = plan.bytesTotal ∧
      (adoptPieceChecksums plan sources).chunks.map (fun c => (c.range, c.state)) =
        plan.chunks.map (fun c => (c.range, c.state)) := by
  refine ⟨?_, map_adoptPieceChecksums (fun _ _ => rfl) plan sources⟩
  unfold adoptPieceChecksums
  induction sources generalizing plan with
  | nil => rfl
  | cons source sources ih =>
    rw [List.foldl_cons, ih]
    unfold adoptChecksumsOf
    split
    · split <;> rfl
    · rfl

/-- A chunk of a plan is where it was laid out, and as far. -/
theorem mem_adoptPieceChecksums {plan : ChunkPlan} {sources : List RuntimeSource}
    {chunk : PlannedChunk} (h : chunk ∈ (adoptPieceChecksums plan sources).chunks) :
    ∃ planned ∈ plan.chunks, planned.range = chunk.range ∧ planned.state = chunk.state := by
  have hmem := List.mem_map_of_mem (f := fun c : PlannedChunk => (c.range, c.state)) h
  rw [(adoptPieceChecksums_same plan sources).2] at hmem
  obtain ⟨planned, hplanned, heq⟩ := List.mem_map.mp hmem
  exact ⟨planned, hplanned, congrArg Prod.fst heq, congrArg Prod.snd heq⟩

/-! ### Phases -/

/-- The phases before the plan is made. -/
def RunPhase.unplanned : RunPhase → Bool
  | .load | .setState .CONNECTING _ | .preparing | .planning => true
  | _ => false

/-- The phases from the end of the download to that of the move. -/
def RunPhase.late : RunPhase → Bool
  | .setState .VERIFYING _ | .verifying | .setState .REPAIRING _ | .repairing _ | .refetching _ _
  | .setState .PLACING _ | .placing | .moving => true
  | _ => false

/-- The phases that lead out of a run, whatever it has got to. -/
def RunPhase.over : RunPhase → Bool
  | .failing | .catching _ | .closing | .ended => true
  | _ => false

def Worker.fetch : Worker → Option Fetch
  | .fetching f => some f
  | _ => none

def RunPhase.fetch : RunPhase → Option Fetch
  | .refetching f _ => some f
  | _ => none

/-! ### The main thread -/

/-- What an action does to the main thread, with what it needs. -/
inductive Run.Step (hash : List UInt8 → String) (s : Store) (r : Run) :
    RunAct → Store → Run → Effect → Prop
  | loadEnded : r.phase = .load → (s.row.state = .CANCELLED ∨ s.row.state = .DONE) →
      Step hash s r .next s { r with phase := .closing } .stays
  | load : r.phase = .load → s.row.state ≠ .CANCELLED → s.row.state ≠ .DONE →
      Step hash s r .next s { r with phase := .setState .CONNECTING none, transfer := s.row } .stays
  | setLoad {state : TransferState} : r.phase = .setState state none →
      Step hash s r .next s { r with phase := .setState state (some s.row) } .stays
  | setSave {state : TransferState} {copy : Row} : r.phase = .setState state (some copy) →
      Step hash s r .next { s with row := { copy with state := state } } (r.after state) .stays
  | plan : r.phase = .planning → Step hash s r .next s (r.plans s) .stays
  | persist : r.phase = .persisting →
      Step hash s r .next { s with row := r.transfer }
        { r with phase := if r.plan.resumed then .opening else .inserting r.plan.chunks } .stays
  | inserted : r.phase = .inserting [] →
      Step hash s r .next s { r with phase := .opening } .stays
  | insert {rest : List PlannedChunk} : r.phase = .inserting rest →
      Step hash s r .next
        { s with chunkRows := s.chunkRows ++ (rest.take INSERT_BATCH).map (·.entry) }
        { r with phase := .inserting (rest.drop INSERT_BATCH) } .stays
  | insertFails {rest : List PlannedChunk} : r.phase = .inserting rest →
      (∃ c ∈ rest.take INSERT_BATCH, ∃ row ∈ s.chunkRows, row.index = c.index) →
      Step hash s r .next s r.threw .stays
  | open : r.phase = .opening →
      Step hash s r .next (s.openWorkFile r.plan.bytesTotal).1
        { r with
          phase := .setState .DOWNLOADING none
          handle := some ⟨(s.openWorkFile r.plan.bytesTotal).2, .opened⟩ } .register
  | downloadedCancel : r.phase = .downloading → (∀ worker ∈ r.workers, worker = .returned) →
      r.cancelling = true →
      Step hash s r .next s { r with phase := .cancelling r.cancelKind .load } .leave
  | downloadedPause : r.phase = .downloading → (∀ worker ∈ r.workers, worker = .returned) →
      r.cancelling = false → r.pausing = true →
      Step hash s r .next s { r with phase := .setState .PAUSED none } .stays
  | downloaded : r.phase = .downloading → (∀ worker ∈ r.workers, worker = .returned) →
      r.cancelling = false → r.pausing = false →
      Step hash s r .next s { r with phase := .setState .VERIFYING none } .stays
  | cancelLoad {kind : TransferErrorKind} : r.phase = .cancelling kind .load →
      Step hash s r .next s { r with phase := .cancelling kind (.save s.row) } .stays
  | cancelSave {kind : TransferErrorKind} {copy : Row} : r.phase = .cancelling kind (.save copy) →
      Step hash s r .next
        { s with row := { copy with state := .CANCELLED, errorKind := some kind } }
        { r with phase := .cancelling kind .remove } .stays
  | cancelRemove {kind : TransferErrorKind} : r.phase = .cancelling kind .remove →
      Step hash s r .next { s with work := none } { r with phase := .closing } .stays
  | verified : r.phase = .verifying →
      (verify hash s.workFile (r.plan.chunks.map (·.verifiable)) (some r.plan.bytesTotal) none).ok =
        true →
      Step hash s r .next s { r with phase := .setState .PLACING none } .stays
  | repair {report : VerificationReport} : r.phase = .verifying →
      (verify hash s.workFile (r.plan.chunks.map (·.verifiable)) (some r.plan.bytesTotal) none).ok =
        false →
      Step hash s r .next s
        { r with phase := .setState .REPAIRING none, pass := r.pass + 1, report := report } .stays
  | giveUp : r.phase = .verifying →
      (verify hash s.workFile (r.plan.chunks.map (·.verifiable)) (some r.plan.bytesTotal) none).ok =
        false →
      MAX_REPAIR_PASSES ≤ r.pass →
      Step hash s r .next s
        { r with
          phase := .failing
          transfer :=
            { r.transfer with state := .FAILED, errorKind := some .CHECKSUM_MISMATCH } } .stays
  | assign {rest : List RepairAssignment} : r.phase = .repairing rest →
      Step hash s r .next s (r.assign rest) .stays
  | fails : r.phase = .failing →
      Step hash s r .next { s with row := r.transfer } { r with phase := .closing } .stays
  | placeStops {reason : AbortReason} : r.phase = .placing → r.aborted = some reason →
      Step hash s r .next s ({ r with handle := r.handle.map .drop }.stop reason).1
        ({ r with handle := r.handle.map .drop }.stop reason).2
  | place : r.phase = .placing → r.aborted = none →
      Step hash s r .next s { r with handle := r.handle.map .drop, phase := .moving } .stays
  | finish : r.phase = .finishing →
      Step hash s r .next { s with row := r.transfer } { r with phase := .closing } .stays
  | catchLoad : r.phase = .catching none →
      Step hash s r .next s { r with phase := .catching (some s.row) } .stays
  | close : r.phase = .closing →
      Step hash s r .next s { r with phase := .ended, handle := r.handle.map .close } .finish
  | noSource : r.phase = .preparing →
      Step hash s r (.prepared []) s
        { r with
          phase := .failing
          transfer := { r.transfer with state := .FAILED, errorKind := some .SOURCE_GONE } } .stays
  | prepared {sources : List (ServiceId × TransportCapabilities)} : r.phase = .preparing →
      sources ≠ [] →
      Step hash s r (.prepared sources) s
        { r with phase := .planning, sources := sources.map .fresh } .stays
  | moved {inode : ℕ} {file : SparseFile UInt8} : r.phase = .moving → s.work = some inode →
      s.inodes[inode]? = some file →
      Step hash s r .moved { s with work := none, placed := some file }
        { r with
          phase := .finishing
          transfer := { r.transfer with state := .DONE, errorKind := none } } .stays
  | stops {reason : AbortReason} : r.phase = .moving → r.aborted = some reason →
      Step hash s r .stopped s (r.stop reason).1 (r.stop reason).2
  | throws : (r.phase = .preparing ∨ r.phase = .opening ∨ r.phase = .moving) →
      Step hash s r .throws s r.threw .stays
  | fail {kind : TransferErrorKind} {copy : Row} : r.phase = .catching (some copy) →
      Step hash s r (.fail kind)
        { s with row := { copy with state := .FAILED, errorKind := some kind } }
        { r with phase := .closing } .stays

section

variable {hash : List UInt8 → String} {s s' : Store} {r r' : Run} {effect : Effect}

theorem Run.Step.of_load (hphase : r.phase = .load)
    (h : r.step hash s .next = some (s', r', effect)) : Step hash s r .next s' r' effect := by
  simp only [Run.step, hphase] at h
  split at h
  · next hended =>
    cases h
    exact .loadEnded hphase hended
  · next hlive =>
    obtain ⟨hcancelled, hdone⟩ := not_or.mp hlive
    cases h
    exact .load hphase hcancelled hdone

theorem Run.Step.of_inserting {rest : List PlannedChunk} (hphase : r.phase = .inserting rest)
    (h : r.step hash s .next = some (s', r', effect)) : Step hash s r .next s' r' effect := by
  cases rest with
  | nil =>
    simp only [Run.step, hphase] at h
    cases h
    exact .inserted hphase
  | cons chunk rest =>
    simp only [Run.step, hphase] at h
    split at h
    · next hclash =>
      cases h
      exact .insertFails hphase (by simpa using hclash)
    · cases h
      exact .insert hphase

/-- The download ends when every worker has returned; a cancellation comes before a pause. -/
theorem Run.Step.of_downloading (hphase : r.phase = .downloading)
    (h : r.step hash s .next = some (s', r', effect)) : Step hash s r .next s' r' effect := by
  simp only [Run.step, hphase] at h
  split at h
  · next hreturned =>
    cases hcancelling : r.cancelling with
    | true =>
      rw [if_pos hcancelling] at h
      cases h
      exact .downloadedCancel hphase hreturned hcancelling
    | false =>
      rw [if_neg (by simp [hcancelling])] at h
      cases hpausing : r.pausing with
      | true =>
        rw [if_pos hpausing] at h
        cases h
        exact .downloadedPause hphase hreturned hcancelling hpausing
      | false =>
        rw [if_neg (by simp [hpausing])] at h
        cases h
        exact .downloaded hphase hreturned hcancelling hpausing
  · cases h

theorem Run.Step.of_cancelling {kind : TransferErrorKind} {stage : CancelStage}
    (hphase : r.phase = .cancelling kind stage)
    (h : r.step hash s .next = some (s', r', effect)) : Step hash s r .next s' r' effect := by
  simp only [Run.step, hphase] at h
  cases stage with
  | load =>
    cases h
    exact .cancelLoad hphase
  | save copy =>
    cases h
    exact .cancelSave hphase
  | remove =>
    cases h
    exact .cancelRemove hphase

theorem Run.Step.of_verifying (hphase : r.phase = .verifying)
    (h : r.step hash s .next = some (s', r', effect)) : Step hash s r .next s' r' effect := by
  simp only [Run.step, hphase] at h
  split at h
  · next hreport =>
    cases h
    exact .verified hphase hreport
  · next hreport =>
    have hreport := Bool.eq_false_iff.mpr hreport
    split at h
    · cases h
      exact .repair hphase hreport
    · next hpass =>
      cases h
      exact .giveUp hphase hreport (Nat.le_of_not_lt hpass)

theorem Run.Step.of_placing (hphase : r.phase = .placing)
    (h : r.step hash s .next = some (s', r', effect)) : Step hash s r .next s' r' effect := by
  simp only [Run.step, hphase] at h
  split at h
  · next reason haborted =>
    cases h
    exact .placeStops hphase haborted
  · next haborted =>
    cases h
    exact .place hphase haborted

/-- **Inversion** for what the main thread does of its own accord, phase by phase. -/
theorem Run.Step.of_next (h : r.step hash s .next = some (s', r', effect)) :
    Step hash s r .next s' r' effect := by
  cases hphase : r.phase with
  | load => exact .of_load hphase h
  | setState state copy =>
    simp only [Run.step, hphase] at h
    cases copy with
    | none =>
      cases h
      exact .setLoad hphase
    | some copy =>
      cases h
      exact .setSave hphase
  | planning =>
    simp only [Run.step, hphase] at h
    cases h
    exact .plan hphase
  | persisting =>
    simp only [Run.step, hphase] at h
    cases h
    exact .persist hphase
  | inserting rest => exact .of_inserting hphase h
  | opening =>
    simp only [Run.step, hphase] at h
    cases h
    exact .open hphase
  | downloading => exact .of_downloading hphase h
  | cancelling kind stage => exact .of_cancelling hphase h
  | verifying => exact .of_verifying hphase h
  | repairing rest =>
    simp only [Run.step, hphase] at h
    cases h
    exact .assign hphase
  | failing =>
    simp only [Run.step, hphase] at h
    cases h
    exact .fails hphase
  | placing => exact .of_placing hphase h
  | finishing =>
    simp only [Run.step, hphase] at h
    cases h
    exact .finish hphase
  | catching copy =>
    simp only [Run.step, hphase] at h
    cases copy with
    | none =>
      cases h
      exact .catchLoad hphase
    | some copy => cases h
  | closing =>
    simp only [Run.step, hphase] at h
    cases h
    exact .close hphase
  -- What these wait for is not the thread's to do.
  | preparing | refetching fetch rest | moving | ended =>
    simp only [Run.step, hphase] at h
    cases h

theorem Run.Step.of_prepared {sources : List (ServiceId × TransportCapabilities)}
    (h : r.step hash s (.prepared sources) = some (s', r', effect)) :
    Step hash s r (.prepared sources) s' r' effect := by
  simp only [Run.step] at h
  split at h
  · next hphase =>
    split at h
    · next hnone =>
      subst hnone
      cases h
      exact .noSource hphase
    · next hsome =>
      cases h
      exact .prepared hphase hsome
  · cases h

theorem Run.Step.of_throws (h : r.step hash s .throws = some (s', r', effect)) :
    Step hash s r .throws s' r' effect := by
  simp only [Run.step] at h
  split at h
  · next hphase =>
    cases h
    exact .throws (.inl hphase)
  · next hphase =>
    cases h
    exact .throws (.inr (.inl hphase))
  · next hphase =>
    cases h
    exact .throws (.inr (.inr hphase))
  · cases h

/-- **Inversion** for the main thread. -/
theorem Run.Step.of_step {a : RunAct} (h : r.step hash s a = some (s', r', effect)) :
    Step hash s r a s' r' effect := by
  cases a with
  | next => exact .of_next h
  | prepared sources => exact .of_prepared h
  | moved =>
    simp only [Run.step] at h
    split at h
    · next file hphase hwork =>
      obtain ⟨inode, hwork, hfile⟩ := Option.bind_eq_some_iff.mp hwork
      cases h
      exact .moved hphase hwork hfile
    · cases h
  | stopped =>
    simp only [Run.step] at h
    split at h
    · next reason hphase haborted =>
      cases h
      exact .stops hphase haborted
    · cases h
  | throws => exact .of_throws h
  | fail kind =>
    simp only [Run.step] at h
    split at h
    · next copy hphase =>
      cases h
      exact .fail hphase
    · cases h

end

end MediaCenterSync.TransferEngine
