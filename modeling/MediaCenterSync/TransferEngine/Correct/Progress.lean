import MediaCenterSync.TransferEngine.Correct.Accounting
import MediaCenterSync.TransferEngine.Correct.Sizes

/-!
# Progress is bounded

What a run counts is never more than there is, and it is what is done whenever no fetch is in
flight, as long as bytes that were counted stay counted and are counted once (`CountsOnce`): a fetch
fails before anything of it is counted, a chunk that is done is not asked for again, and a source
that sends the whole file is alone.
-/

namespace MediaCenterSync.TransferEngine

/-! ### What is asked of a run -/

def Run.Quiet (r : Run) : Prop :=
  (∀ f, .fetching f ∉ r.workers) ∧ ∀ f rest, r.phase ≠ .refetching f rest

/-- **Progress accounting is bounded.** -/
structure Run.ProgressBounded (r : Run) : Prop where
  le : r.plan.bytesDone ≤ r.plan.bytesTotal
  eq_done : r.Quiet → r.plan.bytesDone = r.plan.doneBytes

/-! ### The fetches under way -/

def Worker.streams : Worker → List Fetch
  | .fetching f => f.streams
  | _ => []

def RunPhase.streams : RunPhase → List Fetch
  | .refetching f _ => f.streams
  | _ => []

def Run.streams (r : Run) : List Fetch := r.workers.flatMap Worker.streams ++ r.phase.streams

/-- What is under way of a fetch after a step. -/
def FetchResult.streams (f : Fetch) : FetchResult → List Fetch
  | .goes stage => Fetch.streams { f with stage := stage }
  | .returned | .threw => []

def FetchStage.wholeBytes : FetchStage → ℕ
  | .streaming true position | .paying true position _ => position
  | _ => 0

/-! ### What every step has to see to -/

section

variable (r : Run) (f : Fetch) (chunk : PlannedChunk)

/-- Nothing of a fetch that fails was counted, and its chunk is not done. -/
def Fetch.FailsFree : Prop := f.counted r.plan = 0 ∧ chunk.state ≠ .DONE

/-- A stream of the whole file ends when it carried all of it.  A range ends while its chunk is not
done, and comes short only when nothing came. -/
def Fetch.EndsFairly : (wholeFile : Bool) → (position : ℕ) → Prop
  | true, position => position = r.plan.allBytes
  | false, position =>
    chunk.state ≠ .DONE ∧ (position - chunk.start < chunk.size → position ≤ chunk.start)

/-- A stream of the whole file is written while nothing is done and nothing else is counted.  A
range is written while its chunk is not done and no stream of the whole file has bytes. -/
def Fetch.WritesFairly : (wholeFile : Bool) → Prop
  | true => r.plan.doneBytes = 0 ∧ ∀ g ∈ r.streams, g.chunk ≠ f.chunk → g.counted r.plan = 0
  | false => chunk.state ≠ .DONE ∧ ∀ g ∈ r.streams, g.stage.wholeBytes = 0

def Fetch.CountsOnce : FetchAct → Prop
  | .answer wholeFile => wholeFile = true → chunk.start ≠ 0 → chunk.state ≠ .DONE
  | .piece _ =>
    match f.stage with
    | .streaming wholeFile position =>
      r.cancelling = true ∨ r.pausing = true → EndsFairly r chunk wholeFile position
    | _ => True
  | .write _ =>
    match f.stage with
    | .paying wholeFile position length =>
      if min length (r.fetchEnd chunk wholeFile - position) = 0 then
        EndsFairly r chunk wholeFile position
      else if r.handle.map (·.state) = some .closed then FailsFree r f chunk
      else WritesFairly r f chunk wholeFile
    | _ => True
  | .ended =>
    match f.stage with
    | .streaming wholeFile position => EndsFairly r chunk wholeFile position
    | _ => True
  | .error => FailsFree r f chunk
  | .save => True

end

/-- The rows a plan is made of are no more than its size, and a chunk that is done is not sent for
repair. -/
def Run.KeepsDone (s : Store) (r : Run) : Prop :=
  match r.phase with
  | .planning => s.chunkRows ≠ [] →
      (s.chunkRows.map fun row => row.last + 1 - row.start).sum ≤ totalBytes r.transfer r.sources
  | .repairing (assignment :: _) =>
    ∀ i ∈ r.plan.chunks.findIdx? (·.index = assignment.chunkIndex),
      ∀ chunk ∈ r.plan.chunks[i]?, chunk.state ≠ .DONE
  | _ => True

/-- Every byte is counted for one chunk, and stays counted. -/
def Engine.CountsOnce (e : Engine) : Engine.Act → Prop
  | .run k .next => ∀ r ∈ e.runs[k]?, r.KeepsDone e.store
  | .work k w (some a) => ∀ r ∈ e.runs[k]?, ∀ f ∈ (r.workers[w]?).bind Worker.fetch,
      ∀ chunk ∈ r.plan.chunks[f.chunk]?, f.CountsOnce r chunk a
  | .refetch k a => ∀ r ∈ e.runs[k]?, ∀ f ∈ r.phase.fetch,
      ∀ chunk ∈ r.plan.chunks[f.chunk]?, f.CountsOnce r chunk a
  | _ => True

instance (r : Run) (chunk : PlannedChunk) (wholeFile : Bool) (position : ℕ) :
    Decidable (Fetch.EndsFairly r chunk wholeFile position) := by
  cases wholeFile <;> unfold Fetch.EndsFairly <;> infer_instance

instance (r : Run) (f : Fetch) (chunk : PlannedChunk) (wholeFile : Bool) :
    Decidable (f.WritesFairly r chunk wholeFile) := by
  cases wholeFile <;> unfold Fetch.WritesFairly <;> infer_instance

instance (r : Run) (f : Fetch) (chunk : PlannedChunk) (a : FetchAct) :
    Decidable (f.CountsOnce r chunk a) := by
  dsimp only [Fetch.CountsOnce, Fetch.FailsFree]
  exact match a with
    | .answer _ | .error | .save => inferInstance
    | .piece _ | .ended =>
      match f.stage with
      | .streaming .. => inferInstance
      | .asked | .paying .. | .saving .. => .isTrue trivial
    | .write _ =>
      match f.stage with
      | .paying .. => inferInstance
      | .asked | .streaming .. | .saving .. => .isTrue trivial

instance (s : Store) (r : Run) : Decidable (r.KeepsDone s) := by
  dsimp only [Run.KeepsDone]
  exact match r.phase with
    | .planning | .repairing (_ :: _) => inferInstance
    | .repairing [] | .load | .setState .. | .preparing | .persisting | .inserting _ | .opening
    | .downloading | .cancelling .. | .verifying | .refetching .. | .failing | .placing | .moving
    | .finishing | .catching _ | .closing | .ended => .isTrue trivial

instance (e : Engine) (a : Engine.Act) : Decidable (e.CountsOnce a) :=
  match a with
  | .run _ .next | .work _ _ (some _) | .refetch .. => by
    dsimp only [Engine.CountsOnce]; infer_instance
  | .run _ (.prepared _) | .run _ .moved | .run _ .stopped | .run _ .throws | .run _ (.fail _)
  | .work _ _ none | .issue _ | .call _ | .settings .. | .start _ | .flush _ | .drain | .restart _ =>
    .isTrue trivial

/-! ### A fetch -/

section

variable {content : ServiceId → List UInt8} {s s' : Store} {r r' : Run} {f : Fetch}
  {chunk : PlannedChunk} {source : RuntimeSource} {result : FetchResult} {a : FetchAct}
  {rest : List Fetch} {wholeFile : Bool} {position : ℕ}

theorem account_plan (r : Run) (source bytes : ℕ) (rate : Option ℕ) :
    (r.account source bytes rate).plan =
      { r.plan with bytesDone := r.plan.bytesDone + bytes } := by
  unfold Run.account
  dsimp only
  split <;> rfl

theorem streams_of_not_saving (h : ∀ patch threw, f.stage ≠ .saving patch threw) :
    f.streams = [f] := by
  unfold Fetch.streams
  split
  · exact absurd ‹_› (h _ _)
  · rfl
  · rfl
  · rfl

theorem endsFairly (ho : f.CountsOnce r chunk a) (h : f.Concludes r chunk wholeFile position a) :
    Fetch.EndsFairly r chunk wholeFile position := by
  cases a with
  | ended =>
    have hstage : f.stage = _ := h
    simpa only [Fetch.CountsOnce, hstage] using ho
  | piece =>
    obtain ⟨hstage, hstopped⟩ := h
    simp only [Fetch.CountsOnce, hstage] at ho
    exact ho hstopped
  | write =>
    obtain ⟨length, hstage, hfull⟩ := h
    simpa only [Fetch.CountsOnce, hstage, hfull, if_true] using ho
  | answer | error | save => exact h.elim

theorem failsFree (hchunk : r.plan.chunks[f.chunk]? = some chunk)
    (ho : f.CountsOnce r chunk a) (h : f.Fails r chunk a) : f.FailsFree r chunk := by
  rcases h with hbreaks | ⟨position, hconcludes, hshort⟩
  · cases a with
    | answer =>
      obtain ⟨hstage, hwhole, hstart⟩ := hbreaks
      exact ⟨counted_asked hstage, ho hwhole hstart⟩
    | write =>
      obtain ⟨wholeFile, position, length, hstage, hroom, inode, hclosed⟩ := hbreaks
      simpa only [Fetch.CountsOnce, hstage, if_neg hroom, hclosed, Option.map_some, if_true]
        using ho
    | error => exact ho
    | piece | ended | save => exact hbreaks.elim
  · obtain ⟨hopen, hnothing⟩ := endsFairly ho hconcludes
    refine ⟨?_, hopen⟩
    rw [counted_at hconcludes.at, startOf_of_chunk hchunk]
    have hle := hnothing hshort
    omega

/-- **Fetch**: every step of a fetch keeps the balance. -/
theorem Balanced.fetch (h : Balanced r.plan (f.streams ++ rest))
    (hrest : ∀ g ∈ rest, g ∈ r.streams) (hchunk : r.plan.chunks[f.chunk]? = some chunk)
    (ho : f.CountsOnce r chunk a) (hs : Fetch.Step content s r f chunk source a s' r' result) :
    Balanced r'.plan (result.streams f ++ rest) := by
  have hwrites : ∀ {wholeFile : Bool} {position length n : ℕ} {rate : Option ℕ},
      a = .write rate → f.stage = .paying wholeFile position length →
      n = min length (r.fetchEnd chunk wholeFile - position) → 0 < n →
      r.handle.map (·.state) ≠ some .closed →
      Balanced (r.account f.source n rate).plan
        (FetchResult.streams f (.goes (.streaming wholeFile (position + n))) ++ rest) := by
    rintro wholeFile position length n rate rfl hstage hn hpos hclosed
    have hat : f.stage.At wholeFile position := by
      rw [hstage]
      exact .paying
    rw [streams_at hat] at h
    simp only [Fetch.CountsOnce, hstage, ← hn, if_neg (Nat.ne_of_gt hpos), if_neg hclosed] at ho
    rw [account_plan]
    refine h.writes hat rfl rfl hchunk ?_ ?_
    · -- A range: the chunk is open, and no other stream has counted bytes of it.
      rintro rfl
      obtain ⟨hopen, hnone⟩ := ho
      refine ⟨?_, hopen, fun g hg other hother => ?_⟩
      · rw [Run.fetchEnd, if_neg Bool.false_ne_true] at hn
        omega
      · have hzero := hnone g (hrest g hg)
        obtain ⟨_, _, stage⟩ := g
        cases hother <;> exact hzero
    · -- A whole file: no chunk is done, and no other stream has counted a byte.
      rintro rfl
      obtain ⟨hdone, halone⟩ := ho
      refine ⟨?_, hdone, fun g hg => halone g (hrest g hg) (h.ne_of_mem g hg)⟩
      rw [Run.fetchEnd, if_pos rfl] at hn
      omega
  cases hs with
  | @answer wholeFile hstage hstart =>
    rw [streams_of_not_saving (by simp [hstage])] at h
    have hstart' := startOf_of_chunk hchunk
    refine h.moves rfl ?_ ?_
    · rw [counted_asked hstage, counted_at (f := { f with stage := _ }) .streaming, hstart',
        Nat.sub_self]
    · rintro other position hat
      cases hat
      exact .inr ⟨hstart'.symm, fun hwhole => hstart'.trans (hstart hwhole)⟩
  | @piece wholeFile position length hstage =>
    have hat : f.stage.At wholeFile position := by
      rw [hstage]
      exact .streaming
    rw [streams_at hat] at h
    refine h.moves rfl ?_ ?_
    · rw [counted_at hat, counted_at (f := { f with stage := _ }) .paying]
    · rintro other position' hother
      cases hother
      exact .inl hat
  | write hstage hn hpos hhandle =>
    exact hwrites rfl hstage hn hpos (by simp [hhandle])
  -- The handle was dropped, not closed: the bytes are counted all the same.
  | writeNowhere hstage hn hpos hdropped =>
    refine hwrites rfl hstage hn hpos fun hclosed => ?_
    obtain ⟨handle, hmem, hstate⟩ := Option.map_eq_some_iff.mp hclosed
    rw [hdropped handle hmem] at hstate
    cases hstate
  -- A stream that fails takes what it had counted out of the account with it.
  | fails _ hnot hfails =>
    obtain ⟨hzero, hopen⟩ := failsFree hchunk ho hfails
    rw [streams_of_not_saving hnot] at h
    refine (h.drop hzero).mark hchunk (fun _ => rfl) hopen ?_ h.ne_of_mem
    dsimp only
    split <;> decide
  | @succeeds _ wholeFile position hconcludes hsize =>
    rw [streams_at hconcludes.at] at h
    have hfair := endsFairly ho hconcludes
    cases wholeFile with
    | false =>
      exact h.finishes hconcludes.at hchunk hfair.1 (hsize rfl) (fun _ => rfl) rfl
    | true =>
      refine h.finishesAll hconcludes.at hchunk hfair (r.alike_succeedFetch f chunk true).ranges
        ?_ rfl rfl
      intro c hc
      obtain ⟨old, _, rfl⟩ := List.mem_map.mp hc
      rfl
  | save hstage =>
    rw [show f.streams = [] by rw [Fetch.streams, hstage]] at h
    split <;> exact h

end

/-! ### Whose fetches they are -/

section

variable {r r' : Run} {w : ℕ} {worker worker' : Worker} {f : Fetch} {result : FetchResult}

theorem streams_set (hw : r.workers[w]? = some worker)
    (hworkers : r'.workers = r.workers.set w worker')
    (hphase : r'.phase.streams = r.phase.streams) :
    ∃ rest, r.streams.Perm (worker.streams ++ rest) ∧
      r'.streams.Perm (worker'.streams ++ rest) := by
  obtain ⟨hlt, hworker⟩ := List.getElem?_eq_some_iff.mp hw
  obtain ⟨first, last, hsplit, _, hset⟩ := @List.exists_of_set _ w worker' r.workers hlt
  rw [hworker] at hsplit
  have hmove : ∀ one : Worker,
      ((first ++ one :: last).flatMap Worker.streams ++ r.phase.streams).Perm
        (one.streams ++
          (first.flatMap Worker.streams ++ (last.flatMap Worker.streams ++ r.phase.streams))) := by
    intro one
    rw [List.flatMap_append, List.flatMap_cons, List.append_assoc, List.append_assoc]
    exact List.perm_append_comm_assoc ..
  refine ⟨first.flatMap Worker.streams ++ (last.flatMap Worker.streams ++ r.phase.streams), ?_, ?_⟩
  · rw [Run.streams, hsplit]
    exact hmove worker
  · rw [Run.streams, hworkers, hset, hphase]
    exact hmove worker'

/-- A worker that does not fetch becomes another one that does not. -/
theorem streams_idle (hw : r.workers[w]? = some worker) (hidle : worker.streams = [])
    (hworkers : r'.workers = r.workers.set w worker') (hidle' : worker'.streams = [])
    (hphase : r'.phase.streams = r.phase.streams) : r.streams.Perm r'.streams := by
  obtain ⟨rest, hperm, hperm'⟩ := streams_set hw hworkers hphase
  rw [hidle] at hperm
  rw [hidle'] at hperm'
  exact hperm.trans hperm'.symm

/-- A phase that a worker leads to has no fetch of its own. -/
theorem streams_phase
    (h : r'.phase = r.phase ∨ r.phase = .downloading ∧ r'.phase = .catching none) :
    r'.phase.streams = r.phase.streams := by
  rcases h with hsame | ⟨hfrom, hto⟩
  · rw [hsame]
  · rw [hfrom, hto]
    rfl

theorem workers_settleWork (r : Run) (w : ℕ) (f : Fetch) (result : FetchResult) :
    ∃ worker, (r.settleWork w f result).workers = r.workers.set w worker ∧
      worker.streams = result.streams f := by
  cases result with
  | goes stage => exact ⟨_, rfl, rfl⟩
  | returned => exact ⟨_, rfl, rfl⟩
  | threw =>
    refine ⟨.failed, ?_, rfl⟩
    simp only [Run.settleWork]
    split <;> rfl

theorem plan_settleWork (r : Run) (w : ℕ) (f : Fetch) (result : FetchResult) :
    (r.settleWork w f result).plan = r.plan := by
  cases result with
  | goes | returned => rfl
  | threw =>
    simp only [Run.settleWork]
    split <;> rfl

end

/-! ### A chunk is taken -/

section

variable {r : Run} {fetches : List Fetch} {chunk : PlannedChunk} {i w : ℕ}

theorem Balanced.ne_of_pending (h : Balanced r.plan fetches)
    (hchunk : r.plan.chunks[i]? = some chunk) (hpending : chunk.state = .PENDING) :
    ∀ f ∈ fetches, f.chunk ≠ i := by
  rintro f hf rfl
  obtain ⟨c, hc, hwithin⟩ := h.within f hf
  obtain rfl := Option.some.inj (hchunk.symm.trans hc)
  exact hwithin.taken hpending

theorem Balanced.begins (h : Balanced r.plan fetches) (hchunk : r.plan.chunks[i]? = some chunk)
    {g : PlannedChunk → PlannedChunk} (hrange : ∀ c, (g c).range = c.range)
    (hopen : chunk.state ≠ .DONE) (hstays : (g chunk).state ≠ .DONE)
    (htaken : (g chunk).state ≠ .PENDING) (hnone : ∀ f ∈ fetches, f.chunk ≠ i) (source : ℕ) :
    Balanced ((r.modifyChunk i g).beginFetch i source).plan (⟨i, source, .asked⟩ :: fetches) := by
  have hmarked : Balanced (r.modifyChunk i g).plan fetches :=
    h.mark hchunk hrange hopen hstays hnone
  have hfirst : (r.modifyChunk i g).plan.chunks[i]? = some (g chunk) := by
    simp [Run.modifyChunk, hchunk]
  -- Asking counts the attempt.
  have hasked : ((r.modifyChunk i g).beginFetch i source).plan.chunks[i]? =
      some { g chunk with
        attempts := (g chunk).attempts + 1
        sourceServiceId := (r.sources[source]?).map (·.serviceId) } := by
    simp [Run.beginFetch, Run.modifyChunk, Run.modifySource, hchunk]
  exact Balanced.add (hmarked.mark hfirst (fun _ => rfl) hstays hstays hnone) rfl hasked htaken
    hnone

/-- **Loop of a worker.** -/
theorem Run.balanced_turn (h : Balanced r.plan r.streams) (hw : r.workers[w]? = some .looping)
    (draining : Bool) : Balanced (r.turn draining w).plan (r.turn draining w).streams := by
  unfold turn
  split
  · exact h.perm (streams_idle hw rfl rfl rfl rfl)
  · split
    · exact h.perm (streams_idle hw rfl rfl rfl rfl)
    · next i hfound =>
      obtain ⟨hlt, hpending, _⟩ := List.findIdx?_eq_some_iff_getElem.mp hfound
      have hchunk := List.getElem?_eq_getElem hlt
      replace hpending : r.plan.chunks[i].state = .PENDING := by simpa using hpending
      split
      · split
        · simp only
          split
          · next hphase =>
            exact h.perm (streams_idle hw rfl rfl rfl (by rw [hphase]; rfl))
          · exact h.perm (streams_idle hw rfl rfl rfl rfl)
        · exact h
      · next source _ =>
        have hbegins := h.begins hchunk (g := fun c => { c with state := .ACTIVE }) (fun _ => rfl)
          (by rw [hpending]; decide) (by dsimp only; decide) (by dsimp only; decide)
          (h.ne_of_pending hchunk hpending) source
        obtain ⟨rest, hperm, hperm'⟩ := @streams_set r { (r.modifyChunk i fun c =>
          { c with state := .ACTIVE }).beginFetch i source with
            workers := r.workers.set w (.fetching ⟨i, source, .asked⟩) } w _ _ hw rfl rfl
        exact hbegins.perm ((hperm.cons _).trans hperm'.symm)

/-- **Loop of a repair.** -/
theorem Run.balanced_assign {rest : List RepairAssignment} (h : Balanced r.plan [])
    (hworkers : r.workers.flatMap Worker.streams = [])
    (ho : ∀ assignment rest', rest = assignment :: rest' → ∀ i,
      r.plan.chunks.findIdx? (·.index = assignment.chunkIndex) = some i →
      ∀ chunk, r.plan.chunks[i]? = some chunk → chunk.state ≠ .DONE) :
    Balanced (r.assign rest).plan (r.assign rest).streams := by
  unfold assign
  split
  · rw [Run.streams, hworkers]
    exact h
  · next assignment rest' =>
    split
    · rw [Run.streams, hworkers]
      exact h
    · next i hfound =>
      obtain ⟨hlt, _, _⟩ := List.findIdx?_eq_some_iff_getElem.mp hfound
      have hchunk := List.getElem?_eq_getElem hlt
      have hopen := ho assignment rest' rfl i hfound _ hchunk
      dsimp only
      split
      · rw [Run.streams, show (r.modifyChunk i _).workers = r.workers from rfl, hworkers]
        exact h.mark hchunk (fun _ => rfl) hopen (by dsimp only; decide) (by simp)
      · next source _ =>
        rw [Run.streams]
        change Balanced _ (r.workers.flatMap Worker.streams ++ _)
        rw [hworkers]
        exact h.begins hchunk (g := fun c => { c with state := .CORRUPT, bytesDone := 0 })
          (fun _ => rfl) hopen (by dsimp only; decide) (by dsimp only; decide) (by simp) source

end

/-! ### The main thread -/

def RunPhase.idle : RunPhase → Bool
  | .downloading | .catching _ | .closing | .ended => false
  | _ => true

structure Run.Accounts (r : Run) : Prop where
  balanced : Balanced r.plan r.streams
  idle : r.phase.idle = true → ∀ worker ∈ r.workers, worker = .returned

section

variable {hash : List UInt8 → String} {s s' : Store} {r r' : Run} {a : RunAct} {effect : Effect}

theorem flatMap_returned {workers : List Worker} (h : ∀ worker ∈ workers, worker = .returned) :
    workers.flatMap Worker.streams = [] := by
  refine List.flatMap_eq_nil_iff.mpr fun worker hworker => ?_
  rw [h worker hworker]
  rfl

theorem Run.accounts_boot (settings : Settings) : (Run.boot settings).Accounts where
  balanced := ⟨Nat.le_refl 0, nofun, rfl, List.nodup_nil, nofun, nofun⟩
  idle _ := nofun

theorem Run.Accounts.bounded (h : r.Accounts) : r.ProgressBounded where
  le := h.balanced.le
  eq_done hquiet := by
    have hnone : r.streams = [] := by
      refine List.append_eq_nil_iff.mpr ⟨List.flatMap_eq_nil_iff.mpr fun worker hworker => ?_, ?_⟩
      · cases worker with
        | fetching f => exact absurd hworker (hquiet.1 f)
        | looping | returned | failed => rfl
      · cases hphase : r.phase with
        | refetching f rest => exact absurd hphase (hquiet.2 f rest)
        | _ => rfl
    have hbalance := h.balanced.balance
    rwa [hnone, List.map_nil, List.sum_nil, Nat.add_zero] at hbalance

theorem Run.Accounts.goes (h : r.Accounts) (hplan : r'.plan = r.plan)
    (hworkers : r'.workers = r.workers) (hphase : r'.phase.streams = r.phase.streams)
    (hidle : r'.phase.idle = true →
      r.phase.idle = true ∨ ∀ worker ∈ r.workers, worker = .returned) : r'.Accounts where
  balanced := by
    rw [Run.streams, hplan, hworkers, hphase]
    exact h.balanced
  idle hto := by
    rw [hworkers]
    exact (hidle hto).elim h.idle id

/-! ### A plan -/

theorem sum_layOut {size chunkSize : ℕ} (hpos : 0 < chunkSize) :
    ∀ fuel start index : ℕ, size ≤ start + fuel →
      ((layOut size chunkSize fuel start index).map (·.size)).sum = size - start
  | 0, start, index => by
    intro hfuel
    rw [layOut, List.map_nil, List.sum_nil]
    omega
  | fuel + 1, start, index => by
    intro hfuel
    rw [layOut]
    split
    · have hrest := @sum_layOut size chunkSize hpos fuel (start + chunkSize) (index + 1) (by omega)
      rw [List.map_cons, List.sum_cons, hrest]
      dsimp only
      omega
    · rw [List.map_nil, List.sum_nil]
      omega

theorem planChunks_bytesDone (totalBytes configured : ℕ) (existing : List ExistingChunk) :
    (planChunks totalBytes configured existing).bytesDone =
      (planChunks totalBytes configured existing).doneBytes := by
  unfold planChunks
  split
  · refine sum_bytesDone _ fun chunk hchunk => ?_
    obtain ⟨stored, _, rfl⟩ := List.mem_map.mp hchunk
    dsimp only
    split <;> simp
  · have hpos := resolveChunkSize_pos totalBytes configured
    refine Eq.symm (List.sum_eq_zero fun n hn => ?_)
    obtain ⟨chunk, hchunk, rfl⟩ := List.mem_map.mp hn
    obtain ⟨hmem, hdone⟩ := List.mem_filter.mp hchunk
    rw [(layOut_inside hpos totalBytes 0 0 chunk hmem).2] at hdone
    cases hdone

theorem planChunks_allBytes {totalBytes configured : ℕ} {existing : List ExistingChunk}
    (h : existing ≠ [] → (existing.map fun row => row.last + 1 - row.start).sum ≤ totalBytes) :
    (planChunks totalBytes configured existing).allBytes ≤ totalBytes := by
  unfold planChunks
  split
  · next hrows =>
    have hperm := (List.perm_insertionSort (fun left right : ExistingChunk =>
      left.index ≤ right.index) existing).map fun row => row.last + 1 - row.start
    refine Nat.le_trans (Nat.le_of_eq ?_) (h hrows)
    rw [← hperm.sum_eq, ChunkPlan.allBytes, resumePlan, List.map_map]
    rfl
  · have hpos := resolveChunkSize_pos totalBytes configured
    exact Nat.le_of_eq (sum_layOut hpos totalBytes 0 0 (by omega))

theorem planChunks_inside {totalBytes configured : ℕ} {existing : List ExistingChunk} :
    ∀ chunk ∈ (planChunks totalBytes configured existing).chunks,
      chunk.last + 1 ≤ chunk.start + chunk.size := by
  intro chunk hchunk
  unfold planChunks at hchunk
  split at hchunk
  · obtain ⟨stored, _, _, hstart, hlast, hsize, _⟩ := mem_resumePlan hchunk
    omega
  · have hpos := resolveChunkSize_pos totalBytes configured
    have hin := (layOut_inside hpos totalBytes 0 0 chunk hchunk).1
    have hsize := hin.size_eq
    omega

theorem bytesDone_adopt (plan : ChunkPlan) (sources : List RuntimeSource) :
    (adoptPieceChecksums plan sources).bytesDone = plan.bytesDone := by
  unfold adoptPieceChecksums
  induction sources generalizing plan with
  | nil => rfl
  | cons source sources ih =>
    rw [List.foldl_cons, ih]
    unfold adoptChecksumsOf
    split
    · split <;> rfl
    · rfl

theorem doneBytes_congr {plan plan' : ChunkPlan}
    (h : plan'.chunks.map (fun c => (c.range, c.state)) =
      plan.chunks.map (fun c => (c.range, c.state))) : plan'.doneBytes = plan.doneBytes := by
  have hdone := congrArg (List.map fun one : (ℕ × ℕ × ℕ) × ChunkState =>
    if one.2 = .DONE then one.1.2.2 else 0) h
  simp only [List.map_map] at hdone
  rw [doneBytes_eq, doneBytes_eq]
  exact congrArg List.sum hdone

theorem Run.accounts_plans (hworkers : ∀ worker ∈ r.workers, worker = .returned)
    (ho : s.chunkRows ≠ [] → (s.chunkRows.map fun row => row.last + 1 - row.start).sum ≤
      totalBytes r.transfer r.sources) : (r.plans s).Accounts := by
  have hsame := adoptPieceChecksums_same
    (planChunks (totalBytes r.transfer r.sources) r.settings.chunkSize s.chunkRows) r.sources
  have hranges := congrArg (List.map Prod.fst) hsame.2
  simp only [List.map_map] at hranges
  refine ⟨?_, fun _ => hworkers⟩
  rw [show (r.plans s).streams = [] from List.append_eq_nil_iff.mpr
    ⟨flatMap_returned hworkers, rfl⟩]
  refine ⟨?_, inside_congr hranges planChunks_inside, ?_, List.nodup_nil, nofun, nofun⟩
  · change (adoptPieceChecksums _ _).allBytes ≤ (adoptPieceChecksums _ _).bytesTotal
    rw [allBytes_congr hranges, hsame.1, planChunks_bytesTotal]
    exact planChunks_allBytes ho
  · change (adoptPieceChecksums _ _).bytesDone = (adoptPieceChecksums _ _).doneBytes + 0
    rw [bytesDone_adopt, doneBytes_congr hsame.2]
    exact planChunks_bytesDone ..

/-- **Main thread**: the plan stays, but for a chunk that is sent for repair. -/
theorem Run.Accounts.step (h : r.Accounts) (hs : Run.Step hash s r a s' r' effect)
    (ho : a = .next → r.KeepsDone s) : r'.Accounts := by
  cases hs with
  | plan hphase =>
    have hrows := ho rfl
    rw [KeepsDone, hphase] at hrows
    exact accounts_plans (h.idle (by rw [hphase]; rfl)) hrows
  | @setSave state copy hphase =>
    have hreturned := h.idle (by rw [hphase]; rfl)
    cases state with
    | DOWNLOADING =>
      -- Only now there are workers.
      refine ⟨?_, nofun⟩
      have hnone : r.streams = [] := by
        rw [Run.streams, flatMap_returned hreturned, hphase]
        rfl
      have hfresh : (r.after .DOWNLOADING).streams = [] := by
        refine List.append_eq_nil_iff.mpr ⟨?_, rfl⟩
        refine List.flatMap_eq_nil_iff.mpr fun worker hworker => ?_
        rw [List.eq_of_mem_replicate hworker]
        rfl
      rw [hfresh, ← hnone]
      exact h.balanced
    | _ => exact h.goes rfl rfl (by rw [hphase]; rfl) fun _ => .inr hreturned
  | persist hphase =>
    refine h.goes rfl rfl ?_ fun _ => .inl (by rw [hphase]; rfl)
    rw [hphase]
    dsimp only
    split <;> rfl
  | @assign rest hphase =>
    have hreturned := h.idle (by rw [hphase]; rfl)
    have hnone : r.streams = [] := by
      rw [Run.streams, flatMap_returned hreturned, hphase]
      rfl
    refine ⟨?_, fun _ => ?_⟩
    · have hbalanced := h.balanced
      rw [hnone] at hbalanced
      refine balanced_assign hbalanced (flatMap_returned hreturned) ?_
      rintro assignment rest' rfl
      have hopen := ho rfl
      rwa [KeepsDone, hphase] at hopen
    · rw [show (r.assign rest).workers = r.workers from (r.alike_assign rest).workers]
      exact hreturned
  | downloadedCancel hphase hreturned | downloadedPause hphase hreturned
  | downloaded hphase hreturned =>
    exact h.goes rfl rfl (by rw [hphase]; rfl) fun _ => .inr hreturned
  | @placeStops reason hphase | @stops reason hphase =>
    cases reason <;> exact h.goes rfl rfl (by rw [hphase]; rfl) fun _ => .inl (by rw [hphase]; rfl)
  | throws hphase =>
    refine h.goes rfl rfl ?_ nofun
    rcases hphase with hphase | hphase | hphase <;> rw [hphase] <;> rfl
  | loadEnded hphase | load hphase | setLoad hphase | inserted hphase | insert hphase
  | insertFails hphase | «open» hphase | cancelLoad hphase | cancelSave hphase | cancelRemove hphase
  | verified hphase | repair hphase | giveUp hphase | fails hphase | place hphase | finish hphase
  | catchLoad hphase | close hphase | noSource hphase | prepared hphase | moved hphase
  | fail hphase =>
    refine h.goes rfl rfl (by rw [hphase]; rfl) fun hidle => ?_
    first
      | exact .inl (by rw [hphase]; rfl)
      | cases hidle

end

/-! ### Every run -/

namespace Engine

variable {content : ServiceId → List UInt8} {hash : List UInt8 → String} {store : Store}
  {as : List Act} {e : Engine}

theorem accounts_work {r r' : Run} {w : ℕ} {f : Fetch} {chunk : PlannedChunk}
    {source : RuntimeSource} {result : FetchResult} {s s' : Store} {a : FetchAct}
    (h : r.Accounts) (hw : r.workers[w]? = some (.fetching f))
    (hchunk : r.plan.chunks[f.chunk]? = some chunk) (ho : f.CountsOnce r chunk a)
    (hs : Fetch.Step content s r f chunk source a s' r' result) :
    (r'.settleWork w f result).Accounts := by
  have hsame := hs.alike
  obtain ⟨worker, hworkers, hstreams⟩ := workers_settleWork r' w f result
  have hphase := streams_phase (r'.phase_settleWork w f result)
  rw [hsame.workers] at hworkers
  rw [hsame.phase] at hphase
  obtain ⟨rest, hperm, hperm'⟩ := streams_set hw hworkers hphase
  rw [hstreams] at hperm'
  refine ⟨?_, fun hidle => ?_⟩
  · rw [plan_settleWork]
    refine Balanced.perm ?_ hperm'.symm
    exact (h.balanced.perm hperm).fetch
      (fun g hg => hperm.mem_iff.mpr (List.mem_append_right _ hg)) hchunk ho hs
  · -- Where no worker fetches, this one does not either.
    exfalso
    have hfrom : r.phase.idle = true := by
      rcases r'.phase_settleWork w f result with hstays | ⟨_, hleaves⟩
      · rwa [hstays, hsame.phase] at hidle
      · rw [hleaves] at hidle
        cases hidle
    cases h.idle hfrom _ (List.mem_of_getElem? hw)

theorem accounts_refetch {r r' : Run} {f : Fetch} {rest : List RepairAssignment}
    {chunk : PlannedChunk} {source : RuntimeSource} {result : FetchResult} {s s' : Store}
    {a : FetchAct} (h : r.Accounts) (hphase : r.phase = .refetching f rest)
    (hchunk : r.plan.chunks[f.chunk]? = some chunk) (ho : f.CountsOnce r chunk a)
    (hs : Fetch.Step content s r f chunk source a s' r' result) :
    (r'.settleRefetch f rest result).Accounts := by
  have hsame := hs.alike
  have hreturned := h.idle (by rw [hphase]; rfl)
  have hstreams : r.streams = f.streams ++ [] := by
    rw [Run.streams, flatMap_returned hreturned, hphase, List.append_nil]
    rfl
  have hbalanced : Balanced r'.plan (result.streams f ++ []) := by
    refine Balanced.fetch ?_ (by simp) hchunk ho hs
    rw [← hstreams]
    exact h.balanced
  have hworkers : r'.workers.flatMap Worker.streams = [] := by
    rw [hsame.workers]
    exact flatMap_returned hreturned
  rw [List.append_nil] at hbalanced
  cases result with
  | goes stage =>
    refine ⟨?_, fun _ => hsame.workers ▸ hreturned⟩
    rw [Run.streams]
    change Balanced r'.plan (r'.workers.flatMap Worker.streams ++ _)
    rw [hworkers]
    exact hbalanced
  | returned | threw =>
    refine ⟨?_, fun _ => hsame.workers ▸ hreturned⟩
    rw [Run.streams]
    change Balanced r'.plan (r'.workers.flatMap Worker.streams ++ [])
    rw [hworkers]
    exact hbalanced

/-- **Progress is bounded** in every run that counts every byte once. -/
theorem progressBounded_of_countsOnce
    (h : LabelledRun.Run (step content hash) CountsOnce (boot store) as e) :
    ∀ r ∈ e.runs, r.ProgressBounded := by
  suffices haccounts : ∀ r ∈ e.runs, r.Accounts from fun r hr => (haccounts r hr).bounded
  refine h.invariant (I := fun e => ∀ r ∈ e.runs, r.Accounts) ?_ (by simp [boot])
  intro e a e' hi ho hs
  refine (Step.of_step hs).forall_runs (P := fun _ r => r.Accounts) hi (fun _ _ _ _ h => h)
    (fun settings => Run.accounts_boot settings) ?pause ?cancel ?flush ?run ?turn ?work ?refetch
  case pause => exact fun r h => ⟨h.balanced, h.idle⟩
  case cancel => exact fun r _ h => ⟨h.balanced, h.idle⟩
  case flush => exact fun r _ h => ⟨h.balanced, h.idle⟩
  case run =>
    rintro k act r r' effect rfl hr haccounts hstep
    refine haccounts.step hstep ?_
    rintro rfl
    exact ho r hr
  case turn =>
    intro r w haccounts hw
    refine ⟨r.balanced_turn haccounts.balanced hw _, fun hidle => ?_⟩
    exfalso
    have hfrom : r.phase.idle = true := by
      rcases r.phase_turn e.draining w with hstays | ⟨_, hleaves⟩
      · rwa [hstays] at hidle
      · rw [hleaves] at hidle
        cases hidle
    cases haccounts.idle hfrom _ (List.mem_of_getElem? hw)
  case work =>
    rintro k act r r' w f chunk source result rfl hr haccounts hw hchunk - hfetch
    exact accounts_work haccounts hw hchunk (ho r hr f (by rw [hw]; rfl) chunk hchunk) hfetch
  case refetch =>
    rintro k act r r' f rest chunk source result rfl hr haccounts hphase hchunk - hfetch
    exact accounts_refetch haccounts hphase hchunk (ho r hr f (by rw [hphase]; rfl) chunk hchunk)
      hfetch

theorem progressBounded_of_countsOnce_threeBytes :
    ∃ e, LabelledRun.exec (step threeBytes noHash) CountsOnce (boot freshStore) knownSize = some e ∧
      ∀ r ∈ e.runs, r.ProgressBounded := by
  have hrun : (LabelledRun.exec (step threeBytes noHash) CountsOnce (boot freshStore)
    knownSize).isSome := by decide
  obtain ⟨e, he⟩ := Option.isSome_iff_exists.mp hrun
  exact ⟨e, he, progressBounded_of_countsOnce (.ofExec he)⟩

/-- The stream breaks after two of three bytes, and the chunk is fetched again. -/
def brokenStream : List Act :=
  started ++ untilDownloading (some 3) 1 ++
    [.work 0 0 none, .work 0 0 (some (.answer false)), .work 0 0 (some (.piece 2)),
      .work 0 0 (some (.write none)), .work 0 0 (some .error), .work 0 0 (some .save)] ++
    oneFetch false 3

/-- Five bytes of three are counted. -/
theorem not_progressBounded_brokenStream :
    ¬ ∀ (content : ServiceId → List UInt8) (hash : List UInt8 → String) (store : Store)
      (as : List Act) (e : Engine),
      LabelledRun.Run (step content hash) LabelledRun.Free (boot store) as e →
      ∀ r ∈ e.runs, r.ProgressBounded := by
  intro h
  have hbounded := h threeBytes noHash freshStore brokenStream
    ((LabelledRun.exec (step threeBytes noHash) LabelledRun.Free (boot freshStore)
      brokenStream).get (by decide)) (.ofExec (Option.some_get _).symm)
  have hover : ∃ r ∈ ((LabelledRun.exec (step threeBytes noHash) LabelledRun.Free (boot freshStore)
      brokenStream).get (by decide)).runs, r.plan.bytesTotal < r.plan.bytesDone := by decide
  obtain ⟨r, hr, hlt⟩ := hover
  exact absurd (hbounded r hr).le (Nat.not_le_of_lt hlt)

end Engine

end MediaCenterSync.TransferEngine
