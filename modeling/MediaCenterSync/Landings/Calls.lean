import MediaCenterSync.Landings.Manager

/-!
# Landings recorded and settled at the same time

`recordFile` reads the landing of an item and saves it twice: before it asks the media server to
look, and with what the server answered.  `reconcile` deletes and marks what it read when it began.
Between any two queries of one of them the others may do anything.

A `Gateway` is the table with the calls and the passes that were begun, each by what it does next.
What the environment decides is part of the event: which library and service are found, what the
server answers, the time, and what a pass finds out about a landing.
-/

namespace MediaCenterSync.Landings

open Planning (Library)
open TransferManager (Dir)

/-- A file that landed, with or without a transfer behind it. -/
structure LandedFile where
  itemId : String
  transferId : Option String
  libraryId : Option String
  path : Dir
  bytes : ℕ
  contentId : Option String

/-- The row `recordFile` saves: the one there was, rewritten, or a new one. -/
def LandedFile.landing (landed : LandedFile) (library : Option Library) (existing : Option Landing)
    (id now grace : ℕ) : Landing where
  id := (existing.map (·.id)).getD id
  itemId := landed.itemId
  transferId := landed.transferId
  libraryId := library.map (·.id)
  path := landed.path
  bytes := landed.bytes
  contentId := landed.contentId
  state := .WAITING
  expiresAt := now + grace
  rescanOutcome := none
  createdAt := (existing.map (·.createdAt)).getD now

/-- A `recordFile` call, by what it does next. -/
inductive Call where
  | findLibrary (landed : LandedFile)
  | findForItem (landed : LandedFile) (library : Option Library)
  | save (landed : LandedFile) (library : Option Library) (existing : Option Landing)
  | findService (landing : Landing)
  /-- The request to the media server is in flight. -/
  | requestRescan (landing : Landing)

/-- A pass, by what it does next. -/
inductive PassStage where
  | settle (rest surviving : List Landing)
  | mark (rest : List Landing) (now : ℕ)

structure Gateway where
  table : LandingTable
  /-- The identifier a new landing gets. -/
  next : ℕ
  /-- The calls that were begun, until they are over. -/
  calls : List (Option Call)
  /-- The passes that were begun, until they are over. -/
  passes : List (Option PassStage)
  /-- The items a pass deleted the landing of, and no `recordFile` was begun for since. -/
  deleted : String → Bool
  /-- The items a pass marked the landing of, with how many calls had been begun by then, until a
  call begun after that saves the landing. -/
  stale : String → Option ℕ

inductive Event where
  | recordFile (landed : LandedFile)
  | library (call : ℕ) (found : Option Library)
  | existing (call : ℕ)
  | save (call now : ℕ)
  | service (call : ℕ) (found : Bool)
  | answer (call : ℕ) (outcome : String)
  | reconcile
  | verdict (pass : ℕ) (verdict : Verdict)
  | clock (pass now : ℕ)
  | mark (pass : ℕ)

namespace Gateway

def boot (table : LandingTable) (next : ℕ) : Gateway where
  table := table
  next := next
  calls := []
  passes := []
  deleted _ := false
  stale _ := none

variable (grace : ℕ) (s : Gateway)

def call (id : ℕ) : Option Call := s.calls[id]?.join

def pass (id : ℕ) : Option PassStage := s.passes[id]?.join

def setCall (id : ℕ) (call : Option Call) : Gateway := { s with calls := s.calls.set id call }

def setPass (id : ℕ) (pass : Option PassStage) : Gateway :=
  { s with passes := s.passes.set id pass }

def saves : Event → Option Landing
  | .save id now =>
    match s.call id with
    | some (.save landed library existing) =>
      some (landed.landing library existing s.next now grace)
    | _ => none
  | .answer id outcome =>
    match s.call id with
    | some (.requestRescan landing) => some { landing with rescanOutcome := some outcome }
    | _ => none
  | .mark id =>
    match s.pass id with
    | some (.mark (landing :: _) now) =>
      if landing.isDue now then some { landing with state := .STALE } else none
    | _ => none
  | _ => none

/-- `recordFile` is called. -/
def begin (landed : LandedFile) : Gateway :=
  { s with
    calls := s.calls ++ [some (.findLibrary landed)]
    deleted := Function.update s.deleted landed.itemId false }

def forget (id : ℕ) : Gateway :=
  { s with
    table := s.table.delete id
    deleted := ((Table.find (·.id) s.table.rows id).map fun row =>
      Function.update s.deleted row.itemId true).getD s.deleted }

/-- A `recordFile` call saves a row; refused, it fails. -/
def record (id : ℕ) (row : Landing) (rest : Option Call) : Gateway :=
  match s.table.save row with
  | some table =>
    let saved := { s with
      table := table
      next := s.next + 1
      stale := if (s.stale row.itemId).any (· ≤ id) then Function.update s.stale row.itemId none
        else s.stale }
    saved.setCall id rest
  | none => s.setCall id none

def markRow (id : ℕ) (row : Landing) (rest : PassStage) : Gateway :=
  match s.table.save row with
  | some table =>
    let marked := { s with
      table := table
      stale := Function.update s.stale row.itemId (some s.calls.length) }
    marked.setPass id (some rest)
  | none => s.setPass id none

/-- A call or a pass goes on with what it does next, and with nothing else. -/
def step (s : Gateway) : Event → Option Gateway
  | .recordFile landed => some (s.begin landed)
  | .library id found =>
    match s.call id with
    | some (.findLibrary landed) =>
      if found.all fun library => landed.libraryId = some library.id then
        some (s.setCall id (some (.findForItem landed found)))
      else none
    | _ => none
  | .existing id =>
    match s.call id with
    | some (.findForItem landed library) =>
      some (s.setCall id (some (.save landed library (s.table.findForItem landed.itemId))))
    | _ => none
  | .save id now =>
    match s.call id with
    | some (.save landed library existing) =>
      let row := landed.landing library existing s.next now grace
      some (s.record id row (library.map fun _ => .findService row))
    | _ => none
  | .service id found =>
    match s.call id with
    | some (.findService landing) =>
      some (s.setCall id (if found then some (.requestRescan landing) else none))
    | _ => none
  | .answer id outcome =>
    match s.call id with
    | some (.requestRescan landing) =>
      some (s.record id { landing with rescanOutcome := some outcome } none)
    | _ => none
  | .reconcile => some { s with passes := s.passes ++ [some (.settle s.table.findOpen [])] }
  | .verdict id verdict =>
    match s.pass id with
    | some (.settle (landing :: rest) surviving) =>
      if verdict = .surviving then
        some (s.setPass id (some (.settle rest (surviving ++ [landing]))))
      else some ((s.forget landing.id).setPass id (some (.settle rest surviving)))
    | _ => none
  | .clock id now =>
    match s.pass id with
    | some (.settle [] surviving) => some (s.setPass id (some (.mark surviving now)))
    | _ => none
  | .mark id =>
    match s.pass id with
    | some (.mark (landing :: rest) now) =>
      if landing.isDue now then
        some (s.markRow id { landing with state := .STALE } (.mark rest now))
      else some (s.setPass id (some (.mark rest now)))
    | _ => none

end Gateway

end MediaCenterSync.Landings
