import MediaCenterSync.Correlation.Service
import MediaCenterSync.Lib.Table
import MediaCenterSync.Planning.Siblings

/-!
# Files that landed and are not indexed yet

A landing is a file the gateway has put on the disk before any media server knows of it, one row for
each item that was pulled.  `reconcile` settles the open landings against what the index now holds:
a landing some row of ours answers for is deleted (`indexed`), and so is one whose file has left the
disk; the others wait, and are marked stale once their time is up.

Three tests find the row.  The first two read the rows whose stored file mentions a hint, a hundred
of them at most, and compare properly: the content identity, then the path.  The third reads the
applied matches of the item that was pulled.
-/

namespace MediaCenterSync.Landings

open Correlation (MediaLandingState MediaMatch)
open Planning (Catalogue MediaFile MediaItem toLocalPath)
open TransferManager (Dir)

/-! ### The table -/

structure Landing where
  /-- Identifiers are numbers here, given out in turn. -/
  id : ℕ
  itemId : String
  transferId : Option String
  /-- The library the file went to, when it went to one. -/
  libraryId : Option String
  path : Dir
  bytes : ℕ
  contentId : Option String
  state : MediaLandingState
  expiresAt : ℕ
  rescanOutcome : Option String
  createdAt : ℕ
deriving DecidableEq

/-- `media_landings`: the item is unique, as the identifier is. -/
structure LandingTable where
  rows : List Landing
  ids : (rows.map (·.id)).Nodup
  items : (rows.map (·.itemId)).Nodup

namespace LandingTable

variable (t : LandingTable)

def findOpen : List Landing := t.rows.insertionSort (·.createdAt ≤ ·.createdAt)

def findForItem (itemId : String) : Option Landing := t.rows.find? (·.itemId = itemId)

/-- `save`: inserts a row that is gone, and writes every column otherwise.  The unique index refuses
a second landing of one item. -/
def save (row : Landing) : Option LandingTable :=
  if h : ∀ other ∈ t.rows, other.itemId = row.itemId → other.id = row.id then
    some
      { rows := Table.save (·.id) t.rows row
        ids := Table.nodup_save t.ids
        items := Table.nodup_save_unique t.ids t.items h }
  else none

/-- `delete({ id })` -/
def delete (id : ℕ) : LandingTable where
  rows := Table.delete (·.id) t.rows id
  ids := Table.nodup_delete t.ids id
  items := t.items.sublist (List.filter_sublist.map _)

end LandingTable

/-! ### What a pass reads -/

structure Index where
  catalogue : Catalogue
  /-- `item.file LIKE '%hint%'`, on the text a file is stored as. -/
  mentions : MediaFile → String → Bool
  matchThreshold : ℚ
  /-- What `stat` does not deny. -/
  onDisk : Dir → Bool

def applied (threshold : ℚ) (pair : MediaMatch) : Bool :=
  pair.state ≠ .CONFLICT ∧ (threshold ≤ pair.confidence ∨ pair.confirmedAt.isSome)

def basename (path : Dir) : String := path.getLast?.getD ""

namespace Index

variable (index : Index)

/-- Rows whose stored file contains a piece of text: a page of them, and nothing more. -/
def findByFileHint (hint : String) : List MediaItem :=
  if hint = "" then []
  else (index.catalogue.items.filter fun item => item.file.any (index.mentions · hint)).take 100

def findByIds (ids : List String) : List MediaItem :=
  index.catalogue.items.filter (·.id ∈ ids)

def findForRemoteItem (id : String) : List MediaMatch :=
  (index.catalogue.matchRows.filter (·.remoteItemId = id)).insertionSort
    (·.confidence ≥ ·.confidence)

def findForLocalItem (id : String) : List MediaMatch :=
  (index.catalogue.matchRows.filter (·.localItemId = some id)).insertionSort
    (·.confidence ≥ ·.confidence)

def reachedAt (item : MediaItem) : Option Dir := do
  let library ← index.catalogue.findLibrary item.libraryId
  toLocalPath library (item.file.bind (·.path))
    (index.catalogue.services.find? (·.id = item.serviceId))

variable (landing : Landing)

def isOurs (item : MediaItem) : Bool :=
  index.catalogue.isLocal item ∧ item.id ≠ landing.itemId

def byContent : Option MediaItem :=
  match landing.contentId with
  | none => none
  | some contentId =>
    if contentId = "" then none
    else (index.findByFileHint contentId).find? fun item =>
      index.isOurs landing item ∧ item.file.bind (·.contentId) = some contentId

/-- The row of the file that is where the landing put it. -/
def byPath : Option MediaItem :=
  (index.findByFileHint (basename landing.path)).find? fun item =>
    index.isOurs landing item ∧ index.reachedAt item = some landing.path

/-- The other sides of the applied matches of the item that was pulled. -/
def pairedIds : List String :=
  let pairs := (index.findForRemoteItem landing.itemId ++ index.findForLocalItem landing.itemId)
    |>.filter (applied index.matchThreshold)
  (pairs.flatMap fun pair => [pair.localItemId, some pair.remoteItemId]).reduceOption
    |>.filter (· ≠ landing.itemId)

/-- `_matched`: the row an applied match has paired with the copy that was pulled. -/
def matched : Option MediaItem :=
  (index.findByIds (index.pairedIds landing)).find? fun item =>
    index.catalogue.isLocal item ∧ item.file.isSome

/-- `_indexed`: the row one of our services now holds for the landing. -/
def indexed : Option MediaItem :=
  ((index.byContent landing).or (index.byPath landing)).or (index.matched landing)

end Index

/-! ### Settling the open landings -/

inductive Verdict where
  | indexed (item : MediaItem)
  /-- The file has left the disk. -/
  | gone
  | surviving
deriving DecidableEq

/-- The index is asked first, and the disk after it. -/
def Index.judge (index : Index) (landing : Landing) : Verdict :=
  match index.indexed landing with
  | some item => .indexed item
  | none => if index.onDisk landing.path then .surviving else .gone

def Landing.isDue (landing : Landing) (now : ℕ) : Bool :=
  landing.state = .WAITING ∧ landing.expiresAt ≤ now

structure Pass where
  table : LandingTable
  surviving : List Landing
  /-- The landings that were indexed, and what as: the metadata of these is completed. -/
  indexed : List (Landing × MediaItem)

namespace Pass

def settle (pass : Pass) (landing : Landing) : Verdict → Pass
  | .indexed item =>
    { pass with
      table := pass.table.delete landing.id
      indexed := pass.indexed ++ [(landing, item)] }
  | .gone => { pass with table := pass.table.delete landing.id }
  | .surviving => { pass with surviving := pass.surviving ++ [landing] }

end Pass

def LandingTable.mark (t : LandingTable) (now : ℕ) (landing : Landing) : Option LandingTable :=
  if landing.isDue now then t.save { landing with state := .STALE } else some t

/-- The first half of a pass: what the index and the disk answer for is deleted. -/
def settleOpen (index : Index) (t : LandingTable) : Pass :=
  t.findOpen.foldl (fun pass landing => pass.settle landing (index.judge landing))
    { table := t, surviving := [], indexed := [] }

/-- **Settles every open landing** against what the index holds. -/
def reconcile (index : Index) (now : ℕ) (t : LandingTable) : Option Pass :=
  let pass := settleOpen index t
  let marked := pass.surviving.foldlM (fun (table : LandingTable) => table.mark now) pass.table
  marked.map fun table => { pass with table := table }

end MediaCenterSync.Landings
