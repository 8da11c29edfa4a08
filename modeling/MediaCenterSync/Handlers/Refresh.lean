import MediaCenterSync.Matching.Service
import MediaCenterSync.Share.Visibility

/-!
# Refreshing a library

A refresh asks a media server for what changed in a library since a cursor, and gives the cursor to
ask from next: a server of Jellyfin in one listing of all the kinds the library holds, a server of
Plex in one listing for each kind.  Every listing is capped.

The media server is a parameter, `server`, that answers a query with what it lists.  A stamp is a
value of a linear order: Plex's are seconds, Jellyfin's are texts, which must sort as texts the way
the server lists them (stamps of one length and one offset do).
-/

namespace MediaCenterSync.Handlers

open Matching (MediaKind)
open Share (LibraryKind)

/-- What a handler asks a media server for. -/
structure ListingQuery (α : Type) where
  kinds : List MediaKind
  /-- Only what changed at this stamp or later. -/
  since : Option α
  ascending : Bool
  limit : ℕ

/-- An entry of a listing, as far as a refresh reads it. -/
structure Payload (α : Type) where
  id : Option String
  kind : Option MediaKind
  /-- When it was last changed, or else added. -/
  stamp : Option α

/-- An item as a handler gives it, as far as it says which item it is. -/
structure NormalisedItem where
  externalId : String
  kind : MediaKind

structure LibraryRefresh (α : Type) where
  items : List NormalisedItem
  cursor : α

variable {α : Type}

/-- `_toItem`: an entry without an identifier, or of no kind we know, is none. -/
def toItem (raw : Payload α) : Option NormalisedItem :=
  match raw.id, raw.kind with
  | some externalId, some kind => if externalId = "" then none else some ⟨externalId, kind⟩
  | _, _ => none

namespace JellyfinHandler

/-- `_includeTypes`, where no kinds are asked for. -/
def includeTypes : LibraryKind → List MediaKind
  | .MOVIES => [.MOVIE, .COLLECTION]
  | .SHOWS => [.SERIES, .SEASON, .EPISODE]
  | _ => [.MOVIE, .SERIES, .SEASON, .EPISODE, .COLLECTION]

def refreshQuery (library : LibraryKind) (cursor : Option α) : ListingQuery α where
  kinds := includeTypes library
  since := cursor
  ascending := cursor.isSome
  limit := 200

variable [LinearOrder α]

def later (newest : Option α) (entry : Payload α) : Option α :=
  match entry.stamp, newest with
  | none, _ => newest
  | some savedAt, none => some savedAt
  | some savedAt, some stamp => if stamp < savedAt then some savedAt else some stamp

/-- A refresh.  With no cursor and nothing listed the cursor starts at `now`. -/
def refreshLibrary (server : ListingQuery α → List (Payload α)) (library : LibraryKind) (now : α)
    (cursor : Option α) : LibraryRefresh α :=
  let raw := server (refreshQuery library cursor)
  { items := raw.filterMap toItem
    cursor := (raw.foldl later cursor).getD now }

end JellyfinHandler

namespace PlexHandler

def defaultKinds : LibraryKind → List MediaKind
  | .MOVIES => [.MOVIE]
  | .SHOWS => [.SERIES, .SEASON, .EPISODE]
  | _ => [.MOVIE, .SERIES, .SEASON, .EPISODE]

/-- The listing of one kind: what changed since the cursor, or the newest where there is none. -/
def refreshQuery (kind : MediaKind) (since : Option ℕ) : ListingQuery ℕ where
  kinds := [kind]
  since := since
  ascending := since.isSome
  limit := if since.isSome then 200 else 100

def later (newest : ℕ) (raw : Payload ℕ) : ℕ :=
  max newest (raw.stamp.getD 0)

/-- What was gathered, once the listing of one kind was read. -/
def gather (server : ListingQuery ℕ → List (Payload ℕ)) (since : Option ℕ)
    (gathered : List NormalisedItem × ℕ) (kind : MediaKind) : List NormalisedItem × ℕ :=
  let raw := server (refreshQuery kind since)
  (gathered.1 ++ raw.filterMap toItem, raw.foldl later gathered.2)

def refreshLibrary (server : ListingQuery ℕ → List (Payload ℕ)) (library : LibraryKind) (now : ℕ)
    (since : Option ℕ) : LibraryRefresh ℕ :=
  let gathered := (defaultKinds library).foldl (gather server since) ([], since.getD 0)
  { items := gathered.1
    cursor := if 0 < gathered.2 then gathered.2 else now }

end PlexHandler

end MediaCenterSync.Handlers
