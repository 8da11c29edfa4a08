import MediaCenterSync.Correlation.Matches
import MediaCenterSync.Matching.Numbering

/-!
# The correlation pass

Everything one service holds is compared with everything else the gateway knows: each item is given
its candidates, the proposals the scoring makes of them are written to the match table, and the rows
the item's identifiers now contradict, or that nothing supports any more, are taken out.  Then the
same is done for the other side of every pair the pass touched.

What the pass reads once is its context.  What changes while it walks is a `Walk`: the table, the
snapshot of the rows that were on record before it (less those it has deleted), and which parents
are known to be paired.  The maps the pass builds to look things up are filters of the catalogue
here.
-/

namespace MediaCenterSync.Correlation

open Matching

structure MediaItem where
  id : String
  serviceId : String
  parentId : Option String
  kind : MediaKind
  title : String
  normalizedTitle : String
  year : Option ℤ
  seasonNumber : Option ℤ
  episodeNumber : Option ℤ
  externalIds : ExternalIds
  file : Option MediaFileInfo
  syncState : SyncState
deriving DecidableEq

structure MediaService where
  id : String
  peerId : Option String
  filesMounted : Bool

inductive MediaServiceMode where
  | LOCAL
  | REMOTE
  | PEER
deriving DecidableEq

def serviceMode (service : MediaService) : MediaServiceMode :=
  if service.peerId.isSome then .PEER else if service.filesMounted then .LOCAL else .REMOTE

inductive MediaLandingState where
  | WAITING
  | STALE
deriving DecidableEq

def landingSyncState (state : MediaLandingState) : SyncState :=
  if state = .STALE then .NOT_INDEXED else .AWAITING_INDEX

/-- The tables a pass reads, the matches apart.  The catalogue is in the order of its identifiers,
which are its primary key. -/
structure Library where
  catalogue : List MediaItem
  ids : (catalogue.map (·.id)).Nodup
  services : List MediaService
  /-- What the gateway put on the disk and no server has indexed yet. -/
  landings : List (String × MediaLandingState)

def DEPTH_OF : MediaKind → ℕ
  | .COLLECTION => 0
  | .SERIES => 1
  | .SEASON => 2
  | .MOVIE => 3
  | .EPISODE => 3

/-- How far below a series the walk that collects its episodes goes. -/
def SUBTREE_DEPTH : ℕ := 3

/-! ### What a file is recognised by -/

def contentKeys (file : Option MediaFileInfo) : List String :=
  let key (name : String) (value : Option String) :=
    ((value.filter (· ≠ "")).map (name ++ ·)).toList
  match file with
  | none => []
  | some file => key "checksum:" file.checksum ++ key "content:" file.contentId

/-- Two files are the same bytes when anything that identifies their content agrees. -/
def sameContent (left right : Option MediaFileInfo) : Bool :=
  (contentKeys left).any (· ∈ contentKeys right)

def identifierKeys (item : MediaItem) : List String :=
  WORK_IDENTIFIERS.filterMap fun provider =>
    (identifierValue item.externalIds provider).map (identifierKey provider)

/-- `_workKeys`: films and series only, with the kind as part of the key. -/
def workKeys (item : MediaItem) : List String :=
  if item.kind ≠ .MOVIE ∧ item.kind ≠ .SERIES then []
  else (identifierKeys item).map fun key => item.kind.value ++ ":" ++ key

/-- `padStart(2, '0')` of a number. -/
def padded (number : Option ℤ) : String :=
  match number with
  | none => "??"
  | some number => if (toString number).length < 2 then "0" ++ toString number else toString number

/-- `_label`: `S01E05`, with a question mark where a library told us nothing. -/
def label (item : MediaItem) : String :=
  "S" ++ padded item.seasonNumber ++ "E" ++ padded item.episodeNumber

/-- Two files that are the same bytes under labels that disagree. -/
def labelDisagreement (left right : MediaItem) : Option String :=
  if !sameContent left.file right.file then none
  else if left.episodeNumber ≠ right.episodeNumber then
    some ("content identical, episode numbers differ: " ++ label left ++ " here, " ++ label right ++
      " there")
  else if left.seasonNumber ≠ right.seasonNumber then
    some ("content identical, season numbers differ: " ++ label left ++ " here, " ++ label right ++
      " there")
  else none

/-! ### The context of a pass -/

section

variable (toLowerCase : String → String)

def candidate (services : List MediaService) (item : MediaItem) : MatchCandidate :=
  { id := item.id
    serviceId := item.serviceId
    peerId := (services.find? (·.id = item.serviceId)).bind (·.peerId)
    parentId := item.parentId
    kind := item.kind
    title := item.title
    normalizedTitle := item.normalizedTitle
    year := item.year
    seasonNumber := item.seasonNumber
    episodeNumber := item.episodeNumber
    externalIds := item.externalIds
    file := item.file }

/-- The rows that hang from one of `parents`, in the order of the parents. -/
def childrenOf (catalogue : List MediaItem) (parents : List String) : List MediaItem :=
  parents.flatMap fun parent => catalogue.filter (·.parentId = some parent)

/-- The episodes at most `depth` levels down. -/
def episodesBelow (catalogue : List MediaItem) : (depth : ℕ) → List MediaItem → List MediaItem
  | 0, _ => []
  | depth + 1, level => level.filter (·.kind = .EPISODE) ++
      episodesBelow catalogue depth (childrenOf catalogue (level.map (·.id)))

/-- `_episodesBySeries`: the episodes under each series, however deep the service files them. -/
def episodesBySeries (catalogue : List MediaItem) : List (String × List MediaItem) :=
  ((catalogue.filter (·.kind = .SERIES)).map fun series =>
    (series.id, episodesBelow catalogue SUBTREE_DEPTH (childrenOf catalogue [series.id]))).filter
      (·.2 ≠ [])

/-- `_episodeIdentifiers`; a later group has the last word on an episode. -/
def episodeIdentifiers (groups : List (String × List MediaItem)) : List (String × List String) :=
  (groups.reverse.flatMap fun (_, episodes) =>
    (episodeIdentifierKeys
      (episodes.map fun episode => (episode.id, identifierKeys episode))).reverse)

def sameContentAs (catalogue : List MediaItem) (item : MediaItem) : List MediaItem :=
  (contentKeys item.file).flatMap fun key => catalogue.filter (key ∈ contentKeys ·.file)

def sameWorkAs (catalogue : List MediaItem) (item : MediaItem) : List MediaItem :=
  (workKeys item).flatMap fun key => catalogue.filter (key ∈ workKeys ·)

/-- A map by identifier: each row once, where it first came. -/
def onceById : List MediaItem → List MediaItem
  | [] => []
  | item :: rest => item :: (onceById rest).filter (·.id ≠ item.id)

/-- The rows among `items` that are not the item itself. -/
def candidatesAmong (item : MediaItem) (items : List MediaItem) : List MediaItem :=
  onceById (items.filter (·.id ≠ item.id))

variable (arithmetic : Arithmetic)

/-- `_seriesPairs`: the series that are the same show, both ways round. -/
def seriesPairs (library : Library) (threshold : ℚ) : Links :=
  let series := library.catalogue.filter (·.kind = .SERIES)
  let candidate := candidate library.services
  let proposals (one : MediaItem) : List MatchProposal :=
    let found := candidatesAmong one
      (series.filter (·.normalizedTitle = one.normalizedTitle) ++ sameWorkAs library.catalogue one)
    (correlate toLowerCase (candidate one) (found.map candidate)
      { threshold := threshold, arithmetic := arithmetic }).filter (·.applied)
  (series.flatMap proposals).foldl (fun pairs proposal =>
    (pairs.link proposal.localItemId proposal.remoteItemId).link proposal.remoteItemId
      proposal.localItemId) []

def numberedEpisode (item : MediaItem) : NumberedEpisode :=
  ⟨item.id, item.seasonNumber, item.episodeNumber⟩

/-- `_absolutePairs`: each pair of series is aligned once. -/
def absolutePairs (library : Library) (threshold : ℚ) : Links :=
  let groups := episodesBySeries library.catalogue
  let episodes (series : String) := ((groups.lookup series).getD []).map numberedEpisode
  let pairs := (seriesPairs toLowerCase arithmetic library threshold).entries
  let once := pairs.foldl (fun aligned pair =>
    if aligned.contains pair || aligned.contains pair.swap then aligned else aligned ++ [pair]) []
  (once.flatMap fun (series, other) =>
    alignAbsoluteNumbering (episodes series) (episodes other)).foldl
    (fun pairs pair =>
      (pairs.link pair.absoluteId pair.splitId).link pair.splitId pair.absoluteId) []

/-- Everything a correlation pass needs, read once rather than per item. -/
structure Context where
  threshold : ℚ
  arithmetic : Arithmetic
  library : Library
  episodeIdentifiers : List (String × List String)
  absolutePairs : Links

def context (library : Library) (threshold : ℚ) : Context :=
  { threshold := threshold
    arithmetic := arithmetic
    library := library
    episodeIdentifiers := episodeIdentifiers (episodesBySeries library.catalogue)
    absolutePairs := absolutePairs toLowerCase arithmetic library threshold }

namespace Context

variable (ctx : Context)

/-- `byId.get` -/
def byId (id : String) : Option MediaItem := ctx.library.catalogue.find? (·.id = id)

def candidate (item : MediaItem) : MatchCandidate :=
  Correlation.candidate ctx.library.services item

def heldLocally (item : MediaItem) : Bool :=
  ctx.library.services.any fun service =>
    service.id = item.serviceId ∧ serviceMode service = .LOCAL

/-- `_landed`: what a landing makes of an item that nothing local holds. -/
def landed (item : MediaItem) (derived : SyncState) : SyncState :=
  if derived ≠ .MISSING ∨ ctx.heldLocally item then derived
  else ((ctx.library.landings.reverse.lookup item.id).map landingSyncState).getD derived

/-- What `score` is asked with to propose. -/
def options (parentMatches : Links) : MatchOptions :=
  { threshold := ctx.threshold
    arithmetic := ctx.arithmetic
    parentMatches := parentMatches
    episodeIdentifiers := ctx.episodeIdentifiers
    absolutePairs := ctx.absolutePairs }

/-! ### One item -/

def findCandidatesForMatch (item : MediaItem) : List MediaItem :=
  ctx.library.catalogue.filter fun other =>
    other.normalizedTitle = item.normalizedTitle ∧ other.seasonNumber = item.seasonNumber ∧
      other.episodeNumber = item.episodeNumber ∧ other.serviceId ≠ item.serviceId

def alignedWith (item : MediaItem) : List MediaItem :=
  (ctx.absolutePairs.get item.id).filterMap ctx.byId

/-- `_underMatchedParentOf`: the rows under a parent this one's parent is already matched to. -/
def underMatchedParentOf (item : MediaItem) (parentMatches : Links) : List MediaItem :=
  match item.parentId with
  | none => []
  | some parent =>
    (childrenOf ctx.library.catalogue (parentMatches.get parent)).filter fun child =>
      child.seasonNumber ≠ none ∧ child.seasonNumber = item.seasonNumber ∧
        child.episodeNumber = item.episodeNumber ∧ child.serviceId ≠ item.serviceId ∧
        child.kind = item.kind

def candidatesFor (item : MediaItem) (parentMatches : Links) : List MediaItem :=
  candidatesAmong item
    (ctx.findCandidatesForMatch item ++ sameContentAs ctx.library.catalogue item ++
      sameWorkAs ctx.library.catalogue item ++ ctx.alignedWith item ++
      ctx.underMatchedParentOf item parentMatches)

def overruleMislabelled (item : MediaItem) (proposal : MatchProposal) : MatchProposal :=
  match (ctx.byId proposal.remoteItemId).bind (labelDisagreement item) with
  | none => proposal
  | some disagreement => { proposal with state := .CONFLICT, reason := some disagreement }

/-- `_recorded`: the row already on record for this pair, in whichever direction it was written. -/
def recorded (settled : List MediaMatch) (item other : String) : Option MediaMatch :=
  settled.find? (·.joins item other)

/-- `_respectHumanDecision`: a pair somebody settled keeps what they said about it. -/
def respectHumanDecision (item : MediaItem) (settled : List MediaMatch) (proposal : MatchProposal) :
    MatchProposal :=
  match recorded settled item.id proposal.remoteItemId with
  | none => proposal
  | some row =>
    if row.decidedByHand then
      { proposal with
        strategy := row.strategy
        confidence := row.confidence
        applied := ctx.threshold ≤ row.confidence ∨ row.confirmedAt.isSome }
    else proposal

end Context

/-- What changes while the pass walks. -/
structure Walk where
  table : MatchTable
  /-- The rows on record before the pass, less those it has deleted. -/
  settled : List MediaMatch
  parentMatches : Links
  /-- The far sides of the proposals, collected while the service's own items are walked. -/
  touched : List String
  syncStates : List (String × SyncState)
  written : ℕ

namespace Context

variable (ctx : Context)

def proposals (w : Walk) (item : MediaItem) : List MatchProposal :=
  let found := ctx.candidatesFor item w.parentMatches
  ((correlate toLowerCase (ctx.candidate item) (found.map ctx.candidate)
    (ctx.options w.parentMatches)).map (ctx.overruleMislabelled item)).map
      (ctx.respectHumanDecision item w.settled)

def propose (touch : Bool) (w : Walk) (proposal : MatchProposal) : Walk :=
  let near := proposal.localItemId
  let far := proposal.remoteItemId
  { w with
    table := w.table.upsertPair proposal
    touched := if touch then w.touched ++ [far] else w.touched
    parentMatches :=
      if proposal.applied then (w.parentMatches.link near far).link far near else w.parentMatches
    written := w.written + 1 }

/-- `_scoresNothing`: whether the rules, as they stand now, link these two at all. -/
def scoresNothing (mine theirs : MatchCandidate) : Bool :=
  (score toLowerCase mine theirs
    { threshold := ctx.threshold
      arithmetic := ctx.arithmetic
      episodeIdentifiers := ctx.episodeIdentifiers
      absolutePairs := ctx.absolutePairs }).isNone

def otherSide (item : MediaItem) (row : MediaMatch) : Option String :=
  if row.localItemId = some item.id then some row.remoteItemId else row.localItemId

/-- Whether the row is to go: its other side is gone, or nobody decided it by hand and the two are
contradicted or supported by nothing. -/
def revokes (item : MediaItem) (row : MediaMatch) : Bool :=
  match (otherSide item row).bind ctx.byId with
  | none => true
  | some other =>
    !row.decidedByHand &&
      (contradicted (ctx.candidate item) (ctx.candidate other) ||
        ctx.scoresNothing toLowerCase (ctx.candidate item) (ctx.candidate other))

/-- The row is deleted, and struck off the snapshot as well. -/
def revoke (w : Walk) (row : MediaMatch) : Walk :=
  { w with
    table := w.table.delete row.id
    settled := w.settled.filter (·.id ≠ row.id) }

def revokeContradicted (w : Walk) (item : MediaItem) : Walk :=
  ((w.settled.filter (·.touches item.id)).filter (ctx.revokes toLowerCase item)).foldl revoke w

def setSyncState (w : Walk) (item : MediaItem) (state : SyncState) : Walk :=
  if state = item.syncState then w
  else { w with syncStates := w.syncStates ++ [(item.id, state)] }

/-- `_correlateItem`: one item against everything else the gateway knows about. -/
def correlateItem (touch : Bool) (w : Walk) (item : MediaItem) : Walk :=
  let proposals := ctx.proposals toLowerCase w item
  let proposed := proposals.foldl (propose touch) w
  let revoked := ctx.revokeContradicted toLowerCase proposed item
  setSyncState revoked item (ctx.landed item (deriveItemState proposals (ctx.heldLocally item)))

end Context

/-! ### The pass -/

/-- `_adjacency`: who is matched to whom, both ways round. -/
def adjacency (pairs : List (String × String)) : Links :=
  pairs.foldl (fun links pair => (links.link pair.1 pair.2).link pair.2 pair.1) []

def start (ctx : Context) (table : MatchTable) : Walk :=
  { table := table
    settled := table.rows
    parentMatches := adjacency (table.findAppliedPairs ctx.threshold)
    touched := []
    syncStates := []
    written := 0 }

def mine (library : Library) (serviceId : String) : List MediaItem :=
  (library.catalogue.filter (·.serviceId = serviceId)).insertionSort fun left right =>
    DEPTH_OF left.kind ≤ DEPTH_OF right.kind

def counterparts (library : Library) (serviceId : String) (touched : List String) :
    List MediaItem :=
  library.catalogue.filter fun item => item.serviceId ≠ serviceId ∧ item.id ∈ touched

def walkMine (ctx : Context) (serviceId : String) (table : MatchTable) : Walk :=
  (mine ctx.library serviceId).foldl (ctx.correlateItem toLowerCase true) (start ctx table)

/-- `correlate`: everything one service holds against every other service.  The second part of the
answer is what the pass reports to have written. -/
def correlateService (library : Library) (serviceId : String) (threshold : ℚ)
    (table : MatchTable) : Walk × ℕ :=
  let ctx := context toLowerCase arithmetic library threshold
  let walked := walkMine toLowerCase ctx serviceId table
  ((counterparts library serviceId walked.touched).foldl
    (ctx.correlateItem toLowerCase false) walked,
    walked.written)

end

end MediaCenterSync.Correlation
