import MediaCenterSync.Releases.Manager

/-!
# What only looks

The parts of a placement that look at the disk and at the catalogue, and neither write a row nor tell
the client or the library anything (`Neutral`).
-/

namespace MediaCenterSync.Releases

open Program (Only only_ask only_pure)
open TransferManager (Dir isInside)

/-- Looks at the disk or at the catalogue. -/
def Neutral : Op → Prop
  | .findItem _ | .findChildren _ | .readable _ | .filesUnder _ _ | .nameableOf _ _
  | .pinnedFolder _ _ => True
  | _ => False

theorem only_firstReadable (root : Dir) (candidates : List Dir) :
    Only Neutral (firstReadable root candidates) := by
  induction candidates with
  | nil => exact only_pure
  | cons candidate rest ih =>
    unfold firstReadable
    split_ifs
    · refine (only_ask trivial).bind fun found => ?_
      split_ifs
      · exact only_pure
      · exact ih
    · exact ih

theorem only_fileNamed (fileName : String) (contentPath root : Dir) :
    Only Neutral (fileNamed fileName contentPath root) :=
  only_firstReadable root _

theorem only_firstHolding (name : String) (roots : List Dir) :
    Only Neutral (firstHolding name roots) := by
  induction roots with
  | nil => exact only_pure
  | cons root rest ih =>
    unfold firstHolding
    split_ifs
    · refine (only_ask trivial).bind fun found => ?_
      split_ifs
      · exact only_pure
      · exact ih
    · exact ih

theorem only_reachable (reported : Dir) (client : DownloadClientSettings) :
    Only Neutral (reachable reported client) := by
  refine (only_ask trivial).bind fun found => ?_
  split_ifs
  · exact only_pure
  · exact only_firstHolding _ _

theorem only_unreadable (path : Dir) : Only Neutral (unreadable path) := by
  refine (only_ask trivial).bind fun found => ?_
  split_ifs
  · exact only_pure
  · exact only_pure

theorem only_rowsUnder (children : List MediaItem) : Only Neutral (rowsUnder children) := by
  induction children with
  | nil => exact only_pure
  | cons child rest ih =>
    unfold rowsUnder
    split_ifs
    · exact only_pure.bind fun rows => ih.bind fun more => only_pure
    · exact (only_ask trivial).bind fun rows => ih.bind fun more => only_pure

theorem only_episodesUnder (item : MediaItem) : Only Neutral (episodesUnder item) := by
  unfold episodesUnder
  split_ifs
  · exact only_pure
  · exact (only_ask trivial).bind fun children => (only_rowsUnder children).bind fun rows =>
      only_pure

theorem only_spreadOf (grabId : String) (sourcePath : Dir) (item : MediaItem) :
    Only Neutral (spreadOf grabId sourcePath item) := by
  refine (only_ask trivial).bind fun files => ?_
  split_ifs
  · exact only_pure
  · exact (only_episodesUnder item).bind fun episodes => only_pure

theorem only_filable (placement : GrabPlacement) (sourcePath : Dir) :
    Only Neutral (filable placement sourcePath) := by
  unfold filable
  rcases placement.fileName with _ | fileName
  · exact only_pure
  · refine (only_fileNamed fileName _ _).bind fun source => ?_
    rcases source with _ | source
    · exact only_pure
    · refine (only_ask trivial).bind fun episode => ?_
      rcases episode with _ | episode
      · exact only_pure
      · exact only_pure

end MediaCenterSync.Releases
