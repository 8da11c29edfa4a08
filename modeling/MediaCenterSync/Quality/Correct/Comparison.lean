import Mathlib.Data.Fintype.EquivFin
import Mathlib.Data.List.Chain
import Mathlib.Tactic.Linarith
import MediaCenterSync.Quality.Comparison

/-!
# Whether better goes round in a circle

Two files are never each better than the other (`isBetter_asymm`).  Three can be: the bitrate and
the size ignore small differences, so a copy that is a little larger and a little lower in bitrate
is better, and after two such steps the bitrate has fallen far enough for the first copy to win
again (`circle_smallDifferences`).

What the steps of such a circle give up is what the earlier rules rank: the *standing* of a copy is
its resolution label, then the efficiency of its codec, then its bitrate, with what is unknown last.
A better copy whose standing is not lower has a higher rank, which is the standing and then the size
(`rank_lt_rank`); so steps that lower no standing never go round, and end among finitely many
copies (`no_circle`).
-/

namespace MediaCenterSync.Quality

variable (toLowerCase : String → String)

def codecRank (file : MediaFileInfo) : ℕ :=
  efficiency (normalizeVideoCodec toLowerCase file.videoCodec)

/-! ### A better copy is not worse -/

theorem significantOrder_swap (x y : Option ℚ) (significance : ℚ) :
    significantOrder y x significance = -significantOrder x y significance := by
  rcases x with - | x <;> rcases y with - | y <;> try rfl
  simp only [significantOrder, or_comm (a := y ≤ 0), abs_sub_comm y x, max_comm y x]
  split_ifs
  · rfl
  · rfl
  · rw [← neg_sub x y, Left.sign_neg]

/-- What is found better by a rule that ignores small differences is larger. -/
theorem lt_of_significantOrder_pos {x y : Option ℚ} {significance : ℚ}
    (h : 0 < significantOrder x y significance) :
    ∃ a b, x = some a ∧ y = some b ∧ 0 < b ∧ b < a := by
  rcases x with - | x
  · simp [significantOrder] at h
  rcases y with - | y
  · simp [significantOrder] at h
  simp only [significantOrder] at h
  split_ifs at h with h0 hs
  · exact absurd h (by decide)
  · exact absurd h (by decide)
  · have hpos : 0 < x - y := sign_eq_one_iff.mp (SignType.pos_iff.mp h)
    exact ⟨x, y, rfl, rfl, not_le.mp fun hy => h0 (.inr hy), by linarith⟩

theorem compareFiles_order (f g : MediaFileInfo) :
    (compareFiles toLowerCase f g).order =
      if resolutionLabel f.height f.width ≠ resolutionLabel g.height g.width ∧
          (f.height.getD 0 ≠ 0 ∨ g.height.getD 0 ≠ 0) then
        SignType.sign (f.height.getD 0 - g.height.getD 0)
      else if codecRank toLowerCase f ≠ codecRank toLowerCase g then
        SignType.sign ((codecRank toLowerCase f : ℚ) - codecRank toLowerCase g)
      else if significantOrder f.bitrate g.bitrate bitrateSignificance ≠ 0 then
        significantOrder f.bitrate g.bitrate bitrateSignificance
      else significantOrder f.size g.size sizeSignificance := by
  unfold compareFiles codecRank
  dsimp only
  simp only [apply_ite QualityComparison.order]
  split_ifs with hr hc hb hs
  · rfl
  · rfl
  · rfl
  · rfl
  · exact (not_not.mp hs).symm

theorem compareFiles_swap (f g : MediaFileInfo) :
    (compareFiles toLowerCase g f).order = -(compareFiles toLowerCase f g).order := by
  have hzero : ∀ order : SignType, -order ≠ 0 ↔ order ≠ 0 := by decide
  rw [compareFiles_order, compareFiles_order, significantOrder_swap f.bitrate,
    significantOrder_swap f.size]
  simp only [ne_comm (a := resolutionLabel g.height g.width), or_comm (a := g.height.getD 0 ≠ 0),
    ne_comm (a := codecRank toLowerCase g), hzero]
  split_ifs
  · rw [← neg_sub (f.height.getD 0), Left.sign_neg]
  · rw [← neg_sub (codecRank toLowerCase f : ℚ), Left.sign_neg]
  · rfl
  · rfl

theorem isBetter_asymm (f g : Option MediaFileInfo) :
    ¬ (isBetter toLowerCase f g ∧ isBetter toLowerCase g f) := by
  rintro ⟨hf, hg⟩
  rcases f with - | f
  · exact absurd hf (lt_irrefl (0 : SignType))
  rcases g with - | g
  · exact absurd hf (lt_irrefl (0 : SignType))
  have hf : 0 < (compareFiles toLowerCase f g).order := hf
  have hg : 0 < (compareFiles toLowerCase g f).order := hg
  rw [compareFiles_swap] at hg
  revert hf hg
  generalize (compareFiles toLowerCase f g).order = order
  revert order
  decide

/-! ### Standing and rank -/

/-- A number somebody reported, with what nobody reported below all of them. -/
def reported (value : Option ℚ) : WithBot ℚ := value.filter (0 < ·)

/-- What the rules before the size rank: the resolution label, the codec, the bitrate. -/
def standing (file : MediaFileInfo) : (WithTop ℕ)ᵒᵈ ×ₗ ℕ ×ₗ WithBot ℚ :=
  toLex (.toDual (bestBand file.height file.width),
    toLex (codecRank toLowerCase file, reported file.bitrate))

/-- The candidate gives up something an earlier rule ranks. -/
def LowersStanding (candidate current : Option MediaFileInfo) : Prop :=
  ∃ f g, candidate = some f ∧ current = some g ∧ standing toLowerCase f < standing toLowerCase g

/-- A replacement that is better and lowers no standing. -/
def Upgrades (current candidate : Option MediaFileInfo) : Prop :=
  isBetter toLowerCase candidate current ∧ ¬ LowersStanding toLowerCase candidate current

/-- The standing, then the size; a file that is not there below all others. -/
def rank (file : Option MediaFileInfo) :
    WithBot (((WithTop ℕ)ᵒᵈ ×ₗ ℕ ×ₗ WithBot ℚ) ×ₗ WithBot ℚ) :=
  file.map fun file => toLex (standing toLowerCase file, reported file.size)

theorem reported_lt_of_significantOrder_pos {x y : Option ℚ} {significance : ℚ}
    (h : 0 < significantOrder x y significance) : reported y < reported x := by
  obtain ⟨a, b, rfl, rfl, hb, hlt⟩ := lt_of_significantOrder_pos h
  have ha : 0 < a := hb.trans hlt
  have hx : reported (some a) = (a : WithBot ℚ) := by simp [reported, Option.filter, ha]; rfl
  have hy : reported (some b) = (b : WithBot ℚ) := by simp [reported, Option.filter, hb]; rfl
  rw [hx, hy]
  exact WithBot.coe_lt_coe.mpr hlt

theorem reported_size_lt {f g : MediaFileInfo} (h : 0 < (compareFiles toLowerCase f g).order)
    (heq : standing toLowerCase f = standing toLowerCase g) :
    reported g.size < reported f.size := by
  have hband : bestBand f.height f.width = bestBand g.height g.width :=
    OrderDual.toDual.injective (congrArg (fun s => (ofLex s).1) heq)
  have hcodec : codecRank toLowerCase f = codecRank toLowerCase g :=
    congrArg (fun s => (ofLex (ofLex s).2).1) heq
  have hbitrate : reported f.bitrate = reported g.bitrate :=
    congrArg (fun s => (ofLex (ofLex s).2).2) heq
  have hlabel : resolutionLabel f.height f.width = resolutionLabel g.height g.width := by
    rw [resolutionLabel, resolutionLabel, hband]
  rw [compareFiles_order, if_neg (fun hr => hr.1 hlabel), if_neg (not_not.mpr hcodec)] at h
  split_ifs at h
  · exact absurd (reported_lt_of_significantOrder_pos h) hbitrate.not_gt
  · exact reported_lt_of_significantOrder_pos h

theorem rank_lt_rank {current candidate : Option MediaFileInfo}
    (h : Upgrades toLowerCase current candidate) :
    rank toLowerCase current < rank toLowerCase candidate := by
  obtain ⟨hbetter, hkeeps⟩ := h
  rcases candidate with - | f
  · exact absurd hbetter (lt_irrefl (0 : SignType))
  rcases current with - | g
  · exact absurd hbetter (lt_irrefl (0 : SignType))
  have hle : standing toLowerCase g ≤ standing toLowerCase f :=
    not_lt.mp fun hlt => hkeeps ⟨f, g, rfl, rfl, hlt⟩
  refine WithBot.coe_lt_coe.mpr (Prod.Lex.toLex_lt_toLex.mpr ?_)
  rcases hle.lt_or_eq with hlt | heq
  · exact .inl hlt
  · exact .inr ⟨heq, reported_size_lt toLowerCase hbetter heq.symm⟩

/-! ### Circles -/

/-- **Better never goes round in a circle as long as no step lowers the standing.**  Two files are
never each better than the other; there is no circle of such steps of any length; and no sequence
of them goes on for ever among finitely many copies. -/
theorem no_circle :
    (∀ f g, ¬ (isBetter toLowerCase f g ∧ isBetter toLowerCase g f)) ∧
    (∀ first rest, ¬ List.IsChain (Upgrades toLowerCase) (first :: rest ++ [first])) ∧
    ∀ copies : Finset (Option MediaFileInfo),
      ¬ ∃ held : ℕ → copies, ∀ i, Upgrades toLowerCase (held i) (held (i + 1)) := by
  refine ⟨isBetter_asymm toLowerCase, fun first rest hcircle => ?_, fun copies => ?_⟩
  · have hranks : ((first :: rest ++ [first]).map (rank toLowerCase)).Pairwise (· < ·) :=
      ((List.isChain_map (rank toLowerCase)).mpr
        (hcircle.imp fun {_ _} => rank_lt_rank toLowerCase)).pairwise
    rw [List.cons_append, List.map_cons] at hranks
    exact lt_irrefl _ (List.rel_of_pairwise_cons hranks (by simp))
  · rintro ⟨held, hheld⟩
    have hmono : StrictMono fun i => rank toLowerCase (held i) :=
      strictMono_nat_of_lt_succ fun i => rank_lt_rank toLowerCase (hheld i)
    have hinj : Function.Injective held := fun i j hij =>
      hmono.injective (congrArg (fun copy : copies => rank toLowerCase copy) hij)
    exact not_injective_infinite_finite held hinj

def encode (size bitrate : ℚ) : Option MediaFileInfo :=
  some ⟨some size, some "h264", some 1920, some 1080, some bitrate⟩

/-- Three encodes of one film, each a little larger and a little lower in bitrate than the one
before: the second is better than the first, the third than the second, the first than the third. -/
theorem circle_smallDifferences :
    ¬ ∀ (toLowerCase : String → String) (f₁ f₂ : Option MediaFileInfo) rest,
      ¬ List.IsChain (fun current candidate => isBetter toLowerCase candidate current)
        (f₁ :: f₂ :: rest ++ [f₁]) := by
  intro h
  exact h String.toLower (encode 1000 1000) (encode 1100 950) [encode 1200 890]
    (by decide +kernel)

end MediaCenterSync.Quality

/-!
## Labels and the comparison

A label is the better of what the width and the height say; the comparison of two files whose labels
differ subtracts their heights.  So it goes by the labels (`Consistent`) exactly when the heights
are in the order of the labels, or no height is known and the rules below the resolution happen to
agree with them: `consistent_iff`.
-/

namespace MediaCenterSync.Quality

variable (toLowerCase : String → String)

/-- The band a label stands for, the best first. -/
def bandOf (label : String) : ℕ := resolutionBands.findIdx (·.2 = label)

def labelOrder (candidate current : String) : SignType :=
  if bandOf candidate < bandOf current then 1 else -1

/-- What the rules below the resolution say: the codec, the bitrate, the size. -/
def orderBelow (candidate current : MediaFileInfo) : SignType :=
  if codecRank toLowerCase candidate ≠ codecRank toLowerCase current then
    SignType.sign ((codecRank toLowerCase candidate : ℚ) - codecRank toLowerCase current)
  else if significantOrder candidate.bitrate current.bitrate bitrateSignificance ≠ 0 then
    significantOrder candidate.bitrate current.bitrate bitrateSignificance
  else significantOrder candidate.size current.size sizeSignificance

/-- **The comparator obeys its own labels**, and two files compare the other way round with the
other sign. -/
structure Consistent (candidate current : MediaFileInfo) : Prop where
  labels : ∀ candidateLabel currentLabel,
    resolutionLabel candidate.height candidate.width = some candidateLabel →
    resolutionLabel current.height current.width = some currentLabel →
    candidateLabel ≠ currentLabel →
      (compare toLowerCase (some candidate) (some current)).order =
        labelOrder candidateLabel currentLabel
  swap : (compare toLowerCase (some current) (some candidate)).order =
    -(compare toLowerCase (some candidate) (some current)).order

/-- Two files with different labels are as high as their labels say; where neither height is known,
the rules below the resolution favour the higher label. -/
def HeightsFollow (candidate current : MediaFileInfo) : Prop :=
  ∀ candidateLabel currentLabel,
    resolutionLabel candidate.height candidate.width = some candidateLabel →
    resolutionLabel current.height current.width = some currentLabel →
    candidateLabel ≠ currentLabel →
      if candidate.height.getD 0 ≠ 0 ∨ current.height.getD 0 ≠ 0 then
        if bandOf candidateLabel < bandOf currentLabel then
          current.height.getD 0 < candidate.height.getD 0
        else candidate.height.getD 0 < current.height.getD 0
      else orderBelow toLowerCase candidate current = labelOrder candidateLabel currentLabel

theorem sign_sub_eq_labelOrder (candidateLabel currentLabel : String) (x y : ℚ) :
    SignType.sign (x - y) = labelOrder candidateLabel currentLabel ↔
      if bandOf candidateLabel < bandOf currentLabel then y < x else x < y := by
  unfold labelOrder
  split_ifs
  · rw [sign_eq_one_iff, sub_pos]
  · rw [sign_eq_neg_one_iff, sub_neg]

/-- **The comparator obeys its labels exactly when the heights do.** -/
theorem consistent_iff (candidate current : MediaFileInfo) :
    Consistent toLowerCase candidate current ↔ HeightsFollow toLowerCase candidate current := by
  have horder : ∀ candidateLabel currentLabel,
      resolutionLabel candidate.height candidate.width = some candidateLabel →
      resolutionLabel current.height current.width = some currentLabel →
      candidateLabel ≠ currentLabel →
        (compare toLowerCase (some candidate) (some current)).order =
          if candidate.height.getD 0 ≠ 0 ∨ current.height.getD 0 ≠ 0 then
            SignType.sign (candidate.height.getD 0 - current.height.getD 0)
          else orderBelow toLowerCase candidate current := by
    intro candidateLabel currentLabel hcandidate hcurrent hne
    have hlabels : resolutionLabel candidate.height candidate.width ≠
        resolutionLabel current.height current.width := by
      rw [hcandidate, hcurrent]
      exact fun heq => hne (Option.some.inj heq)
    rw [show compare toLowerCase (some candidate) (some current) =
      compareFiles toLowerCase candidate current from rfl, compareFiles_order]
    simp only [hlabels, ne_eq, not_false_eq_true, true_and, orderBelow]
  have hlabels : (∀ candidateLabel currentLabel,
      resolutionLabel candidate.height candidate.width = some candidateLabel →
      resolutionLabel current.height current.width = some currentLabel →
      candidateLabel ≠ currentLabel →
        (compare toLowerCase (some candidate) (some current)).order =
          labelOrder candidateLabel currentLabel) ↔
      HeightsFollow toLowerCase candidate current := by
    refine forall₂_congr fun candidateLabel currentLabel => forall₃_congr fun hcandidate hcurrent
      hne => ?_
    rw [horder candidateLabel currentLabel hcandidate hcurrent hne]
    split_ifs with hknown hband
    · rw [sign_sub_eq_labelOrder, if_pos hband]
    · rw [sign_sub_eq_labelOrder, if_neg hband]
    · rfl
  constructor
  · exact fun h => hlabels.mp h.labels
  · exact fun h => ⟨hlabels.mpr h, compareFiles_swap toLowerCase candidate current⟩

/-- A file of these dimensions, of which nothing else is known. -/
def frame (width height : Option ℚ) : MediaFileInfo := ⟨none, none, width, height, none⟩

/-- **A scope film in 1080p loses to a 720p one** in the old format, which is higher. -/
theorem not_consistent_scope :
    ¬ Consistent id (frame (some 1920) (some 800)) (frame (some 1152) (some 864)) := by
  intro h
  have horder := h.labels "1080p" "720p" (by decide +kernel) (by decide +kernel) (by decide)
  revert horder
  decide +kernel

end MediaCenterSync.Quality
