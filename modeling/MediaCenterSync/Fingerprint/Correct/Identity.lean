import Mathlib.Data.List.Infix
import MediaCenterSync.Fingerprint.Service
import MediaCenterSync.Lib.Fallible

/-!
# One identity, from the disk or over the network

What identifies a file is its size and the bytes that were read of it (`identityOf_inj`).  From the
disk every window is read whole.  Over the network a window may come short: a response may end
before it, and the ceiling stops the reading of a window that is larger (`Completes`).
-/

namespace MediaCenterSync.Fingerprint

open Text Fallible

variable {sha : Sha256} {size size' : ℕ}

/-! ### What is hashed -/

def windowsRead (size : ℕ) : List Window := (sampleWindows size).filter (0 < ·.length)

def identityOf (sha : Sha256) (size : ℕ) (chunks : List (List UInt8)) : FileFingerprint :=
  let quickHash :=
    sha.digest (utf8 (FINGERPRINT_VERSION ++ ":" ++ toString size ++ ":") ++ chunks.flatten)
  ⟨size, quickHash, contentId sha quickHash size⟩

def hashed (read : Window → Option (List UInt8)) (window : Window) : Option (List UInt8) :=
  (read window).map (·.take window.length)

theorem fingerprintOf_eq (read : Window → Option (List UInt8)) : fingerprintOf sha size read =
    ((windowsRead size).mapM (hashed read)).map (identityOf sha size) := by
  have hread : (fun window => do return (← read window).take window.length) = hashed read := by
    funext window
    cases h : read window <;> simp [hashed, h]
  rw [fingerprintOf, hread]
  cases h : (windowsRead size).mapM (hashed read) <;>
    simp only [windowsRead] at h <;> simp [h, identityOf]

theorem header_inj {data data' : List UInt8}
    (h : utf8 (FINGERPRINT_VERSION ++ ":" ++ toString size ++ ":") ++ data =
      utf8 (FINGERPRINT_VERSION ++ ":" ++ toString size' ++ ":") ++ data') :
    size = size' ∧ data = data' := by
  have hcut : ∀ (n : ℕ) (rest : List UInt8),
      utf8 (FINGERPRINT_VERSION ++ ":" ++ toString n ++ ":") ++ rest =
        utf8 (FINGERPRINT_VERSION ++ ":") ++ (utf8 (toString n) ++ 58 :: rest) := by
    intro n rest
    rw [utf8_append, utf8_append _ (toString n), List.append_assoc, List.append_assoc]
    rfl
  rw [hcut, hcut] at h
  obtain ⟨hsize, hdata⟩ := append_cons_inj (List.append_cancel_left h)
    (colon_notMem_utf8_decimal size) (colon_notMem_utf8_decimal size')
  exact ⟨decimal_injective (utf8_injective hsize), hdata⟩

theorem Sha256.colon_notMem (sha : Sha256) (data : List UInt8) :
    ':' ∉ (sha.digest data).toList :=
  fun h => absurd (sha.hexadecimal data ':' h) (by decide)

theorem contentId_inj {data data' : List UInt8}
    (h : contentId sha (sha.digest data) size = contentId sha (sha.digest data') size') :
    data = data' ∧ size = size' := by
  have htext := utf8_injective (sha.injective (String.append_right_inj _ |>.mp h))
  have hchars := congrArg String.toList htext
  simp only [String.toList_append, List.append_assoc] at hchars
  obtain ⟨hhash, hsize⟩ := append_cons_inj
    (List.append_cancel_left (List.append_cancel_left hchars))
    (sha.colon_notMem data) (sha.colon_notMem data')
  exact ⟨sha.injective (String.toList_injective hhash),
    decimal_injective (String.toList_injective hsize)⟩

theorem identityOf_inj {chunks chunks' : List (List UInt8)} :
    (identityOf sha size chunks).contentId = (identityOf sha size' chunks').contentId ↔
      size = size' ∧ chunks.flatten = chunks'.flatten := by
  constructor
  · intro h
    exact header_inj (contentId_inj h).1
  · rintro ⟨rfl, hflatten⟩
    rw [identityOf, identityOf, hflatten]

/-! ### Windows -/

theorem windowsRead_bounds {window : Window} (h : window ∈ windowsRead size) :
    0 < window.length ∧ window.offset + window.length ≤ size := by
  obtain ⟨hin, hpos⟩ := List.mem_filter.mp h
  refine ⟨of_decide_eq_true hpos, ?_⟩
  rw [sampleWindows] at hin
  split at hin
  · obtain rfl := List.mem_singleton.mp hin
    exact Nat.le_of_eq (Nat.zero_add _)
  · next hlarge =>
    simp only [SAMPLE_SIZE] at hlarge hin
    simp only [List.mem_cons, List.not_mem_nil, or_false] at hin
    rcases hin with rfl | rfl | rfl <;> dsimp only <;> omega

theorem length_of {content : List UInt8} {window : Window}
    (h : window ∈ windowsRead content.length) : (window.of content).length = window.length := by
  have hend := (windowsRead_bounds h).2
  rw [Window.of, List.length_take, List.length_drop]
  omega

theorem hashed_of (content : List UInt8) (window : Window) :
    hashed (fun window => some (window.of content)) window = some (window.of content) := by
  rw [hashed, Option.map_some, Window.of, List.take_take, Nat.min_self]

theorem fingerprint_eq (content : List UInt8) : fingerprint sha content =
    some (identityOf sha content.length ((windowsRead content.length).map (·.of content))) := by
  rw [fingerprint, fingerprintOf_eq, mapM_eq_some_iff.mpr, Option.map_some]
  exact List.forall₂_map_right_iff.mpr
    (List.forall₂_same.mpr fun window _ => hashed_of content window)

/-! ### A response -/

/-- A response that is read to the end of the window: it has it, and the ceiling is not passed
before. -/
def Completes (length : ℕ) (buffers : List (List UInt8)) : Prop :=
  length ≤ buffers.flatten.length ∧
    ∀ first, first <+: buffers →
      first.flatten.length ≤ READ_CEILING ∨ length ≤ first.flatten.length

theorem collect_eq_none_iff {length : ℕ} {breaks : Bool} {buffers : List (List UInt8)}
    {chunks : List UInt8} (hshort : chunks.length < length)
    (hceiling : chunks.length ≤ READ_CEILING) :
    collect length breaks buffers chunks = none ↔
      breaks = true ∧ (chunks ++ buffers.flatten).length < length ∧
        (chunks ++ buffers.flatten).length ≤ READ_CEILING := by
  induction buffers generalizing chunks with
  | nil => cases breaks <;> simp [collect, hshort, hceiling]
  | cons buffer rest ih =>
    have hmore : chunks ++ (buffer :: rest).flatten = chunks ++ buffer ++ rest.flatten := by simp
    have hgrows : (chunks ++ buffer).length ≤ (chunks ++ buffer ++ rest.flatten).length := by
      rw [@List.length_append _ (chunks ++ buffer)]
      exact Nat.le_add_right ..
    rw [collect, hmore]
    split_ifs with hdone hpast
    · simp only [false_iff]
      omega
    · simp only [false_iff]
      omega
    · exact ih (by omega) (by omega)

/-- What is read is what came first, and it is the window where the response completes it. -/
theorem prefix_of_collect {length : ℕ} {breaks : Bool} {buffers : List (List UInt8)}
    {chunks read : List UInt8} (h : collect length breaks buffers chunks = some read) :
    read <+: chunks ++ buffers.flatten := by
  induction buffers generalizing chunks with
  | nil =>
    cases breaks with
    | false =>
      obtain rfl : chunks = read := by simpa [collect] using h
      simp
    | true => simp [collect] at h
  | cons buffer rest ih =>
    have hmore : chunks ++ (buffer :: rest).flatten = chunks ++ buffer ++ rest.flatten := by simp
    rw [collect] at h
    rw [hmore]
    split_ifs at h with hdone hpast
    · exact Option.some.inj h ▸ List.prefix_append ..
    · exact Option.some.inj h ▸ List.prefix_append ..
    · exact ih h

theorem length_of_collect {length : ℕ} {breaks : Bool} {buffers : List (List UInt8)}
    {chunks read : List UInt8} (hshort : chunks.length < length)
    (hceiling : chunks.length ≤ READ_CEILING)
    (h : collect length breaks buffers chunks = some read) :
    length ≤ read.length ↔ length ≤ (chunks ++ buffers.flatten).length ∧
      ∀ first, first <+: buffers → (chunks ++ first.flatten).length ≤ READ_CEILING ∨
        length ≤ (chunks ++ first.flatten).length := by
  induction buffers generalizing chunks with
  | nil =>
    obtain rfl : chunks = read := by
      cases breaks with
      | false => simpa [collect] using h
      | true => simp [collect] at h
    simp only [List.flatten_nil, List.append_nil]
    omega
  | cons buffer rest ih =>
    have hmore : ∀ first : List (List UInt8),
        chunks ++ (buffer :: first).flatten = chunks ++ buffer ++ first.flatten := by simp
    have hgrows : ∀ first : List (List UInt8),
        (chunks ++ buffer).length ≤ (chunks ++ buffer ++ first.flatten).length := by
      intro first
      rw [@List.length_append _ (chunks ++ buffer)]
      exact Nat.le_add_right ..
    -- the prefixes of the response are the empty one and those that start with the buffer
    have hallBegins : ∀ P : List (List UInt8) → Prop,
        (∀ first, first <+: buffer :: rest → P first) ↔
          P [] ∧ ∀ first, first <+: rest → P (buffer :: first) := by
      intro P
      constructor
      · intro hall
        exact ⟨hall [] List.nil_prefix, fun first hfirst =>
          hall _ ((List.prefix_cons_inj buffer).mpr hfirst)⟩
      · rintro ⟨hnil, hcons⟩ first hfirst
        rcases List.prefix_cons_iff.mp hfirst with rfl | ⟨tail, rfl, htail⟩
        · exact hnil
        · exact hcons tail htail
    rw [collect] at h
    rw [hallBegins, hmore]
    simp only [hmore]
    split_ifs at h with hdone hpast
    · cases h
      refine iff_of_true hdone ⟨Nat.le_trans hdone (hgrows rest), .inl ?_, fun first _ => .inr ?_⟩
      · simpa using hceiling
      · exact Nat.le_trans hdone (hgrows first)
    · cases h
      refine iff_of_false hdone fun hall => ?_
      rcases hall.2.2 [] List.nil_prefix with hlow | hhigh
      · exact absurd hpast (by simpa using hlow)
      · exact hdone (by simpa using hhigh)
    · rw [ih (by omega) (by omega) h]
      simp [hceiling]

/-! ### What is answered -/

/-- The request for a window fails: it is refused, or breaks off before the window is there. -/
def Answer.Fails (length : ℕ) : Answer → Prop
  | .error => True
  | .opened false _ _ => True
  | .opened true buffers breaks =>
    breaks = true ∧ buffers.flatten.length < length ∧ buffers.flatten.length ≤ READ_CEILING

/-- The request for a window is answered with all of it. -/
def Answer.Whole (length : ℕ) : Answer → Prop
  | .opened true buffers _ => Completes length buffers
  | _ => False

def Window.ask (window : Window) (openStream : ℕ → ℕ → Answer) : Answer :=
  openStream window.offset (window.offset + window.length - 1)

/-- Every response is of the bytes of the file, from the offset that was asked for. -/
def TrueBytes (openStream : ℕ → ℕ → Answer) (content : List UInt8) : Prop :=
  ∀ start last buffers breaks, openStream start last = .opened true buffers breaks →
    buffers.flatten <+: content.drop start

section

variable {openStream : ℕ → ℕ → Answer} {content : List UInt8} {window : Window}

theorem hashed_eq_none_iff (h : window ∈ windowsRead size) :
    hashed (fetch openStream) window = none ↔ (window.ask openStream).Fails window.length := by
  have hpos := (windowsRead_bounds h).1
  rw [hashed, Option.map_eq_none_iff, fetch, Window.ask]
  split
  · next heq => simp [heq, Answer.Fails]
  · next heq => simp [heq, Answer.Fails]
  · next buffers breaks heq =>
    rw [Option.map_eq_none_iff, collect_eq_none_iff hpos (Nat.zero_le _), heq, List.nil_append]
    rfl

/-- What is hashed of a response is the start of the window, and all of it where the response is
whole. -/
theorem of_hashed (htrue : TrueBytes openStream content)
    (h : window ∈ windowsRead content.length) {chunk : List UInt8}
    (hchunk : hashed (fetch openStream) window = some chunk) :
    chunk <+: window.of content ∧
      (chunk = window.of content ↔ (window.ask openStream).Whole window.length) := by
  have hpos := (windowsRead_bounds h).1
  obtain ⟨taken, htaken, rfl⟩ := Option.map_eq_some_iff.mp hchunk
  unfold fetch at htaken
  split at htaken
  · cases htaken
  · cases htaken
  · next buffers breaks heq =>
    obtain ⟨read, hread, rfl⟩ := Option.map_eq_some_iff.mp htaken
    rw [List.take_take, Nat.min_self]
    have hbegins : read <+: content.drop window.offset :=
      (prefix_of_collect hread).trans (htrue _ _ buffers breaks heq)
    have hstart : read.take window.length <+: window.of content := by
      obtain ⟨rest, hrest⟩ := hbegins
      rw [Window.of, ← hrest, List.take_append]
      exact List.prefix_append _ _
    have hlength := length_of_collect hpos (Nat.zero_le _) hread
    simp only [List.nil_append] at hlength
    refine ⟨hstart, ?_⟩
    rw [Window.ask, heq, Answer.Whole, Completes, ← hlength]
    constructor
    · intro hall
      have hof := congrArg List.length hall
      rw [List.length_take, length_of h] at hof
      omega
    · intro hlong
      refine hstart.eq_of_length ?_
      rw [List.length_take, length_of h]
      omega

theorem Answer.Whole.not_fails {answer : Answer} {length : ℕ} (h : answer.Whole length) :
    ¬ answer.Fails length := by
  match answer, h with
  | .opened true buffers breaks, hwhole =>
    exact fun hfails => absurd hfails.2.1 (Nat.not_lt.mpr hwhole.1)

theorem hashed_eq_some_iff (htrue : TrueBytes openStream content)
    (h : window ∈ windowsRead content.length) :
    hashed (fetch openStream) window = some (window.of content) ↔
      (window.ask openStream).Whole window.length := by
  constructor
  · intro hof
    exact (of_hashed htrue h hof).2.mp rfl
  · intro hwhole
    have hsome : hashed (fetch openStream) window ≠ none :=
      mt (hashed_eq_none_iff h).mp hwhole.not_fails
    obtain ⟨chunk, hchunk⟩ := Option.ne_none_iff_exists'.mp hsome
    rw [hchunk, (of_hashed htrue h hchunk).2.mpr hwhole]

end

/-! ### The two identities -/

/-- Pieces that are starts of others put together to the same are the same. -/
theorem eq_of_flatten_eq {l l' : List (List UInt8)} (h : List.Forall₂ (· <+: ·) l l')
    (hflatten : l.flatten = l'.flatten) : l = l' := by
  have hlength : ∀ {l l' : List (List UInt8)}, List.Forall₂ (· <+: ·) l l' →
      l.flatten.length ≤ l'.flatten.length := by
    intro l l' h
    induction h with
    | nil => exact Nat.le_refl _
    | cons hhead _ ih =>
      rw [List.flatten_cons, List.flatten_cons, List.length_append, List.length_append]
      exact Nat.add_le_add hhead.length_le ih
  induction h with
  | nil => rfl
  | @cons a b rest rest' hhead htail ih =>
    have hsum := congrArg List.length hflatten
    rw [List.flatten_cons, List.flatten_cons, List.length_append, List.length_append] at hsum
    have hrest := hlength htail
    have hhere := hhead.length_le
    obtain rfl : a = b := hhead.eq_of_length (by omega)
    rw [ih (List.append_cancel_left hflatten)]

/-- Over the network it is null, or what the disk says. -/
def Agrees (sha : Sha256) (handler : Option (ℕ → ℕ → Answer)) (content : List UInt8) : Prop :=
  remoteFingerprint sha handler content.length = none ∨
    remoteFingerprint sha handler content.length = fingerprint sha content

/-- The sizes are the same, and the bytes of every window that is read. -/
def SameSample (content content' : List UInt8) : Prop :=
  content.length = content'.length ∧
    ∀ window ∈ windowsRead content.length, window.of content = window.of content'

theorem agrees_iff {openStream : ℕ → ℕ → Answer} {content : List UInt8} (hne : content ≠ [])
    (htrue : TrueBytes openStream content) : Agrees sha (some openStream) content ↔
      (∃ window ∈ windowsRead content.length, (window.ask openStream).Fails window.length) ∨
        ∀ window ∈ windowsRead content.length, (window.ask openStream).Whole window.length := by
  have hsize : content.length ≠ 0 := mt List.length_eq_zero_iff.mp hne
  rw [Agrees, remoteFingerprint, if_neg hsize, Option.bind_some, fingerprintOf_eq, fingerprint_eq,
    Option.map_eq_none_iff, mapM_eq_none_iff]
  refine or_congr (exists_congr fun window => and_congr_right hashed_eq_none_iff) ?_
  have hread : (∀ window ∈ windowsRead content.length,
        (window.ask openStream).Whole window.length) ↔
      (windowsRead content.length).mapM (hashed (fetch openStream)) =
        some ((windowsRead content.length).map (·.of content)) := by
    rw [mapM_eq_some_iff, List.forall₂_map_right_iff, List.forall₂_same]
    exact forall₂_congr fun window h => (hashed_eq_some_iff htrue h).symm
  rw [hread, Option.map_eq_some_iff]
  constructor
  · rintro ⟨chunks, hchunks, hidentity⟩
    have hflatten := (identityOf_inj.mp (congrArg FileFingerprint.contentId hidentity)).2
    have hstarts : List.Forall₂ (· <+: ·) chunks
        ((windowsRead content.length).map (·.of content)) := by
      rw [List.forall₂_map_right_iff]
      refine (((List.forall₂_and_left _ _).mpr ⟨fun _ => id, mapM_eq_some_iff.mp hchunks⟩).imp
        fun window chunk h => ?_).flip
      exact (of_hashed htrue h.1 h.2).1
    rw [hchunks, eq_of_flatten_eq hstarts hflatten]
  · intro hall
    exact ⟨_, hall, rfl⟩

theorem forall_eq_of_flatten_map {windows : List Window} {f g : Window → List UInt8}
    (hlength : ∀ window ∈ windows, (f window).length = (g window).length)
    (h : (windows.map f).flatten = (windows.map g).flatten) :
    ∀ window ∈ windows, f window = g window := by
  induction windows with
  | nil => exact fun window hin => absurd hin List.not_mem_nil
  | cons first rest ih =>
    simp only [List.map_cons, List.flatten_cons] at h
    obtain ⟨hfirst, hrest⟩ := List.append_inj h (hlength first List.mem_cons_self)
    intro window hin
    rcases List.mem_cons.mp hin with rfl | hin
    · exact hfirst
    · exact ih (fun window hin => hlength window (List.mem_cons_of_mem _ hin)) hrest window hin

/-- Files with the same identifier have the same size and the same sampled bytes. -/
theorem sameSample_of_contentId {content content' : List UInt8}
    (h : (fingerprint sha content).map (·.contentId) =
      (fingerprint sha content').map (·.contentId)) : SameSample content content' := by
  rw [fingerprint_eq, fingerprint_eq, Option.map_some, Option.map_some] at h
  obtain ⟨hsize, hflatten⟩ := identityOf_inj.mp (Option.some.inj h)
  rw [← hsize] at hflatten
  refine ⟨hsize, forall_eq_of_flatten_map (fun window hin => ?_) hflatten⟩
  rw [length_of hin, length_of (hsize ▸ hin)]

/-- **One identity**: over the network it is the one from the disk, or null, where the request for
some window fails or those for all windows are whole; and it tells apart files that differ in what
is sampled. -/
theorem one_identity (sha : Sha256) :
    (∀ (openStream : ℕ → ℕ → Answer) (content : List UInt8), content ≠ [] →
      TrueBytes openStream content → (Agrees sha (some openStream) content ↔
        (∃ window ∈ windowsRead content.length, (window.ask openStream).Fails window.length) ∨
          ∀ window ∈ windowsRead content.length, (window.ask openStream).Whole window.length)) ∧
      ∀ content content' : List UInt8,
        (fingerprint sha content).map (·.contentId) = (fingerprint sha content').map (·.contentId) →
          SameSample content content' :=
  ⟨fun _ _ hne htrue => agrees_iff hne htrue, fun _ _ => sameSample_of_contentId⟩

/-! ### Two responses -/

private def hexDigit (n : ℕ) : Char := "0123456789abcdef".toList.getD n '0'

def Sha256.hex : Sha256 where
  digest data := String.ofList
    (data.flatMap fun byte => [hexDigit (byte.toNat / 16), hexDigit (byte.toNat % 16)])
  injective := by
    have hdigit : ∀ n < 16, ∀ m < 16, hexDigit n = hexDigit m → n = m := by decide
    intro a b h
    replace h := String.ofList_injective h
    induction a generalizing b with
    | nil => cases b with
      | nil => rfl
      | cons => simp at h
    | cons first rest ih => cases b with
      | nil => simp at h
      | cons first' rest' =>
        simp only [List.flatMap_cons, List.cons_append, List.nil_append, List.cons_eq_cons] at h
        obtain ⟨hhigh, hlow, hrest⟩ := h
        have hbyte := first.toNat_lt
        have hbyte' := first'.toNat_lt
        have hdiv := hdigit _ (by omega) _ (by omega) hhigh
        have hmod := hdigit _ (by omega) _ (by omega) hlow
        obtain rfl : first = first' := UInt8.toNat_inj.mp (by omega)
        rw [ih hrest]
  hexadecimal data c h := by
    have hdigit : ∀ n < 16, hexDigit n ∈ "0123456789abcdef".toList := by decide
    rw [String.toList_ofList] at h
    obtain ⟨byte, -, hc⟩ := List.mem_flatMap.mp h
    have hbyte := byte.toNat_lt
    rcases List.mem_pair.mp hc with rfl | rfl
    · exact hdigit _ (by omega)
    · exact hdigit _ (by omega)

/-- A server that answers so at the start of the file. -/
private def atStart (answer : Answer) : ℕ → ℕ → Answer :=
  fun start _ => if start = 0 then answer else .error

private theorem trueBytes_atStart {buffers : List (List UInt8)} {breaks : Bool}
    {content : List UInt8} (h : buffers.flatten <+: content) :
    TrueBytes (atStart (.opened true buffers breaks)) content := by
  intro start last buffers' breaks' heq
  rw [atStart] at heq
  split at heq
  · next hstart =>
    obtain ⟨-, rfl, rfl⟩ := Answer.opened.inj heq
    rwa [hstart, List.drop_zero]
  · cases heq

/-- Two bytes in two buffers. -/
theorem agrees_two : Agrees Sha256.hex (some (atStart (.opened true [[7], [8]] false))) [7, 8] := by
  refine ((one_identity Sha256.hex).1 _ [7, 8] (by decide) (trueBytes_atStart (by decide))).mpr
    (.inr fun window hin => ?_)
  obtain rfl : window = ⟨0, 2⟩ := List.mem_singleton.mp hin
  refine ⟨by decide, fun first hfirst => .inl ?_⟩
  have hlength : first.flatten.length ≤ 2 := by
    obtain ⟨rest, hrest⟩ := hfirst
    have hall := congrArg (·.flatten.length) hrest
    simp only [List.flatten_append, List.length_append] at hall
    exact Nat.le.intro hall
  exact Nat.le_trans hlength (by decide)

/-- A response of one byte of two has another identity; and so has a file of 700000 bytes that is
served whole, in a buffer of 600000 and one of 100000. -/
theorem not_agrees :
    (TrueBytes (atStart (.opened true [[7]] false)) [7, 8] ∧
      ¬ Agrees Sha256.hex (some (atStart (.opened true [[7]] false))) [7, 8]) ∧
    (TrueBytes (atStart (.opened true [.replicate 600000 7, .replicate 100000 7] false))
        (.replicate 700000 7) ∧
      ¬ Agrees Sha256.hex
        (some (atStart (.opened true [.replicate 600000 7, .replicate 100000 7] false)))
        (.replicate 700000 7)) := by
  have hshort : TrueBytes (atStart (.opened true [[7]] false)) [7, 8] :=
    trueBytes_atStart (by decide)
  have hlong : TrueBytes (atStart (.opened true [.replicate 600000 7, .replicate 100000 7] false))
      (.replicate 700000 7) := by
    refine trueBytes_atStart ?_
    rw [List.flatten_cons, List.flatten_singleton, List.replicate_append_replicate]
  refine ⟨⟨hshort, fun h => ?_⟩, hlong, fun h => ?_⟩
  · rcases (agrees_iff (by decide) hshort).mp h with ⟨window, hin, hfails⟩ | hwhole
    · obtain rfl : window = ⟨0, 2⟩ := List.mem_singleton.mp hin
      cases hfails.1
    · exact absurd (hwhole ⟨0, 2⟩ (by decide)).1 (by decide)
  · have hread : windowsRead (List.replicate 700000 (7 : UInt8)).length = [⟨0, 700000⟩] := by
      rw [List.length_replicate]
      decide
    have hne : List.replicate 700000 (7 : UInt8) ≠ [] := by
      rw [Ne, List.replicate_eq_nil_iff]
      decide
    rcases (agrees_iff hne hlong).mp h with ⟨window, hin, hfails⟩ | hwhole
    · rw [hread] at hin
      obtain rfl : window = ⟨0, 700000⟩ := List.mem_singleton.mp hin
      cases hfails.1
    · have hcompletes := hwhole ⟨0, 700000⟩ (by rw [hread]; exact List.mem_singleton_self _)
      rcases hcompletes.2 [.replicate 600000 7] ⟨[.replicate 100000 7], rfl⟩ with hlow | hhigh
      · rw [List.flatten_singleton, List.length_replicate] at hlow
        exact absurd hlow (by decide)
      · rw [List.flatten_singleton, List.length_replicate] at hhigh
        exact absurd hhigh (by decide)

end MediaCenterSync.Fingerprint
