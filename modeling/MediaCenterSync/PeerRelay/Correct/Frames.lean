import Mathlib.Tactic.NormNum
import MediaCenterSync.PeerRelay.Frames

/-!
# Relay frames round-trip

However the encodings of frames are cut into reads, a fresh reader yields the frames in their order,
does not fail, and has nothing left (`pushAll_encodeRelayFrames`).  Of any bytes whatever, it says
the same however they are cut unless frames come before a header it cannot read: those are lost with
the header when they arrive in one chunk with it (`onlyBytes_iff`).
-/

namespace MediaCenterSync.PeerRelay

open Framing

/-! ### Numbers -/

theorem readUInt32BE_append (buffer more : List UInt8) {offset : ℕ}
    (h : offset + 4 ≤ buffer.length) :
    readUInt32BE (buffer ++ more) offset = readUInt32BE buffer offset := by
  rw [readUInt32BE, List.drop_append_of_le_length (by omega),
    List.take_append_of_le_length (by rw [List.length_drop]; omega), readUInt32BE]

theorem readUInt8_append (buffer more : List UInt8) {offset : ℕ} (h : offset < buffer.length) :
    readUInt8 (buffer ++ more) offset = readUInt8 buffer offset := by
  simp only [readUInt8, List.getD_eq_getElem?_getD, List.getElem?_append_left h]

theorem length_writeUInt32BE {n : ℕ} {bytes : List UInt8} (h : writeUInt32BE n = some bytes) :
    bytes.length = 4 := by
  obtain ⟨_, h⟩ := Option.ite_none_right_eq_some.mp h
  cases h
  rfl

theorem readUInt32BE_write {n : ℕ} {bytes : List UInt8} (h : writeUInt32BE n = some bytes)
    (front rest : List UInt8) : readUInt32BE (front ++ (bytes ++ rest)) front.length = n := by
  obtain ⟨hn, h⟩ := Option.ite_none_right_eq_some.mp h
  cases h
  rw [readUInt32BE, List.drop_left]
  simp only [List.cons_append, List.nil_append, List.take_succ_cons, List.take_zero,
    List.foldl_cons, List.foldl_nil, UInt8.toNat_ofNat']
  norm_num at hn ⊢
  omega

/-! ### Frames -/

theorem RelayOpcode.ofValue_value (opcode : RelayOpcode) :
    RelayOpcode.ofValue opcode.value = some opcode := by
  cases opcode <;> rfl

theorem RelayOpcode.value_lt (opcode : RelayOpcode) : opcode.value < 256 := by
  cases opcode <;> decide

theorem encodeRelayFrame_eq {frame : RelayFrame} {bytes : List UInt8}
    (h : encodeRelayFrame frame = some bytes) :
    ∃ marker session length, writeUInt32BE RELAY_CHANNEL_MARKER = some marker ∧
      writeUInt32BE frame.session = some session ∧
      writeUInt32BE frame.payload.length = some length ∧
      bytes = marker ++
        ([UInt8.ofNat frame.opcode.value] ++ (session ++ (length ++ frame.payload))) := by
  simp only [encodeRelayFrame, Option.bind_eq_bind, Option.bind_eq_some_iff] at h
  obtain ⟨marker, hmarker, session, hsession, length, hlength, h⟩ := h
  cases h
  exact ⟨marker, session, length, hmarker, hsession, hlength, by simp only [List.append_assoc]⟩

theorem scanRelayFrame_encode {frame : RelayFrame} {bytes : List UInt8}
    (h : encodeRelayFrame frame = some bytes)
    (hpayload : frame.payload.length ≤ RELAY_MAX_FRAME_BYTES) (rest : List UInt8) :
    scanRelayFrame (bytes ++ rest) = .frame frame rest := by
  obtain ⟨marker, session, length, hmarker, hsession, hlength, rfl⟩ := encodeRelayFrame_eq h
  have hm := length_writeUInt32BE hmarker
  have hs := length_writeUInt32BE hsession
  have hl := length_writeUInt32BE hlength
  have hop : (UInt8.ofNat frame.opcode.value).toNat = frame.opcode.value := by
    rw [UInt8.toNat_ofNat']
    exact Nat.mod_eq_of_lt frame.opcode.value_lt
  generalize hb :
    marker ++ ([UInt8.ofNat frame.opcode.value] ++ (session ++ (length ++ frame.payload))) ++ rest =
      buffer
  -- The four numbers of the header.
  have hread0 : readUInt32BE buffer 0 = RELAY_CHANNEL_MARKER := by
    rw [← hb, List.append_assoc]
    exact readUInt32BE_write hmarker [] _
  have hread4 : readUInt8 buffer 4 = frame.opcode.value := by
    rw [← hb, ← hop]
    simp [readUInt8, List.getD_eq_getElem?_getD, hm]
  have hread5 : readUInt32BE buffer 5 = frame.session := by
    have := readUInt32BE_write hsession (marker ++ [UInt8.ofNat frame.opcode.value])
      (length ++ frame.payload ++ rest)
    simp only [List.length_append, hm, List.length_singleton] at this
    rw [← hb, ← this]
    simp only [List.append_assoc]
  have hread9 : readUInt32BE buffer 9 = frame.payload.length := by
    have := readUInt32BE_write hlength (marker ++ [UInt8.ofNat frame.opcode.value] ++ session)
      (frame.payload ++ rest)
    simp only [List.length_append, hm, hs, List.length_singleton] at this
    rw [← hb, ← this]
    simp only [List.append_assoc]
  have hheader : buffer = (marker ++ [UInt8.ofNat frame.opcode.value] ++ session ++ length) ++
      (frame.payload ++ rest) := by
    rw [← hb]
    simp only [List.append_assoc]
  have hlen : (marker ++ [UInt8.ofNat frame.opcode.value] ++ session ++ length).length =
      RELAY_FRAME_HEADER_BYTES := by
    simp only [List.length_append, hm, hs, hl, List.length_singleton]
    rfl
  have hbuffer :
      buffer.length = RELAY_FRAME_HEADER_BYTES + (frame.payload.length + rest.length) := by
    rw [hheader, List.length_append, hlen, List.length_append]
  rw [scanRelayFrame, if_neg (by omega), if_neg (by simp [hread0]), hread4, hread5, hread9,
    RelayOpcode.ofValue_value]
  simp only
  have htake : (buffer.take (RELAY_FRAME_HEADER_BYTES + frame.payload.length)).drop
      RELAY_FRAME_HEADER_BYTES = frame.payload := by
    rw [← List.take_drop, hheader, ← hlen, List.drop_left, List.take_left]
  have hdrop : buffer.drop (RELAY_FRAME_HEADER_BYTES + frame.payload.length) = rest := by
    rw [← List.drop_drop, hheader, ← hlen, List.drop_left, List.drop_left]
  rw [if_neg (by omega), if_neg (by omega), htake, hdrop]

/-- What the header says does not depend on what follows it. -/
theorem scanRelayFrame_lawful : Lawful scanRelayFrame where
  -- A frame takes its header at least.
  shorter {buffer frame rest} h := by
    have hpos : 0 < RELAY_FRAME_HEADER_BYTES := by decide
    unfold scanRelayFrame at h
    split at h
    · cases h
    · split at h
      · cases h
      · simp only at h
        split at h
        · cases h
        · split at h
          · cases h
          · split at h
            · cases h
            · cases h
              rw [List.length_drop]
              omega
  frame_append {buffer frame rest} more h := by
    unfold scanRelayFrame at h ⊢
    split at h
    · cases h
    · rename_i hheader
      have hle : RELAY_FRAME_HEADER_BYTES = 13 := rfl
      -- The header is all there, so what comes after it changes nothing that was read.
      rw [if_neg (by rw [List.length_append]; omega), readUInt32BE_append _ _ (by omega),
        readUInt32BE_append _ _ (by omega), readUInt32BE_append _ _ (by omega),
        readUInt8_append _ _ (by omega)]
      split at h
      · cases h
      · rename_i hmarker
        rw [if_neg hmarker]
        simp only at h ⊢
        split at h
        · cases h
        · split at h
          · cases h
          · rename_i hlength
            rw [if_neg hlength]
            split at h
            · cases h
            · rename_i htotal
              cases h
              rw [if_neg (by rw [List.length_append]; omega),
                List.take_append_of_le_length (by omega), List.drop_append_of_le_length (by omega)]
  bad_append {buffer} more h := by
    unfold scanRelayFrame at h ⊢
    split at h
    · cases h
    · rename_i hheader
      have hle : RELAY_FRAME_HEADER_BYTES = 13 := rfl
      rw [if_neg (by rw [List.length_append]; omega), readUInt32BE_append _ _ (by omega),
        readUInt32BE_append _ _ (by omega), readUInt32BE_append _ _ (by omega),
        readUInt8_append _ _ (by omega)]
      split at h
      · rename_i hmarker
        rw [if_pos hmarker]
      · rename_i hmarker
        rw [if_neg hmarker]
        simp only at h ⊢
        split at h
        · rfl
        · split at h
          · rename_i hlength
            rw [if_pos hlength]
          · split at h <;> cases h

/-! ### Round trip -/

theorem encodeRelayFrame_isSome {frame : RelayFrame} (hsession : frame.session < 2 ^ 32)
    (hpayload : frame.payload.length ≤ RELAY_MAX_FRAME_BYTES) :
    (encodeRelayFrame frame).isSome := by
  have hmax : RELAY_MAX_FRAME_BYTES < 2 ^ 32 := by decide
  have hmarker : writeUInt32BE RELAY_CHANNEL_MARKER = some _ := if_pos (by decide)
  have hid : writeUInt32BE frame.session = some _ := if_pos hsession
  have hlength : writeUInt32BE frame.payload.length = some _ := if_pos (by omega)
  simp only [encodeRelayFrame, hmarker, hid, hlength]
  rfl

/-- **Round trip under any split**: the frames are encoded, and however the bytes are cut, a fresh
reader yields the frames and is as fresh as before. -/
theorem pushAll_encodeRelayFrames {frames : List RelayFrame}
    (hframes : ∀ frame ∈ frames, frame.session < 2 ^ 32 ∧
      frame.payload.length ≤ RELAY_MAX_FRAME_BYTES) :
    ∃ bytes, encodeRelayFrames frames = some bytes ∧ ∀ chunks : List (List UInt8),
      chunks.flatten = bytes →
        RelayFrameReader.pushAll Reader.fresh chunks = (frames, Reader.fresh) := by
  -- Every frame has its encoding, which scans as the frame.
  have hencoded : ∃ encoded, frames.mapM encodeRelayFrame = some encoded ∧
      List.Forall₂ (fun bytes frame => ∀ rest, scanRelayFrame (bytes ++ rest) = .frame frame rest)
        encoded frames := by
    induction frames with
    | nil => exact ⟨[], rfl, .nil⟩
    | cons frame frames ih =>
      obtain ⟨hsession, hpayload⟩ := hframes frame List.mem_cons_self
      obtain ⟨bytes, hbytes⟩ :=
        Option.isSome_iff_exists.mp (encodeRelayFrame_isSome hsession hpayload)
      obtain ⟨encoded, hencoded, hall⟩ := ih fun f hf => hframes f (List.mem_cons_of_mem _ hf)
      refine ⟨bytes :: encoded, ?_, .cons (scanRelayFrame_encode hbytes hpayload) hall⟩
      rw [List.mapM_cons, hbytes, hencoded]
      rfl
  obtain ⟨encoded, hencoded, hall⟩ := hencoded
  refine ⟨encoded.flatten, by rw [encodeRelayFrames, hencoded]; rfl, fun chunks hcut => ?_⟩
  exact pushAll_of_flatten scanRelayFrame_lawful rfl hall hcut

def twoFrames : List RelayFrame := [⟨.TEXT, 2, [104, 105]⟩, ⟨.CLOSE, 3, []⟩]

theorem pushAll_encodeRelayFrames_twoFrames :
    ∃ bytes, encodeRelayFrames twoFrames = some bytes ∧
      RelayFrameReader.pushAll Reader.fresh
          [bytes.take 5, [], (bytes.drop 5).take 9, bytes.drop 14] =
        (twoFrames, Reader.fresh) := by
  obtain ⟨bytes, hbytes, hpush⟩ := @pushAll_encodeRelayFrames twoFrames (by decide)
  refine ⟨bytes, hbytes, hpush _ ?_⟩
  simp only [List.flatten_cons, List.flatten_nil, List.append_nil, List.nil_append]
  have htail : bytes.drop 14 = (bytes.drop 5).drop 9 := by rw [List.drop_drop]
  rw [htail, List.take_append_drop, List.take_append_drop]

/-! ### Any bytes -/

theorem scanRelayFrame_exact : Exact scanRelayFrame := by
  intro buffer frame rest h
  unfold scanRelayFrame at h
  split at h
  · cases h
  · rename_i hheader
    have hle : RELAY_FRAME_HEADER_BYTES = 13 := rfl
    split at h
    · cases h
    · rename_i hmarker
      simp only at h
      split at h
      · cases h
      · rename_i opcode hopcode
        split at h
        · cases h
        · rename_i hlength
          split at h
          · cases h
          · rename_i htotal
            set total := RELAY_FRAME_HEADER_BYTES + readUInt32BE buffer 9 with htotal_def
            cases h
            have hcut : (buffer.take total).length = total := by
              rw [List.length_take]
              omega
            have hread : ∀ offset, offset + 4 ≤ total →
                readUInt32BE (buffer.take total) offset = readUInt32BE buffer offset := by
              intro offset hoffset
              conv_rhs => rw [← List.take_append_drop total buffer]
              exact (readUInt32BE_append _ _ (by omega)).symm
            have hcode : readUInt8 (buffer.take total) 4 = readUInt8 buffer 4 := by
              conv_rhs => rw [← List.take_append_drop total buffer]
              exact (readUInt8_append _ _ (by omega)).symm
            refine ⟨buffer.take total, (List.take_append_drop total buffer).symm, ?_⟩
            rw [scanRelayFrame, if_neg (by omega), hread 0 (by omega), if_neg hmarker,
              hread 5 (by omega), hread 9 (by omega), hcode, hopcode]
            simp only
            rw [if_neg hlength, if_neg (by omega), ← htotal_def]
            have hrest : (buffer.take total).drop total = [] := List.drop_eq_nil_of_le hcut.le
            rw [List.take_take, Nat.min_self, hrest]

/-- **The reader depends on the bytes and not on how they were cut**, and delivers the frames that
precede an unreadable header whatever chunk they arrive in. -/
structure OnlyBytes (bytes : List UInt8) : Prop where
  cutFree : CutFree scanRelayFrame bytes
  delivered : ∀ chunks : List (List UInt8), chunks.flatten = bytes →
    (RelayFrameReader.pushAll Reader.fresh chunks).1 = (decode scanRelayFrame bytes).1

/-- **It does exactly when no frame precedes an unreadable header.** -/
theorem onlyBytes_iff (bytes : List UInt8) :
    OnlyBytes bytes ↔
      ((decode scanRelayFrame bytes).2 = none → (decode scanRelayFrame bytes).1 = []) := by
  have hfree := cutFree_iff scanRelayFrame_lawful scanRelayFrame_exact rfl bytes
  constructor
  · exact fun h => hfree.mp h.cutFree
  · intro h
    refine ⟨hfree.mpr h, fun chunks hchunks => ?_⟩
    have hwhole : (RelayFrameReader.pushAll Reader.fresh [bytes]).1 =
        (decode scanRelayFrame bytes).1 := by
      rw [RelayFrameReader.pushAll, pushAll_whole]
      cases hd : decode scanRelayFrame bytes with
      | mk frames left =>
        rw [hd] at h
        cases left with
        | some left => rfl
        | none => exact (h rfl).symm
    rw [← hwhole]
    exact (hfree.mpr h chunks [bytes] hchunks (by simp)).1

/-- A frame, and a header that is not one. -/
def thenNoise : List UInt8 :=
  ((encodeRelayFrame ⟨.TEXT, 2, [104, 105]⟩).getD []) ++ List.replicate 13 0

/-- **The frame is lost with the noise** that arrives in one chunk with it, and is delivered when
they are cut apart. -/
theorem not_onlyBytes_thenNoise : ¬ OnlyBytes thenNoise := by
  intro h
  have hcut := (h.cutFree [thenNoise.take 15, thenNoise.drop 15] [thenNoise] (by simp) (by simp)).1
  revert hcut
  decide +kernel

end MediaCenterSync.PeerRelay
