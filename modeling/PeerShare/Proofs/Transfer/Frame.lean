import Mathlib.Tactic.Ring
import PeerShare.Proofs.Text.Utf8
import PeerShare.Transfer.Frame

/-!
The two frames of a transfer are read as they were written: a number of fixed width, a name in front
of whatever follows it, and a content behind its length. A stream that begins with a name is told
apart from one that ends too early and from one with other bytes in the place of the name.
-/

namespace PeerShare.Frame

theorem foldl_bigEndian (width n start : Nat) :
    (bigEndian width n).foldl (fun n b => n * 256 + b.toNat) start =
      start * 256 ^ width + n % 256 ^ width := by
  induction width generalizing start with
  | zero => simp [bigEndian, Nat.mod_one]
  | succ width ih =>
    have hbyte : (UInt8.ofNat (n / Nat.pow 256 width % 256)).toNat = n / 256 ^ width % 256 :=
      Text.toNat_ofNat (Nat.mod_lt _ (by decide))
    rw [bigEndian, List.foldl_cons, ih, hbyte, pow_succ, Nat.mod_mul]
    ring

theorem ofBigEndian_bigEndian {width n : Nat} (h : n < 256 ^ width) :
    ofBigEndian (bigEndian width n) = n := by
  rw [ofBigEndian, foldl_bigEndian, Nat.zero_mul, Nat.zero_add, Nat.mod_eq_of_lt h]

theorem writeName_of_le {name : String} (h : (Text.bytes name).length ≤ nameLimit) :
    writeName name = .ok (bigEndian 2 (Text.bytes name).length ++ Text.bytes name) :=
  if_neg (Nat.not_lt.mpr h)

theorem writeName_of_lt {name : String} (h : nameLimit < (Text.bytes name).length) :
    writeName name = .error (.nameTooLong (Text.bytes name).length) := if_pos h

theorem readName_writeName {name : String} {frame : Bytes} (h : writeName name = .ok frame)
    (rest : Bytes) : readName (frame ++ rest) = (.ok name, rest) := by
  by_cases hl : nameLimit < (Text.bytes name).length
  · rw [writeName_of_lt hl] at h
    cases h
  · rw [writeName_of_le (Nat.not_lt.mp hl)] at h
    cases h
    have hlength : ofBigEndian (bigEndian 2 (Text.bytes name).length) = (Text.bytes name).length :=
      ofBigEndian_bigEndian (Nat.lt_succ_of_le (Nat.not_lt.mp hl))
    have hdecode : Text.decode (Text.bytes name) = .ok name.toList := Text.decode_encode _
    generalize Text.bytes name = bytes at hlength hdecode
    simp only [bigEndian] at hlength ⊢
    simp only [List.cons_append, List.nil_append, readName, hlength, List.length_append,
      Nat.not_lt.mpr (Nat.le_add_right _ _), if_false, List.take_left', List.drop_left', hdecode,
      String.ofList_toList]

theorem readHeader_append {header : Bytes} (h : header.length = 8) (content : Bytes) :
    readHeader (header ++ content) = some (ofBigEndian header, content) := by
  have hlong : ¬ (header ++ content).length < 8 := by
    rw [List.length_append]
    omega
  rw [readHeader, if_neg hlong, List.take_left' h, List.drop_left' h]

/-- The stream begins with a length, the high one of its two bytes first, and a content of that
length. -/
def Framed (stream content rest : Bytes) : Prop :=
  ∃ high low : UInt8, stream = high :: low :: (content ++ rest) ∧
    content.length = 256 * high.toNat + low.toNat

def Truncated (stream : Bytes) : Prop :=
  stream.length < 2 ∨ ∃ (high low : UInt8) (r : Bytes), stream = high :: low :: r ∧
    r.length < 256 * high.toNat + low.toNat

section Streams
variable {stream content rest : Bytes} {name : String} {cause : IoCause} {e : TransferError}

theorem ofBigEndian_two (high low : UInt8) :
    ofBigEndian [high, low] = 256 * high.toNat + low.toNat := by
  simp only [ofBigEndian, List.foldl]
  omega

theorem bigEndian_two {n : Nat} {high low : UInt8} (h : n = 256 * high.toNat + low.toNat) :
    bigEndian 2 n = [high, low] := by
  have hhigh := high.toNat_lt
  have hlow := low.toNat_lt
  simp only [bigEndian, Nat.pow_eq, pow_one, pow_zero, Nat.div_one]
  rw [Text.ofNat_eq (a := high) (by omega), Text.ofNat_eq (a := low) (by omega)]

theorem framed_or_truncated (stream : Bytes) :
    (∃ content rest, Framed stream content rest) ∨ Truncated stream := by
  match stream with
  | [] => exact .inr (.inl Nat.zero_lt_two)
  | [_] => exact .inr (.inl Nat.one_lt_two)
  | high :: low :: r =>
    by_cases hr : r.length < 256 * high.toNat + low.toNat
    · exact .inr (.inr ⟨high, low, r, rfl, hr⟩)
    · have hr := Nat.not_lt.mp hr
      refine .inl ⟨r.take (256 * high.toNat + low.toNat), r.drop (256 * high.toNat + low.toNat),
        high, low, ?_, List.length_take_of_le hr⟩
      rw [List.take_append_drop]

theorem Framed.readName (h : Framed stream content rest) : readName stream =
    (((Text.decode content).map String.ofList).mapError fun _ => .nameEncoding, rest) := by
  obtain ⟨high, low, rfl, hlength⟩ := h
  have hlong : ¬ (content ++ rest).length < content.length := by simp
  simp only [Frame.readName, ofBigEndian_two, ← hlength, if_neg hlong, List.take_left',
    List.drop_left']
  cases Text.decode content <;> rfl

theorem Truncated.readName (h : Truncated stream) :
    ∃ cause, readName stream = (.error (.stream cause), []) := by
  rcases h with h | ⟨high, low, r, rfl, hr⟩
  · match stream, h with
    | [], _ => exact ⟨_, rfl⟩
    | [_], _ => exact ⟨_, rfl⟩
  · rw [← ofBigEndian_two] at hr
    exact ⟨_, if_pos hr⟩

theorem readName_cases (stream : Bytes) :
    (∃ name rest, Framed stream (Text.bytes name) rest ∧ readName stream = (.ok name, rest)) ∨
    (∃ content rest, Framed stream content rest ∧ ¬ content.toByteArray.IsValidUTF8 ∧
      readName stream = (.error .nameEncoding, rest)) ∨
    Truncated stream ∧ ∃ cause, readName stream = (.error (.stream cause), []) := by
  rcases framed_or_truncated stream with ⟨content, rest, hf⟩ | ht
  · have hr := hf.readName
    cases hd : Text.decode content with
    | error f =>
      rw [hd] at hr
      refine .inr (.inl ⟨content, rest, hf, fun hv => ?_, hr⟩)
      obtain ⟨s, hs⟩ := Text.decode_isOk_iff.mpr hv
      cases hd.symm.trans hs
    | ok s =>
      rw [hd] at hr
      rw [Text.decode_eq_ok_iff.mp hd, ← String.toList_ofList (l := s)] at hf
      exact .inl ⟨String.ofList s, rest, hf, hr⟩
  · exact .inr (.inr ⟨ht, ht.readName⟩)

theorem readName_ok_iff : readName stream = (.ok name, rest) ↔
    Framed stream (Text.bytes name) rest := by
  constructor
  · intro h
    rcases readName_cases stream with ⟨_, _, hf, hr⟩ | ⟨_, _, -, -, hr⟩ | ⟨-, _, hr⟩
    · cases hr.symm.trans h
      exact hf
    · cases hr.symm.trans h
    · cases hr.symm.trans h
  · intro h
    rw [h.readName, Text.bytes, Text.decode_encode]
    simp only [Except.map, Except.mapError, String.ofList_toList]

theorem readName_stream_iff :
    (∃ cause rest, readName stream = (.error (.stream cause), rest)) ↔ Truncated stream := by
  constructor
  · intro h
    obtain ⟨cause, rest, h⟩ := h
    rcases readName_cases stream with ⟨_, _, -, hr⟩ | ⟨_, _, -, -, hr⟩ | ⟨ht, -⟩
    · cases hr.symm.trans h
    · cases hr.symm.trans h
    · exact ht
  · intro h
    obtain ⟨cause, hr⟩ := h.readName
    exact ⟨cause, [], hr⟩

theorem readName_nameEncoding_iff : readName stream = (.error .nameEncoding, rest) ↔
    ∃ content, Framed stream content rest ∧ ¬ content.toByteArray.IsValidUTF8 := by
  constructor
  · intro h
    rcases readName_cases stream with ⟨_, _, -, hr⟩ | ⟨content, _, hf, hv, hr⟩ | ⟨-, _, hr⟩
    · cases hr.symm.trans h
    · cases hr.symm.trans h
      exact ⟨content, hf, hv⟩
    · cases hr.symm.trans h
  · intro h
    obtain ⟨content, hf, hv⟩ := h
    rw [hf.readName]
    cases hd : Text.decode content with
    | error f => rfl
    | ok s => exact absurd (Text.decode_isOk_iff.mp ⟨s, hd⟩) hv

theorem readName_error (h : readName stream = (.error e, rest)) :
    e = .nameEncoding ∨ ∃ cause, e = .stream cause := by
  rcases readName_cases stream with ⟨_, _, -, hr⟩ | ⟨_, _, -, -, hr⟩ | ⟨-, cause, hr⟩
  · cases hr.symm.trans h
  · cases hr.symm.trans h
    exact .inl rfl
  · cases hr.symm.trans h
    exact .inr ⟨cause, rfl⟩

theorem framed_bytes_iff : Framed stream (Text.bytes name) rest ↔
    ∃ frame, writeName name = .ok frame ∧ stream = frame ++ rest := by
  constructor
  · intro h
    obtain ⟨high, low, rfl, hlength⟩ := h
    have hshort : (Text.bytes name).length ≤ nameLimit := by
      have := high.toNat_lt
      have := low.toNat_lt
      rw [hlength, nameLimit]
      omega
    refine ⟨_, writeName_of_le hshort, ?_⟩
    rw [bigEndian_two hlength]
    rfl
  · intro h
    obtain ⟨frame, hframe, rfl⟩ := h
    exact readName_ok_iff.mp (readName_writeName hframe rest)

end Streams

/-- A name of at most 65535 bytes is written as its length and its bytes, and read back whatever
follows it; of a longer one nothing is written. What is read as a name is exactly what writing it
gives, and then no byte after it is taken. A stream that ends too early fails as such, and only a
content that is no UTF-8 fails as a name. -/
theorem names_travel_in_frames :
    (∀ (name : String) (rest : Bytes), name.utf8ByteSize ≤ 65535 → ∃ frame,
      writeName name = .ok frame ∧ Framed frame (Text.bytes name) [] ∧
      readName (frame ++ rest) = (.ok name, rest)) ∧
    (∀ name : String, 65535 < name.utf8ByteSize →
      writeName name = .error (.nameTooLong name.utf8ByteSize)) ∧
    (∀ stream, (∃ name rest, readName stream = (.ok name, rest)) ↔
      ∃ content rest, Framed stream content rest ∧ content.toByteArray.IsValidUTF8) ∧
    (∀ stream name rest, readName stream = (.ok name, rest) → ∃ frame,
      writeName name = .ok frame ∧ stream = frame ++ rest ∧
      frame.length = 2 + name.utf8ByteSize) ∧
    (∀ stream, (∃ cause rest, readName stream = (.error (.stream cause), rest)) ↔
      Truncated stream) ∧
    (∀ stream rest, readName stream = (.error .nameEncoding, rest) ↔
      ∃ content, Framed stream content rest ∧ ¬ content.toByteArray.IsValidUTF8) ∧
    ∀ stream e rest, readName stream = (.error e, rest) →
      e = .nameEncoding ∨ ∃ cause, e = .stream cause := by
  refine ⟨fun name rest h => ?_, fun name h => ?_, fun stream => ⟨fun h => ?_, fun h => ?_⟩,
    fun stream name rest h => ?_, fun stream => readName_stream_iff,
    fun stream rest => readName_nameEncoding_iff, fun stream e rest => readName_error⟩
  · rw [← Text.length_bytes] at h
    have hframe := writeName_of_le h
    refine ⟨_, hframe, ?_, readName_writeName hframe rest⟩
    exact framed_bytes_iff.mpr ⟨_, hframe, (List.append_nil _).symm⟩
  · rw [← Text.length_bytes] at h ⊢
    exact writeName_of_lt h
  · obtain ⟨name, rest, h⟩ := h
    refine ⟨_, rest, readName_ok_iff.mp h, ?_⟩
    exact Text.toByteArray_bytes name ▸ name.isValidUTF8
  · obtain ⟨content, rest, hf, hv⟩ := h
    obtain ⟨s, hs⟩ := Text.decode_isOk_iff.mpr hv
    rw [hf.readName, hs]
    exact ⟨_, rest, rfl⟩
  · obtain ⟨frame, hframe, rfl⟩ := framed_bytes_iff.mp (readName_ok_iff.mp h)
    refine ⟨frame, hframe, rfl, ?_⟩
    obtain ⟨high, low, hstream, -⟩ := framed_bytes_iff.mpr
      ⟨frame, hframe, (List.append_nil frame).symm⟩
    rw [hstream, ← Text.length_bytes]
    simp
    omega

theorem names_travel_in_frames_accented : "résumé.txt".utf8ByteSize ≤ 65535 ∧
    ∃ frame, writeName "résumé.txt" = .ok frame ∧ Framed frame (Text.bytes "résumé.txt") [] ∧
      readName (frame ++ [0]) = (.ok "résumé.txt", [0]) :=
  ⟨by decide, names_travel_in_frames.1 "résumé.txt" [0] (by decide)⟩

end PeerShare.Frame
