import Mathlib.Tactic.SplitIfs
import PeerShare.Text.Utf8

/-!
What is written as UTF-8 is read back: the bytes of a character are taken off the front whatever
follows them, and so the bytes of a text one character after the other. Nothing else is read: the
characters that were taken off some bytes are written as these bytes. So the bytes that can be read
are those that strings are made of.
-/

namespace PeerShare.Text

theorem toNat_cont (n : Nat) : (cont n).toNat = 0x80 + n % 64 := by
  rw [cont, UInt8.toNat_ofNat']
  omega

theorem isTail_cont (n : Nat) : isTail (cont n) = true := by
  have hn := toNat_cont n
  simp only [isTail, Bool.and_eq_true, decide_eq_true_eq]
  omega

theorem point_one (lead n : Nat) : point lead [cont n] = Char.ofNat (lead * 64 + n % 64) := by
  simp only [point, List.foldl, toNat_cont, Nat.add_sub_cancel_left]

theorem point_two (lead m n : Nat) :
    point lead [cont m, cont n] = Char.ofNat ((lead * 64 + m % 64) * 64 + n % 64) := by
  simp only [point, List.foldl, toNat_cont, Nat.add_sub_cancel_left]

theorem point_three (lead l m n : Nat) : point lead [cont l, cont m, cont n] =
    Char.ofNat (((lead * 64 + l % 64) * 64 + m % 64) * 64 + n % 64) := by
  simp only [point, List.foldl, toNat_cont, Nat.add_sub_cancel_left]

section Heads
variable {start : Nat} {a : UInt8} {low high : Nat} (rest : Bytes)

theorem decodeFrom_one (ha : a.toNat < 0x80) : decodeFrom start (a :: rest) =
    (decodeFrom (start + 1) rest).map (point a.toNat [] :: ·) := by
  rw [decodeFrom, if_pos ha]

theorem decodeFrom_two {n : Nat} (ha : ¬ a.toNat < 0x80)
    (hf : follow a.toNat = some (1, low, high)) (hn : low ≤ 0x80 + n % 64 ∧ 0x80 + n % 64 ≤ high) :
    decodeFrom start (a :: cont n :: rest) =
      (decodeFrom (start + 2) rest).map (point (a.toNat - 0xC0) [cont n] :: ·) := by
  rw [← toNat_cont] at hn
  rw [decodeFrom, if_neg ha, hf]
  simp only [not_true, if_false, hn, and_self, if_true]

theorem decodeFrom_three {m n : Nat} (ha : ¬ a.toNat < 0x80)
    (hf : follow a.toNat = some (2, low, high)) (hm : low ≤ 0x80 + m % 64 ∧ 0x80 + m % 64 ≤ high) :
    decodeFrom start (a :: cont m :: cont n :: rest) =
      (decodeFrom (start + 3) rest).map (point (a.toNat - 0xE0) [cont m, cont n] :: ·) := by
  rw [← toNat_cont] at hm
  rw [decodeFrom, if_neg ha, hf]
  simp [hm, isTail_cont]

theorem decodeFrom_four {l m n : Nat} (ha : ¬ a.toNat < 0x80)
    (hf : follow a.toNat = some (3, low, high)) (hl : low ≤ 0x80 + l % 64 ∧ 0x80 + l % 64 ≤ high) :
    decodeFrom start (a :: cont l :: cont m :: cont n :: rest) =
      (decodeFrom (start + 4) rest).map (point (a.toNat - 0xF0) [cont l, cont m, cont n] :: ·) := by
  rw [← toNat_cont] at hl
  rw [decodeFrom, if_neg ha, hf]
  simp [hl, isTail_cont]

end Heads

theorem follow_two {n : Nat} (h : 0x80 ≤ n) (h' : n < 0x800) :
    follow (0xC0 + n / 64) = some (1, 0x80, 0xBF) := by
  rw [follow, if_neg (by omega), if_pos (by omega)]

theorem follow_three {n : Nat} (h : 0x800 ≤ n) (h' : n < 0x10000) (hs : n < 0xD800 ∨ 0xDFFF < n) :
    ∃ low high, follow (0xE0 + n / 4096) = some (2, low, high) ∧
      low ≤ 0x80 + n / 64 % 64 ∧ 0x80 + n / 64 % 64 ≤ high := by
  rw [follow, if_neg (by omega), if_neg (by omega)]
  by_cases hfirst : 0xE0 + n / 4096 = 0xE0
  · exact ⟨_, _, if_pos hfirst, by omega, by omega⟩
  rw [if_neg hfirst]
  by_cases hsurrogate : 0xE0 + n / 4096 = 0xED
  · exact ⟨_, _, if_pos hsurrogate, by omega, by omega⟩
  · rw [if_neg hsurrogate, if_pos (by omega)]
    exact ⟨_, _, rfl, by omega, by omega⟩

theorem follow_four {n : Nat} (h : 0x10000 ≤ n) (h' : n < 0x110000) :
    ∃ low high, follow (0xF0 + n / 262144) = some (3, low, high) ∧
      low ≤ 0x80 + n / 4096 % 64 ∧ 0x80 + n / 4096 % 64 ≤ high := by
  rw [follow, if_neg (by omega), if_neg (by omega), if_neg (by omega), if_neg (by omega),
    if_neg (by omega)]
  by_cases hfirst : 0xF0 + n / 262144 = 0xF0
  · exact ⟨_, _, if_pos hfirst, by omega, by omega⟩
  rw [if_neg hfirst]
  by_cases hmiddle : 0xF0 + n / 262144 < 0xF4
  · exact ⟨_, _, if_pos hmiddle, by omega, by omega⟩
  · rw [if_neg hmiddle, if_pos (by omega)]
    exact ⟨_, _, rfl, by omega, by omega⟩

theorem toNat_ofNat {n : Nat} (h : n < 256) : (UInt8.ofNat n).toNat = n := by
  rw [UInt8.toNat_ofNat']
  omega

theorem toNat_char (c : Char) : c.toNat < 0xD800 ∨ 0xDFFF < c.toNat ∧ c.toNat < 0x110000 := c.valid

theorem decodeFrom_encodeChar (start : Nat) (c : Char) (rest : Bytes) :
    ∃ k, decodeFrom start (encodeChar c ++ rest) =
      (decodeFrom (start + k) rest).map (c :: ·) := by
  have hc := toNat_char c
  have back {m : Nat} (h : m = c.toNat) : Char.ofNat m = c := by rw [h, Char.ofNat_toNat]
  simp only [encodeChar]
  generalize c.toNat = n at *
  split_ifs with h1 h2 h3
  · refine ⟨1, ?_⟩
    have hl := toNat_ofNat (n := n) (by omega)
    rw [List.singleton_append, decodeFrom_one rest (hl.symm ▸ h1), hl]
    simp only [point, List.foldl, back rfl]
  · refine ⟨2, ?_⟩
    have hl := toNat_ofNat (n := 0xC0 + n / 64) (by omega)
    have hf := follow_two (n := n) (by omega) h2
    rw [List.cons_append, List.singleton_append,
      decodeFrom_two rest (by omega) (by rw [hl, hf]) (by omega), hl, point_one, back (by omega)]
  · refine ⟨3, ?_⟩
    have hl := toNat_ofNat (n := 0xE0 + n / 4096) (by omega)
    obtain ⟨low, high, hf, hm⟩ := follow_three (n := n) (by omega) h3 (by omega)
    rw [List.cons_append, List.cons_append, List.singleton_append,
      decodeFrom_three rest (by omega) (by rw [hl, hf]) hm, hl, point_two, back (by omega)]
  · refine ⟨4, ?_⟩
    have hl := toNat_ofNat (n := 0xF0 + n / 262144) (by omega)
    obtain ⟨low, high, hf, hm⟩ := follow_four (n := n) (by omega) (by omega)
    rw [List.cons_append, List.cons_append, List.cons_append, List.singleton_append,
      decodeFrom_four rest (by omega) (by rw [hl, hf]) hm, hl, point_three, back (by omega)]

theorem decode_encode (s : List Char) : decode (encode s) = .ok s := by
  have from_any (start : Nat) : decodeFrom start (encode s) = .ok s := by
    induction s generalizing start with
    | nil => rfl
    | cons c s ih =>
      obtain ⟨k, hk⟩ := decodeFrom_encodeChar start c (encode s)
      rw [show encode (c :: s) = encodeChar c ++ encode s from rfl, hk, ih]
      rfl
  exact from_any 0

theorem encode_inj {s t : List Char} (h : encode s = encode t) : s = t :=
  Except.ok.inj ((decode_encode s).symm.trans (h ▸ decode_encode t))

/-! ### What is read was written -/

theorem follow_cases {n k low high : Nat} (h : follow n = some (k, low, high)) :
    0x80 ≤ low ∧ high ≤ 0xBF ∧
      ((k = 1 ∧ 0xC2 ≤ n ∧ n < 0xE0) ∨
        (k = 2 ∧ 0xE0 ≤ n ∧ n < 0xF0 ∧ (n = 0xE0 → 0xA0 ≤ low) ∧ (n = 0xED → high ≤ 0x9F)) ∨
        (k = 3 ∧ 0xF0 ≤ n ∧ n < 0xF5 ∧ (n = 0xF0 → 0x90 ≤ low) ∧ (n = 0xF4 → high ≤ 0x8F))) := by
  unfold follow at h
  split_ifs at h <;> obtain ⟨rfl, rfl, rfl⟩ := by simpa using h
  all_goals omega

theorem isTail_iff {b : UInt8} : isTail b = true ↔ 0x80 ≤ b.toNat ∧ b.toNat ≤ 0xBF := by
  simp only [isTail, Bool.and_eq_true, decide_eq_true_eq]

theorem ofNat_eq {n : Nat} {a : UInt8} (h : n = a.toNat) : UInt8.ofNat n = a := by
  rw [h, UInt8.ofNat_toNat]

theorem cont_eq {n : Nat} {b : UInt8} (h : 0x80 + n % 64 = b.toNat) : cont n = b := ofNat_eq h

theorem toNat_point {lead n : Nat} {tails : Bytes}
    (hn : tails.foldl (fun n b => n * 64 + (b.toNat - 0x80)) lead = n)
    (h : n < 0xD800 ∨ 0xDFFF < n ∧ n < 0x110000) : (point lead tails).toNat = n := by
  rw [point, hn, Char.ofNat, dif_pos h]
  rfl

section Characters
variable {a b c d : UInt8}

theorem encodeChar_point_one (ha : a.toNat < 0x80) : encodeChar (point a.toNat []) = [a] := by
  have hn : (point a.toNat []).toNat = a.toNat := toNat_point rfl (by omega)
  simp only [encodeChar, hn]
  rw [if_pos ha, UInt8.ofNat_toNat]

theorem encodeChar_point_two (ha : 0xC2 ≤ a.toNat ∧ a.toNat < 0xE0)
    (hb : 0x80 ≤ b.toNat ∧ b.toNat ≤ 0xBF) :
    encodeChar (point (a.toNat - 0xC0) [b]) = [a, b] := by
  have hn : (point (a.toNat - 0xC0) [b]).toNat = (a.toNat - 0xC0) * 64 + (b.toNat - 0x80) :=
    toNat_point rfl (by omega)
  simp only [encodeChar, hn]
  rw [if_neg (by omega), if_pos (by omega), ofNat_eq (a := a) (by omega), cont_eq (b := b) (by omega)]

theorem encodeChar_point_three (ha : 0xE0 ≤ a.toNat ∧ a.toNat < 0xF0)
    (hb : 0x80 ≤ b.toNat ∧ b.toNat ≤ 0xBF) (hc : 0x80 ≤ c.toNat ∧ c.toNat ≤ 0xBF)
    (hshort : a.toNat = 0xE0 → 0xA0 ≤ b.toNat) (hsurrogate : a.toNat = 0xED → b.toNat ≤ 0x9F) :
    encodeChar (point (a.toNat - 0xE0) [b, c]) = [a, b, c] := by
  have hn : (point (a.toNat - 0xE0) [b, c]).toNat =
      ((a.toNat - 0xE0) * 64 + (b.toNat - 0x80)) * 64 + (c.toNat - 0x80) := toNat_point rfl (by omega)
  simp only [encodeChar, hn]
  rw [if_neg (by omega), if_neg (by omega), if_pos (by omega), ofNat_eq (a := a) (by omega),
    cont_eq (b := b) (by omega), cont_eq (b := c) (by omega)]

theorem encodeChar_point_four (ha : 0xF0 ≤ a.toNat ∧ a.toNat < 0xF5)
    (hb : 0x80 ≤ b.toNat ∧ b.toNat ≤ 0xBF) (hc : 0x80 ≤ c.toNat ∧ c.toNat ≤ 0xBF)
    (hd : 0x80 ≤ d.toNat ∧ d.toNat ≤ 0xBF) (hshort : a.toNat = 0xF0 → 0x90 ≤ b.toNat)
    (hlast : a.toNat = 0xF4 → b.toNat ≤ 0x8F) :
    encodeChar (point (a.toNat - 0xF0) [b, c, d]) = [a, b, c, d] := by
  have hn : (point (a.toNat - 0xF0) [b, c, d]).toNat =
      (((a.toNat - 0xF0) * 64 + (b.toNat - 0x80)) * 64 + (c.toNat - 0x80)) * 64 +
        (d.toNat - 0x80) := toNat_point rfl (by omega)
  simp only [encodeChar, hn]
  rw [if_neg (by omega), if_neg (by omega), if_neg (by omega), ofNat_eq (a := a) (by omega),
    cont_eq (b := b) (by omega), cont_eq (b := c) (by omega), cont_eq (b := d) (by omega)]

end Characters

theorem encode_of_decodeFrom {start : Nat} {b : Bytes} {s : List Char}
    (h : decodeFrom start b = .ok s) : encode s = b := by
  have step {x : Except Flaw (List Char)} {c : Char} {l r : Bytes} {s : List Char}
      (h : x.map (c :: ·) = .ok s) (hc : encodeChar c = l)
      (ih : ∀ {t}, x = .ok t → encode t = r) : encode s = l ++ r := by
    cases x with
    | error f => cases h
    | ok t =>
      cases h
      rw [← hc, ← ih rfl]
      rfl
  fun_induction decodeFrom start b generalizing s with
  | case1 =>
    cases h
    rfl
  | case2 start a r ha ih => exact step h (encodeChar_point_one ha) ih
  | case6 start a ha low high b r hb hf ih =>
    obtain ⟨hlow, hhigh, hlead⟩ := follow_cases hf
    exact step h (encodeChar_point_two (by omega) (by omega)) ih
  | case9 start a ha low high b hb c r hc hf _ ih =>
    obtain ⟨hlow, hhigh, hlead⟩ := follow_cases hf
    have hc := isTail_iff.mp (Decidable.not_not.mp hc)
    exact step h (encodeChar_point_three (by omega) (by omega) hc (by omega) (by omega)) ih
  | case12 start a ha k low high hf b hb hk c hc hk' d r hd ih =>
    obtain ⟨hlow, hhigh, hlead⟩ := follow_cases hf
    have hc := isTail_iff.mp (Decidable.not_not.mp hc)
    have hd := isTail_iff.mp (Decidable.not_not.mp hd)
    exact step h (encodeChar_point_four (by omega) (by omega) hc hd (by omega) (by omega)) ih
  -- Every other way through the bytes ends in a flaw.
  | _ => cases h

theorem decode_eq_ok_iff {b : Bytes} {s : List Char} : decode b = .ok s ↔ b = encode s := by
  constructor
  · intro h
    exact (encode_of_decodeFrom h).symm
  · intro h
    rw [h, decode_encode]

/-! ### Strings and their bytes -/

theorem encodeChar_eq_utf8EncodeChar (c : Char) : encodeChar c = String.utf8EncodeChar c := by
  have hc := toNat_char c
  have hv : c.val.toNat = c.toNat := rfl
  have byte {m k : Nat} (h : m = k) : UInt8.ofNat m = UInt8.ofNat k := congrArg UInt8.ofNat h
  simp only [encodeChar, String.utf8EncodeChar, hv, cont]
  generalize c.toNat = n at hc
  split_ifs <;> try omega
  · rfl
  · simp only [List.cons.injEq, and_true]
    exact ⟨byte (by omega), byte (by omega)⟩
  · simp only [List.cons.injEq, and_true]
    exact ⟨byte (by omega), byte (by omega), byte (by omega)⟩
  · simp only [List.cons.injEq, and_true]
    exact ⟨byte (by omega), byte (by omega), byte (by omega), byte (by omega)⟩

theorem toByteArray_encode (s : List Char) : (encode s).toByteArray = s.utf8Encode := by
  rw [encode, funext encodeChar_eq_utf8EncodeChar]
  rfl

theorem toByteArray_bytes (s : String) : (bytes s).toByteArray = s.toUTF8 := by
  rw [bytes, toByteArray_encode, ← String.toByteArray_ofList, String.ofList_toList]
  rfl

theorem length_bytes (s : String) : (bytes s).length = s.utf8ByteSize := by
  rw [← List.size_toByteArray, toByteArray_bytes]
  rfl

theorem decode_isOk_iff {b : Bytes} : (∃ s, decode b = .ok s) ↔ b.toByteArray.IsValidUTF8 := by
  constructor
  · intro h
    obtain ⟨s, hs⟩ := h
    rw [decode_eq_ok_iff.mp hs, toByteArray_encode]
    exact .intro s rfl
  · intro h
    obtain ⟨s, hs⟩ := h
    rw [← toByteArray_encode] at hs
    exact ⟨s, decode_eq_ok_iff.mpr (List.toByteArray_inj.mp hs)⟩

end PeerShare.Text
