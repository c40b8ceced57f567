import Mathlib.Tactic.SplitIfs
import PeerShare.Json.Reader

/-!
Strings and whole numbers are read back from their JSON text, whatever follows it. A string ends at
its quote, since quotes in it are escaped; a number ends where no digit, point or exponent goes on.
-/

namespace PeerShare.Json

/-! ### Strings -/

section Strings
variable {strict : Bool}

theorem hexValue_hexDigit : ∀ n < 16, Text.hexValue (Text.hexDigit n) = some n := by decide

theorem hexDigits_four (n : Nat) : Text.hexDigits 4 n =
    [Text.hexDigit (n / 4096 % 16), Text.hexDigit (n / 256 % 16), Text.hexDigit (n / 16 % 16),
      Text.hexDigit (n % 16)] := by
  simp [Text.hexDigits, List.range_succ]

theorem readStringFrom_hexDigit {n left point : Nat} (hn : n < 16) (hl : 1 < left)
    (high : Option Nat) (r : List Char) :
    readStringFrom strict (.hex left point high) (Text.hexDigit n :: r) =
      readStringFrom strict (.hex (left - 1) (point * 16 + n) high) r := by
  simp only [readStringFrom, hexValue_hexDigit n hn, if_pos hl]

theorem readStringFrom_hexDigits (strict : Bool) {n : Nat} (hn : n < 0xD800) (r : List Char) :
    readStringFrom strict (.hex 4 0 none) (Text.hexDigits 4 n ++ r) =
      (readStringFrom strict .plain r).map fun (s, r) => (Char.ofNat n :: s, r) := by
  have mod (m : Nat) : m % 16 < 16 := Nat.mod_lt m (by decide)
  have value : (((0 * 16 + n / 4096 % 16) * 16 + n / 256 % 16) * 16 + n / 16 % 16) * 16 + n % 16 =
      n := by omega
  have finish : finishHex strict n none = some (.inl (Char.ofNat n)) := by
    rw [finishHex]
    split_ifs <;> first | rfl | omega
  rw [hexDigits_four]
  simp only [List.cons_append, List.nil_append]
  rw [readStringFrom_hexDigit (mod _) (by decide), readStringFrom_hexDigit (mod _) (by decide),
    readStringFrom_hexDigit (mod _) (by decide)]
  simp only [readStringFrom, hexValue_hexDigit _ (mod _), value, finish]
  rfl

theorem readStringFrom_escape {e c : Char} (he : e ≠ 'u') (h : shortEscape e = some c)
    (r : List Char) : readStringFrom strict .plain ('\\' :: e :: r) =
      (readStringFrom strict .plain r).map fun (s, r) => (c :: s, r) := by
  simp [readStringFrom, he, h]

theorem readStringFrom_escapeChar (c : Char) (r : List Char) :
    readStringFrom strict .plain (escapeChar c ++ r) =
      (readStringFrom strict .plain r).map fun (s, r) => (c :: s, r) := by
  have back {n : Nat} (h : c.toNat = n) : c = Char.ofNat n := by rw [← h, Char.ofNat_toNat]
  rw [escapeChar]
  split
  -- Seven characters have an escape of their own; of the others only control characters need one.
  case h_8 hquote hslash _ _ _ _ _ =>
    split_ifs with hc
    · have hd := readStringFrom_hexDigits strict (n := c.toNat) (by omega) r
      rw [Char.ofNat_toNat] at hd
      simpa [readStringFrom] using hd
    · have hq : c ≠ '\x22' := fun h => hquote (congrArg Char.toNat h)
      have hs : c ≠ '\\' := fun h => hslash (congrArg Char.toNat h)
      simp [readStringFrom, hq, hs, hc]
  all_goals
    rename_i h
    rw [back h]
    exact readStringFrom_escape (by decide) rfl r

theorem readStringFrom_escaped (s r : List Char) :
    readStringFrom strict .plain (s.flatMap escapeChar ++ '\x22' :: r) = .ok (s, r) := by
  induction s with
  | nil => rfl
  | cons c s ih =>
    rw [List.flatMap_cons, List.append_assoc, readStringFrom_escapeChar, ih]
    rfl

theorem readString_escaped (s : String) (r : List Char) :
    readString (s.toList.flatMap escapeChar ++ '\x22' :: r) = .ok (s, r) := by
  rw [readString, readStringFrom_escaped]
  simp [Except.map]

end Strings

/-! ### Numbers -/

def EndsNumber (r : List Char) : Prop :=
  ∀ c, r.head? = some c → Text.isDigit c = false ∧ c ≠ '.' ∧ c ≠ 'e' ∧ c ≠ 'E'

section Numbers
variable {r : List Char} {n : Nat}

theorem isDigit_of_mem_toDigits {c : Char} (h : c ∈ Nat.toDigits 10 n) : Text.isDigit c = true :=
  Nat.isDigit_of_mem_toDigits (by decide) (by decide) h

theorem head?_toDigits_ne (h : 0 < n) : (Nat.toDigits 10 n).head? ≠ some '0' := by
  have single : ∀ m < 10, 0 < m → [m.digitChar].head? ≠ some '0' := by decide
  induction n using Nat.strongRecOn with
  | ind n ih =>
    by_cases hn : n < 10
    · rw [Nat.toDigits_of_lt_base hn]
      exact single n hn h
    · rw [Nat.toDigits_of_base_le (by decide) (by omega), List.head?_append]
      obtain ⟨d, ds, hd⟩ := List.exists_cons_of_ne_nil (Nat.toDigits_ne_nil (n := n / 10) (b := 10))
      have hne := ih (n / 10) (by omega) (by omega)
      rw [hd] at hne ⊢
      exact hne

theorem readWhole_toDigits (hr : EndsNumber r) :
    Numeral.readWhole (Nat.toDigits 10 n ++ r) = some (Nat.toDigits 10 n, r) := by
  have taken : (Nat.toDigits 10 n ++ r).takeWhile Text.isDigit = Nat.toDigits 10 n := by
    rw [List.takeWhile_append_of_pos fun c hc => isDigit_of_mem_toDigits hc]
    cases r with
    | nil => simp
    | cons c r => simp [(hr c rfl).1]
  rw [Numeral.readWhole]
  rw [taken]
  split
  · rename_i h
    exact absurd h Nat.toDigits_ne_nil
  · rename_i c ds h
    rcases Nat.eq_zero_or_pos n with rfl | hn
    · cases h
    · exact absurd (by rw [h]; rfl) (head?_toDigits_ne hn)
  · rw [List.drop_left]

theorem read_toDigits (hr : EndsNumber r) :
    Numeral.read (Nat.toDigits 10 n ++ r) = some (⟨false, Nat.toDigits 10 n, [], none⟩, r) := by
  have fraction : Numeral.readFraction r = some ([], r) := by
    unfold Numeral.readFraction
    split
    · exact absurd rfl (hr '.' rfl).2.1
    · rfl
  have exponent : Numeral.readExponent r = some (none, r) := by
    cases r with
    | nil => rfl
    | cons c r => exact if_neg fun h => h.elim (hr c rfl).2.2.1 (hr c rfl).2.2.2
  have whole := readWhole_toDigits (n := n) hr
  unfold Numeral.read
  dsimp only
  split
  · rename_i rest h
    obtain ⟨d, ds, hd⟩ := List.exists_cons_of_ne_nil (Nat.toDigits_ne_nil (n := n) (b := 10))
    rw [hd] at h
    have minus : Text.isDigit '-' = true :=
      isDigit_of_mem_toDigits (n := n) (hd ▸ (List.cons.inj h).1 ▸ List.mem_cons_self)
    cases minus
  · simp only [whole, fraction, exponent, bind, Option.bind]
    rfl

theorem le_foldl_digits (ds : List Char) (n : Nat) :
    n ≤ ds.foldl (fun n c => n * 10 + Text.digitValue c) n := by
  induction ds generalizing n with
  | nil => exact Nat.le_refl n
  | cons d ds ih =>
    have := ih (n * 10 + Text.digitValue d)
    simp only [List.foldl_cons]
    omega

theorem gather_eq {ds : List Char} {n : Nat}
    (h : ds.foldl (fun n c => n * 10 + Text.digitValue c) n < UInt64.size) :
    Numeral.gather n ds = (ds.foldl (fun n c => n * 10 + Text.digitValue c) n, 0) := by
  induction ds generalizing n with
  | nil => rfl
  | cons d ds ih =>
    have first : n * 10 + Text.digitValue d < UInt64.size :=
      Nat.lt_of_le_of_lt (le_foldl_digits ds _) h
    simp only [Numeral.gather, if_pos first, List.foldl_cons]
    exact ih h

theorem foldl_toDigits (n : Nat) :
    (Nat.toDigits 10 n).foldl (fun n c => n * 10 + Text.digitValue c) 0 = n := by
  have h := Nat.ofDigitChars_ten_toDigits (n := n)
  rw [Nat.ofDigitChars] at h
  simp only [Text.digitValue, Nat.mul_comm _ 10]
  exact h

theorem readNumber_nat (strict : Bool) (n : UInt64) (hr : EndsNumber r) :
    readNumber strict ((Number.nat n).text ++ r) = .ok (.nat n, r) := by
  have fits : (Nat.toDigits 10 n.toNat).foldl (fun n c => n * 10 + Text.digitValue c) 0 <
      UInt64.size := by
    rw [foldl_toDigits]
    exact n.toNat_lt
  simp only [readNumber, Number.text, read_toDigits hr, Numeral.value, gather_eq fits,
    foldl_toDigits]
  simp

end Numbers
end PeerShare.Json
