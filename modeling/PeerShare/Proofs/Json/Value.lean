import PeerShare.Proofs.Json.Text

/-!
Values are read back from their JSON text. Arrays and objects are walked with readers for their
parts; where each part is read back, a walk is a fold over the items or members that were written,
whatever the reader makes of them. From this values come back as they were by induction on how they
are built.
-/

namespace PeerShare.Json

def Begins (c : Char) : Prop := c ∉ [' ', '\n', '\t', '\r', ',', ']', '\x7d']

instance : DecidablePred Begins := fun c => inferInstanceAs (Decidable (c ∉ _))

/-- Values that are read back as they were written: numbers are whole, members stand in the order
of their names, and arrays and objects are nested no deeper than so far. -/
inductive Plain : Nat → Json → Prop
  | null {depth : Nat} : Plain depth .null
  | bool {depth : Nat} (b : Bool) : Plain depth (.bool b)
  | nat {depth : Nat} (n : UInt64) : Plain depth (.nat n)
  | str {depth : Nat} (s : String) : Plain depth (.str s)
  | arr {depth : Nat} {vs : List Json} (h : ∀ v ∈ vs, Plain depth v) : Plain (depth + 1) (.arr vs)
  | obj {depth : Nat} {ms : List (String × Json)} (h : ∀ m ∈ ms, Plain depth m.2)
      (ordered : ms.Pairwise (·.1 < ·.1)) : Plain (depth + 1) (.obj ms)

theorem Plain.mono {m n : Nat} {v : Json} (h : Plain m v) (hmn : m ≤ n) : Plain n v := by
  induction h generalizing n with
  | null => exact .null
  | bool b => exact .bool b
  | nat i => exact .nat i
  | str s => exact .str s
  | arr h ih =>
    obtain ⟨k, rfl⟩ := Nat.exists_eq_add_of_lt hmn
    exact .arr fun v hv => ih v hv (by omega)
  | obj h ordered ih =>
    obtain ⟨k, rfl⟩ := Nat.exists_eq_add_of_lt hmn
    exact .obj (fun m hm => ih m hm (by omega)) ordered

/-! ### Texts -/

def separator (first : Bool) : List Char := if first then [] else [',']

def partsText (close : Char) : Bool → List (List Char) → List Char
  | _, [] => [close]
  | first, p :: ps => separator first ++ p ++ partsText close false ps

def memberText (m : String × Json) : List Char := stringText m.1 ++ ':' :: m.2.chars

def itemsText (vs : List Json) : List Char := partsText ']' true (vs.map chars)

def membersText (ms : List (String × Json)) : List Char := partsText '\x7d' true (ms.map memberText)

section Texts
variable {v : Json} {close : Char} {first : Bool} {r : List Char} {depth : Nat}

theorem chars_str (s : String) (r : List Char) :
    (str s).chars ++ r = '\x22' :: (s.toList.flatMap escapeChar ++ '\x22' :: r) := by
  simp [chars, stringText]

theorem charsItems_append (vs : List Json) :
    charsItems vs ++ [']'] = partsText ']' false (vs.map chars) := by
  induction vs with
  | nil => rfl
  | cons v vs ih => simp [charsItems, partsText, separator, ih]

theorem charsMembers_append (ms : List (String × Json)) :
    charsMembers ms ++ ['\x7d'] = partsText '\x7d' false (ms.map memberText) := by
  induction ms with
  | nil => rfl
  | cons m ms ih => simp [charsMembers, partsText, separator, memberText, ih]

theorem chars_arr (vs : List Json) : (arr vs).chars = '[' :: itemsText vs := by
  cases vs with
  | nil => simp [chars, itemsText, partsText]
  | cons v vs => simp [chars, itemsText, partsText, separator, charsItems_append]

theorem chars_obj (ms : List (String × Json)) : (obj ms).chars = '\x7b' :: membersText ms := by
  cases ms with
  | nil => simp [chars, membersText, partsText]
  | cons m ms => simp [chars, membersText, partsText, separator, memberText, charsMembers_append]

theorem skipBlanks_of_begins {c : Char} (h : Begins c) (r : List Char) :
    skipBlanks (c :: r) = c :: r := by
  refine List.dropWhile_cons_of_neg fun hb => h ?_
  simp only [Bool.or_eq_true, beq_iff_eq] at hb
  rcases hb with ((rfl | rfl) | rfl) | rfl <;> decide

theorem begins_of_isDigit {c : Char} (h : Text.isDigit c = true) : Begins c := by
  intro hm
  simp only [List.mem_cons, List.not_mem_nil, or_false] at hm
  rcases hm with rfl | rfl | rfl | rfl | rfl | rfl | rfl <;> cases h

theorem exists_text_nat (n : UInt64) :
    ∃ c s, (Number.nat n).text = c :: s ∧ Text.isDigit c = true := by
  obtain ⟨c, s, h⟩ := List.exists_cons_of_ne_nil (Nat.toDigits_ne_nil (n := n.toNat) (b := 10))
  exact ⟨c, s, h, isDigit_of_mem_toDigits (n := n.toNat) (h ▸ List.mem_cons_self)⟩

theorem Plain.starts (h : Plain depth v) :
    ∃ c s, v.chars = c :: s ∧ Begins c ∧ (v ≠ .null → c ≠ 'n') := by
  cases h with
  | null => exact ⟨'n', _, rfl, by decide, fun h => absurd rfl h⟩
  | bool b =>
    cases b with
    | false => exact ⟨'f', _, rfl, by decide, fun _ => by decide⟩
    | true => exact ⟨'t', _, rfl, by decide, fun _ => by decide⟩
  | nat n =>
    obtain ⟨c, s, hs, hc⟩ := exists_text_nat n
    refine ⟨c, s, hs, begins_of_isDigit hc, fun _ => ?_⟩
    rintro rfl
    cases hc
  | str s => exact ⟨'\x22', _, rfl, by decide, fun _ => by decide⟩
  | arr h => exact ⟨'[', _, chars_arr _, by decide, fun _ => by decide⟩
  | obj h => exact ⟨'\x7b', _, chars_obj _, by decide, fun _ => by decide⟩

theorem Plain.begins (h : Plain depth v) : ∃ c s, v.chars = c :: s ∧ Begins c :=
  let ⟨c, s, hs, hc, _⟩ := h.starts
  ⟨c, s, hs, hc⟩

theorem endsNumber_cons {c : Char} (hc : Text.isDigit c = false ∧ c ≠ '.' ∧ c ≠ 'e' ∧ c ≠ 'E') :
    EndsNumber (c :: r) := by
  intro d hd
  cases hd
  exact hc

theorem endsNumber_partsText (close : Char)
    (hc : Text.isDigit close = false ∧ close ≠ '.' ∧ close ≠ 'e' ∧ close ≠ 'E')
    (ps : List (List Char)) : EndsNumber (partsText close false ps ++ r) := by
  cases ps with
  | nil => exact endsNumber_cons hc
  | cons p ps => exact endsNumber_cons (by decide)

theorem exists_partsText (close : Char) (first : Bool) (ps : List (List Char)) :
    ∃ s, partsText close first ps = s ++ [close] := by
  induction ps generalizing first with
  | nil => exact ⟨[], rfl⟩
  | cons p ps ih =>
    obtain ⟨s, hs⟩ := ih false
    exact ⟨separator first ++ p ++ s, by rw [partsText, hs, ← List.append_assoc]⟩

theorem length_lt_partsText (close : Char) (ps : List (List Char)) :
    ps.length < (partsText close false ps).length := by
  induction ps with
  | nil => exact Nat.one_pos
  | cons p ps ih =>
    simp only [partsText, separator, Bool.false_eq_true, if_false, List.length_append,
      List.length_cons, List.length_nil]
    omega

theorem length_le_partsText (close : Char) (first : Bool) (ps : List (List Char)) :
    ps.length ≤ (partsText close first ps).length := by
  cases ps with
  | nil => exact Nat.zero_le _
  | cons p ps =>
    have := length_lt_partsText close ps
    simp only [partsText, List.length_append, List.length_cons]
    omega

theorem lineFeed_notMem_partsText (hc : close ≠ '\n') {ps : List (List Char)}
    (h : ∀ p ∈ ps, '\n' ∉ p) : '\n' ∉ partsText close first ps := by
  induction ps generalizing first with
  | nil => simpa [partsText] using hc.symm
  | cons p ps ih =>
    have before : '\n' ∉ separator first := by cases first <;> decide
    simp only [partsText, List.mem_append, not_or]
    exact ⟨⟨before, h p List.mem_cons_self⟩, ih fun p hp => h p (List.mem_cons_of_mem _ hp)⟩

end Texts

/-! ### Walks -/

section Walks
variable {σ : Type} {strict : Bool} {fuel : Nat} {first : Bool} {st : σ} {r : List Char}

theorem readItems_end (item : σ → List Char → Step σ) (hf : 0 < fuel) :
    readItems item fuel first st (']' :: r) = .ok (st, r) := by
  obtain ⟨k, rfl⟩ := Nat.exists_eq_succ_of_ne_zero (Nat.ne_of_gt hf)
  simp [readItems, skipBlanks]

theorem readItems_item (item : σ → List Char → Step σ) {c : Char} {s : List Char} (hc : Begins c) :
    readItems item (fuel + 1) first st (separator first ++ c :: s) =
      (item st (c :: s)).bind fun a => readItems item fuel false a.1 a.2 := by
  have hb : c ≠ ']' := fun h => hc (by rw [h]; decide)
  have skipped := skipBlanks_of_begins hc s
  cases first with
  | true =>
    simp only [separator, if_true, List.nil_append, readItems, skipped]
    split
    · rename_i h
      exact absurd (List.cons.inj h).1 hb
    · simp [afterComma, hb, bind, Except.bind]
  | false =>
    have comma : skipBlanks (',' :: c :: s) = ',' :: c :: s := rfl
    simp only [separator, Bool.false_eq_true, if_false, List.singleton_append, readItems, comma]
    simp [afterComma, skipped, hb, bind, Except.bind]

theorem readMembers_end (member : σ → String → List Char → Step σ) (hf : 0 < fuel) :
    readMembers strict member fuel first st ('\x7d' :: r) = .ok (st, r) := by
  obtain ⟨k, rfl⟩ := Nat.exists_eq_succ_of_ne_zero (Nat.ne_of_gt hf)
  simp [readMembers, skipBlanks]

theorem readMembers_member (member : σ → String → List Char → Step σ) (n : String) (s : List Char) :
    readMembers strict member (fuel + 1) first st (separator first ++ stringText n ++ s) =
      (member st n s).bind fun a => readMembers strict member fuel false a.1 a.2 := by
  have name : readStringFrom strict .plain (n.toList.flatMap escapeChar ++ '\x22' :: s) =
      .ok (n.toList, s) := readStringFrom_escaped n.toList s
  have comma (r : List Char) : skipBlanks (',' :: r) = ',' :: r := rfl
  have quote (r : List Char) : skipBlanks ('\x22' :: r) = '\x22' :: r := rfl
  cases first with
  | true =>
    simp only [separator, if_true, List.nil_append, stringText, List.cons_append, List.append_assoc,
      readMembers, quote, afterComma, bind, Except.bind]
    simp [name]
  | false =>
    simp only [separator, Bool.false_eq_true, if_false, List.nil_append, stringText,
      List.cons_append, List.append_assoc, readMembers, comma, afterComma, bind, Except.bind]
    simp [quote, name]

theorem readItems_partsText (item : σ → List Char → Step σ) (next : σ → Json → Except Fault σ)
    {vs : List Json} (hb : ∀ v ∈ vs, ∃ c s, v.chars = c :: s ∧ Begins c)
    (hi : ∀ v ∈ vs, ∀ st r, EndsNumber r →
      item st (v.chars ++ r) = (next st v).map fun st => (st, r)) (hf : vs.length < fuel) :
    readItems item fuel first st (partsText ']' first (vs.map chars) ++ r) =
      (vs.foldlM next st).map fun st => (st, r) := by
  induction vs generalizing fuel first st with
  | nil => exact readItems_end item hf
  | cons v vs ih =>
    obtain ⟨k, rfl⟩ := Nat.exists_eq_succ_of_ne_zero (Nat.ne_of_gt (Nat.zero_lt_of_lt hf))
    obtain ⟨c, s, hs, hc⟩ := hb v List.mem_cons_self
    have text : partsText ']' first ((v :: vs).map chars) ++ r =
        separator first ++ c :: (s ++ (partsText ']' false (vs.map chars) ++ r)) := by
      simp [partsText, hs]
    have ends := endsNumber_partsText (r := r) ']' (by decide) (vs.map chars)
    have read := hi v List.mem_cons_self st _ ends
    rw [hs, List.cons_append] at read
    rw [text, readItems_item item hc, read, List.foldlM_cons]
    cases next st v with
    | error f => rfl
    | ok st' =>
      exact ih (fun v hv => hb v (List.mem_cons_of_mem _ hv))
        (fun v hv => hi v (List.mem_cons_of_mem _ hv)) (Nat.lt_of_succ_lt_succ hf)

theorem readMembers_partsText (member : σ → String → List Char → Step σ)
    (next : σ → String × Json → Except Fault σ) {ms : List (String × Json)}
    (hm : ∀ m ∈ ms, ∀ st r, EndsNumber r →
      member st m.1 (':' :: m.2.chars ++ r) = (next st m).map fun st => (st, r))
    (hf : ms.length < fuel) :
    readMembers strict member fuel first st (partsText '\x7d' first (ms.map memberText) ++ r) =
      (ms.foldlM next st).map fun st => (st, r) := by
  induction ms generalizing fuel first st with
  | nil => exact readMembers_end member hf
  | cons m ms ih =>
    obtain ⟨k, rfl⟩ := Nat.exists_eq_succ_of_ne_zero (Nat.ne_of_gt (Nat.zero_lt_of_lt hf))
    have text : partsText '\x7d' first ((m :: ms).map memberText) ++ r =
        separator first ++ stringText m.1 ++
          (':' :: m.2.chars ++ (partsText '\x7d' false (ms.map memberText) ++ r)) := by
      simp [partsText, memberText]
    have ends := endsNumber_partsText (r := r) '\x7d' (by decide) (ms.map memberText)
    have read := hm m List.mem_cons_self st _ ends
    rw [text, readMembers_member, read, List.foldlM_cons]
    cases next st m with
    | error f => rfl
    | ok st' =>
      exact ih (fun m hmem => hm m (List.mem_cons_of_mem _ hmem)) (Nat.lt_of_succ_lt_succ hf)

theorem readItems_itemsText (item : σ → List Char → Step σ) (next : σ → Json → Except Fault σ)
    {vs : List Json} (hb : ∀ v ∈ vs, ∃ c s, v.chars = c :: s ∧ Begins c)
    (hi : ∀ v ∈ vs, ∀ st r, EndsNumber r →
      item st (v.chars ++ r) = (next st v).map fun st => (st, r)) (st : σ) (r : List Char) :
    readItems item ((itemsText vs ++ r).length + 1) true st (itemsText vs ++ r) =
      (vs.foldlM next st).map fun st => (st, r) := by
  have hf := length_le_partsText ']' true (vs.map chars)
  rw [List.length_map] at hf
  refine readItems_partsText item next hb hi ?_
  rw [List.length_append, itemsText]
  omega

theorem readMembers_membersText (strict : Bool) (member : σ → String → List Char → Step σ)
    (next : σ → String × Json → Except Fault σ) {ms : List (String × Json)}
    (hm : ∀ m ∈ ms, ∀ st r, EndsNumber r →
      member st m.1 (':' :: m.2.chars ++ r) = (next st m).map fun st => (st, r))
    (st : σ) (r : List Char) :
    readMembers strict member ((membersText ms ++ r).length + 1) true st (membersText ms ++ r) =
      (ms.foldlM next st).map fun st => (st, r) := by
  have hf := length_le_partsText '\x7d' true (ms.map memberText)
  rw [List.length_map] at hf
  refine readMembers_partsText member next hm ?_
  rw [List.length_append, membersText]
  omega

end Walks

/-! ### Values -/

section Values
variable {strict : Bool} {depth : Nat} {v : Json} {r : List Char}

theorem readValue_digit {c : Char} {s : List Char} (hc : Text.isDigit c = true) :
    readValue strict depth (c :: s) =
      (readNumber strict (c :: s)).map fun (n, r) => (.num n, r) := by
  rw [readValue, skipBlanks_of_begins (begins_of_isDigit hc)]
  split
  case h_7 => rfl
  all_goals
    rename_i h
    cases h
    cases hc

def pushItem (strict : Bool) (depth : Nat) (vs : List Json) (s : List Char) : Step (List Json) :=
  (readValue strict depth s).map fun (v, r) => (v :: vs, r)

def pushMember (strict : Bool) (depth : Nat) (ms : List (String × Json)) (n : String)
    (s : List Char) : Step (List (String × Json)) :=
  (readColon s).bind fun s => (readValue strict depth s).map fun (v, r) => ((n, v) :: ms, r)

theorem readValue_arr (vs : List Json) (s : List Char) :
    readValue strict (depth + 1) ((arr vs).chars ++ s) =
      (readItems (pushItem strict depth) ((itemsText vs ++ s).length + 1) true []
        (itemsText vs ++ s)).map fun (vs, r) => (.arr vs.reverse, r) := by
  rw [chars_arr, List.cons_append, readValue, skipBlanks_of_begins (by decide)]
  rfl

theorem readValue_obj (ms : List (String × Json)) (s : List Char) :
    readValue strict (depth + 1) ((obj ms).chars ++ s) =
      (readMembers strict (pushMember strict depth) ((membersText ms ++ s).length + 1) true []
        (membersText ms ++ s)).map fun (ms, r) => (.obj ms.reverse, r) := by
  rw [chars_obj, List.cons_append, readValue, skipBlanks_of_begins (by decide)]
  rfl

theorem readColon_colon (s : List Char) : readColon (':' :: s) = .ok s := by
  rw [readColon, skipBlanks_of_begins (by decide)]
  rfl

theorem foldlM_cons_ok {α : Type} (l done : List α) :
    l.foldlM (fun done a => (.ok (a :: done) : Except Fault (List α))) done =
      .ok (l.reverse ++ done) := by
  induction l generalizing done with
  | nil => rfl
  | cons a l ih =>
    rw [List.foldlM_cons]
    refine (ih (a :: done)).trans ?_
    rw [List.reverse_cons, List.append_assoc, List.singleton_append]

theorem readValue_chars (strict : Bool) (h : Plain depth v) (hr : EndsNumber r) :
    readValue strict depth (v.chars ++ r) = .ok (v, r) := by
  induction h generalizing r with
  | null => simp [chars, readValue, skipBlanks, readWord]
  | bool b => cases b <;> simp [chars, readValue, skipBlanks, readWord]
  | nat n =>
    obtain ⟨c, s, hs, hc⟩ := exists_text_nat n
    have read := readNumber_nat strict n hr
    have text : (Json.nat n).chars = (Number.nat n).text := by simp [Json.nat, chars]
    rw [hs] at read
    rw [text, hs, List.cons_append, readValue_digit hc, ← List.cons_append, read]
    rfl
  | str s =>
    have read : readStringFrom strict .plain (s.toList.flatMap escapeChar ++ '\x22' :: r) =
        .ok (s.toList, r) := readStringFrom_escaped s.toList r
    rw [chars_str, readValue, skipBlanks_of_begins (by decide)]
    simp only [read, Except.map, String.ofList_toList]
  | @arr depth vs h ih =>
    -- The reader pushes the items on a stack, so the fold gives them in reverse.
    have items := readItems_itemsText (pushItem strict depth) (fun vs v => .ok (v :: vs))
      (fun v hv => (h v hv).begins) (fun v hv st r hr => by rw [pushItem, ih v hv hr]; rfl) [] r
    rw [readValue_arr, items, foldlM_cons_ok]
    simp [Except.map]
  | @obj depth ms h ordered ih =>
    have members := readMembers_membersText strict (pushMember strict depth)
      (fun ms m => .ok (m :: ms))
      (fun m (hm : m ∈ ms) st r hr => by
        rw [List.cons_append, pushMember, readColon_colon]
        simp only [Except.bind, ih m hm hr, Except.map]) [] r
    rw [readValue_obj, members, foldlM_cons_ok]
    simp [Except.map]

/-! ### Order of members -/

theorem ordered_of_names {ms : List (String × Json)} {names : List String}
    (hn : ms.map (·.1) = names) (h : names.Pairwise (· < ·)) : ms.Pairwise (·.1 < ·.1) :=
  List.pairwise_map.mp (hn ▸ h)

theorem insert_of_lt {n : String} {l : List (String × Json)} (h : ∀ m ∈ l, m.1 < n) (v : Json) :
    insert n v l = l ++ [(n, v)] := by
  induction l with
  | nil => rfl
  | cons m l ih =>
    have hm := h m List.mem_cons_self
    have hne : m.1 ≠ n := fun he => String.lt_irrefl n (he ▸ hm)
    simp only [insert, if_neg hne, if_neg (String.lt_asymm hm), List.cons_append,
      ih fun m hmem => h m (List.mem_cons_of_mem _ hmem)]

theorem sortedItems_eq {vs : List Json} (h : ∀ v ∈ vs, v.sorted = v) : sortedItems vs = vs := by
  induction vs with
  | nil => rfl
  | cons v vs ih =>
    rw [sortedItems, h v List.mem_cons_self, ih fun v hv => h v (List.mem_cons_of_mem _ hv)]

theorem sortedMembers_eq {ms done : List (String × Json)} (h : ∀ m ∈ ms, m.2.sorted = m.2)
    (ho : (done ++ ms).Pairwise (·.1 < ·.1)) : sortedMembers ms done = done ++ ms := by
  induction ms generalizing done with
  | nil => exact (List.append_nil done).symm
  | cons m ms ih =>
    have last : ∀ e ∈ done, e.1 < m.1 := fun e he =>
      (List.pairwise_append.mp ho).2.2 e he m List.mem_cons_self
    have hs : done ++ m :: ms = done ++ [m] ++ ms := by rw [List.append_assoc]; rfl
    rw [sortedMembers, h m List.mem_cons_self, insert_of_lt last, hs]
    exact ih (fun m hm => h m (List.mem_cons_of_mem _ hm)) (hs ▸ ho)

theorem Plain.sorted_eq (h : Plain depth v) : v.sorted = v := by
  induction h with
  | arr h ih => rw [sorted, sortedItems_eq ih]
  | @obj depth ms h ordered ih =>
    have members : sortedMembers ms [] = [] ++ ms := sortedMembers_eq ih ordered
    rw [sorted, members]
    rfl
  | _ => rfl

/-! ### Lines -/

theorem lineFeed_notMem_escapeChar (c : Char) : '\n' ∉ escapeChar c := by
  have hex : ∀ n < 16, '\n' ≠ Text.hexDigit n := by decide
  have mod (m : Nat) : m % 16 < 16 := Nat.mod_lt m (by decide)
  rw [escapeChar]
  split
  case h_8 hfeed _ _ =>
    split_ifs
    · rw [hexDigits_four]
      simp [hex _ (mod _)]
    · rw [List.mem_singleton]
      intro h
      exact hfeed (congrArg Char.toNat h.symm)
  all_goals decide

theorem lineFeed_notMem_stringText (s : String) : '\n' ∉ stringText s := by
  simp only [stringText, List.mem_append, List.mem_cons, List.mem_flatMap, List.not_mem_nil,
    or_false, not_or, not_exists, not_and]
  exact ⟨⟨by decide, fun c _ => lineFeed_notMem_escapeChar c⟩, by decide⟩

theorem lineFeed_notMem_arr {vs : List Json} (h : ∀ v ∈ vs, '\n' ∉ v.chars) :
    '\n' ∉ (arr vs).chars := by
  have parts : ∀ p ∈ vs.map chars, '\n' ∉ p := List.forall_mem_map.mpr h
  rw [chars_arr]
  exact List.not_mem_cons_of_ne_of_not_mem (by decide)
    (lineFeed_notMem_partsText (by decide) parts)

theorem lineFeed_notMem_obj {ms : List (String × Json)} (h : ∀ m ∈ ms, '\n' ∉ m.2.chars) :
    '\n' ∉ (obj ms).chars := by
  have parts : ∀ p ∈ ms.map memberText, '\n' ∉ p := List.forall_mem_map.mpr fun m hm => by
    simp [memberText, lineFeed_notMem_stringText, h m hm]
  rw [chars_obj]
  exact List.not_mem_cons_of_ne_of_not_mem (by decide)
    (lineFeed_notMem_partsText (by decide) parts)

theorem Plain.lineFeed_notMem (h : Plain depth v) : '\n' ∉ v.chars := by
  induction h with
  | null => decide
  | bool b => cases b <;> decide
  | nat n =>
    intro hm
    cases isDigit_of_mem_toDigits (n := n.toNat) hm
  | str s => exact lineFeed_notMem_stringText s
  | arr h ih => exact lineFeed_notMem_arr ih
  | obj h ordered ih => exact lineFeed_notMem_obj ih

end Values
end PeerShare.Json
