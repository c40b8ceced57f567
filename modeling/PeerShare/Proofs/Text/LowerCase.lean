import Mathlib.Data.List.Infix
import PeerShare.Text.LowerCase

/-!
The lower-case form of a text inside a longer one. It is the same as that of the text by itself, up
to the capital sigmas: each of them ends a word or does not, and what stands around the text may
change that. Where it may, one more letter is enough, and then the longer text does not contain the
lower-case form of the shorter one anywhere.
-/

namespace PeerShare.Text

variable {s t u v before after : List Char} {c : Char}

def endsWord (before after : List Char) : Bool :=
  startsCased before.reverse && !startsCased after

def form (before : List Char) (c : Char) (after : List Char) : List Char :=
  if c = 'Σ' then [if endsWord before after then 'ς' else 'σ'] else lowerChar c

def lowerIn (before after : List Char) : List Char → List Char
  | [] => []
  | c :: rest => form before c (rest ++ after) ++ lowerIn (before ++ [c]) after rest

theorem lowerFrom_append (before s t : List Char) : lowerFrom before.reverse (s ++ t) =
    lowerIn before t s ++ lowerFrom (before ++ s).reverse t := by
  induction s generalizing before with
  | nil => rw [List.append_nil, lowerIn, List.nil_append, List.nil_append]
  | cons c s ih =>
    have hrest := ih (before ++ [c])
    rw [List.reverse_append, List.append_assoc] at hrest
    simp only [List.reverse_singleton, List.singleton_append] at hrest
    rw [List.cons_append, lowerFrom, hrest, lowerIn, form, endsWord, List.append_assoc]

theorem lower_append (s t : List Char) :
    lower (s ++ t) = lowerIn [] t s ++ lowerFrom s.reverse t :=
  lowerFrom_append [] s t

theorem lowerFrom_eq_lowerIn (before s : List Char) :
    lowerFrom before.reverse s = lowerIn before [] s := by
  have happ := lowerFrom_append before s []
  rwa [List.append_nil, lowerFrom, List.append_nil] at happ

theorem lower_eq_lowerIn (s : List Char) : lower s = lowerIn [] [] s := lowerFrom_eq_lowerIn [] s

theorem length_form (before before' after after' : List Char) (c : Char) :
    (form before c after).length = (form before' c after').length := by
  unfold form
  split_ifs <;> rfl

theorem length_lowerIn (before before' after after' s : List Char) :
    (lowerIn before after s).length = (lowerIn before' after' s).length := by
  induction s generalizing before before' with
  | nil => rfl
  | cons c s ih =>
    rw [lowerIn, lowerIn, List.length_append, List.length_append, ih _ (before' ++ [c]),
      length_form before before' (s ++ after) (s ++ after')]

theorem form_eq_iff {before' after' : List Char} : form before c after = form before' c after' ↔
    (c = 'Σ' → endsWord before after = endsWord before' after') := by
  by_cases hc : c = 'Σ'
  · simp only [form, hc, if_true, forall_const]
    cases endsWord before after <;> cases endsWord before' after' <;> decide
  · simp only [form, hc, if_false, false_imp_iff]

theorem lowerIn_eq_iff {before' after' : List Char} :
    lowerIn before after s = lowerIn before' after' s ↔ ∀ u v, s = u ++ 'Σ' :: v →
      endsWord (before ++ u) (v ++ after) = endsWord (before' ++ u) (v ++ after') := by
  induction s generalizing before before' with
  | nil => simp [lowerIn]
  | cons c s ih =>
    have happ : lowerIn before after (c :: s) = lowerIn before' after' (c :: s) ↔
        form before c (s ++ after) = form before' c (s ++ after') ∧
          lowerIn (before ++ [c]) after s = lowerIn (before' ++ [c]) after' s := by
      rw [lowerIn, lowerIn]
      constructor
      · exact fun h => List.append_inj h (length_form _ _ _ _ c)
      · exact fun h => by rw [h.1, h.2]
    rw [happ, form_eq_iff, ih]
    constructor
    · intro h u v hsplit
      cases u with
      | nil =>
        obtain ⟨rfl, rfl⟩ := List.cons.inj hsplit
        simpa using h.1 rfl
      | cons d u =>
        obtain ⟨rfl, rfl⟩ := List.cons.inj hsplit
        simpa using h.2 u v rfl
    · intro h
      refine ⟨fun hc => ?_, fun u v hsplit => ?_⟩
      · subst hc
        simpa using h [] s rfl
      · subst hsplit
        simpa using h (c :: u) v rfl

def Keeps (before s after : List Char) : Prop := ∀ u v, s = u ++ 'Σ' :: v →
  endsWord (before ++ u) (v ++ after) = endsWord u v

theorem lowerIn_eq_lower_iff : lowerIn before after s = lower s ↔ Keeps before s after := by
  rw [lower_eq_lowerIn, lowerIn_eq_iff]
  simp only [List.nil_append, List.append_nil]
  rfl

theorem lower_infix_of_keeps (h : Keeps before s after) :
    lower s <:+: lower (before ++ s ++ after) := by
  have hwhole : lower (before ++ s ++ after) = lowerIn [] (s ++ after) before ++
      (lowerIn before after s ++ lowerFrom (before ++ s).reverse after) := by
    rw [List.append_assoc, lower_append, lowerFrom_append]
  rw [hwhole, lowerIn_eq_lower_iff.mpr h, ← List.append_assoc]
  exact List.infix_append _ _ _

/-! ### What stands around a text -/

theorem startsCased_append (s t : List Char) : startsCased (s ++ t) =
    if s.all isCaseIgnorable then startsCased t else startsCased s := by
  induction s with
  | nil => rfl
  | cons c s ih =>
    unfold startsCased at ih ⊢
    cases hc : isCaseIgnorable c with
    | true => simpa [List.dropWhile_cons, hc] using ih
    | false => simp [hc]

theorem startsCased_of_ignorable (h : s.all isCaseIgnorable = true) : startsCased s = false := by
  have happ := startsCased_append s []
  rw [List.append_nil, if_pos h] at happ
  exact happ

/-- The form of one of its sigmas is up to what stands around the text: nothing but ignored
characters stand before it and what comes after it lets a word end, or a word has begun before it
and nothing but ignored characters come after it. -/
def Exposed (s : List Char) : Prop := ∃ u v, s = u ++ 'Σ' :: v ∧
  ((u.all isCaseIgnorable = true ∧ startsCased v = false) ∨
    (startsCased u.reverse = true ∧ v.all isCaseIgnorable = true))

theorem keeps_of_not_exposed (h : ¬ Exposed s) (before after : List Char) :
    Keeps before s after := by
  intro u v hs
  have hnot : ¬ ((u.all isCaseIgnorable = true ∧ startsCased v = false) ∨
      (startsCased u.reverse = true ∧ v.all isCaseIgnorable = true)) :=
    fun hor => h ⟨u, v, hs, hor⟩
  obtain ⟨hfirst, hlast⟩ := not_or.mp hnot
  unfold endsWord
  rw [List.reverse_append, startsCased_append, startsCased_append, List.all_reverse]
  by_cases hu : u.all isCaseIgnorable = true
  · -- The word goes on after the sigma, whatever stands before it.
    have hv : startsCased v = true := by simpa [hu] using hfirst
    have hv' : v.all isCaseIgnorable = false := by
      by_contra hall
      rw [startsCased_of_ignorable (by simpa using hall)] at hv
      cases hv
    have hu' : startsCased u.reverse = false :=
      startsCased_of_ignorable (by rwa [List.all_reverse])
    simp [hv, hv', hu']
  · cases hcased : startsCased u.reverse with
    | true =>
      have hv : v.all isCaseIgnorable = false := by simpa [hcased] using hlast
      simp [hu, hv]
    | false => simp [hu]

/-! ### One more letter -/

structure Plain (c : Char) : Prop where
  lower : lowerChar c = [c]
  cased : isCased c = true
  counts : isCaseIgnorable c = false
  notSigma : c ≠ 'Σ'

theorem plain_a : Plain 'a' := by constructor <;> decide +kernel

theorem plain_b : Plain 'b' := by constructor <;> decide +kernel

theorem Plain.startsCased (h : Plain c) (s : List Char) : startsCased (c :: s) = true := by
  simp [Text.startsCased, h.counts, h.cased]

theorem Plain.form (h : Plain c) (before after : List Char) : form before c after = [c] := by
  rw [Text.form, if_neg h.notSigma, h.lower]

theorem exists_plain_ne (o : Option Char) : ∃ c, (c = 'a' ∨ c = 'b') ∧ Plain c ∧ o ≠ some c := by
  by_cases ho : o = some 'a'
  · exact ⟨'b', .inr rfl, plain_b, by rw [ho]; decide⟩
  · exact ⟨'a', .inl rfl, plain_a, ho⟩

section Letter
variable {l l' : List Char}

theorem not_infix_cons (hlen : l.length = l'.length) (hne : l ≠ l') (hc : l.head? ≠ some c) :
    ¬ l <:+: c :: l' := by
  rw [List.infix_cons_iff]
  intro hor
  rcases hor with hstart | hlater
  · cases l with
    | nil => exact hne (List.length_eq_zero_iff.mp hlen.symm).symm
    | cons d l => exact hc (congrArg some (List.cons_prefix_cons.mp hstart).1)
  · exact hne (hlater.eq_of_length hlen)

theorem not_infix_concat (hlen : l.length = l'.length) (hne : l ≠ l')
    (hc : l.getLast? ≠ some c) : ¬ l <:+: l' ++ [c] := by
  intro hpart
  have hrev := List.reverse_infix.mpr hpart
  rw [List.reverse_append, List.reverse_singleton, List.singleton_append] at hrev
  refine not_infix_cons ?_ ?_ ?_ hrev
  · simpa using hlen
  · simpa using hne
  · rwa [List.head?_reverse]

end Letter

theorem hidden_of_exposed (h : Exposed s) : ∃ longer c, (c = 'a' ∨ c = 'b') ∧
    (longer = c :: s ∨ longer = s ++ [c]) ∧ ¬ lower s <:+: lower longer := by
  obtain ⟨u, v, hs, ⟨hu, hv⟩ | ⟨hu, hv⟩⟩ := h
  · -- A letter before the text begins a word, which the sigma ends.
    obtain ⟨c, hab, hplain, hc⟩ := exists_plain_ne (lower s).head?
    have hwhole : lower (c :: s) = c :: lowerIn [c] [] s := by
      rw [← lowerFrom_eq_lowerIn, lower, lowerFrom]
      exact congrArg (· ++ lowerFrom [c] s) (hplain.form [] s)
    have hne : lower s ≠ lowerIn [c] [] s := by
      intro heq
      have hends := lowerIn_eq_lower_iff.mp heq.symm u v hs
      simp [endsWord, startsCased_append, hu, hv, hplain.startsCased, startsCased_of_ignorable]
        at hends
    refine ⟨c :: s, c, hab, .inl rfl, ?_⟩
    rw [hwhole]
    exact not_infix_cons (lower_eq_lowerIn s ▸ length_lowerIn _ _ _ _ s) hne hc
  · -- With a letter after the text the word goes on, and the sigma does not end it.
    obtain ⟨c, hab, hplain, hc⟩ := exists_plain_ne (lower s).getLast?
    have hwhole : lower (s ++ [c]) = lowerIn [] [c] s ++ [c] := by
      rw [lower_append, lowerFrom, lowerFrom, List.append_nil, if_neg hplain.notSigma,
        hplain.lower]
    have hne : lower s ≠ lowerIn [] [c] s := by
      intro heq
      have hends := lowerIn_eq_lower_iff.mp heq.symm u v hs
      simp [endsWord, startsCased_append, hu, hv, hplain.startsCased, startsCased_of_ignorable]
        at hends
    refine ⟨s ++ [c], c, hab, .inr rfl, ?_⟩
    rw [hwhole]
    exact not_infix_concat (lower_eq_lowerIn s ▸ length_lowerIn _ _ _ _ s) hne hc

end PeerShare.Text
