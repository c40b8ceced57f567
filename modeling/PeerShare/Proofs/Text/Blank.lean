import Mathlib.Data.List.DropRight
import PeerShare.Text.Basic

/-!
Trimming leaves nothing of a text that is blank throughout, and otherwise a text that neither starts
nor ends with a blank. A line feed after such a text is all that
trimming takes from it.
-/

namespace PeerShare.Text

variable {s : List Char}

theorem trim_eq_nil_iff : trim s = [] ↔ ∀ c ∈ s, isBlank c = true := by
  have left (s : List Char) : trimLeft s = [] ↔ ∀ c ∈ s, isBlank c = true :=
    List.dropWhile_eq_nil_iff
  have right (s : List Char) : trimRight s = [] ↔ trimLeft s = [] := by
    rw [trimRight, List.reverse_eq_nil_iff, List.dropWhile_eq_nil_iff, left]
    simp only [List.mem_reverse]
  have twice : trimLeft (trimLeft s) = trimLeft s := List.dropWhile_idempotent _ _
  rw [trim, right, twice, left]

theorem trimRight_concat {c : Char} (h : isBlank c = false) (s : List Char) :
    trimRight (s ++ [c]) = s ++ [c] := by
  simp [trimRight, h]

theorem trimRight_lineFeed (s : List Char) : trimRight (s ++ ['\n']) = trimRight s := by
  have blank : isBlank '\n' = true := rfl
  simp [trimRight, blank]

structure Trimmed (s : List Char) : Prop where
  nonempty : s ≠ []
  start : ∀ c, s.head? = some c → isBlank c = false
  finish : ∀ c, s.getLast? = some c → isBlank c = false

theorem trimmed_iff : Trimmed s ↔ s ≠ [] ∧ (s.head?.all (!isBlank ·)) = true ∧
    (s.getLast?.all (!isBlank ·)) = true := by
  simp only [Option.all_eq_true, Bool.not_eq_true']
  exact ⟨fun h => ⟨h.nonempty, h.start, h.finish⟩, fun h => ⟨h.1, h.2.1, h.2.2⟩⟩

instance (s : List Char) : Decidable (Trimmed s) := decidable_of_iff _ trimmed_iff.symm

theorem trimmed_trim (h : trim s ≠ []) : Trimmed (trim s) where
  nonempty := h
  start c hc := by
    obtain ⟨l, hl⟩ : trim s <+: trimLeft s := List.rdropWhile_prefix isBlank _
    obtain ⟨t, ht⟩ := List.head?_eq_some_iff.mp hc
    have first := List.head?_dropWhile_not isBlank s
    rw [← trimLeft, ← hl, ht, List.cons_append, List.head?_cons] at first
    exact first
  finish c hc := by
    have last := List.rdropWhile_last_not isBlank (trimLeft s) h
    rw [List.getLast?_eq_some_getLast h] at hc
    exact Bool.eq_false_iff.mpr (Option.some.inj hc ▸ last)

theorem Trimmed.trimLeft_append (h : Trimmed s) (t : List Char) : trimLeft (s ++ t) = s ++ t := by
  obtain ⟨c, l, rfl⟩ := List.exists_cons_of_ne_nil h.nonempty
  have hc := h.start c rfl
  simp [trimLeft, hc]

theorem Trimmed.trimRight_eq (h : Trimmed s) : trimRight s = s := by
  obtain rfl | ⟨l, c, rfl⟩ := List.eq_nil_or_concat' s
  · exact absurd rfl h.nonempty
  exact trimRight_concat (h.finish c List.getLast?_concat) l

theorem Trimmed.trim_lineFeed (h : Trimmed s) : trim (s ++ ['\n']) = s := by
  rw [trim, h.trimLeft_append, trimRight_lineFeed, h.trimRight_eq]

end PeerShare.Text
