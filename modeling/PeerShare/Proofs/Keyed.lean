import Mathlib.Tactic.SplitIfs
import PeerShare.Collection

/-!
What look-ups see of each change to a list of pairs. `put` and `putSorted` are updates of a finite
map whatever the list; a list without repeated keys is a finite map also for its members.
-/

namespace PeerShare.Keyed

variable {κ α β : Type} [DecidableEq κ]

@[simp] theorem get?_nil (k : κ) : get? k ([] : List (κ × α)) = none := rfl

theorem get?_cons (k : κ) (e : κ × α) (l : List (κ × α)) :
    get? k (e :: l) = if e.1 = k then some e.2 else get? k l := rfl

theorem get?_put (k k' : κ) (a : α) (l : List (κ × α)) :
    get? k' (put k a l) = if k = k' then some a else get? k' l := by
  induction l with
  | nil => rfl
  | cons e l ih =>
    simp only [put]
    split_ifs <;> simp_all [get?_cons]

theorem get?_putSorted [LT κ] [DecidableLT κ] (k k' : κ) (a : α) (l : List (κ × α)) :
    get? k' (putSorted k a l) = if k = k' then some a else get? k' l := by
  induction l with
  | nil => rfl
  | cons e l ih =>
    simp only [putSorted]
    split_ifs <;> simp_all [get?_cons]

theorem get?_filter_key (p : κ → Bool) (k : κ) (l : List (κ × α)) :
    get? k (l.filter fun e => p e.1) = if p k then get? k l else none := by
  induction l with
  | nil => simp
  | cons e l ih =>
    rw [List.filter_cons]
    by_cases hp : p e.1 = true
    · rw [if_pos hp, get?_cons, get?_cons, ih]
      split_ifs <;> simp_all
    · rw [if_neg hp, ih, get?_cons]
      split_ifs <;> simp_all

theorem get?_append (k : κ) (l m : List (κ × α)) : get? k (l ++ m) = (get? k l).or (get? k m) := by
  induction l with
  | nil => rfl
  | cons e l ih =>
    rw [List.cons_append, get?_cons, get?_cons, ih]
    split_ifs <;> rfl

theorem get?_mapKey (f : κ → α → β) (k : κ) (l : List (κ × α)) :
    get? k (l.map fun e => (e.1, f e.1 e.2)) = (get? k l).map (f k) := by
  induction l with
  | nil => rfl
  | cons e l ih =>
    rw [List.map_cons, get?_cons, get?_cons, ih]
    split_ifs with h
    · rw [h]
      rfl
    · rfl

theorem get?_map (f : α → β) (k : κ) (l : List (κ × α)) :
    get? k (l.map fun e => (e.1, f e.2)) = (get? k l).map f := get?_mapKey (fun _ => f) k l

theorem mem_of_get? {k : κ} {a : α} {l : List (κ × α)} (h : get? k l = some a) : (k, a) ∈ l := by
  induction l with
  | nil => cases h
  | cons e l ih =>
    rw [get?_cons] at h
    split_ifs at h with hk
    · cases hk; cases h; exact List.mem_cons_self
    · exact List.mem_cons_of_mem _ (ih h)

theorem get?_eq_some_iff {l : List (κ × α)} (hl : (l.map (·.1)).Nodup) {k : κ} {a : α} :
    get? k l = some a ↔ (k, a) ∈ l := by
  refine ⟨mem_of_get?, fun h => ?_⟩
  induction l with
  | nil => cases h
  | cons e l ih =>
    rw [List.map_cons, List.nodup_cons] at hl
    rw [get?_cons]
    rcases List.mem_cons.mp h with rfl | h
    · exact if_pos rfl
    · have hk : e.1 ≠ k := fun he => hl.1 (he ▸ List.mem_map_of_mem (f := (·.1)) h)
      rw [if_neg hk, ih hl.2 h]

theorem keys_put_nodup {k : κ} {a : α} {l : List (κ × α)} (hl : (l.map (·.1)).Nodup) :
    ((put k a l).map (·.1)).Nodup := by
  have hmem : ∀ l : List (κ × α), ∀ x ∈ (put k a l).map (·.1), x = k ∨ x ∈ l.map (·.1) := by
    intro l
    induction l with
    | nil => simp [put]
    | cons e l ih =>
      simp only [put]
      split_ifs with hk
      · simp [hk]
      · intro x hx
        rcases List.mem_cons.mp hx with rfl | hx
        · exact .inr List.mem_cons_self
        · exact (ih x hx).imp_right (List.mem_cons_of_mem _)
  induction l with
  | nil => simp [put]
  | cons e l ih =>
    rw [List.map_cons, List.nodup_cons] at hl
    simp only [put]
    split_ifs with hk
    · exact hk ▸ List.nodup_cons.mpr hl
    · refine List.nodup_cons.mpr ⟨fun he => ?_, ih hl.2⟩
      exact (hmem l _ he).elim hk hl.1

end PeerShare.Keyed
