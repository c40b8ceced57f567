import Mathlib.Data.List.Sort
import Mathlib.Tactic.SplitIfs
import PeerShare.Collection

/-!
Which names are in a set of names, and the sets that come of listing and withdrawing. A set is in
order; two sets in order with the same names are the same.
-/

namespace PeerShare.Names

variable {n name : String} {ns ms : Names}

@[simp] theorem mem_insert : n ∈ insert name ns ↔ n = name ∨ n ∈ ns := by
  induction ns with
  | nil => exact List.mem_cons
  | cons m ns ih =>
    simp only [insert]
    split_ifs with h
    · subst h
      simp only [List.mem_cons, or_self_left]
    · exact List.mem_cons
    · rw [List.mem_cons, List.mem_cons, ih, or_left_comm]

@[simp] theorem mem_erase : n ∈ erase name ns ↔ n ∈ ns ∧ n ≠ name := by
  rw [erase, List.mem_filter, bne_iff_ne]

@[simp] theorem mem_diff : n ∈ diff ns ms ↔ n ∈ ns ∧ n ∉ ms := by
  rw [diff, List.mem_filter, Bool.not_eq_true', List.contains_eq_mem, decide_eq_false_iff_not]

/-! ### Order -/

def Ordered (ns : Names) : Prop := ns.Pairwise (· < ·)

theorem Ordered.ext (h : ns.Ordered) (h' : ms.Ordered) (hm : ∀ n, n ∈ ns ↔ n ∈ ms) : ns = ms :=
  List.Pairwise.eq_of_mem_iff h h' hm

theorem Ordered.nodup (h : ns.Ordered) : ns.Nodup := List.Pairwise.nodup h

theorem Ordered.filter (h : ns.Ordered) (p : String → Bool) : Ordered (ns.filter p) :=
  List.Pairwise.filter p h

theorem Ordered.insert (h : ns.Ordered) (name : String) : (Names.insert name ns).Ordered := by
  induction ns with
  | nil => exact List.pairwise_singleton _ _
  | cons m ns ih =>
    have hm : ∀ n ∈ ns, m < n := fun n hn => List.rel_of_pairwise_cons h hn
    simp only [Names.insert]
    split_ifs with he hlt
    · exact h
    · refine List.pairwise_cons.mpr ⟨fun n hn => ?_, h⟩
      rcases List.mem_cons.mp hn with rfl | hn
      · exact hlt
      · exact String.lt_trans hlt (hm n hn)
    · have hgt : m < name := by
        by_contra hnot
        exact he (String.le_antisymm (String.not_lt.mp hlt) (String.not_lt.mp hnot))
      refine List.pairwise_cons.mpr ⟨fun n hn => ?_, ih (List.Pairwise.of_cons h)⟩
      rcases mem_insert.mp hn with rfl | hn
      · exact hgt
      · exact hm n hn

theorem ordered_ofList (l : List String) : (ofList l).Ordered := by
  induction l with
  | nil => exact List.Pairwise.nil
  | cons name l ih => exact ih.insert name

theorem mem_ofList {l : List String} : n ∈ ofList l ↔ n ∈ l := by
  induction l with
  | nil => rfl
  | cons name l ih =>
    rw [List.mem_cons, ← ih]
    exact mem_insert

/-! ### Many names at once -/

def insertAll (new ns : Names) : Names := new.foldl (fun ns n => insert n ns) ns

def eraseAll (old ns : Names) : Names := old.foldl (fun ns n => erase n ns) ns

theorem mem_insertAll {new : Names} : n ∈ insertAll new ns ↔ n ∈ new ∨ n ∈ ns := by
  induction new generalizing ns with
  | nil => simp [insertAll]
  | cons m new ih =>
    have hrest : n ∈ insertAll new (insert m ns) ↔ n ∈ new ∨ n ∈ insert m ns := ih
    rw [mem_insert] at hrest
    rw [List.mem_cons, or_assoc, or_left_comm]
    exact hrest

theorem mem_eraseAll {old : Names} : n ∈ eraseAll old ns ↔ n ∈ ns ∧ n ∉ old := by
  induction old generalizing ns with
  | nil => simp [eraseAll]
  | cons m old ih =>
    have hrest : n ∈ eraseAll old (erase m ns) ↔ n ∈ erase m ns ∧ n ∉ old := ih
    rw [mem_erase] at hrest
    rw [List.mem_cons, not_or, ← and_assoc]
    exact hrest

theorem Ordered.insertAll (h : ns.Ordered) (new : Names) : (Names.insertAll new ns).Ordered := by
  induction new generalizing ns with
  | nil => exact h
  | cons m new ih => exact ih (h.insert m)

theorem Ordered.eraseAll (h : ns.Ordered) (old : Names) : (Names.eraseAll old ns).Ordered := by
  induction old generalizing ns with
  | nil => exact h
  | cons m old ih => exact ih (h.filter _)

theorem diff_insert (h : name ∈ ms) : diff (insert name ns) ms = diff ns ms := by
  have skip (l : Names) : diff (name :: l) ms = diff l ms := by
    have hc : ms.contains name = true := List.contains_iff_mem.mpr h
    rw [diff, List.filter_cons, hc]
    rfl
  induction ns with
  | nil => exact skip []
  | cons m ns ih =>
    simp only [insert]
    split_ifs with he hlt
    · rfl
    · exact skip (m :: ns)
    · simp only [diff] at ih ⊢
      rw [List.filter_cons, List.filter_cons, ih]

theorem diff_insertAll {new : Names} (h : ∀ n ∈ new, n ∈ ms) :
    diff (insertAll new ns) ms = diff ns ms := by
  induction new generalizing ns with
  | nil => rfl
  | cons m new ih =>
    have hm := h m List.mem_cons_self
    exact (ih fun n hn => h n (List.mem_cons_of_mem _ hn)).trans (diff_insert hm)

def settle (present known : Names) : Names :=
  eraseAll (diff known present) (insertAll (diff present known) known)

theorem mem_settle : n ∈ settle ms ns ↔ n ∈ ms := by
  simp only [settle, mem_eraseAll, mem_insertAll, mem_diff]
  tauto

theorem settle_eq (h : ns.Ordered) (h' : ms.Ordered) : settle ms ns = ms :=
  Ordered.ext ((h.insertAll _).eraseAll _) h' fun _ => mem_settle

end PeerShare.Names
