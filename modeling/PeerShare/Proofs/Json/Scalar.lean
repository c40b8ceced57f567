import Mathlib.Data.List.Forall2
import PeerShare.Json.Scalar
import PeerShare.Proofs.Json.Value

/-!
The fields of a record are found by name, in whatever order its members stand.
-/

namespace PeerShare.Json

def Scalar.kind : Scalar → Kind
  | .text _ => .text
  | .port _ => .port
  | .id _ => .id

theorem Kind.read_json (x : Scalar) : x.kind.read x.json = .ok x := by
  cases x with
  | text s => rfl
  | port n =>
    have hn : n.toUInt64.toNat < UInt16.size := n.toNat_lt_size
    simp only [Scalar.kind, Scalar.json, Kind.read, if_pos hn, UInt16.toUInt16_toUInt64]
  | id n => rfl

theorem Scalar.plain (x : Scalar) (depth : Nat) : Plain depth x.json := by
  cases x with
  | text s => exact .str s
  | port n => exact .nat _
  | id n => exact .nat n

def namedJson (p : String × Scalar) : String × Json := (p.1, p.2.json)

section Fields
variable {fields : Fields} {xs : List Scalar} {ps done : List (String × Scalar)}

theorem find?_name {α : Type} {l : List (String × α)} (hn : (l.map (·.1)).Nodup) {p : String × α}
    (hp : p ∈ l) : l.find? (·.1 == p.1) = some p := by
  induction l with
  | nil => cases hp
  | cons e l ih =>
    obtain ⟨he, hl⟩ := List.nodup_cons.mp hn
    rw [List.find?_cons]
    rcases List.mem_cons.mp hp with rfl | hp
    · simp
    · have other : e.1 ≠ p.1 := fun h => he (List.mem_map.mpr ⟨p, hp, h.symm⟩)
      rw [beq_eq_false_iff_ne.mpr other]
      exact ih hl hp

theorem readMembersOf_named (hf : (fields.map (·.1)).Nodup) (hn : ((done ++ ps).map (·.1)).Nodup)
    (hk : ∀ p ∈ ps, (p.1, p.2.kind) ∈ fields) :
    readMembersOf fields done (ps.map namedJson) = .ok (done ++ ps) := by
  induction ps generalizing done with
  | nil => simp [readMembersOf]
  | cons p ps ih =>
    have known := find?_name hf (hk p List.mem_cons_self)
    have new : ¬ done.any (·.1 == p.1) = true := by
      rw [List.map_append, List.nodup_append] at hn
      intro h
      obtain ⟨e, he, hp⟩ := List.any_eq_true.mp h
      exact hn.2.2 _ (List.mem_map_of_mem he) _ List.mem_cons_self (beq_iff_eq.mp hp)
    have rest : done ++ p :: ps = done ++ [p] ++ ps := by simp
    rw [rest] at hn
    rw [List.map_cons, namedJson, readMembersOf, known, rest]
    simp only [if_neg new, Kind.read_json, bind, Except.bind]
    exact ih hn fun p hp => hk p (List.mem_cons_of_mem _ hp)

theorem arrange_named (hn : (done.map (·.1)).Nodup)
    (h : List.Forall₂ (fun f x => (f.1, x) ∈ done) fields xs) : arrange done fields = .ok xs := by
  induction h with
  | nil => rfl
  | cons hf h ih =>
    rw [arrange, find?_name hn hf]
    simp only [ih, Except.map]

theorem readFieldsByName_named (ps : List (String × Scalar)) (hf : (fields.map (·.1)).Nodup)
    (hn : (ps.map (·.1)).Nodup) (hk : ∀ p ∈ ps, (p.1, p.2.kind) ∈ fields)
    (h : List.Forall₂ (fun f x => (f.1, x) ∈ ps) fields xs) :
    readFieldsByName fields (ps.map namedJson) = .ok xs := by
  have read : readMembersOf fields [] (ps.map namedJson) = .ok ([] ++ ps) :=
    readMembersOf_named hf hn hk
  rw [readFieldsByName, read]
  exact arrange_named hn h

theorem readFieldsByName_zip (hf : (fields.map (·.1)).Nodup)
    (h : List.Forall₂ (fun f x => f.2 = x.kind) fields xs) :
    readFieldsByName fields ((fields.zip xs).map fun (f, x) => (f.1, x.json)) = .ok xs := by
  obtain ⟨length, kinds⟩ := List.forall₂_iff_zip.mp h
  have names : ((fields.zip xs).map fun (f, x) => (f.1, x)).map (·.1) = fields.map (·.1) := by
    have firsts := congrArg (List.map Prod.fst) (List.map_fst_zip (Nat.le_of_eq length))
    rw [List.map_map] at firsts ⊢
    exact firsts
  have read := readFieldsByName_named ((fields.zip xs).map fun (f, x) => (f.1, x)) hf
    (names ▸ hf) (fun p hp => by
      obtain ⟨⟨f, x⟩, hm, rfl⟩ := List.mem_map.mp hp
      rw [← kinds hm]
      exact (List.of_mem_zip hm).1)
    (List.forall₂_iff_zip.mpr ⟨length, fun hm => List.mem_map_of_mem hm⟩)
  rw [List.map_map] at read
  exact read

end Fields
end PeerShare.Json
