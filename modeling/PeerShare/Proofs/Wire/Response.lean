import PeerShare.Proofs.Json.Value
import PeerShare.Wire.Response

/-!
A response is decoded as what it was encoded from, if its data, where there are any, are not `null`
and nested no deeper than a response may hold them. `null` data would come back as no data.
-/

namespace PeerShare
namespace Response

def Holds (a : Response) : Prop :=
  ∀ v, a.data = some v → v ≠ .null ∧ Json.Plain (Json.depthLimit - 1) v

theorem holds_failure (c : ErrorCode) (m : String) : (failure c m).Holds := by
  intro v hv
  cases hv

theorem holds_ofError (e : CatalogError) : (ofError e).Holds := by
  cases e <;> exact holds_failure _ _

def members (a : Response) : List (String × Json) :=
  ("ok", .bool a.ok) :: member "data" a.data ++ member "error" (a.error.map .str) ++
    member "code" (a.code.map fun c => .str c.name)

theorem encode_eq (a : Response) : a.encode = '\x7b' :: Json.membersText a.members :=
  Json.chars_obj _

/-! ### Members -/

section Members
variable {d : Draft} {depth : Nat} {r : List Char}

theorem ofName_name (c : ErrorCode) : ErrorCode.ofName c.name = .ok c := by cases c <;> rfl

inductive Member : String × Json → Prop
  | ok (b : Bool) : Member ("ok", .bool b)
  | data {v : Json} (hn : v ≠ .null) (h : Json.Plain (Json.depthLimit - 1) v) : Member ("data", v)
  | error (s : String) : Member ("error", .str s)
  | code (c : ErrorCode) : Member ("code", .str c.name)

theorem mem_member {name : String} {v : Option Json} {m : String × Json} :
    m ∈ Response.member name v ↔ ∃ w, v = some w ∧ m = (name, w) := by
  cases v <;> simp [Response.member]

theorem Holds.member {a : Response} (ha : a.Holds) {m : String × Json} (hm : m ∈ a.members) :
    Member m := by
  simp only [members, List.mem_append, List.mem_cons, mem_member, Option.map_eq_some_iff] at hm
  rcases hm with ((rfl | ⟨v, hv, rfl⟩) | ⟨-, ⟨s, -, rfl⟩, rfl⟩) | ⟨-, ⟨c, -, rfl⟩, rfl⟩
  · exact .ok a.ok
  · exact .data (ha v hv).1 (ha v hv).2
  · exact .error s
  · exact .code c

def Draft.put (d : Draft) : String × Json → Draft
  | ("ok", .bool b) => { d with ok := some b }
  | ("data", v) => { d with data := some (some v) }
  | ("error", .str s) => { d with error := some (some s) }
  | ("code", .str name) => { d with code := some (ErrorCode.ofName name).toOption }
  | _ => d

def Draft.next (d : Draft) (m : String × Json) : Except Json.Fault Draft :=
  if d.has m.1 then .error (.duplicateField m.1) else .ok (d.put m)

theorem readBool_chars (b : Bool) : readBool ((Json.bool b).chars ++ r) = .ok (b, r) := by
  cases b <;> simp [Json.chars, readBool, Json.skipBlanks, Json.readWord]

theorem readText_chars (s : String) : readText ((Json.str s).chars ++ r) = .ok (s, r) := by
  rw [Json.chars_str, readText, Json.skipBlanks_of_begins (by decide)]
  exact Json.readString_escaped s r

theorem readData_chars {v : Json} (h : Json.Plain (Json.depthLimit - 1) v)
    (hr : Json.EndsNumber r) : readData (v.chars ++ r) = .ok (v, r) := by
  rw [readData, Json.readValue_chars true h hr]
  simp [Except.map, h.sorted_eq]

theorem readCode_chars (c : ErrorCode) : readCode ((Json.str c.name).chars ++ r) = .ok (c, r) := by
  have name : readCodeName ((Json.str c.name).chars ++ r) = .ok (c, r) := by
    rw [Json.chars_str, readCodeName, Json.skipBlanks_of_begins (by decide)]
    simp [Json.readString_escaped, ofName_name, bind, Except.bind, pure, Except.pure]
  rw [Json.chars_str] at name ⊢
  rw [readCode, Json.skipBlanks_of_begins (by decide)]
  exact name

theorem readOption_chars {α : Type} (reader : List Char → Json.Step α) {v : Json}
    (h : Json.Plain depth v) (hn : v ≠ .null) :
    readOption reader (v.chars ++ r) = (reader (v.chars ++ r)).map fun (a, r) => (some a, r) := by
  obtain ⟨c, s, hs, hc, first⟩ := h.starts
  rw [hs, List.cons_append, readOption, Json.skipBlanks_of_begins hc]
  split
  · rename_i h
    exact absurd (List.cons.inj h).1 (first hn)
  · rfl

theorem value_chars {m : String × Json} (hm : Member m) (hr : Json.EndsNumber r) :
    d.value m.1 (m.2.chars ++ r) = .ok (d.put m, r) := by
  cases hm with
  | ok b => simp only [Draft.value, Draft.put, readBool_chars, Except.map]
  | data hn h =>
    simp only [Draft.value, Draft.put, readOption_chars readData h hn, readData_chars h hr,
      Except.map]
  | error s =>
    have present := readOption_chars readText (.str s : Json.Plain 0 _) (r := r) (by simp)
    simp only [Draft.value, Draft.put, present, readText_chars, Except.map]
  | code c =>
    have present := readOption_chars readCode (.str c.name : Json.Plain 0 _) (r := r) (by simp)
    simp only [Draft.value, Draft.put, present, readCode_chars, ofName_name, Except.map,
      Except.toOption]

theorem member_next {m : String × Json} (hm : Member m) (hr : Json.EndsNumber r) :
    d.member m.1 (':' :: m.2.chars ++ r) = (d.next m).map fun d => (d, r) := by
  simp only [Draft.member, Draft.next, List.cons_append, Json.readColon_colon, Except.bind,
    value_chars hm hr]
  split <;> rfl

end Members

/-! ### Texts -/

section Texts
variable {a : Response}

theorem foldlM_members (a : Response) :
    a.members.foldlM Draft.next {} =
      .ok ⟨some a.ok, a.data.map some, a.error.map some, a.code.map some⟩ := by
  obtain ⟨ok, data, error, code⟩ := a
  have known : ∀ c : ErrorCode, (ErrorCode.ofName c.name).toOption = some c := fun c => by
    rw [ofName_name]
    rfl
  cases data <;> cases error <;> cases code <;>
    simp [members, member, Draft.next, Draft.has, Draft.put, known, bind, Except.bind, pure,
      Except.pure]

theorem Holds.readMembers_members (ha : a.Holds) :
    Json.readMembers true Draft.member ((Json.membersText a.members).length + 1) true {}
      (Json.membersText a.members) =
        .ok (⟨some a.ok, a.data.map some, a.error.map some, a.code.map some⟩, []) := by
  have walk := Json.readMembers_membersText true Draft.member Draft.next
    (fun m (hm : m ∈ a.members) d r hr => member_next (ha.member hm) hr) {} []
  rwa [List.append_nil, foldlM_members] at walk

theorem Holds.decode_encode (ha : a.Holds) : decode a.encode = .ok a := by
  have kept {α : Type} (o : Option α) : (o.map some).join = o := by cases o <;> rfl
  rw [encode_eq, decode, readFrom, Json.skipBlanks_of_begins (by decide)]
  simp [kept, ha.readMembers_members, Draft.finish, Json.atEnd, Json.skipBlanks, bind, Except.bind,
    pure, Except.pure]

theorem Holds.lineFeed_notMem_encode (ha : a.Holds) : '\n' ∉ a.encode := by
  refine Json.lineFeed_notMem_obj fun m hm => ?_
  cases ha.member hm with
  | ok b => exact (Json.Plain.bool b : Json.Plain 0 _).lineFeed_notMem
  | data hn h => exact h.lineFeed_notMem
  | error s => exact (Json.Plain.str s : Json.Plain 0 _).lineFeed_notMem
  | code c => exact (Json.Plain.str c.name : Json.Plain 0 _).lineFeed_notMem

end Texts

end Response
end PeerShare
