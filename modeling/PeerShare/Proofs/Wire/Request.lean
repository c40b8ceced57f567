import PeerShare.Proofs.Json.Scalar
import PeerShare.Wire.Request

/-!
A request is decoded as what it was encoded from. Its members are a command and scalars; the walk
over the object collects them in the order in which they were written, and the fields of the command
are found among them by name.
-/

namespace PeerShare

namespace Request

theorem ofName?_name (c : Command) : Command.ofName? c.name = some c := by cases c <;> rfl

theorem readCommand_chars (c : Command) (r : List Char) :
    readCommand ((Json.str c.name).chars ++ r) = .ok (c, r) := by
  rw [Json.chars_str, readCommand, Json.skipBlanks_of_begins (by decide)]
  simp only [Json.readString_escaped, ofName?_name]

def argumentMembers (q : Request) : List (String × Json) :=
  (q.command.fields.zip q.arguments).map fun (f, x) => (f.1, x.json)

theorem names_fields (c : Command) : (c.fields.map (·.1)).Nodup ∧ "cmd" ∉ c.fields.map (·.1) := by
  cases c <;> decide

theorem kinds_arguments (q : Request) :
    List.Forall₂ (fun f x => f.2 = x.kind) q.command.fields q.arguments := by
  cases q <;> simp [command, arguments, Command.fields, Json.Scalar.kind]

theorem argumentMembers_plain (q : Request) {m : String × Json} (hm : m ∈ q.argumentMembers)
    (depth : Nat) : m.1 ≠ "cmd" ∧ Json.Plain depth m.2 := by
  obtain ⟨⟨f, x⟩, hf, rfl⟩ := List.mem_map.mp hm
  refine ⟨fun h => ?_, x.plain depth⟩
  exact (names_fields q.command).2 (List.mem_map.mpr ⟨f, (List.of_mem_zip hf).1, h⟩)

theorem ofMembers_argumentMembers (q : Request) :
    ofMembers q.command q.argumentMembers = .ok q := by
  have read : Json.readFieldsByName q.command.fields q.argumentMembers = .ok q.arguments :=
    Json.readFieldsByName_zip (names_fields q.command).1 q.kinds_arguments
  simp only [ofMembers, read, bind, Except.bind, finish, build?_arguments]

def Draft.next (d : Draft) (m : String × Json) : Except Json.Fault Draft :=
  if m.1 = "cmd" then
    if d.command.isSome then .error (.duplicateField "cmd")
    else match m.2 with
      | .str name => match Command.ofName? name with
        | some c => .ok { d with command := some c }
        | none => .error (.unknownVariant name (Command.all.map Command.name))
      | _ => .error .malformed
  else .ok { d with members := d.members ++ [m] }

theorem foldlM_next {ms : List (String × Json)} (h : ∀ m ∈ ms, m.1 ≠ "cmd") (d : Draft) :
    ms.foldlM Draft.next d = .ok { d with members := d.members ++ ms } := by
  induction ms generalizing d with
  | nil => simp [pure, Except.pure]
  | cons m ms ih =>
    have hm : d.next m = .ok { d with members := d.members ++ [m] } :=
      if_neg (h m List.mem_cons_self)
    rw [List.foldlM_cons, hm]
    refine (ih (fun m hm => h m (List.mem_cons_of_mem _ hm)) _).trans ?_
    simp

theorem member_command (d : Draft) (c : Command) (r : List Char) :
    d.member "cmd" (':' :: (Json.str c.name).chars ++ r) =
      (d.next ("cmd", .str c.name)).map fun d => (d, r) := by
  simp only [Draft.member, Draft.next, if_true, List.cons_append, Json.readColon_colon, Except.bind,
    readCommand_chars, ofName?_name]
  split <;> rfl

theorem member_argument (d : Draft) {m : String × Json} (hn : m.1 ≠ "cmd")
    (h : Json.Plain (Json.depthLimit - 1) m.2) {r : List Char} (hr : Json.EndsNumber r) :
    d.member m.1 (':' :: m.2.chars ++ r) = (d.next m).map fun d => (d, r) := by
  simp only [Draft.member, Draft.next, if_neg hn, List.cons_append, Json.readColon_colon,
    Except.bind, Json.readValue_chars true h hr]
  rfl

def members (q : Request) : List (String × Json) :=
  ("cmd", .str q.command.name) :: q.argumentMembers

theorem encode_eq (q : Request) : q.encode = '\x7b' :: Json.membersText q.members :=
  Json.chars_obj _

theorem foldlM_members (q : Request) :
    q.members.foldlM Draft.next {} = .ok ⟨some q.command, q.argumentMembers⟩ := by
  have first : Draft.next {} ("cmd", .str q.command.name) = .ok ⟨some q.command, []⟩ := by
    simp [Draft.next, ofName?_name]
  rw [members, List.foldlM_cons, first]
  exact foldlM_next (fun m hm => (q.argumentMembers_plain hm 0).1) ⟨some q.command, []⟩

theorem readMembers_members (q : Request) :
    Json.readMembers true Draft.member ((Json.membersText q.members).length + 1) true {}
      (Json.membersText q.members) = .ok (⟨some q.command, q.argumentMembers⟩, []) := by
  have walk := Json.readMembers_membersText true Draft.member Draft.next
    (fun m (hm : m ∈ q.members) d r hr => by
      rcases List.mem_cons.mp hm with rfl | hm
      · exact member_command d q.command r
      · obtain ⟨hn, hp⟩ := q.argumentMembers_plain hm (Json.depthLimit - 1)
        exact member_argument d hn hp hr) {} []
  rwa [List.append_nil, foldlM_members] at walk

theorem decode_encode (q : Request) : decode q.encode = .ok q := by
  rw [encode_eq, decode, readFrom, Json.skipBlanks_of_begins (by decide)]
  simp [readMembers_members, ofMembers_argumentMembers, Json.atEnd, Json.skipBlanks, bind,
    Except.bind, pure, Except.pure]

theorem lineFeed_notMem_encode (q : Request) : '\n' ∉ q.encode := by
  refine Json.lineFeed_notMem_obj fun m hm => ?_
  rcases List.mem_cons.mp hm with rfl | hm
  · exact Json.lineFeed_notMem_stringText _
  · exact (q.argumentMembers_plain hm 0).2.lineFeed_notMem

end Request
end PeerShare
