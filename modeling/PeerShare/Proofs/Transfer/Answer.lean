import PeerShare.Proofs.Keyed
import PeerShare.Transfer.Endpoint

/-!
A connection that holds a slot is answered once it has sent its name, whatever other connections the
endpoint has to answer first: their steps leave its slot alone, and each takes one of them away.
-/

namespace PeerShare.Transfer

namespace Slots
variable {s s' : Slots} {c k : Conn} {v : Service}

theorem service?_eq (s : Slots) (c : Conn) : s.service? c = Keyed.get? c s.serving := by
  unfold service?
  induction s.serving with
  | nil => rfl
  | cons x l ih =>
    rw [Keyed.get?_cons, ← ih]
    split_ifs with h
    · rw [List.find?_cons, beq_iff_eq.mpr h]
      rfl
    · rw [List.find?_cons, beq_eq_false_iff_ne.mpr h]

theorem service?_grant (k : Conn) (h : s.service? c = some v) :
    (s.grant k).service? c = some v := by
  rw [service?_eq] at h ⊢
  rw [grant, Keyed.get?_append, h, Option.some_or]

theorem service?_letIn (h : s.service? c = some v) : s.letIn.service? c = some v := by
  unfold letIn
  split
  · exact h
  · split_ifs
    · exact h
    · exact service?_grant _ h

theorem service?_release (why : Ending) (hk : k ≠ c) (h : s.service? c = some v) :
    (s.release k why).service? c = some v := by
  refine service?_letIn ?_
  rw [service?_eq] at h ⊢
  rw [Keyed.get?_filter_key (fun x => x != k), if_pos (bne_iff_ne.mpr hk.symm), h]

def Event.conn? : Event → Option Conn
  | .arrive => none
  | .request c | .stop c _ => some c

theorem service?_step {ev : Event} (hs : s.step ev = some s') (hc : ev.conn? ≠ some c)
    (h : s.service? c = some v) : s'.service? c = some v := by
  cases ev with
  | arrive =>
    cases hs
    simp only [arrive]
    split
    · split_ifs
      · exact h
      · exact service?_grant _ h
    · exact service?_letIn h
  | request k =>
    simp only [step] at hs
    split_ifs at hs
    cases hs
    have hk : k ≠ c := fun he => hc (congrArg some he)
    rw [service?_eq] at h ⊢
    rw [Keyed.get?_mapKey (fun i v => if i = k then Service.sending else v), h, Option.map_some,
      if_neg hk.symm]
  | stop k why =>
    simp only [step] at hs
    split at hs
    · split_ifs at hs
      cases hs
      exact service?_release why (fun he => hc (congrArg some he)) h
    · cases hs

end Slots

namespace Endpoint
variable {e : Endpoint} {c k : Conn} {request sent out : Bytes}

theorem service?_answerSlots {s s' : Slots} {v : Service} (hs : answerSlots s k out = some s')
    (hk : k ≠ c) (h : s.service? c = some v) : s'.service? c = some v := by
  have hne : some k ≠ some c := fun he => hk (Option.some.inj he)
  unfold answerSlots at hs
  split_ifs at hs
  · exact Slots.service?_step hs hne h
  · obtain ⟨s₁, h₁, h₂⟩ := Option.bind_eq_some_iff.mp hs
    exact Slots.service?_step h₂ hne (Slots.service?_step h₁ hne h)
  · exact Slots.service?_step hs hne h

theorem service?_answer {v : Service} (request : Bytes) (hk : k ≠ c)
    (h : e.slots.service? c = some v) : (e.answer k request).slots.service? c = some v := by
  simp only [answer]
  cases hs : answerSlots e.slots k (respond e.disk e.folder request) with
  | none => exact h
  | some s => exact service?_answerSlots hs hk h

theorem get?_heard_answer (request : Bytes) (hk : k ≠ c) :
    Keyed.get? c (e.answer k request).heard = Keyed.get? c e.heard := by
  simp only [answer]
  rw [Keyed.get?_filter_key (fun x => x != k), if_pos (bne_iff_ne.mpr hk.symm)]

theorem get?_heard_answer_self (request : Bytes) :
    Keyed.get? c (e.answer c request).heard = none := by
  simp only [answer]
  rw [Keyed.get?_filter_key (fun x => x != c), if_neg (by simp)]

theorem get?_heard_of_ready? (h : e.ready? = some (k, request)) :
    Keyed.get? k e.heard = some request := by
  obtain ⟨⟨c, v⟩, -, h⟩ := List.exists_of_findSome?_eq_some h
  simp only at h
  split_ifs at h
  obtain ⟨sent, hsent, he⟩ := Option.map_eq_some_iff.mp h
  cases he
  exact hsent

theorem exists_ready? (hslot : e.slots.service? c = some .reading)
    (hheard : Keyed.get? c e.heard = some request) : ∃ k sent, e.ready? = some (k, sent) := by
  rw [Slots.service?_eq] at hslot
  cases h : e.ready? with
  | some x => exact ⟨_, _, rfl⟩
  | none =>
    have hnone := List.findSome?_eq_none_iff.mp h _ (Keyed.mem_of_get? hslot)
    simp only [if_true, hheard] at hnone
    cases hnone

theorem length_heard_answer (h : Keyed.get? k e.heard = some request) :
    (e.answer k request).heard.length < e.heard.length := by
  refine List.length_filter_lt_length_iff_exists.mpr ⟨_, Keyed.mem_of_get? h, ?_⟩
  simp

theorem answer?_settleUpTo_of_unheard {fuel : Nat} (h : Keyed.get? c e.heard = none) :
    (settleUpTo fuel e).answer? c = e.answer? c := by
  induction fuel generalizing e with
  | zero => rfl
  | succ fuel ih =>
    simp only [settleUpTo]
    split
    · rfl
    · rename_i k sent hready
      have hk : k ≠ c := by
        rintro rfl
        cases h.symm.trans (get?_heard_of_ready? hready)
      rw [ih ((get?_heard_answer sent hk).trans h)]
      exact if_neg hk

theorem answer?_settleUpTo {fuel : Nat} (hslot : e.slots.service? c = some .reading)
    (hheard : Keyed.get? c e.heard = some request) (hfuel : e.heard.length ≤ fuel) :
    (settleUpTo fuel e).answer? c = some (respond e.disk e.folder request) := by
  induction fuel generalizing e with
  | zero =>
    rw [List.length_eq_zero_iff.mp (Nat.le_zero.mp hfuel)] at hheard
    cases hheard
  | succ fuel ih =>
    obtain ⟨k, sent, hready⟩ := exists_ready? hslot hheard
    have hsent := get?_heard_of_ready? hready
    simp only [settleUpTo, hready]
    by_cases hk : k = c
    · subst hk
      cases hheard.symm.trans hsent
      rw [answer?_settleUpTo_of_unheard (get?_heard_answer_self request)]
      exact if_pos rfl
    · have hless := length_heard_answer hsent
      exact ih (service?_answer sent hk hslot) ((get?_heard_answer sent hk).trans hheard)
        (by omega)

/-! ### What a requester gets -/

/-- The connection holds a slot and has not sent anything. -/
structure Grants (e : Endpoint) (c : Conn) : Prop where
  slot : e.slots.service? c = some .reading
  unheard : Keyed.get? c e.heard = none

theorem Grants.answer? (h : e.Grants c) (request : Bytes) :
    (e.hear c request).answer? c = some (respond e.disk e.folder request) := by
  have hheard : Keyed.get? c (e.heard ++ [(c, request)]) = some request := by
    rw [Keyed.get?_append, h.unheard, Option.none_or]
    exact if_pos rfl
  exact answer?_settleUpTo h.slot hheard (Nat.le_refl _)

end Endpoint

end PeerShare.Transfer
