import PeerShare.Proofs.Registry.History
import PeerShare.Proofs.Registry.Ownership
import PeerShare.Proofs.Table.Holdings

/-!
Peers that list different offers do not see of each other. A run is put beside the run that the
calls of one peer and the sweeps make alone: the numbers differ, and so do the other rows, but the
holdings of the peer are the same at every point, and so is every answer that is read off them.
-/

namespace PeerShare

namespace Store

theorem Ready.change {s : Store} (h : s.Ready) (f : Table → Nat × Table) :
    (s.change f).1 = .ok (f s.table).1 := by
  unfold Store.change
  by_cases hn : (f s.table).1 = 0
  · simp only [hn, if_true]
  · simp only [hn, if_false, (h.commit (f s.table).2).1]
    rfl

end Store

namespace Registry

/-! ### One operation -/

namespace Operation

def Concerns (p : PeerId) : Operation → Bool
  | .list peer _ => peer = p
  | .delist _ peer => peer = p
  | .heartbeat peer => peer = p
  | .disconnect peer => peer = p
  | .reap => true

def Bare : Operation → Bool
  | .list _ o => isFileName o.fileName
  | _ => true

def onHoldings (op : Operation) (policy : Policy) (now : Instant) (p : PeerId)
    (l : List Holding) : List Holding :=
  if op.Bare then
    match op.statement? policy now with
    | some st => st.onHoldings p l
    | none => l
  else l

end Operation

def Inserts (r : Registry) : Operation → Prop
  | .list _ o => isFileName o.fileName = true ∧ r.store.table.Lacks o
  | _ => False

instance (r : Registry) (op : Operation) : Decidable (r.Inserts op) := by
  cases op <;> unfold Inserts <;> infer_instance

section Operations
variable {r : Registry} {now : Instant} {op : Operation} {p : PeerId} {o : Offer}

theorem operate_of_not_bare (hb : op.Bare = false) : r.operate now op = (false, r) := by
  cases op with
  | list peer o => exact operate_of_refused (.inr ⟨peer, o, rfl, hb⟩) rfl
  | _ => cases hb

theorem Available.done_of_bare (h : r.Available) (hb : op.Bare = true)
    (hroom : r.Inserts op → r.store.table.nextId.next? ≠ none) : (r.operate now op).1 = true := by
  rcases h.done now op with hd | ⟨peer, o, rfl, hn | ⟨hn, hl⟩⟩
  · exact hd
  · cases hb.symm.trans hn
  · exact absurd hn (hroom ⟨hb, hl⟩)

theorem holdings_operate (h : r.Available)
    (hroom : r.Inserts op → r.store.table.nextId.next? ≠ none)
    (hown : ∀ o, op = .list p o → ∀ q ∈ r.store.table.listings, q.offer = o → q.owner = p) :
    (r.operate now op).2.store.table.holdings p =
      op.onHoldings r.policy now p (r.store.table.holdings p) := by
  unfold Operation.onHoldings
  cases hb : op.Bare with
  | false =>
    rw [operate_of_not_bare hb]
    rfl
  | true =>
    rw [if_pos rfl]
    cases hst : op.statement? r.policy now with
    | none => rw [operate_of_no_statement hst]
    | some st =>
      refine Table.holdings_apply h.table (apply_of_done (h.done_of_bare hb hroom) hst) ?_
      intro o now' hu
      subst hu
      cases op with
      | list peer o' =>
        cases hst
        exact hown o rfl
      | reap =>
        obtain ⟨cutoff, -, hc⟩ := Option.map_eq_some_iff.mp hst
        cases hc
      | _ => cases hst

theorem onHoldings_of_others {policy : Policy} {l : List Holding} (hc : op.Concerns p = false)
    (hl : ∀ peer o, op = .list peer o → ∀ h ∈ l, h.offer ≠ o) :
    op.onHoldings policy now p l = l := by
  have kept {α : Type} {l : List α} {f : α → α} (hf : ∀ a ∈ l, f a = a) : l.map f = l :=
    (List.map_congr_left hf).trans (List.map_id l)
  unfold Operation.onHoldings
  split_ifs
  · cases op with
    | list peer o =>
      have hp : peer ≠ p := of_decide_eq_false hc
      simp only [Operation.statement?, Table.Statement.onHoldings, hp, false_and, if_false]
      exact kept fun h hh => if_neg (hl peer o rfl h hh)
    | delist fileName peer =>
      have hp : p ≠ peer := Ne.symm (of_decide_eq_false hc)
      simp [Operation.statement?, Table.Statement.onHoldings, hp]
    | heartbeat peer =>
      have hp : p ≠ peer := Ne.symm (of_decide_eq_false hc)
      simp [Operation.statement?, Table.Statement.onHoldings, hp]
    | disconnect peer =>
      have hp : p ≠ peer := Ne.symm (of_decide_eq_false hc)
      simp [Operation.statement?, Table.Statement.onHoldings, hp]
    | reap => cases hc
  · rfl

theorem Available.state_change (h : r.Available) (f : Table → Nat × Table) :
    (r.state (·.change f)).1 = .ok (f r.store.table).1 := by
  simp only [state, h.outage, h.store.change f]
  rfl

theorem Available.delist_answer (h : r.Available) (fileName : String) (p : PeerId) :
    (r.delist fileName p).1 =
      .ok (decide (0 < (r.store.table.holdings p).countP (·.offer.fileName = fileName))) := by
  have hs := h.state_change (·.deleteOwned fileName p)
  rw [Table.count_deleteOwned] at hs
  exact congrArg (Except.map fun n => decide (0 < n)) hs

theorem Available.heartbeat_answer (h : r.Available) (now : Instant) (p : PeerId) :
    (r.heartbeat now p).1 = .ok (decide (0 < (r.store.table.holdings p).length)) := by
  have hs := h.state_change (·.touchOwner p now)
  rw [Table.count_touchOwner] at hs
  exact congrArg (Except.map fun n => decide (0 < n)) hs

theorem Available.disconnect_answer (h : r.Available) (p : PeerId) :
    (r.disconnect p).1 = .ok (r.store.table.holdings p).length := by
  have hs := h.state_change (·.deleteOwner p)
  rw [Table.count_deleteOwner] at hs
  exact hs

theorem nextId_of_not_inserts (hw : r.store.table.WellFormed) (hi : ¬ r.Inserts op) :
    (r.operate now op).2.store.table.nextId = r.store.table.nextId := by
  rcases nextId_operate hw now op with hn | ⟨peer, o, rfl, hl, -⟩
  · exact hn
  · have hb : isFileName o.fileName = false := Bool.eq_false_iff.mpr fun hb => hi ⟨hb, hl⟩
    have hop : r.operate now (.list peer o) = (false, r) := operate_of_not_bare hb
    rw [hop]

theorem nextId_lt_of_inserts (h : r.Available) (hi : r.Inserts op)
    (hroom : r.store.table.nextId.next? ≠ none) :
    r.store.table.nextId < (r.operate now op).2.store.table.nextId := by
  cases op with
  | list peer o =>
    have hd : (r.operate now (.list peer o)).1 = true := h.done_of_bare hi.1 fun _ => hroom
    have hrow : (⟨r.store.table.nextId, peer, o, now⟩ : Listing) ∈
        (r.operate now (.list peer o)).2.store.table.listings :=
      (mem_operate h.table now _).mpr (.inr ⟨Entry.lists_iff.mpr ⟨hd, rfl⟩, hi.2, rfl, rfl⟩)
    exact (h.operate now _).table.id_lt hrow
  | _ => exact hi.elim

end Operations

/-! ### Two runs -/

/-- The second registry is the first without what does not concern the peer. -/
structure Alike (p : PeerId) (r r' : Registry) : Prop where
  available : r.Available
  available' : r'.Available
  policy : r'.policy = r.policy
  nextId : r'.store.table.nextId ≤ r.store.table.nextId
  holdings : r'.store.table.holdings p = r.store.table.holdings p

section Alike
variable {p : PeerId} {r r' : Registry} {now : Instant} {op : Operation}

theorem Alike.inserts_iff (h : Alike p r r') (hc : op.Concerns p = true)
    (hown : ∀ o, op = .list p o → ∀ q ∈ r.store.table.listings, q.offer = o → q.owner = p)
    (hown' : ∀ o, op = .list p o → ∀ q ∈ r'.store.table.listings, q.offer = o → q.owner = p) :
    r'.Inserts op ↔ r.Inserts op := by
  cases op with
  | list peer o =>
    cases of_decide_eq_true hc
    refine and_congr_right fun _ => ?_
    rw [Table.Lacks, Table.free_iff_holdings (hown' o rfl), h.holdings,
      ← Table.free_iff_holdings (hown o rfl)]
    rfl
  | _ => rfl

theorem Alike.own (h : Alike p r r') (hc : op.Concerns p = true)
    (hown : ∀ o, op = .list p o → ∀ q ∈ r.store.table.listings, q.offer = o → q.owner = p)
    (hown' : ∀ o, op = .list p o → ∀ q ∈ r'.store.table.listings, q.offer = o → q.owner = p)
    (hroom : r.Inserts op → r.store.table.nextId.next? ≠ none) (now : Instant) :
    Alike p (r.operate now op).2 (r'.operate now op).2 := by
  have hins := h.inserts_iff hc hown hown'
  have hroom' (hi : r'.Inserts op) : r'.store.table.nextId.next? ≠ none := by
    obtain ⟨next, hn⟩ := Option.ne_none_iff_exists'.mp (hroom (hins.mp hi))
    obtain ⟨next', hn'⟩ := EntryId.exists_next?
      (EntryId.lt_of_le_of_lt h.nextId (EntryId.lt_next? hn))
    rw [hn']
    exact Option.some_ne_none _
  refine ⟨h.available.operate now op, h.available'.operate now op, ?_, ?_, ?_⟩
  · rw [policy_operate, policy_operate, h.policy]
  · have hle := (precedes_operate h.available.table now op).nextId
    rcases nextId_operate h.available'.table now op with hn | ⟨-, -, -, -, hn⟩
    · rw [hn]
      exact EntryId.le_trans h.nextId hle
    · by_cases hi : r.Inserts op
      · exact EntryId.next?_le hn (EntryId.lt_of_le_of_lt h.nextId
          (nextId_lt_of_inserts h.available hi (hroom hi)))
      · rw [nextId_of_not_inserts h.available'.table (mt hins.mp hi)]
        exact EntryId.le_trans h.nextId hle
  · rw [holdings_operate h.available' hroom' hown', holdings_operate h.available hroom hown,
      h.policy, h.holdings]

theorem Alike.other (h : Alike p r r') (hc : op.Concerns p = false)
    (hfree : ∀ peer o, op = .list peer o → ∀ q ∈ r.store.table.holdings p, q.offer ≠ o)
    (hroom : r.Inserts op → r.store.table.nextId.next? ≠ none) (now : Instant) :
    Alike p (r.operate now op).2 r' := by
  refine ⟨h.available.operate now op, h.available', ?_, ?_, ?_⟩
  · rw [policy_operate, h.policy]
  · exact EntryId.le_trans h.nextId (precedes_operate h.available.table now op).nextId
  · have hown : ∀ o, op = .list p o → ∀ q ∈ r.store.table.listings, q.offer = o → q.owner = p := by
      intro o ho
      subst ho
      exact absurd rfl (of_decide_eq_false hc)
    rw [holdings_operate h.available hroom hown, onHoldings_of_others hc hfree, h.holdings]

end Alike

/-! ### Runs -/

def serve (r : Registry) (calls : List (Instant × Operation)) : Registry :=
  calls.foldl (fun r c => (r.operate c.1 c.2).2) r

def insertions (r : Registry) : List (Instant × Operation) → Nat
  | [] => 0
  | c :: calls => (if r.Inserts c.2 then 1 else 0) + (r.operate c.1 c.2).2.insertions calls

section Runs
variable {r₀ : Registry} {calls before after : List (Instant × Operation)} {p : PeerId}
  {c : Instant × Operation} {q : Listing}

theorem serve_concat (r : Registry) (calls : List (Instant × Operation))
    (c : Instant × Operation) :
    r.serve (calls ++ [c]) = ((r.serve calls).operate c.1 c.2).2 := List.foldl_concat _ _ _ _

theorem insertions_append (r : Registry) (before after : List (Instant × Operation)) :
    r.insertions (before ++ after) = r.insertions before + (r.serve before).insertions after := by
  induction before generalizing r with
  | nil => exact (Nat.zero_add _).symm
  | cons c before ih =>
    rw [List.cons_append, insertions, insertions, ih, Nat.add_assoc]
    rfl

theorem Available.serve (h : r₀.Available) (calls : List (Instant × Operation)) :
    (r₀.serve calls).Available := by
  induction calls generalizing r₀ with
  | nil => exact h
  | cons c calls ih => exact ih (h.operate c.1 c.2)

theorem nextId_serve_le (h : r₀.Available) (calls : List (Instant × Operation)) :
    (r₀.serve calls).store.table.nextId.val.toNat ≤
      r₀.store.table.nextId.val.toNat + r₀.insertions calls := by
  induction calls generalizing r₀ with
  | nil => exact Nat.le_refl _
  | cons c calls ih =>
    have hrest := ih (h.operate c.1 c.2)
    have hstep : (r₀.operate c.1 c.2).2.store.table.nextId.val.toNat ≤
        r₀.store.table.nextId.val.toNat + if r₀.Inserts c.2 then 1 else 0 := by
      split_ifs with hi
      · rcases nextId_operate h.table c.1 c.2 with hn | ⟨-, -, -, -, hn⟩
        · rw [hn]
          exact Nat.le_succ _
        · exact Nat.le_of_eq (EntryId.next?_toNat hn)
      · exact Nat.le_of_eq (by rw [nextId_of_not_inserts h.table hi, Nat.add_zero])
    rw [insertions]
    exact Nat.le_trans hrest (by omega)

theorem next?_of_insertions (h : r₀.Available) (h₀ : r₀.store.table = Table.empty)
    (hn : r₀.insertions (before ++ c :: after) < UInt64.size)
    (hi : (r₀.serve before).Inserts c.2) :
    (r₀.serve before).store.table.nextId.next? ≠ none := by
  have hle := nextId_serve_le h before
  have hzero : r₀.store.table.nextId.val.toNat = 0 := by rw [h₀]; rfl
  rw [insertions_append, insertions, if_pos hi] at hn
  unfold EntryId.next?
  rw [if_pos (by omega)]
  exact Option.some_ne_none _

theorem listed_of_mem (h : r₀.Available) (h₀ : r₀.store.table = Table.empty)
    (hq : q ∈ (r₀.serve calls).store.table.listings) :
    ∃ c ∈ calls, c.2 = .list q.owner q.offer := by
  induction calls using List.reverseRecOn generalizing q with
  | nil =>
    rw [serve, List.foldl_nil, h₀] at hq
    cases hq
  | append_singleton calls c ih =>
    rw [serve_concat, mem_operate (h.serve calls).table] at hq
    rcases hq with ⟨q₀, hq₀, hf⟩ | ⟨hl, -⟩
    · obtain ⟨c', hc', hlist⟩ := ih hq₀
      have hsame := sameListing_of_fate hf
      exact ⟨c', List.mem_append_left _ hc', by rw [hlist, hsame.owner, hsame.offer]⟩
    · exact ⟨c, List.mem_append_right _ (List.mem_singleton_self c), (Entry.lists_iff.mp hl).2⟩

/-- No other peer lists an offer that the peer lists. -/
def Apart (p : PeerId) (calls : List (Instant × Operation)) : Prop :=
  ∀ c ∈ calls, ∀ c' ∈ calls, ∀ o peer, c.2 = .list p o → c'.2 = .list peer o → peer = p

theorem Apart.owner_eq (hapart : Apart p calls) (h : r₀.Available)
    (h₀ : r₀.store.table = Table.empty) {kept : List (Instant × Operation)}
    (hkept : kept ⊆ calls) (hc : c ∈ calls) {o : Offer} (ho : c.2 = .list p o)
    (hq : q ∈ (r₀.serve kept).store.table.listings) (hqo : q.offer = o) : q.owner = p := by
  obtain ⟨c', hc', hlist⟩ := listed_of_mem h h₀ hq
  exact hapart c hc c' (hkept hc') o q.owner ho (hqo ▸ hlist)

theorem alike_serve (h : r₀.Available) (h₀ : r₀.store.table = Table.empty)
    (hapart : Apart p (before ++ after))
    (hn : r₀.insertions (before ++ after) < UInt64.size) :
    Alike p (r₀.serve before) (r₀.serve (before.filter (·.2.Concerns p))) := by
  induction before using List.reverseRecOn generalizing after with
  | nil => exact ⟨h, h, rfl, EntryId.le_refl _, rfl⟩
  | append_singleton before c ih =>
    rw [List.append_assoc] at hapart hn
    have hbefore := ih hapart hn
    have hroom := next?_of_insertions h h₀ hn
    have hmem : c ∈ before ++ ([c] ++ after) := by simp
    have hsub : before ⊆ before ++ ([c] ++ after) := List.subset_append_left _ _
    rw [serve_concat, List.filter_append]
    cases hc : c.2.Concerns p with
    | true =>
      simp only [List.filter_cons, hc, if_true, List.filter_nil, serve_concat]
      refine hbefore.own hc (fun o ho q hq => ?_) (fun o ho q hq => ?_) hroom c.1
      · exact hapart.owner_eq h h₀ hsub hmem ho hq
      · exact hapart.owner_eq h h₀ (fun c hc => hsub (List.mem_filter.mp hc).1) hmem ho hq
    | false =>
      simp only [List.filter_cons, hc, Bool.false_eq_true, if_false, List.filter_nil,
        List.append_nil]
      refine hbefore.other hc (fun peer o ho held hh hho => ?_) hroom c.1
      obtain ⟨q, hq, hp, rfl⟩ := Table.mem_holdings.mp hh
      obtain ⟨c', hc', hlist⟩ := listed_of_mem h h₀ hq
      -- The peer has listed the offer, so that the one who lists it now is the peer.
      replace hho : q.offer = o := hho
      have hpeer := hapart c' (hsub hc') c hmem o peer (hho ▸ hp ▸ hlist) ho
      rw [ho, hpeer] at hc
      exact of_decide_eq_false hc rfl

end Runs

/-- In a run from the empty registry with a number for every new row, of which a peer lists only
offers that no other peer lists, the calls of the others may be left out: at every point the peer
holds the same offers, last seen at the same readings, and withdrawals and heartbeats of the peer
are answered as they were. -/
theorem others_make_no_difference {calls : List (Instant × Operation)} {r₀ : Registry} {p : PeerId}
    (h : r₀.Available) (h₀ : r₀.store.table = Table.empty) (hapart : Apart p calls)
    (hn : r₀.insertions calls < UInt64.size) {before after : List (Instant × Operation)}
    (hsplit : calls = before ++ after) :
    let r := r₀.serve before
    let r' := r₀.serve (before.filter (·.2.Concerns p))
    r.store.table.holdings p = r'.store.table.holdings p ∧
    (∀ fileName, (r.delist fileName p).1 = (r'.delist fileName p).1) ∧
    (∀ now, (r.heartbeat now p).1 = (r'.heartbeat now p).1) ∧
    (r.disconnect p).1 = (r'.disconnect p).1 := by
  subst hsplit
  have halike := alike_serve h h₀ hapart hn
  refine ⟨halike.holdings.symm, fun fileName => ?_, fun now => ?_, ?_⟩
  · rw [halike.available.delist_answer, halike.available'.delist_answer, halike.holdings]
  · rw [halike.available.heartbeat_answer, halike.available'.heartbeat_answer, halike.holdings]
  · rw [halike.available.disconnect_answer, halike.available'.disconnect_answer, halike.holdings]

/-- Between the calls of a peer another one lists first, renews, tries to withdraw and leaves. -/
def mixedCalls : List (Instant × Operation) :=
  [(sampleReading 0, .list ⟨"q"⟩ ⟨"b.txt", "localhost", 80⟩),
    (sampleReading 10, .list ⟨"p"⟩ sampleOffer),
    (sampleReading 60, .heartbeat ⟨"p"⟩),
    (sampleReading 70, .heartbeat ⟨"q"⟩),
    (sampleReading 80, .delist "a.txt" ⟨"q"⟩),
    (sampleReading 240, .reap),
    (sampleReading 250, .disconnect ⟨"q"⟩)]

theorem others_make_no_difference_mixed : Available {} ∧ Apart ⟨"p"⟩ mixedCalls ∧
    insertions {} mixedCalls < UInt64.size ∧
    (serve {} mixedCalls).store.table.listings =
      [⟨⟨1⟩, ⟨"p"⟩, sampleOffer, sampleReading 60⟩] ∧
    (serve {} (mixedCalls.filter (·.2.Concerns ⟨"p"⟩))).store.table.listings =
      [⟨⟨0⟩, ⟨"p"⟩, sampleOffer, sampleReading 60⟩] ∧
    ((serve {} mixedCalls).disconnect ⟨"p"⟩).1 =
      ((serve {} (mixedCalls.filter (·.2.Concerns ⟨"p"⟩))).disconnect ⟨"p"⟩).1 := by
  have hapart : Apart ⟨"p"⟩ mixedCalls := by
    intro c hc c' hc' o peer ho ho'
    simp only [mixedCalls, List.mem_cons, List.not_mem_nil, or_false] at hc hc'
    have hoffer : sampleOffer = o := by
      rcases hc with rfl | rfl | rfl | rfl | rfl | rfl | rfl <;> simp at ho
      exact ho
    subst hoffer
    rcases hc' with rfl | rfl | rfl | rfl | rfl | rfl | rfl <;> simp [sampleOffer] at ho'
    exact ho'.symm
  have hn : insertions {} mixedCalls < UInt64.size := by decide +kernel
  exact ⟨.default, hapart, hn, by decide +kernel, by decide +kernel,
    (others_make_no_difference .default rfl hapart hn (List.append_nil _).symm).2.2.2⟩

end Registry
end PeerShare
