import PeerShare.Proofs.Registry.History
import PeerShare.Proofs.Registry.Lookup
import PeerShare.Proofs.Text.LowerCase

/-!
Which rows a search finds among those whose names contain the query. Names and queries are compared
in lower case, each as a whole, and that of a query need not be a part of that of a name which
contains it: a capital sigma may end a word in the one and not in the other. There is nothing else
that keeps a row from being found.
-/

namespace PeerShare

open Text

theorem Table.matchesQuery_of_keeps {query name : String} {before after : List Char}
    (hname : name.toList = before ++ query.toList ++ after)
    (hkeeps : Keeps before query.toList after) : Table.matchesQuery query name = true := by
  rw [Table.matchesQuery_iff, hname]
  exact lower_infix_of_keeps hkeeps

theorem Table.matchesQuery_part {query longer name : String} {before after : List Char}
    (hlonger : longer.toList = before ++ query.toList ++ after)
    (hkeeps : Keeps before query.toList after) (hm : Table.matchesQuery longer name = true) :
    Table.matchesQuery query name = true := by
  have hpart : lower query.toList <:+: lower longer.toList := by
    rw [hlonger]
    exact lower_infix_of_keeps hkeeps
  rw [Table.matchesQuery_iff] at hm ⊢
  exact hpart.trans hm

theorem isFileName_of_mem {name : String} {c : Char} (hc : c ∈ name.toList) (hpoint : c ≠ '.')
    (hall : name.toList.all (fun c => c != '/' && c != '\\' && c != '\x00') = true) :
    isFileName name = true := by
  have hempty : name ≠ "" := by
    rintro rfl
    exact absurd hc List.not_mem_nil
  have hone : name ≠ "." := by
    rintro rfl
    exact hpoint (List.mem_singleton.mp hc)
  have htwo : name ≠ ".." := by
    rintro rfl
    rcases List.mem_cons.mp hc with rfl | hc
    · exact hpoint rfl
    · exact hpoint (List.mem_singleton.mp hc)
  simp only [isFileName, hall, bne_iff_ne.mpr hempty, bne_iff_ne.mpr hone, bne_iff_ne.mpr htwo,
    Bool.and_self]

namespace Registry

section Once
variable {now : Instant} {p : PeerId} {o : Offer}

def once (now : Instant) (p : PeerId) (o : Offer) : Registry :=
  (({} : Registry).operate now (.list p o)).2

theorem recorded_once (h : isFileName o.fileName = true) :
    Recorded {} [⟨now, .list p o, true⟩] (once now p o) := by
  refine ⟨?_, rfl⟩
  simp only [entry, operate, list, h]
  rfl

theorem listings_once (h : isFileName o.fileName = true) :
    (once now p o).store.table.listings = [⟨⟨0⟩, p, o, now⟩] := by
  simp only [once, operate, list, h]
  rfl

theorem outage_once (h : isFileName o.fileName = true) : (once now p o).outage = none := by
  simp only [once, operate, list, h]
  rfl

theorem search_once (h : isFileName o.fileName = true) (query : String) :
    (once now p o).search now query =
      .ok (if Table.matchesQuery query o.fileName then [⟨⟨0⟩, o.fileName⟩] else []) := by
  have hpolicy : (once now p o).policy.ttl = Policy.standard.ttl :=
    congrArg Policy.ttl (policy_operate {} now (.list p o))
  have hseen : (now.sub? Policy.standard.ttl).all (· ≤ now) = true := by
    cases hc : now.sub? Policy.standard.ttl with
    | none => rfl
    | some since => exact decide_eq_true (Instant.sub?_le hc)
  rw [search_of_none (outage_once h), Table.search, listings_once h, hpolicy, List.filter_singleton,
    hseen, Bool.true_and]
  cases Table.matchesQuery query o.fileName <;> rfl

end Once

theorem exists_missed {query : String} (hq : isFileName query = true)
    (hx : Exposed query.toList) : ∃ name, isFileName name = true ∧
      query.toList <:+: name.toList ∧ Table.matchesQuery query name = false := by
  have hall : query.toList.all (fun c => c != '/' && c != '\\' && c != '\x00') = true := by
    simp only [isFileName, Bool.and_eq_true] at hq
    exact hq.2
  obtain ⟨longer, c, hab, hlonger, hhides⟩ := hidden_of_exposed hx
  have hpoint : c ≠ '.' := by rcases hab with rfl | rfl <;> decide
  have hgood : (c != '/' && c != '\\' && c != '\x00') = true := by
    rcases hab with rfl | rfl <;> decide
  have hmem : c ∈ longer := by rcases hlonger with rfl | rfl <;> simp
  have hpart : query.toList <:+: longer := by
    rcases hlonger with rfl | rfl
    · exact (List.suffix_cons c _).isInfix
    · exact (List.prefix_append _ [c]).isInfix
  have hlall : longer.all (fun c => c != '/' && c != '\\' && c != '\x00') = true := by
    rcases hlonger with rfl | rfl
    · rw [List.all_cons, hgood, hall, Bool.and_self]
    · rw [List.all_append, hall, List.all_cons, hgood, List.all_nil, Bool.and_self, Bool.and_self]
  refine ⟨String.ofList longer, ?_, ?_, ?_⟩
  · rw [← String.toList_ofList (l := longer)] at hmem hlall
    exact isFileName_of_mem hmem hpoint hlall
  · rwa [String.toList_ofList]
  · rwa [← Bool.not_eq_true, Table.matchesQuery_iff, String.toList_ofList]

/-- A search finds each live row whose name contains the query where the capital sigmas of the query
end words as they do in the query itself, and all that a search for a longer query finds which
contains it in this way. A query that is not exposed is contained in this way wherever it is
contained; one that is, and is a file name, misses a row that contains it, though a search for the
name of the row finds it. -/
theorem search_finds_parts (query : String) :
    (∀ (r : Registry) (now : Instant), r.outage = none → ∃ hits, r.search now query = .ok hits ∧
      (∀ row ∈ r.store.table.listings, row.isAlive now r.policy.ttl = true → ∀ before after,
        row.offer.fileName.toList = before ++ query.toList ++ after →
        Keeps before query.toList after → row.hit ∈ hits) ∧
      ∀ longer before after, String.toList longer = before ++ query.toList ++ after →
        Keeps before query.toList after →
        ∃ hits', r.search now longer = .ok hits' ∧ ∀ hit ∈ hits', hit ∈ hits) ∧
    (¬ Exposed query.toList → ∀ before after, Keeps before query.toList after) ∧
    (Exposed query.toList → isFileName query = true →
      ∀ (now : Instant) (p : PeerId) (address : String) (port : UInt16), ∃ name r row,
        Recorded {} [⟨now, .list p ⟨name, address, port⟩, true⟩] r ∧
        row ∈ r.store.table.listings ∧ row.isAlive now r.policy.ttl = true ∧
        row.offer.fileName = name ∧ query.toList <:+: name.toList ∧
        r.search now name = .ok [row.hit] ∧ r.search now query = .ok []) := by
  refine ⟨?_, keeps_of_not_exposed, ?_⟩
  · intro r now hr
    refine ⟨_, search_of_none hr now query, ?_, ?_⟩
    · intro row hrow halive before after hname hkeeps
      refine mem_tableSearch.mpr ⟨row, hrow, rfl, Listing.isAlive_iff.mp halive, ?_⟩
      exact Table.matchesQuery_of_keeps hname hkeeps
    · intro longer before after hlonger hkeeps
      refine ⟨_, search_of_none hr now longer, fun hit hhit => ?_⟩
      obtain ⟨row, hrow, he, hwithin, hm⟩ := mem_tableSearch.mp hhit
      have hpart := Table.matchesQuery_part hlonger hkeeps hm
      exact mem_tableSearch.mpr ⟨row, hrow, he, hwithin, hpart⟩
  · intro hx hq now p address port
    obtain ⟨name, hname, hpart, hmissed⟩ := exists_missed hq hx
    have hwhole : Table.matchesQuery name name = true :=
      Table.matchesQuery_iff.mpr List.infix_rfl
    refine ⟨name, once now p ⟨name, address, port⟩, ⟨⟨0⟩, p, ⟨name, address, port⟩, now⟩,
      recorded_once hname, ?_, ?_, rfl, hpart, ?_, ?_⟩
    · rw [listings_once hname]
      exact List.mem_singleton_self _
    · exact Listing.isAlive_iff.mpr (Instant.within_of_le (Instant.le_refl now))
    · rw [search_once hname, hwhole]
      rfl
    · rw [search_once hname, hmissed]
      rfl

def odos : Registry := once default ⟨"p"⟩ ⟨"ΟΔΟΣ.txt", "localhost", 80⟩

theorem search_finds_parts_odos : odos.outage = none ∧
    Keeps "Ο".toList "ΔΟΣ.t".toList "xt".toList ∧
    ∃ hits, odos.search default "ΔΟΣ.t" = .ok hits ∧ ⟨⟨0⟩, "ΟΔΟΣ.txt"⟩ ∈ hits := by
  have hname : isFileName "ΟΔΟΣ.txt" = true := by decide +kernel
  have houtage : odos.outage = none := outage_once hname
  have hkeeps : Keeps "Ο".toList "ΔΟΣ.t".toList "xt".toList :=
    lowerIn_eq_lower_iff.mp (by decide +kernel)
  obtain ⟨hits, hsearch, hfinds, -⟩ := (search_finds_parts "ΔΟΣ.t").1 odos default houtage
  refine ⟨houtage, hkeeps, hits, hsearch, ?_⟩
  have hrow : ⟨⟨0⟩, ⟨"p"⟩, ⟨"ΟΔΟΣ.txt", "localhost", 80⟩, default⟩ ∈ odos.store.table.listings := by
    rw [odos, listings_once hname]
    exact List.mem_singleton_self _
  have halive : Listing.isAlive ⟨⟨0⟩, ⟨"p"⟩, ⟨"ΟΔΟΣ.txt", "localhost", 80⟩, default⟩ default
      odos.policy.ttl = true :=
    Listing.isAlive_iff.mpr (Instant.within_of_le (Instant.le_refl _))
  exact hfinds _ hrow halive "Ο".toList "xt".toList (by decide) hkeeps

/-- The last letter of the query ends a word, but not in the name, where the point is passed over. -/
theorem capital_query_misses : "ΟΔΟΣ".toList <:+: "ΟΔΟΣ.txt".toList ∧
    Recorded {} [⟨default, .list ⟨"p"⟩ ⟨"ΟΔΟΣ.txt", "localhost", 80⟩, true⟩] odos ∧
    odos.store.table.listings = [⟨⟨0⟩, ⟨"p"⟩, ⟨"ΟΔΟΣ.txt", "localhost", 80⟩, default⟩] ∧
    odos.search default "ΟΔΟΣ.txt" = .ok [⟨⟨0⟩, "ΟΔΟΣ.txt"⟩] ∧
    odos.search default "ΟΔΟΣ" = .ok [] := by
  have hname : isFileName "ΟΔΟΣ.txt" = true := by decide +kernel
  refine ⟨by decide +kernel, recorded_once hname, listings_once hname, ?_, ?_⟩
  · decide +kernel
  · decide +kernel

end Registry
end PeerShare
