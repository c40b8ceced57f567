import PeerShare.Proofs.Disk.Replace

/-!
Paths whose last segments are different names lead to different places, whatever the disk. So a
file is apart from the one that stands beside it under another name. The way to the folder of a path
is the first part of the way to the path, and another extension changes only the last name on it.
-/

namespace PeerShare

namespace FilePath

def lastName? (p : FilePath) : Option Segment := p.segments.getLast?.filter (· ≠ upward)

theorem splitSlash_ne_nil (l : List Char) : splitSlash l ≠ [] := by
  cases l with
  | nil => simp [splitSlash]
  | cons c l =>
    simp only [splitSlash]
    split_ifs
    · exact List.cons_ne_nil _ _
    · split <;> exact List.cons_ne_nil _ _

theorem splitSlash_append (l r : List Char) :
    splitSlash (l ++ '/' :: r) = splitSlash l ++ splitSlash r := by
  induction l with
  | nil => simp [splitSlash]
  | cons c l ih =>
    simp only [List.cons_append, splitSlash, ih]
    split_ifs
    · rfl
    · cases h : splitSlash l with
      | nil => exact absurd h (splitSlash_ne_nil l)
      | cons s ss => rfl

theorem splitSlash_eq_singleton {l : List Char} (h : '/' ∉ l) : splitSlash l = [l] := by
  induction l with
  | nil => rfl
  | cons c l ih =>
    rw [List.mem_cons, not_or] at h
    simp only [splitSlash, if_neg (Ne.symm h.1), ih h.2]

theorem slash_notMem_of_mem {l : List Char} {s : Segment} (h : s ∈ splitSlash l) : '/' ∉ s := by
  induction l generalizing s with
  | nil => simp_all [splitSlash]
  | cons c l ih =>
    simp only [splitSlash] at h
    split_ifs at h with hc
    · rcases List.mem_cons.mp h with rfl | h
      · exact List.not_mem_nil
      · exact ih h
    · split at h
      · rename_i hn
        exact absurd hn (splitSlash_ne_nil l)
      · rename_i t ts hn
        rcases List.mem_cons.mp h with rfl | h
        · rw [List.mem_cons, not_or]
          exact ⟨Ne.symm hc, ih (hn ▸ List.mem_cons_self)⟩
        · exact ih (hn ▸ List.mem_cons_of_mem _ h)

theorem lastName?_of_splitSlash {p : FilePath} {s : Segment}
    (h : (splitSlash p.text.toList).getLast? = some s) (hs : s ≠ [] ∧ s ≠ ['.'] ∧ s ≠ upward) :
    p.lastName? = some s := by
  obtain ⟨l, hl⟩ := List.getLast?_eq_some_iff.mp h
  have hf : [s].filter (fun s => s != [] && s != ['.']) = [s] := by simp [hs.1, hs.2.1]
  rw [lastName?, segments, hl, List.filter_append, hf, List.getLast?_concat, Option.filter_some,
    if_pos (decide_eq_true hs.2.2)]

theorem text_child (p : FilePath) {name : String} (h : '/' ∉ name.toList) :
    (p.child name).text.toList = if p.text == "" || p.endsInSlash then
      p.text.toList ++ name.toList else p.text.toList ++ '/' :: name.toList := by
  have ha : isAbsolute ⟨name⟩ = false := by
    unfold isAbsolute
    cases hn : name.toList with
    | nil => rfl
    | cons c l =>
      rw [hn, List.mem_cons, not_or] at h
      simpa using Ne.symm h.1
  simp only [child, join, ha, Bool.false_eq_true, if_false]
  split_ifs
  · rw [String.toList_append]
  · rw [String.toList_append, String.toList_append, List.append_assoc]
    rfl

theorem splitSlash_child (p : FilePath) {name : String} (h : '/' ∉ name.toList) :
    ∃ front, splitSlash (p.child name).text.toList = front ++ [name.toList] ∧
      (front.filter fun s => s != [] && s != ['.']) = p.segments := by
  have ending (l : List Char) : splitSlash (l ++ '/' :: name.toList) =
      splitSlash l ++ [name.toList] := by
    rw [splitSlash_append, splitSlash_eq_singleton h]
  rw [text_child p h]
  split_ifs with he
  · rw [Bool.or_eq_true, beq_iff_eq, endsInSlash, beq_iff_eq] at he
    rcases he with he | he
    · refine ⟨[], ?_, ?_⟩
      · rw [he]
        exact splitSlash_eq_singleton h
      · rw [segments, he]
        rfl
    · obtain ⟨l, hl⟩ := List.getLast?_eq_some_iff.mp he
      refine ⟨splitSlash l, ?_, ?_⟩
      · rw [hl, List.append_assoc]
        exact ending l
      · have hempty : splitSlash (l ++ ['/']) = splitSlash l ++ [[]] := splitSlash_append l []
        rw [segments, hl, hempty, List.filter_append]
        exact (List.append_nil _).symm
  · exact ⟨splitSlash p.text.toList, ending p.text.toList, rfl⟩

theorem lastName?_child (p : FilePath) {name : String} (h : '/' ∉ name.toList)
    (hn : name.toList ≠ [] ∧ name.toList ≠ ['.'] ∧ name.toList ≠ upward) :
    (p.child name).lastName? = some name.toList := by
  obtain ⟨front, hsplit, -⟩ := splitSlash_child p h
  exact lastName?_of_splitSlash (by rw [hsplit, List.getLast?_concat]) hn

theorem segments_child (p : FilePath) {name : String} (h : '/' ∉ name.toList)
    (hn : name.toList ≠ [] ∧ name.toList ≠ ['.']) :
    (p.child name).segments = p.segments ++ [name.toList] := by
  obtain ⟨front, hsplit, hfront⟩ := splitSlash_child p h
  have hself : [name.toList].filter (fun s => s != [] && s != ['.']) = [name.toList] := by
    simp [hn.1, hn.2]
  rw [segments, hsplit, List.filter_append, hfront, hself]

theorem meansFolder_child (p : FilePath) {name : String} (h : '/' ∉ name.toList)
    (hn : name.toList ≠ [] ∧ name.toList ≠ ['.'] ∧ name.toList ≠ upward) :
    (p.child name).meansFolder = false := by
  obtain ⟨front, hsplit, -⟩ := splitSlash_child p h
  simp only [meansFolder, hsplit, List.getLast?_concat]
  simp [hn]

theorem exists_lastName? {p : FilePath} (h : p.meansFolder = false) :
    ∃ s, p.lastName? = some s ∧ s ≠ [] ∧ '/' ∉ s ∧ p.fileName? = some (String.ofList s) := by
  unfold meansFolder at h
  cases hs : (splitSlash p.text.toList).getLast? with
  | none => exact absurd (List.getLast?_eq_none_iff.mp hs) (splitSlash_ne_nil _)
  | some s =>
    rw [hs] at h
    simp only [Bool.or_eq_false_iff, beq_eq_false_iff_ne] at h
    have hl := lastName?_of_splitSlash hs ⟨h.1.1, h.1.2, h.2⟩
    refine ⟨s, hl, h.1.1, slash_notMem_of_mem (List.mem_of_getLast? hs), ?_⟩
    obtain ⟨hg, hu⟩ := Option.filter_eq_some_iff.mp hl
    simp only [fileName?, hg, if_neg (of_decide_eq_true hu)]

/-! ### Folders and extensions -/

section Parent
variable {p q : FilePath} {name extension : String}

theorem dropIdle_cases (l : List Char) :
    dropIdle l = l ∨ ∃ w, l = w ++ '/' :: dropIdle l := by
  induction l using dropIdle.induct with
  | case1 r ih =>
    rw [dropIdle]
    rcases ih with ih | ⟨w, ih⟩
    · exact .inr ⟨[], by rw [ih]; rfl⟩
    · exact .inr ⟨'/' :: w, congrArg ('/' :: ·) ih⟩
  | case2 r ih =>
    rw [dropIdle]
    rcases ih with ih | ⟨w, ih⟩
    · exact .inr ⟨['.'], by rw [ih]; rfl⟩
    · exact .inr ⟨'.' :: '/' :: w, congrArg ('.' :: '/' :: ·) ih⟩
  | case3 r hslash hdot => exact .inl (dropIdle.eq_3 r hslash hdot)

theorem dropIdle_suffix (l : List Char) : dropIdle l <:+ l := by
  rcases dropIdle_cases l with h | ⟨w, h⟩
  · simp only [h, List.suffix_refl]
  · exact ⟨w ++ ['/'], by rw [List.append_assoc]; exact h.symm⟩

theorem slash_dropIdle_suffix (l : List Char) :
    dropIdle (l.dropWhile (· != '/')) = [] ∨
    '/' :: dropIdle (l.dropWhile (· != '/')) <:+ l := by
  have hl := List.dropWhile_suffix (l := l) (· != '/')
  have hhead := List.head?_dropWhile_not (· != '/') l
  cases hu : l.dropWhile (· != '/') with
  | nil => exact .inl rfl
  | cons c u =>
    rw [hu] at hl hhead
    obtain rfl : c = '/' := by simpa using hhead
    refine .inr (List.IsSuffix.trans ?_ hl)
    rw [dropIdle]
    rcases dropIdle_cases u with h | ⟨w, h⟩
    · exact h.symm ▸ List.suffix_refl _
    · exact ⟨'/' :: w, congrArg ('/' :: ·) h.symm⟩

theorem segments_parent (h : p.parent? = some q) : q.segments <+: p.segments := by
  unfold parent? at h
  split_ifs at h
  cases h
  generalize hv : dropIdle ((dropIdle p.text.toList.reverse).dropWhile (· != '/')) = v
  cases v with
  | nil =>
    have hempty : (p.restoreRoot [].reverse).segments = [] := by
      unfold restoreRoot
      split_ifs <;> rfl
    exact hempty ▸ List.nil_prefix
  | cons c v =>
    have hsuffix : '/' :: c :: v <:+ p.text.toList.reverse := by
      rcases slash_dropIdle_suffix (dropIdle p.text.toList.reverse) with h | h
      · cases hv.symm.trans h
      · exact (hv ▸ h).trans (dropIdle_suffix _)
    obtain ⟨w, hw⟩ := hsuffix
    have htext : p.text.toList = (c :: v).reverse ++ '/' :: w.reverse := by
      rw [← List.reverse_inj, ← hw]
      simp
    have hfolder : (p.restoreRoot (c :: v).reverse).text.toList = (c :: v).reverse := by
      simp [restoreRoot]
    rw [segments, segments, hfolder, htext, splitSlash_append, List.filter_append]
    exact List.prefix_append _ _

theorem slash_notMem_fileName (h : p.fileName? = some name) : '/' ∉ name.toList := by
  unfold fileName? at h
  split at h
  · rename_i s hs
    split_ifs at h
    cases h
    rw [String.toList_ofList]
    exact slash_notMem_of_mem (List.mem_of_mem_filter (List.mem_of_getLast? hs))
  · cases h

theorem fileName?_eq (p : FilePath) : p.fileName? = p.lastName?.map String.ofList := by
  unfold fileName? lastName?
  cases p.segments.getLast? with
  | none => rfl
  | some s =>
    simp only [Option.filter_some]
    by_cases hs : s = upward
    · rw [if_pos hs, if_neg (by simp [hs])]
      rfl
    · rw [if_neg hs, if_pos (by simp [hs])]
      rfl

theorem stem_subset (s : List Char) : stem s ⊆ s := by
  unfold stem
  split
  · rename_i c r hr
    split_ifs
    · exact List.Subset.refl s
    · intro x hx
      have hsubset := (List.dropWhile_suffix (l := s.reverse) (· != '.')).subset
      rw [hr] at hsubset
      exact List.mem_reverse.mp (hsubset (List.mem_cons_of_mem _ (List.mem_reverse.mp hx)))
  · exact List.Subset.refl s

def nameWith (name extension : String) : String :=
  String.ofList (stem name.toList) ++ "." ++ extension

theorem toList_nameWith (name extension : String) :
    (nameWith name extension).toList = stem name.toList ++ '.' :: extension.toList := by
  simp [nameWith]

theorem nameWith_segment (hname : '/' ∉ name.toList) (he : '/' ∉ extension.toList)
    (hlength : 2 ≤ extension.toList.length) : '/' ∉ (nameWith name extension).toList ∧
      (nameWith name extension).toList ≠ [] ∧ (nameWith name extension).toList ≠ ['.'] ∧
      (nameWith name extension).toList ≠ upward := by
  have longer {l : List Char} (hl : l.length < 3) : (nameWith name extension).toList ≠ l := by
    rintro rfl
    rw [toList_nameWith, List.length_append, List.length_cons] at hl
    omega
  refine ⟨?_, longer (by decide), longer (by decide), longer (by decide)⟩
  rw [toList_nameWith, List.mem_append, List.mem_cons, not_or, not_or]
  exact ⟨fun hm => hname (stem_subset _ hm), by decide, he⟩

theorem exists_withExtension (h : p.fileName? = some name) (extension : String) :
    ∃ folder : FilePath, p.withExtension extension = folder.child (nameWith name extension) ∧
      folder.segments <+: p.segments := by
  refine ⟨p.parent?.getD ⟨""⟩, ?_, ?_⟩
  · simp only [withExtension, h, withFileName, Option.isSome_some, if_true, nameWith]
  · cases hp : p.parent? with
    | none => exact List.nil_prefix
    | some q => exact segments_parent hp

end Parent
end FilePath

namespace Disk
variable {d : Disk} {p q : FilePath}

theorem walkBy_last {follow : List Name → List FilePath.Segment → Except IoCause Spot}
    {s : FilePath.Segment} (hs : s ≠ FilePath.upward)
    (hf : ∀ done segs a, segs.getLast? = some s → follow done segs = .ok a →
      a.place.getLast? = some (Text.encode s))
    {segs : List FilePath.Segment} {done : List Name} {a : Spot} (hl : segs.getLast? = some s)
    (h : walkBy d false follow done (d.below done) segs = .ok a) :
    a.place.getLast? = some (Text.encode s) := by
  induction segs generalizing done with
  | nil => cases hl
  | cons t rest ih =>
    by_cases ht : t = FilePath.upward
    · have hr : rest ≠ [] := by
        intro he
        subst he
        exact hs (Option.some.inj hl ▸ ht)
      rw [ht, walkBy_upward] at h
      exact ih (List.getLast?_cons_of_ne_nil hr ▸ hl) h
    · rw [walkBy_name done ht] at h
      have here (hr : rest = []) : (done ++ [Text.encode t]).getLast? = some (Text.encode s) := by
        rw [hr] at hl
        cases hl
        exact List.getLast?_concat
      have onward (hr : rest ≠ []) : rest.getLast? = some s :=
        List.getLast?_cons_of_ne_nil hr ▸ hl
      split at h
      · cases h
      · split at h
        · by_cases hr : rest = []
          · rw [hr, walkBy_nil] at h
            cases h
            exact here hr
          · exact ih (onward hr) h
        · by_cases hr : rest = []
          · rw [if_pos ⟨hr, Bool.false_ne_true⟩] at h
            cases h
            exact here hr
          · rw [if_neg fun hc => hr hc.1] at h
            refine hf _ _ _ ?_ h
            rw [List.getLast?_append_of_ne_nil _ hr, onward hr]
        · split at h <;> cases h
          rename_i hr
          exact here hr

theorem locateEntry_last {a : Spot} {s : FilePath.Segment} (hs : p.lastName? = some s)
    (h : d.locateEntry p = .ok a) : a.place.getLast? = some (Text.encode s) := by
  obtain ⟨hl, hu⟩ := Option.filter_eq_some_iff.mp hs
  have walk {links : Nat} {done : List Name} {segs : List FilePath.Segment} {a : Spot}
      (hl : segs.getLast? = some s) (h : d.walk false links done segs = .ok a) :
      a.place.getLast? = some (Text.encode s) := by
    induction links generalizing done segs a with
    | zero => exact walkBy_last (of_decide_eq_true hu) (fun _ _ _ _ hf => by cases hf) hl h
    | succ links ih => exact walkBy_last (of_decide_eq_true hu) (fun _ _ _ hl hf => ih hl hf) hl h
  exact walk hl (spot_ok_iff.mp h).2.2.2

theorem apart_of_lastName? {s t : FilePath.Segment} (hp : d.Plain p) (hq : d.Plain q)
    (hs : p.lastName? = some s) (ht : q.lastName? = some t)
    (hne : Text.encode s ≠ Text.encode t) : d.Apart p q where
  plain := hp
  plain_aside := hq
  places := fun a b ha hb he => hne <| Option.some.inj <| by
    rw [← locateEntry_last hs ha, ← locateEntry_last ht hb, he]

end Disk
end PeerShare
