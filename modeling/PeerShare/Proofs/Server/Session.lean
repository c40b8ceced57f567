import PeerShare.Proofs.Remote.Answers
import PeerShare.Proofs.Text.Blank

/-!
A connection as a dialogue. Whatever bytes arrive and in whatever pieces, they are lines and
perhaps a last one without an end, and each line is answered from what the lines before it have
left. The dialogue is described line by line, without regard to pieces, to what is pending or to how
answers are collected.
-/

namespace PeerShare

namespace Session

/-! ### Lines -/

/-- Bytes as lines and what follows the last of them. -/
structure Cut (bytes : Bytes) (lines : List Bytes) (rest : Bytes) : Prop where
  whole : bytes = lines.flatMap (· ++ [lineFeed]) ++ rest
  lines : ∀ l ∈ lines, lineFeed ∉ l
  rest : lineFeed ∉ rest

theorem cut_splitLines (bytes : Bytes) : Cut bytes (splitLines bytes).1 (splitLines bytes).2 := by
  induction bytes with
  | nil => exact ⟨rfl, List.forall_mem_nil _, List.not_mem_nil⟩
  | cons b r ih =>
    obtain ⟨whole, hlines, hrest⟩ := ih
    simp only [splitLines]
    split_ifs with hb
    · subst hb
      exact ⟨congrArg (lineFeed :: ·) whole, by simpa using hlines, hrest⟩
    · generalize (splitLines r).1 = lines at *
      cases lines with
      | nil =>
        refine ⟨congrArg (b :: ·) whole, List.forall_mem_nil _, ?_⟩
        exact fun hm => (List.mem_cons.mp hm).elim (fun he => hb he.symm) hrest
      | cons l ls =>
        refine ⟨congrArg (b :: ·) whole, fun k hk => ?_, hrest⟩
        rcases List.mem_cons.mp hk with rfl | hk
        · exact fun hm => (List.mem_cons.mp hm).elim (fun he => hb he.symm)
            (hlines l List.mem_cons_self)
        · exact hlines k (List.mem_cons_of_mem _ hk)

theorem Cut.append {a b r q : Bytes} {ls ks : List Bytes} (h : Cut a ls r) (h' : Cut (r ++ b) ks q) :
    Cut (a ++ b) (ls ++ ks) q := by
  refine ⟨?_, fun l hl => (List.mem_append.mp hl).elim (h.lines l) (h'.lines l), h'.rest⟩
  rw [h.whole, List.append_assoc, h'.whole, List.flatMap_append, List.append_assoc]

theorem splitLines_of_notMem {rest : Bytes} (h : lineFeed ∉ rest) : splitLines rest = ([], rest) := by
  induction rest with
  | nil => rfl
  | cons b r ih =>
    obtain ⟨hb, hr⟩ := not_or.mp (mt List.mem_cons.mpr h)
    simp [splitLines, ih hr, Ne.symm hb]

theorem Cut.splitLines_eq {bytes rest : Bytes} {lines : List Bytes} (h : Cut bytes lines rest) :
    splitLines bytes = (lines, rest) := by
  obtain ⟨rfl, hlines, hrest⟩ := h
  induction lines with
  | nil => exact splitLines_of_notMem hrest
  | cons l ls ih =>
    have tail := ih fun k hk => hlines k (List.mem_cons_of_mem _ hk)
    rw [List.flatMap_cons, List.append_assoc, List.append_assoc, List.singleton_append,
      splitLines_line (hlines l List.mem_cons_self), tail]

theorem Cut.unique {bytes r q : Bytes} {ls ks : List Bytes} (h : Cut bytes ls r)
    (h' : Cut bytes ks q) : ls = ks ∧ r = q :=
  Prod.mk.inj (h.splitLines_eq.symm.trans h'.splitLines_eq)

/-! ### The dialogue -/

/-- What is answered to lines, each with the reading of the clock at which it is taken, and the
server that they leave. -/
inductive Dialogue : Server → List (Instant × Bytes) → List Response → Server → Prop
  | nil (s : Server) : Dialogue s [] [] s
  /-- What is no text ends the connection, and what follows is not looked at. -/
  | garbled (s : Server) {t : Instant} {l : Bytes} {ls : List (Instant × Bytes)} {f : Text.Flaw}
      (garbled : Text.decode l = .error f) : Dialogue s ((t, l) :: ls) [] s
  | blank {s s' : Server} {t : Instant} {l : Bytes} {ls : List (Instant × Bytes)}
      {as : List Response} {text : List Char} (decoded : Text.decode l = .ok text)
      (blank : ∀ c ∈ text, Text.isBlank c = true) (rest : Dialogue s ls as s') :
      Dialogue s ((t, l) :: ls) as s'
  | refused {s s' : Server} {t : Instant} {l : Bytes} {ls : List (Instant × Bytes)}
      {a : Response} {as : List Response} {text : List Char} {f : Json.Fault}
      (decoded : Text.decode l = .ok text) (spoken : ∃ c ∈ text, Text.isBlank c = false)
      (fault : Request.decode text = .error f) (failed : a.ok = false)
      (code : a.code = some .badRequest) (rest : Dialogue s ls as s') :
      Dialogue s ((t, l) :: ls) (a :: as) s'
  | answered {s s' : Server} {t : Instant} {l : Bytes} {ls : List (Instant × Bytes)}
      {as : List Response} {text : List Char} {q : Request} (decoded : Text.decode l = .ok text)
      (spoken : ∃ c ∈ text, Text.isBlank c = false) (request : Request.decode text = .ok q)
      (rest : Dialogue (s.dispatch t q).2 ls as s') :
      Dialogue s ((t, l) :: ls) ((s.dispatch t q).1 :: as) s'

def readable (l : Bytes) : Bool := (Text.decode l).isOk

def isBlankLine (l : Bytes) : Bool :=
  match Text.decode l with
  | .ok text => text.all Text.isBlank
  | .error _ => false

theorem Dialogue.length {s s' : Server} {ls : List (Instant × Bytes)} {as : List Response}
    (h : Dialogue s ls as s') :
    as.length = ((ls.map (·.2)).takeWhile readable).countP (! isBlankLine ·) := by
  have notBlank {l : Bytes} {text : List Char} (decoded : Text.decode l = .ok text)
      (spoken : ∃ c ∈ text, Text.isBlank c = false) : isBlankLine l = false := by
    obtain ⟨c, hc, hb⟩ := spoken
    simp only [isBlankLine, decoded]
    exact List.all_eq_false.mpr ⟨c, hc, by simp [hb]⟩
  induction h with
  | nil => rfl
  | garbled _ garbled => simp [readable, garbled, Except.isOk, Except.toBool]
  | blank decoded blank _ ih =>
    have hb := List.all_eq_true.mpr blank
    simp [readable, isBlankLine, decoded, hb, ih, Except.isOk, Except.toBool]
  | refused decoded spoken _ _ _ _ ih =>
    simp [readable, decoded, notBlank decoded spoken, ih, Except.isOk, Except.toBool]
  | answered decoded spoken _ _ ih =>
    simp [readable, decoded, notBlank decoded spoken, ih, Except.isOk, Except.toBool]

/-! ### What a session does with lines -/

def takeAll (s : Session) (ls : List (Instant × Bytes)) : Session :=
  ls.foldl (fun s e => takeLine e.1 s e.2) s

theorem takeLine_pending (s : Session) (p : Bytes) (t : Instant) (l : Bytes) :
    takeLine t { s with pending := p } l = { takeLine t s l with pending := p } := by
  simp only [takeLine]
  split
  · rfl
  · split <;> rfl

theorem takeAll_pending (s : Session) (p : Bytes) (ls : List (Instant × Bytes)) :
    takeAll { s with pending := p } ls = { takeAll s ls with pending := p } := by
  induction ls generalizing s with
  | nil => rfl
  | cons e ls ih =>
    simp only [takeAll, List.foldl_cons, takeLine_pending] at ih ⊢
    exact ih _

theorem takeAll_of_closed {s : Session} (h : s.isOpen = false) (ls : List (Instant × Bytes)) :
    takeAll s ls = s := by
  induction ls with
  | nil => rfl
  | cons e ls ih =>
    have closed : takeLine e.1 s e.2 = s := by simp [takeLine, h]
    rwa [takeAll, List.foldl_cons, closed]

theorem takeAll_dialogue (s : Session) (h : s.isOpen = true) (ls : List (Instant × Bytes)) :
    ∃ as, Dialogue s.server ls as (takeAll s ls).server ∧ (takeAll s ls).sent = s.sent ++ as ∧
      ∀ a ∈ as, a.Holds := by
  induction ls generalizing s with
  | nil => exact ⟨[], .nil _, (List.append_nil _).symm, nofun⟩
  | cons e ls ih =>
    obtain ⟨t, l⟩ := e
    rw [takeAll, List.foldl_cons]
    cases hd : Text.decode l with
    | error f =>
      have closed : takeLine t s l = { s with isOpen := false } := by simp [takeLine, h, hd]
      rw [closed]
      have same := takeAll_of_closed (s := { s with isOpen := false }) rfl ls
      rw [takeAll] at same
      rw [same]
      exact ⟨[], .garbled _ hd, (List.append_nil _).symm, nofun⟩
    | ok text =>
      have taken : takeLine t s l = { s with
          server := (answerText s.server t text).2
          sent := s.sent ++ (answerText s.server t text).1.toList } := by simp [takeLine, h, hd]
      obtain ⟨as, hdia, hsent, hholds⟩ := ih (takeLine t s l) (by rw [taken]; exact h)
      rw [takeAll] at hdia hsent
      rw [hsent]
      rw [taken] at hdia hsent ⊢
      unfold answerText at hdia ⊢
      by_cases hb : Text.trim text = []
      · simp only [if_pos hb, Option.toList_none, List.append_nil] at hdia ⊢
        exact ⟨as, .blank hd (Text.trim_eq_nil_iff.mp hb) hdia, rfl, hholds⟩
      · have spoken : ∃ c ∈ text, Text.isBlank c = false := by
          by_contra hn
          refine hb (Text.trim_eq_nil_iff.mpr fun c hc => ?_)
          exact Bool.not_eq_false _ ▸ fun he => hn ⟨c, hc, he⟩
        cases hq : Request.decode text with
        | error f =>
          simp only [if_neg hb, hq] at hdia ⊢
          refine ⟨refusal f :: as, .refused hd spoken hq rfl rfl hdia, by simp, ?_⟩
          exact List.forall_mem_cons.mpr ⟨Response.holds_failure _ _, hholds⟩
        | ok q =>
          simp only [if_neg hb, hq] at hdia ⊢
          refine ⟨_ :: as, .answered hd spoken hq hdia, by simp, ?_⟩
          exact List.forall_mem_cons.mpr ⟨s.server.holds_dispatch t q, hholds⟩

/-! ### What it does with pieces -/

def hear (s : Session) (pieces : List (Instant × Bytes)) : Session :=
  pieces.foldl (fun s e => receive e.1 s e.2) s

theorem hear_cut (s : Session) (pieces : List (Instant × Bytes)) (hp : lineFeed ∉ s.pending) :
    ∃ lines rest spoken, Cut (s.pending ++ pieces.flatMap (·.2)) lines rest ∧
      spoken.map (·.2) = lines.map chomp ∧ (∀ e ∈ spoken, e.1 ∈ pieces.map (·.1)) ∧
      hear s pieces = { takeAll s spoken with pending := rest } := by
  induction pieces generalizing s with
  | nil =>
    have whole : Cut (s.pending ++ []) [] s.pending := ⟨List.append_nil _, nofun, hp⟩
    exact ⟨[], s.pending, [], whole, rfl, by simp, rfl⟩
  | cons e pieces ih =>
    obtain ⟨t, piece⟩ := e
    have first := cut_splitLines (s.pending ++ piece)
    let here := (splitLines (s.pending ++ piece)).1.map fun l => (t, chomp l)
    have received : receive t s piece =
        { takeAll s here with pending := (splitLines (s.pending ++ piece)).2 } := by
      rw [← takeAll_pending]
      simp only [receive, takeAll, here, List.foldl_map]
    obtain ⟨lines, rest, spoken, hcut, hlines, htimes, hheard⟩ := ih (receive t s piece)
      (by rw [received]; exact first.rest)
    rw [received] at hcut hheard
    refine ⟨(splitLines (s.pending ++ piece)).1 ++ lines, rest, here ++ spoken, ?_, ?_,
      fun e he => ?_, ?_⟩
    · rw [List.flatMap_cons, ← List.append_assoc]
      exact first.append hcut
    · rw [List.map_append, hlines, List.map_append, List.map_map]
      rfl
    · rcases List.mem_append.mp he with he | he
      · obtain ⟨l, -, rfl⟩ := List.mem_map.mp he
        exact List.mem_cons_self
      · exact List.mem_cons_of_mem _ (htimes e he)
    · rw [hear, List.foldl_cons, received]
      refine hheard.trans ?_
      rw [takeAll_pending, takeAll, takeAll, takeAll, List.foldl_append]

def connection (s : Server) (pieces : List (Instant × Bytes)) (closing : Instant) : Session :=
  finish closing (hear { server := s } pieces)

theorem finish_takeAll (s : Session) (closing : Instant) (spoken : List (Instant × Bytes))
    (rest : Bytes) : finish closing { takeAll s spoken with pending := rest } =
      { takeAll s (spoken ++ if rest = [] then [] else [(closing, rest)]) with
        pending := [], isOpen := false } := by
  unfold finish
  by_cases hr : rest = []
  · simp [hr]
  · have last : takeAll s (spoken ++ [(closing, rest)]) =
        takeLine closing (takeAll s spoken) rest := by
      rw [takeAll, List.foldl_append]
      rfl
    simp only [if_neg hr, last]
    exact congrArg (fun u : Session => { u with isOpen := false })
      (takeLine_pending (takeAll s spoken) [] closing rest)

/-- Whatever a client sends, and in whatever pieces, its bytes are cut in lines, the last of which
may lack its end, and the lines make up a dialogue: what is sent back is one line for each answer of
it, and the server is left as the dialogue leaves it. There are as many answers as lines that are
not blank, up to the first that is no text. An answer is a JSON document on a single line, from
which it can be read again. -/
theorem connection_is_dialogue (s : Server) (pieces : List (Instant × Bytes)) (closing : Instant) :
    ∃ lines rest spoken answers,
      Cut (pieces.flatMap (·.2)) lines rest ∧
      spoken.map (·.2) = lines.map chomp ++ (if rest = [] then [] else [rest]) ∧
      (∀ e ∈ spoken, e.1 ∈ closing :: pieces.map (·.1)) ∧
      Dialogue s spoken answers (connection s pieces closing).server ∧
      answers.length = ((spoken.map (·.2)).takeWhile readable).countP (! isBlankLine ·) ∧
      Cut (connection s pieces closing).output
        (answers.map fun a => Text.encode a.toJson.chars) [] ∧
      ∀ a ∈ answers, Response.decode a.toJson.chars = .ok a := by
  obtain ⟨lines, rest, spoken, hcut, hlines, htimes, hheard⟩ :=
    hear_cut { server := s } pieces List.not_mem_nil
  have hend := finish_takeAll { server := s } closing spoken rest
  rw [← hheard] at hend
  obtain ⟨answers, hdialogue, hsent, hholds⟩ := takeAll_dialogue { server := s } rfl
    (spoken ++ if rest = [] then [] else [(closing, rest)])
  refine ⟨lines, rest, _, answers, hcut, ?_, fun e he => ?_, ?_, hdialogue.length, ?_,
    fun a ha => (hholds a ha).decode_encode⟩
  · rw [List.map_append, hlines]
    split_ifs <;> rfl
  · rcases List.mem_append.mp he with he | he
    · exact List.mem_cons_of_mem _ (htimes e he)
    · split_ifs at he
      · cases he
      · cases List.mem_singleton.mp he
        exact List.mem_cons_self
  · rw [connection, hend]
    exact hdialogue
  · refine ⟨?_, fun l hl => ?_, List.not_mem_nil⟩
    · rw [connection, hend, List.append_nil, List.flatMap_map]
      exact congrArg (List.flatMap responseLine) hsent
    · obtain ⟨a, ha, rfl⟩ := List.mem_map.mp hl
      exact Text.lineFeed_notMem_encode (hholds a ha).lineFeed_notMem_encode

end Session
end PeerShare
