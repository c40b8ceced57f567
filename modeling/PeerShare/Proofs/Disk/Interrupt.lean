import PeerShare.Proofs.Disk.Replace

/-!
Steps that fail, and steps that are cut short. A list of steps fails where a step of it fails after
those before it were done. A process can die before any step, inside a write, and after a step that
failed; a file that is being replaced holds the old content or the new one even then.
-/

namespace PeerShare.Disk

/-- A step fails, with this blame, after those before it were done. -/
inductive Fails : Disk → List Step → Blame → Prop
  | here {d : Disk} {s : Step} {e : IoCause} {rest : List Step} (h : s.apply d = .error e) :
      Fails d (s :: rest) ⟨s.place, e⟩
  | later {d d' : Disk} {s : Step} {rest : List Step} {b : Blame} (h : s.apply d = .ok d')
      (hr : Fails d' rest b) : Fails d (s :: rest) b

/-- What a process that dies on the way can leave. -/
inductive Interrupted : Disk → List Step → Disk → Prop
  | before {d : Disk} {steps : List Step} : Interrupted d steps d
  | within {d : Disk} {p : FilePath} {content : Bytes} {rest : List Step} (n : Nat) :
      Interrupted d (.write p content :: rest)
        (({ d with faults := { d.faults with spilled := some n } } : Disk).spill p content)
  | failed {d : Disk} {s : Step} {e : IoCause} {rest : List Step} (h : s.apply d = .error e) :
      Interrupted d (s :: rest) (s.remains d)
  | after {d d' e : Disk} {s : Step} {rest : List Step} (h : s.apply d = .ok d')
      (hi : Interrupted d' rest e) : Interrupted d (s :: rest) e

section Steps
variable {d d' e : Disk} {p q : FilePath} {content : Bytes} {steps rest : List Step} {b : Blame}

theorem runSteps_eq_blame_iff : (d.runSteps steps).1 = some b ↔ d.Fails steps b := by
  induction steps generalizing d with
  | nil =>
    constructor
    · intro h
      cases h
    · intro h
      cases h
  | cons s rest ih =>
    simp only [runSteps]
    cases hs : s.apply d with
    | ok d' =>
      refine ih.trans ⟨.later hs, fun h => ?_⟩
      cases h with
      | here h => cases hs.symm.trans h
      | later h hr =>
        cases hs.symm.trans h
        exact hr
    | error e =>
      constructor
      · intro h
        cases h
        exact .here hs
      · intro h
        cases h with
        | here h =>
          cases hs.symm.trans h
          rfl
        | later h hr => cases hs.symm.trans h

theorem interrupted_replace (h : d.Apart p q) (hi : d.Interrupted (replaceSteps p q content) e) :
    d.SameWays e ∧ (e.content? p = d.content? p ∨ e.content? p = some content) := by
  have old {e : Disk} (hs : d.Spares e p) :
      d.SameWays e ∧ (e.content? p = d.content? p ∨ e.content? p = some content) :=
    ⟨hs.1, .inl hs.2⟩
  cases hi with
  | before => exact old (.refl d p)
  | within n =>
    have hf := spares_faults d { d.faults with spilled := some n } p
    exact old (hf.trans (spill_spares (hf.1.apart h)))
  | failed h₁ => exact old (spill_spares h)
  | @after _ d₁ _ _ _ h₁ hi =>
    obtain ⟨hs₁, hc₁⟩ := writeFile_spares h h₁
    have ha₁ := hs₁.1.apart h
    cases hi with
    | before => exact old hs₁
    | failed h₂ => exact old hs₁
    | @after _ d₂ _ _ _ h₂ hi =>
      obtain ⟨hs₂, hc₂⟩ := protectFile_spares ha₁ hc₁ h₂
      have hs := hs₁.trans hs₂
      cases hi with
      | before => exact old hs
      | failed h₃ => exact old hs
      | @after _ d₃ _ _ _ h₃ hi =>
        have ha₂ := hs.1.apart h
        obtain ⟨hw, hc⟩ := renameFile_moves ha₂.plain ha₂.plain_aside hc₂ h₃
        cases hi with
        | before => exact ⟨hs.1.trans hw, .inr hc⟩

end Steps
end PeerShare.Disk
