import Mathlib.Data.List.Basic

/-!
# Past-time properties of histories

A history is a list of events, the latest first. `Since S Q h` says that some event of the history was
an `S`, and that every event after it was a `Q`.
-/

namespace History

variable {ε : Type} {S S' Q Q' : ε → Prop} {e : ε} {h : List ε}

/-- Some event was an `S`, and all events since then have been `Q`. -/
def Since (S Q : ε → Prop) (h : List ε) : Prop :=
  ∃ later e earlier, h = later ++ e :: earlier ∧ S e ∧ ∀ e' ∈ later, Q e'

@[simp] theorem not_since_nil : ¬ Since S Q [] := by
  rintro ⟨later, e, earlier, h, -⟩
  cases later <;> cases h

/-- The latest event is an `S`, or it is a `Q` and the history before it was right. -/
theorem since_cons : Since S Q (e :: h) ↔ S e ∨ (Q e ∧ Since S Q h) := by
  constructor
  · rintro ⟨later, e₁, earlier, heq, hS, hQ⟩
    cases later with
    | nil =>
      cases heq
      exact .inl hS
    | cons e₂ later =>
      cases heq
      exact .inr ⟨hQ e List.mem_cons_self, later, e₁, earlier, rfl, hS,
        fun e' he' => hQ e' (List.mem_cons_of_mem _ he')⟩
  · rintro (hS | ⟨hQe, later, e₁, earlier, rfl, hS, hQ⟩)
    · exact ⟨[], e, h, rfl, hS, by simp⟩
    · refine ⟨e :: later, e₁, earlier, rfl, hS, fun e' he' => ?_⟩
      rcases List.mem_cons.mp he' with rfl | he'
      · exact hQe
      · exact hQ e' he'

theorem Since.mono (hs : Since S Q h) (hS : ∀ e ∈ h, S e → S' e) (hQ : ∀ e ∈ h, Q e → Q' e) :
    Since S' Q' h := by
  obtain ⟨later, e, earlier, rfl, he, hlater⟩ := hs
  exact ⟨later, e, earlier, rfl, hS e (by simp) he, fun e' he' => hQ e' (by simp [he']) (hlater e' he')⟩

theorem since_congr (hS : ∀ e ∈ h, S e ↔ S' e) (hQ : ∀ e ∈ h, Q e ↔ Q' e) :
    Since S Q h ↔ Since S' Q' h :=
  ⟨fun hs => hs.mono (fun e he => (hS e he).mp) fun e he => (hQ e he).mp,
    fun hs => hs.mono (fun e he => (hS e he).mpr) fun e he => (hQ e he).mpr⟩

/-- The latest `S`: no event after it is one. -/
theorem Since.latest (hs : Since S Q h) : Since S (fun e => Q e ∧ ¬ S e) h := by
  induction h with
  | nil => exact absurd hs not_since_nil
  | cons e h ih =>
    by_cases hS : S e
    · exact since_cons.mpr (.inl hS)
    · rcases since_cons.mp hs with hS' | ⟨hQ, hs⟩
      · exact absurd hS' hS
      · exact since_cons.mpr (.inr ⟨⟨hQ, hS⟩, ih hs⟩)

/-- The `S` comes after every event that was neither an `S` nor a `Q`. -/
theorem Since.after {mid earlier : List ε} (hs : Since S Q (mid ++ e :: earlier)) (hS : ¬ S e)
    (hQ : ¬ Q e) : Since S Q mid := by
  induction mid with
  | nil =>
    rcases since_cons.mp hs with hS' | ⟨hQ', -⟩
    · exact absurd hS' hS
    · exact absurd hQ' hQ
  | cons e' mid ih =>
    rcases since_cons.mp hs with hS' | ⟨hQ', hs⟩
    · exact since_cons.mpr (.inl hS')
    · exact since_cons.mpr (.inr ⟨hQ', ih hs⟩)

end History
