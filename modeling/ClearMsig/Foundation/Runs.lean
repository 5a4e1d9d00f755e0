import Mathlib.Data.List.Basic

/-!
# Runs of a transition system

A labelled transition system, its finite runs with the history of the labels taken and the states
they were taken in, and the rules by which a property of one step becomes a property of every run.
-/

namespace Runs

/-- A transition system with states `σ` and labels `ι`. -/
structure System (σ ι : Type) where
  init : σ → Prop
  step : σ → ι → σ → Prop

/-- One entry of a history: a label and the states before and after it. -/
structure Event (σ ι : Type) where
  pre : σ
  label : ι
  post : σ

variable {σ ι : Type}

/-- `Run S tr s`: the history `tr`, latest event first, leads from an initial state to `s`. -/
inductive Run (S : System σ ι) : List (Event σ ι) → σ → Prop where
  | start {s : σ} (h : S.init s) : Run S [] s
  | next {tr : List (Event σ ι)} {s s' : σ} {l : ι} (h : Run S tr s) (hs : S.step s l s') :
      Run S (⟨s, l, s'⟩ :: tr) s'

/-- A state some run leads to. -/
def Reachable (S : System σ ι) (s : σ) : Prop := ∃ tr, Run S tr s

namespace Run

variable {S : System σ ι} {tr : List (Event σ ι)} {s : σ}

/-- Induction over a run for a property of history and state. The steps may be restricted by a guard
that holds of every event of the history. -/
theorem inductionOn {G : Event σ ι → Prop} {P : List (Event σ ι) → σ → Prop} (h : Run S tr s)
    (hG : ∀ e ∈ tr, G e) (start : ∀ s, S.init s → P [] s)
    (next : ∀ tr s l s', Run S tr s → P tr s → S.step s l s' → G ⟨s, l, s'⟩ →
      P (⟨s, l, s'⟩ :: tr) s') : P tr s := by
  induction h with
  | start h => exact start _ h
  | next hr hs ih =>
    exact next _ _ _ _ hr (ih fun e he => hG e (List.mem_cons_of_mem _ he)) hs (hG _ (by simp))

/-- A property that holds at the start and that every step preserves holds in every state reached. -/
theorem invariant {P : σ → Prop} (h : Run S tr s) (start : ∀ s, S.init s → P s)
    (step : ∀ s l s', P s → S.step s l s' → P s') : P s :=
  inductionOn (G := fun _ => True) (P := fun _ s => P s) h (fun _ _ => trivial) start
    fun _ _ _ _ _ hp hs _ => step _ _ _ hp hs

/-- An event of a run is a step from the state that the earlier events lead to. -/
theorem split {later earlier : List (Event σ ι)} {e : Event σ ι} :
    Run S (later ++ e :: earlier) s → Run S earlier e.pre ∧ S.step e.pre e.label e.post := by
  induction later generalizing s with
  | nil =>
    intro h
    cases h with
    | next hr hs => exact ⟨hr, hs⟩
  | cons e' later ih =>
    intro h
    cases h with
    | next hr hs => exact ih hr

/-- The last event of a run is a step to its last state. -/
theorem last {e : Event σ ι} (h : Run S (e :: tr) s) :
    Run S tr e.pre ∧ S.step e.pre e.label e.post ∧ e.post = s := by
  cases h with
  | next hr hs => exact ⟨hr, hs, rfl⟩

/-- Every event of a run is a step from a reachable state. -/
theorem step_of_mem {e : Event σ ι} (h : Run S tr s) (he : e ∈ tr) :
    ∃ later earlier, tr = later ++ e :: earlier ∧ Run S earlier e.pre ∧
      S.step e.pre e.label e.post := by
  obtain ⟨later, earlier, rfl⟩ := List.append_of_mem he
  exact ⟨later, earlier, rfl, h.split⟩

/-- When a property `Q` of states holds throughout a run: an invariant `P` that only needs the guard
`G` of each event makes `Q` hold, and `Q` after an event gives back the guard. -/
theorem forall_post_iff {P Q : σ → Prop} {G : Event σ ι → Prop} (h : Run S tr s)
    (start : ∀ s, S.init s → P s)
    (next : ∀ tr s l s', Run S tr s → P s → S.step s l s' → G ⟨s, l, s'⟩ → P s')
    (sound : ∀ e ∈ tr, ∀ tr', Run S tr' e.post → P e.post → Q e.post)
    (complete : ∀ e ∈ tr, ∀ tr', Run S tr' e.pre → S.step e.pre e.label e.post → Q e.post → G e) :
    (∀ e ∈ tr, Q e.post) ↔ ∀ e ∈ tr, G e := by
  constructor
  · intro hQ e he
    obtain ⟨later, earlier, -, hpre, hstep⟩ := h.step_of_mem he
    exact complete e he earlier hpre hstep (hQ e he)
  · intro hG e he
    obtain ⟨later, earlier, rfl, hpre, hstep⟩ := h.step_of_mem he
    have hearlier : ∀ e' ∈ earlier, G e' := fun e' he' => hG e' (by simp [he'])
    have hP : P e.pre := hpre.inductionOn (P := fun _ s => P s) hearlier start
      fun tr s l s' hr hP hs hG => next tr s l s' hr hP hs hG
    exact sound e he _ (hpre.next hstep) (next earlier e.pre e.label e.post hpre hP hstep (hG e he))

/-- The events after one of a run start in the state it leads to: what holds there and is preserved
by the later steps holds at the end. -/
theorem since {P : σ → Prop} {later earlier : List (Event σ ι)} {e : Event σ ι}
    (h : Run S (later ++ e :: earlier) s) (he : P e.post)
    (step : ∀ e' ∈ later, P e'.pre → S.step e'.pre e'.label e'.post → P e'.post) : P s := by
  induction later generalizing s with
  | nil =>
    cases h with
    | next hr hs => exact he
  | cons e' later ih =>
    cases h with
    | next hr hs =>
      have hpre := ih hr fun e'' h'' => step e'' (List.mem_cons_of_mem _ h'')
      exact step _ List.mem_cons_self hpre hs

/-- A run can be led to a last event of a kind. In every reachable state with `P` there is a step that is an
`E` and is either such an event or keeps `P` and lowers a measure. -/
theorem exists_extension {P : σ → Prop} {E Last : Event σ ι → Prop} (measure : σ → Nat)
    (step : ∀ s, Reachable S s → P s → ∃ l s', S.step s l s' ∧ E ⟨s, l, s'⟩ ∧
      (Last ⟨s, l, s'⟩ ∨ P s' ∧ measure s' < measure s))
    (h : Run S tr s) (hp : P s) :
    ∃ e later, Run S (e :: later ++ tr) e.post ∧ E e ∧ Last e ∧ ∀ e' ∈ later, E e' := by
  induction hn : measure s using Nat.strongRecOn generalizing tr s with
  | _ n ih =>
    obtain ⟨l, s', hs, hE, hLast | ⟨hp', hlt⟩⟩ := step s ⟨tr, h⟩ hp
    · exact ⟨⟨s, l, s'⟩, [], h.next hs, hE, hLast, by simp⟩
    · obtain ⟨e, later, hrun, hEe, hLast, hlater⟩ := ih _ (hn ▸ hlt) (h.next hs) hp' rfl
      refine ⟨e, later ++ [⟨s, l, s'⟩], by simpa using hrun, hEe, hLast, ?_⟩
      intro e' he'
      rcases List.mem_append.mp he' with he' | he'
      · exact hlater e' he'
      · rw [List.mem_singleton.mp he']
        exact hE

end Run

namespace Reachable

variable {S : System σ ι} {s s' : σ} {l : ι}

theorem next (h : Reachable S s) (hs : S.step s l s') : Reachable S s' := by
  obtain ⟨tr, hr⟩ := h
  exact ⟨_, hr.next hs⟩

theorem invariant {P : σ → Prop} (h : Reachable S s) (start : ∀ s, S.init s → P s)
    (step : ∀ s l s', P s → S.step s l s' → P s') : P s := by
  obtain ⟨tr, hr⟩ := h
  exact hr.invariant start step

end Reachable

end Runs
