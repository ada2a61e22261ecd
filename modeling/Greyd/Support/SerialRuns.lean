import Mathlib.Data.List.Infix

/-!
# Serial runs

Several programs change one state, each by transactions of its own, so what they do together
is a list of events, each allowed in the state it meets. What holds at the end of a run and
did not hold at its start was brought about by one of the events and has held ever since. Two
runs of which an observer sees the same end alike for it, if what it does not see changes nothing
it depends on.
-/
namespace SerialRuns

universe u v

variable {σ : Type u} {ε : Type v}

inductive Run (fits : ε → σ → Prop) (step : ε → σ → σ) (first : σ) : List ε → σ → Prop
  | start : Run fits step first [] first
  | tick {es s e} : Run fits step first es s → fits e s → Run fits step first (es ++ [e]) (step e s)

/-- The event met the state `s`, after the events `before`. -/
structure Happened (fits : ε → σ → Prop) (step : ε → σ → σ) (first : σ) (es before : List ε) (s : σ)
    (e : ε) : Prop where
  run : Run fits step first before s
  allowed : fits e s
  part : before ++ [e] <+: es

variable {fits : ε → σ → Prop} {step : ε → σ → σ} {first s s' : σ} {es before : List ε} {e e' : ε}

theorem Run.unique (h : Run fits step first es s) (h' : Run fits step first es s') : s = s' := by
  induction h generalizing s' with
  | start =>
    generalize hes : ([] : List ε) = es at h'
    cases h' with
    | start => rfl
    | tick => simp at hes
  | @tick es s e _ _ ih =>
    generalize hes : es ++ [e] = es' at h'
    cases h' with
    | start => simp at hes
    | tick hrun =>
      obtain ⟨rfl, hlast⟩ := List.append_inj' hes rfl
      cases hlast
      rw [ih hrun]

theorem Run.append {s₂ : σ} {es₂ : List ε} (h : Run fits step first es s)
    (h₂ : Run fits step s es₂ s₂) : Run fits step first (es ++ es₂) s₂ := by
  induction h₂ with
  | start => rwa [List.append_nil]
  | tick _ hfits ih =>
    rw [← List.append_assoc]
    exact ih.tick hfits

theorem Run.mono {fits' : ε → σ → Prop} (h : Run fits step first es s)
    (himp : ∀ e s, fits e s → fits' e s) : Run fits' step first es s := by
  induction h with
  | start => exact .start
  | tick _ hfits ih => exact ih.tick (himp _ _ hfits)

theorem Run.invariant {I : σ → Prop} (h : Run fits step first es s) (hfirst : I first)
    (hstep : ∀ e s, fits e s → I s → I (step e s)) : I s := by
  induction h with
  | start => exact hfirst
  | tick _ hfits ih => exact hstep _ _ hfits ih

/-- An invariant of the state and of what has happened so far. -/
theorem Run.history {I : List ε → σ → Prop} (h : Run fits step first es s) (hfirst : I [] first)
    (hstep : ∀ es s e, Run fits step first es s → fits e s → I es s → I (es ++ [e]) (step e s)) :
    I es s := by
  induction h with
  | start => exact hfirst
  | tick hrun hfits ih => exact hstep _ _ _ hrun hfits ih

theorem Happened.later (h : Happened fits step first es before s e) (more : List ε) :
    Happened fits step first (es ++ more) before s e :=
  ⟨h.run, h.allowed, h.part.trans (List.prefix_append es more)⟩

theorem Happened.last (h : Run fits step first es s) (hfits : fits e s) :
    Happened fits step first (es ++ [e]) es s e := ⟨h, hfits, List.prefix_rfl⟩

theorem Happened.mem (h : Happened fits step first es before s e) : e ∈ es :=
  h.part.subset (by simp)

/-- What holds now and did not hold at first was brought about by an event, and has held in
every state since. -/
theorem Run.brought_about {P : σ → Prop} (h : Run fits step first es s) (hfirst : ¬ P first)
    (hs : P s) : ∃ before s₁ e, Happened fits step first es before s₁ e ∧ ¬ P s₁ ∧ P (step e s₁) ∧
      ∀ mid s', before ++ [e] <+: mid → mid <+: es → Run fits step first mid s' → P s' := by
  induction h with
  | start => exact absurd hs hfirst
  | @tick es s e hrun hfits ih =>
    by_cases hprev : P s
    · obtain ⟨before, s₁, e₁, hhap, hnot, hnow, hsince⟩ := ih hprev
      refine ⟨before, s₁, e₁, hhap.later [e], hnot, hnow, ?_⟩
      intro mid s' hfrom hto hmid
      rcases List.prefix_concat_iff.mp hto with rfl | hshort
      · rwa [hmid.unique (hrun.tick hfits)]
      · exact hsince mid s' hfrom hshort hmid
    · refine ⟨es, s, e, .last hrun hfits, hprev, hs, ?_⟩
      intro mid s' hfrom hto hmid
      have hsame : mid = es ++ [e] := hto.eq_of_length (le_antisymm hto.length_le hfrom.length_le)
      subst hsame
      rwa [hmid.unique (hrun.tick hfits)]

/-! ## What is seen of a run -/

section Seen

universe w x

variable {τ : Type w} {ω : Type x} {fits' : ε → τ → Prop} {step' : ε → τ → τ} {seen : ε → Option ω}
  {alike : σ → τ → Prop} {first' t : τ} {es' : List ε}

/-- Two systems whose states stay alike as long as the same is seen of their events: an event of
which nothing is seen changes nothing, and events that look the same act alike. -/
structure Unwinding (fits : ε → σ → Prop) (step : ε → σ → σ) (fits' : ε → τ → Prop) (step' : ε → τ → τ)
    (seen : ε → Option ω) (alike : σ → τ → Prop) : Prop where
  left : ∀ {e s t}, fits e s → seen e = none → alike s t → alike (step e s) t
  right : ∀ {e s t}, fits' e t → seen e = none → alike s t → alike s (step' e t)
  both : ∀ {e e' v s t}, fits e s → fits' e' t → seen e = some v → seen e' = some v → alike s t →
    alike (step e s) (step' e' t)

theorem filterMap_unseen {e : ε} (he : seen e = none) (es : List ε) :
    (es ++ [e]).filterMap seen = es.filterMap seen := by
  rw [List.filterMap_append, List.filterMap_cons_none he, List.filterMap_nil, List.append_nil]

theorem filterMap_seen {e : ε} {v : ω} (he : seen e = some v) (es : List ε) :
    (es ++ [e]).filterMap seen = es.filterMap seen ++ [v] := by
  rw [List.filterMap_append, List.filterMap_cons_some he, List.filterMap_nil]

/-- Runs of which the same is seen end alike. -/
theorem Unwinding.runs (h : Unwinding fits step fits' step' seen alike) (hrun : Run fits step first es s)
    (hrun' : Run fits' step' first' es' t) (hseen : es.filterMap seen = es'.filterMap seen)
    (hfirst : alike first first') : alike s t := by
  induction hrun generalizing es' t with
  | start =>
    induction hrun' with
    | start => exact hfirst
    | @tick es' t e' _ hfits' ih' =>
      cases he' : seen e' with
      | none =>
        rw [filterMap_unseen he'] at hseen
        exact h.right hfits' he' (ih' hseen)
      | some v =>
        rw [filterMap_seen he'] at hseen
        simp at hseen
  | @tick es s e _ hfits ih =>
    cases he : seen e with
    | none =>
      rw [filterMap_unseen he] at hseen
      exact h.left hfits he (ih hrun' hseen)
    | some v =>
      -- The last event of the other run that is seen looks like this one.
      rw [filterMap_seen he] at hseen
      induction hrun' with
      | start => simp at hseen
      | @tick es' t e' hrun' hfits' ih' =>
        cases he' : seen e' with
        | none =>
          rw [filterMap_unseen he'] at hseen
          exact h.right hfits' he' (ih' hseen)
        | some v' =>
          rw [filterMap_seen he'] at hseen
          obtain ⟨hbefore, hlast⟩ := List.append_inj' hseen rfl
          cases hlast
          exact h.both hfits hfits' he he' (ih hrun' hbefore)

end Seen

end SerialRuns
